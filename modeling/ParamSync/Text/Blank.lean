/-!
# Blank characters

The characters with the Unicode property White_Space, and the two things done with them here:
cutting them off the end of a text and splitting a text into the words between them.
-/

namespace ParamSync.Text

/-- The characters with the Unicode property White_Space. -/
def isBlank (c : Char) : Bool :=
  let n := c.toNat
  (9 ≤ n && n ≤ 13) || n == 0x20 || n == 0x85 || n == 0xA0 || n == 0x1680
    || (0x2000 ≤ n && n ≤ 0x200A) || n == 0x2028 || n == 0x2029 || n == 0x202F || n == 0x205F
    || n == 0x3000

/-- The text without the blanks at its end. -/
def trimEnd (s : String) : String := String.ofList (s.toList.reverse.dropWhile isBlank).reverse

/-- Splits a list of characters at blanks; `word` is the word being read, last character first. -/
def wordsFrom (word : List Char) : List Char → List String
  | [] => if word.isEmpty then [] else [String.ofList word.reverse]
  | c :: cs =>
    if isBlank c then
      if word.isEmpty then wordsFrom [] cs else String.ofList word.reverse :: wordsFrom [] cs
    else wordsFrom (c :: word) cs

/-- The maximal runs of characters that are not blank. -/
def words (s : String) : List String := wordsFrom [] s.toList

end ParamSync.Text
