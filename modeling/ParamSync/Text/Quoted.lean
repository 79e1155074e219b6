import ParamSync.Text.Hex
import ParamSync.Text.Printable

/-!
# Quoted text

A text between double quotes, on one line of printable characters: a quote and a backslash are
written after a backslash, tab, line feed, carriage return and NUL have escapes of their own,
and every other character that is not printable is written by its number in braces.
-/

namespace ParamSync.Text

/-- How a character is written inside quotes. -/
def quoteChar (c : Char) : String :=
  if c = '\x00' then "\\0"
  else if c = '\t' then "\\t"
  else if c = '\n' then "\\n"
  else if c = '\r' then "\\r"
  else if c = '"' then "\\\""
  else if c = '\\' then "\\\\"
  else if isPrintable c then c.toString
  else "\\u\x7b" ++ Hex.ofNat c.toNat ++ "\x7d"

/-- The text between double quotes. -/
def quoted (s : String) : String :=
  (s.toList.foldl (fun text c => text ++ quoteChar c) "\"").push '"'

end ParamSync.Text
