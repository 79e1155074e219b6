import ParamSync.Text.Hex

/-!
# JSON values

JSON as far as it matters here: of numbers only those written as integers are told apart. Texts
and bytes may come in pieces; bytes are written as hexadecimal digits.
-/

namespace ParamSync

/-- A JSON value. -/
inductive Json
  | null
  | bool (b : Bool)
  | int (n : Int)
  /-- A number that is not written as an integer. -/
  | fraction
  | string (s : String)
  | array (items : List Json)
  | object (members : List (String × Json))

namespace Json

/-! ## Reading -/

/-- The member of an object with a name. -/
def get? (j : Json) (name : String) : Option Json :=
  match j with
  | object members => (members.find? (·.1 == name)).map (·.2)
  | _ => none

/-- The member of an object with a name, unless it is null. -/
def given? (j : Json) (name : String) : Option Json :=
  match j.get? name with
  | none | some null => none
  | some v => some v

/-- Reads a member that may be left out or null. -/
def optional? {α : Type} (j : Json) (name : String) (read? : Json → Option α) :
    Option (Option α) :=
  match j.given? name with
  | none => some none
  | some v => (read? v).map some

def bool? : Json → Option Bool
  | bool b => some b
  | _ => none

/-- An integer within bounds, both included. -/
def int? (low high : Int) : Json → Option Int
  | int n => if low ≤ n && n ≤ high then some n else none
  | _ => none

def nat? : Json → Option Nat
  | int n => n.toNat?
  | _ => none

def string? : Json → Option String
  | string s => some s
  | _ => none

def list? : Json → Option (List Json)
  | array items => some items
  | _ => none

/-- A name, as a string or as the only member of an object. -/
def name? : Json → Option String
  | string s => some s
  | object [(s, null)] => some s
  | _ => none

mutual

/-- The strings that a string, or an array of such, is made of. -/
def pieces? : Json → Option (List String)
  | string s => some [s]
  | array items => piecesOf? items
  | _ => none

def piecesOf? : List Json → Option (List String)
  | [] => some []
  | j :: js => return (← j.pieces?) ++ (← piecesOf? js)

end

/-- A text, in one or more pieces. -/
def text? (j : Json) : Option String := j.pieces?.map String.join

/-- Bytes, as a text of hexadecimal digits. -/
def bytes? (j : Json) : Option (List UInt8) := j.text?.bind Hex.decode?

/-- A list of texts. -/
def texts? (j : Json) : Option (List String) := j.list?.bind (·.mapM text?)

/-! ## Writing -/

/-- What there may be, or null. -/
def ofOption {α : Type} (write : α → Json) : Option α → Json
  | some a => write a
  | none => null

/-- A member that is left out if there is nothing to write. -/
def present {α : Type} (name : String) (write : α → Json) (a : Option α) :
    List (String × Json) :=
  (a.map fun x => (name, write x)).toList

def ofBytes (bs : List UInt8) : Json := string (Hex.encode bs)

def ofNat (n : Nat) : Json := int n

def ofTexts (texts : List String) : Json := array (texts.map string)

end Json
end ParamSync
