import ParamSync.Parameter.Basic

/-!
# Parameters as people inspect them

A text that shows the parts of a parameter that place it in the tree. Of definitions only those of
flags, bangs and groups are shown with their options.
-/

namespace ParamSync

/-- A record as people inspect it: its name, then its parts between braces. -/
def inspectRecord (name : String) (parts : List (String × String)) (complete : Bool) : String :=
  let shown := parts.map fun (part, text) => part ++ ": " ++ text
  name ++ " \x7b " ++ ", ".intercalate (if complete then shown else shown ++ [".."]) ++ " \x7d"

def inspectOption {α : Type} (text : α → String) : Option α → String
  | some a => "Some(" ++ text a ++ ")"
  | none => "None"

def inspectBool (b : Bool) : String := if b then "true" else "false"

def ParamId.inspect (id : ParamId) : String := "ParameterId(" ++ toString id.val.toInt ++ ")"

def LocalizedText.inspect (t : LocalizedText) : String :=
  let languages := t.languages.toList.map fun (code, s) =>
    Text.quoted code ++ ": " ++ Text.quoted s
  inspectRecord "LocalizedText"
    [("text", inspectOption Text.quoted t.text),
      ("languages", "\x7b" ++ ", ".intercalate languages ++ "\x7d"),
      ("changed", inspectBool t.changed)] true

def Color.inspect (c : Color) : String :=
  inspectRecord "Color"
    [("r", toString c.red.toNat), ("g", toString c.green.toNat), ("b", toString c.blue.toNat),
      ("a", toString c.alpha.toNat)] true

/-- A floating-point number with at least one digit after the point, or with an exponent if it is
tiny or huge. -/
def BinaryFormat.inspect (F : BinaryFormat) (bits : Nat) : String :=
  let text := Decimal.text F bits
  if F.isNaN bits || F.magnitude bits = F.infinity then text
  else
    let d := Decimal.shortest F bits
    let digits := toString d.digits
    let leading := d.exponent + digits.length - 1
    if d.digits ≠ 0 && (leading < -4 || 16 ≤ leading) then
      (if F.isNegative bits then "-" else "") ++ String.ofList (digits.toList.take 1)
        ++ (if digits.length = 1 then "" else "." ++ String.ofList (digits.toList.drop 1))
        ++ "e" ++ toString leading
    else if d.exponent < 0 then text
    else text ++ ".0"

def Number.inspect {k : NumberKind} (n : Number k) : String :=
  match k.reading with
  | .binary F => F.inspect n.toNat
  | _ => n.text

def Value.inspect : Value → String
  | boolean b => "Boolean(" ++ inspectBool b ++ ")"
  | number k n => k.name ++ "(" ++ n.inspect ++ ")"
  | text s => "Text(" ++ Text.quoted s ++ ")"
  | color c => "Color(" ++ c.inspect ++ ")"
  | ipv4 a => "Ipv4(" ++ a.text ++ ")"
  | ipv6 a => "Ipv6(" ++ a.text ++ ")"
  | range lower upper =>
    "Range(" ++ inspectRecord "RangeValue" [("lower", lower.inspect), ("upper", upper.inspect)] true
      ++ ")"
  | bytes bs => "Bytes([" ++ ", ".intercalate (bs.map fun b => toString b.toNat) ++ "])"

def TypeDef.inspect : TypeDef → String
  | .boolean d =>
    let default := inspectRecord "Field"
      [("value", inspectOption inspectBool d.default.value),
        ("changed", inspectBool d.default.changed)] true
    "Boolean(" ++ inspectRecord "DefaultDefinition" [("default", default)] true ++ ")"
  | d => d.datatype.name

/-- What people see of a parameter. -/
def Parameter.inspect (p : Parameter) : String :=
  inspectRecord "Parameter"
    [("id", p.id.inspect), ("definition", p.definition.inspect),
      ("value", inspectOption Value.inspect p.value.value), ("label", p.label.inspect),
      ("parent", inspectOption ParamId.inspect p.group?),
      ("children", "\x7b" ++ ", ".intercalate (p.childList.map ParamId.inspect) ++ "\x7d")] false

end ParamSync
