import ParamSync.Ident
import ParamSync.Code
import ParamSync.Color
import ParamSync.Json.Basic
import ParamSync.Server.Config

/-!
# JSON forms of identifiers, names, colours and configurations

A record is read from an object, whose other members are passed over, or from an array of its
parts in order; a name is read from a string, or from an object whose only member has that name
and is null.
-/

namespace ParamSync

/-! ## Identifiers and names -/

def ParamId.toJson (id : ParamId) : Json := .int id.val.toInt

def ParamId.ofJson? (j : Json) : Option ParamId :=
  (j.int? (-32768) 32767).map fun n => ⟨Int16.ofInt n⟩

def Datatype.toJson (d : Datatype) : Json := .string d.tag

def Datatype.ofJson? (j : Json) : Option Datatype := j.name?.bind Datatype.ofTag?

def NumberScale.toJson (s : NumberScale) : Json := .string s.tag

def NumberScale.ofJson? (j : Json) : Option NumberScale := j.name?.bind NumberScale.ofTag?

/-! ## Colours -/

def Color.toJson (c : Color) : Json :=
  .object [("r", .ofNat c.red.toNat), ("g", .ofNat c.green.toNat), ("b", .ofNat c.blue.toNat),
    ("a", .ofNat c.alpha.toNat)]

/-- A channel of a colour. -/
def Color.channel? (j : Json) : Option UInt8 := (j.int? 0 255).map fun n => UInt8.ofNat n.toNat

def Color.ofJson? : Json → Option Color
  | .array [r, g, b, a] =>
    return ⟨← channel? r, ← channel? g, ← channel? b, ← channel? a⟩
  | .object members => do
    let channel (name : String) : Option UInt8 := ((Json.object members).get? name).bind channel?
    return ⟨← channel "r", ← channel "g", ← channel "b", ← channel "a"⟩
  | _ => none

/-! ## Configurations -/

namespace Config

def toJson (c : Config) : Json :=
  .object [("version", .string c.version), ("application_id", .ofOption .string c.applicationId)]

/-- The version, which has a default if it is left out. -/
def version? : Option Json → Option String
  | none => some ({} : Config).version
  | some j => j.string?

/-- The application, which may be left out or null. -/
def applicationId? : Option Json → Option (Option String)
  | none | some .null => some none
  | some j => j.string?.map some

def ofParts? (version applicationId : Option Json) : Option Config :=
  return ⟨← version? version, ← applicationId? applicationId⟩

/-- Reads a configuration; what is left out has its default. -/
def ofJson? : Json → Option Config
  | .array items =>
    if items.length ≤ 2 then ofParts? items[0]? items[1]? else none
  | .object members =>
    let j := Json.object members
    ofParts? (j.get? "version") (j.get? "application_id")
  | _ => none

end Config
end ParamSync
