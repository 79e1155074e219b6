import ParamSync.Json.Value
import ParamSync.TypeDef.Edit

/-!
# JSON forms of type definitions and of their changes

A definition is an object of its datatype and of those options that are there; entries and
schemas are always shown. A change is named by the option and has the JSON form of the value to
store, or none to clear the option.
-/

namespace ParamSync
namespace TypeDef

/-- The options of a definition that has only a default. -/
def plainMembers {α : Type} [Scalar α] (d : PlainDef α) : List (String × Json) :=
  Json.present "default" Scalar.toJson d.default.value

def numberMembers {k : NumberKind} (d : NumberDef k) : List (String × Json) :=
  Json.present "default" Scalar.toJson d.default.value
    ++ Json.present "minimum" Scalar.toJson d.minimum.value
    ++ Json.present "maximum" Scalar.toJson d.maximum.value
    ++ Json.present "multiple_of" Scalar.toJson d.multipleOf.value
    ++ Json.present "scale" NumberScale.toJson d.scale.value
    ++ Json.present "unit" .string d.unit.value

def customMembers (d : CustomDef) : List (String × Json) :=
  ("size", .ofNat d.size.toNat) :: (Json.present "default" .ofBytes d.default.value
    ++ Json.present "uuid" (fun u => .ofBytes u.octets) d.uuid.value
    ++ Json.present "config" .ofBytes d.config.value)

/-- The members of a definition, its datatype first. -/
def members (d : TypeDef) : List (String × Json) :=
  ("datatype", d.datatype.toJson) :: match d with
    | boolean d => plainMembers d
    | number _ d => numberMembers d
    | string d =>
      Json.present "default" .string d.default.value ++ Json.present "regex" .string d.regex.value
    | enum d =>
      ("entries", .ofTexts (d.entries.value.getD []))
        :: (Json.present "default" .string d.default.value
          ++ Json.present "multiselect" .bool d.multiselect.value)
    | uri d =>
      ("schemas", .ofTexts (d.schemas.value.getD []))
        :: (Json.present "default" .string d.default.value
          ++ Json.present "filter" .string d.filter.value)
    | rgb d | rgba d => plainMembers d
    | ipv4 d => plainMembers d
    | ipv6 d => plainMembers d
    | range element default =>
      ("element", .object element.members)
        :: Json.present "default" (fun (lower, upper) => (Value.range lower upper).toJson)
          default.value
    | custom d => customMembers d
    | bang | group => []

def toJson (d : TypeDef) : Json := .object d.members

/-- The change of an option of a definition; none if there is no such option or the JSON is no
value for it. -/
def Edit.ofJson? (d : TypeDef) (option : String) (change : Option Json) : Option Edit :=
  let value {α : Type} (read? : Json → Option α) : Option (Option α) := change.mapM read?
  match d, option with
  | .boolean _, "default" => (value Scalar.ofJson?).map .boolean
  | .number k _, "default" => (value Scalar.ofJson?).map (.number k ∘ .default)
  | .number k _, "minimum" => (value Scalar.ofJson?).map (.number k ∘ .minimum)
  | .number k _, "maximum" => (value Scalar.ofJson?).map (.number k ∘ .maximum)
  | .number k _, "multiple_of" => (value Scalar.ofJson?).map (.number k ∘ .multipleOf)
  | .number k _, "scale" => (value NumberScale.ofJson?).map (.number k ∘ .scale)
  | .number k _, "unit" => (value Json.text?).map (.number k ∘ .unit)
  | .string _, "default" => (value Json.text?).map (.string ∘ .default)
  | .string _, "regex" => (value Json.text?).map (.string ∘ .regex)
  | .enum _, "default" => (value Json.text?).map (.enum ∘ .default)
  | .enum _, "entries" => (value Json.texts?).map (.enum ∘ .entries)
  | .enum _, "multiselect" => (value Json.bool?).map (.enum ∘ .multiselect)
  | .uri _, "default" => (value Json.text?).map (.uri ∘ .default)
  | .uri _, "filter" => (value Json.text?).map (.uri ∘ .filter)
  | .uri _, "schemas" => (value Json.texts?).map (.uri ∘ .schemas)
  | .rgb _, "default" | .rgba _, "default" => (value Scalar.ofJson?).map .color
  | .ipv4 _, "default" => (value Scalar.ofJson?).map .ipv4
  | .ipv6 _, "default" => (value Scalar.ofJson?).map .ipv6
  | .range .., "default" =>
    (value fun j => (Value.ofJson? j).bind Value.toPair?).map .rangeDefault
  | .custom _, "default" => (value Json.bytes?).map (.custom ∘ .default)
  | .custom _, "uuid" =>
    (value fun j => (j.bytes?.filter (·.length == 16)).map Uuid.ofOctets).map (.custom ∘ .uuid)
  | .custom _, "config" => (value Json.bytes?).map (.custom ∘ .config)
  | _, _ => none

end TypeDef
end ParamSync
