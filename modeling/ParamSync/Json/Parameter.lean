import ParamSync.Json.TypeDef
import ParamSync.Parameter.Basic

/-!
# JSON forms of parameters and of their changes

A parameter is an object of what it is and of those options that are there. A text in several
languages is shown when there is something in it, and when it has just been cleared.
-/

namespace ParamSync

def LocalizedText.toJson (t : LocalizedText) : Json :=
  .object
    [("text", .ofOption .string t.text), ("present", .bool t.isPresent),
      ("changed", .bool t.changed),
      ("languages", .array (t.languages.toList.map fun (code, s) => .ofTexts [code, s]))]

namespace Parameter

/-- A text, if there is something to show. -/
def localizedMember (name : String) (t : LocalizedText) : List (String × Json) :=
  if t.isPresent || t.changed then [(name, t.toJson)] else []

def toJson (p : Parameter) : Json :=
  .object (
    [("id", p.id.toJson), ("datatype", p.datatype.toJson), ("group", .bool p.isGroup),
      ("def", p.definition.toJson), ("changed", .bool p.hasChanges),
      ("children", .array (p.childList.map ParamId.toJson))]
    ++ Json.present "value" Value.toJson p.value.value
    ++ localizedMember "label" p.label
    ++ localizedMember "description" p.description
    ++ Json.present "tags" .string p.tags.value
    ++ Json.present "order" (fun n => .int n.toInt) p.order.value
    ++ Json.present "parent" ParamId.toJson p.group?
    ++ Json.present "user_data" .ofBytes p.userData.value
    ++ Json.present "user_id" .string p.userId.value)

/-- The change of a text: the default text, or nothing to remove every text. -/
def textEdit? (change : Option Json) : Option LocalizedText.Edit :=
  match change with
  | none => some .clear
  | some j => j.text?.map .text

/-- A place in the order. -/
def order? (j : Json) : Option Int32 :=
  (j.int? Int32.minValue.toInt Int32.maxValue.toInt).map Int32.ofInt

/-- The change of an option; none if there is no such option or the JSON is no value for it. -/
def Edit.ofJson? (option : String) (change : Option Json) : Option Edit :=
  match option with
  | "value" => (change.mapM Value.ofJson?).map .value
  | "label" => (textEdit? change).map .label
  | "description" => (textEdit? change).map .description
  | "tags" => (change.mapM Json.text?).map .tags
  | "order" => (change.mapM order?).map .order
  | "user_data" => (change.mapM Json.bytes?).map .userData
  | "user_id" => (change.mapM Json.text?).map .userId
  | _ => none

end Parameter

def Notice.toJson : Notice → Json
  | .updated id v => .array [.string "on_updated", id.toJson, .ofOption Value.toJson v]
  | .value id v => .array [.string "on_value", id.toJson, v.toJson]

end ParamSync
