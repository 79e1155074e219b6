import ParamSync.Json.Parameter
import ParamSync.Packet.Basic

/-!
# JSON forms of packets
-/

namespace ParamSync

namespace Info

def toJson (info : Info) : Json :=
  .object [("version", .string info.version),
    ("application_id", .ofOption .string info.applicationId)]

def ofJson? (j : Json) : Option Info :=
  return ⟨← (← j.get? "version").text?, ← j.optional? "application_id" Json.text?⟩

end Info

namespace ValueUpdate

def toJson (u : ValueUpdate) : Json :=
  .object [("id", u.id.toJson), ("datatype", u.datatype.toJson),
    ("element", .ofOption Datatype.toJson u.element), ("value", u.value.toJson)]

def ofJson? (j : Json) : Option ValueUpdate :=
  return ⟨← ParamId.ofJson? (← j.get? "id"), ← Datatype.ofJson? (← j.get? "datatype"),
    ← j.optional? "element" Datatype.ofJson?, ← Value.ofJson? (← j.get? "value")⟩

end ValueUpdate

def Payload.toJson : Payload → Json
  | .info i => .object [("info", i.toJson)]
  | .id i => .object [("id", i.toJson)]
  | .parameter p => .object [("parameter", p.toJson)]
  | .value u => .object [("value", u.toJson)]

def Packet.toJson (p : Packet) : Json :=
  .object [("command", .string p.command.name),
    ("timestamp", .ofOption (fun t => .string (toString t.toNat)) p.timestamp),
    ("data", .ofOption Payload.toJson p.data), ("id", .ofOption ParamId.toJson p.id?),
    ("has_parameter", .bool p.parameter?.isSome)]

end ParamSync
