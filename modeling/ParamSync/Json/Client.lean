import ParamSync.Client
import ParamSync.Json.Packet

/-!
# JSON forms of what clients are told
-/

namespace ParamSync

def LinkEvent.toJson : LinkEvent → Json
  | connected => .string "connected"
  | disconnected => .string "disconnected"
  | received data => .object [("received", .ofBytes data)]

namespace ClientNotice

/-- A parameter as listeners are told of it: its identifier, its group, its label and its value. -/
def parameterJson (p : Parameter) : Json :=
  .array [p.id.toJson, .ofOption ParamId.toJson p.group?, .ofOption .string p.label.text,
    .ofOption Value.toJson p.value.value]

/-- The notice as the listener `listener` is told of it: its name, the occasion, and what that is
about. A watcher is told the same whoever listens. -/
def toJson (listener : String) : ClientNotice → Json
  | connected => tell "connected" .null
  | disconnected => tell "disconnected" .null
  | info i => tell "info" i.toJson
  | added p => tell "added" (parameterJson p)
  | updated p => tell "updated" (parameterJson p)
  | removed p => tell "removed" (parameterJson p)
  | watched notice => notice.toJson
where
  tell (occasion : String) (about : Json) : Json :=
    .array [.string listener, .string occasion, about]

end ClientNotice
end ParamSync
