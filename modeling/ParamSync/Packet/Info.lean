import ParamSync.Wire.Codec

/-!
# Info records

What a server says about itself: a version, and possibly the application that it exposes.
-/

namespace ParamSync

/-- The version and identity of a server. -/
structure Info where
  version : String
  applicationId : Option String := none
deriving DecidableEq

namespace Info

/-- The record on the wire, the terminator included. -/
def encode (info : Info) : Bytes :=
  Width.tiny.text info.version
    ++ (match info.applicationId with
      | some id => applicationIdCode :: Width.tiny.text id
      | none => [])
    ++ [terminator]

/-- Reads one option; an unknown one is an error. -/
def readOption (info : Info) (code : UInt8) : Reader (Option Info) := do
  if code = applicationIdCode then
    return some { info with applicationId := some (← Reader.text .tiny) }
  Reader.fail (.unknownOption .info code)

/-- Reads a whole record. -/
def read : Reader Info := do
  let version ← Reader.text .tiny
  Reader.options readOption { version }

end Info
end ParamSync
