import ParamSync.Code
import ParamSync.Text.Hex

/-!
# What can be wrong with a message

The causes for which bytes are refused, or for which a value or an update cannot be written, and
the sentence that reports each.
-/

namespace ParamSync

/-- The blocks in which an unknown option is an error, because its length cannot be known. -/
inductive OptionBlock
  | typeDefinition
  | info
deriving DecidableEq

def OptionBlock.text : OptionBlock → String
  | typeDefinition => "type definition"
  | info => "info"

/-- A cause for which a message, a value or an update is refused. -/
inductive ProtocolError
  /-- The bytes end where `needed` more are due and only `remaining` are left. -/
  | unexpectedEnd (needed remaining : Nat)
  /-- No datatype has this code. -/
  | unknownDatatype (code : UInt8)
  /-- The datatype has no definition. -/
  | unsupportedDatatype (datatype : Datatype)
  | unknownOption (block : OptionBlock) (code : UInt8)
  /-- Only numbers are elements of ranges. -/
  | invalidRangeElement (datatype : Datatype)
  /-- The value has another shape than the datatype asks for. -/
  | valueMismatch (expected : Datatype)
  /-- Bangs and groups carry no value. -/
  | noValue (datatype : Datatype)
  | unknownScale (code : UInt8)
deriving DecidableEq

namespace ProtocolError

/-- The name of the cause. -/
def kind : ProtocolError → String
  | unexpectedEnd .. => "UnexpectedEnd"
  | unknownDatatype _ => "UnknownDatatype"
  | unsupportedDatatype _ => "UnsupportedDatatype"
  | unknownOption .. => "UnknownOption"
  | invalidRangeElement _ => "InvalidRangeElement"
  | valueMismatch _ => "ValueMismatch"
  | noValue _ => "NoValue"
  | unknownScale _ => "InvalidMessage"

/-- The sentence that reports the error. -/
def message : ProtocolError → String
  | unexpectedEnd needed remaining =>
    "unexpected end of data: needed " ++ toString needed ++ " bytes, " ++ toString remaining
      ++ " remaining"
  | unknownDatatype code => "unknown datatype code 0x" ++ Hex.byte code
  | unsupportedDatatype d => "datatype " ++ d.name ++ " is not supported"
  | unknownOption block code => "unknown " ++ block.text ++ " option 0x" ++ Hex.byte code
  | invalidRangeElement d => "datatype " ++ d.name ++ " cannot be used as a range element"
  | valueMismatch d => "value does not fit datatype " ++ d.name
  | noValue d => "datatype " ++ d.name ++ " carries no value"
  | unknownScale code => "invalid message: unknown number scale " ++ toString code.toNat

/-- Whether more bytes could have made the difference. -/
def isEnd : ProtocolError → Bool
  | unexpectedEnd _ _ => true
  | _ => false

end ProtocolError
end ParamSync
