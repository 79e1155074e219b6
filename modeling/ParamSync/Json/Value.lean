import ParamSync.Json.Code
import ParamSync.TypeDef.Scalar

/-!
# JSON forms of values

A value is an object whose only member tells its shape. Integers of up to 32 bits are JSON
integers and longer ones are digits in a string, since few readers of JSON keep 64 bits; a
floating-point number is its bits, so no digit is lost and a NaN keeps its payload.
-/

namespace ParamSync

namespace NumberKind

/-- The member that holds a number of the kind. -/
def key : NumberKind → String
  | int8 => "i8"
  | uint8 => "u8"
  | int16 => "i16"
  | uint16 => "u16"
  | int32 => "i32"
  | uint32 => "u32"
  | int64 => "i64"
  | uint64 => "u64"
  | float32 => "f32"
  | float64 => "f64"

/-- The least and the greatest number that the bits of an integer can stand for. -/
def bounds (k : NumberKind) : Int × Int :=
  match k.reading with
  | .signed => ((Number.lowest k).bits.toInt, (Number.highest k).bits.toInt)
  | _ => (0, (Number.highest k).toNat)

end NumberKind

namespace Number

variable {k : NumberKind}

def toJson (n : Number k) : Json :=
  match k.reading with
  | .binary _ => .ofBytes n.toBytes
  | .signed => if k.size ≤ 4 then .int n.bits.toInt else .string n.text
  | .unsigned => if k.size ≤ 4 then .ofNat n.toNat else .string n.text

/-- An integer of the kind. -/
def ofInt? (k : NumberKind) (n : Int) : Option (Number k) :=
  if k.bounds.1 ≤ n && n ≤ k.bounds.2 then some (ofInt k n) else none

def ofJson? (k : NumberKind) (j : Json) : Option (Number k) :=
  match k.reading with
  | .binary _ => (j.bytes?.filter (·.length == k.size)).map (ofBytes k)
  | _ =>
    if k.size ≤ 4 then (j.int? k.bounds.1 k.bounds.2).bind (ofInt? k)
    else (j.string?.bind String.toInt?).bind (ofInt? k)

end Number

namespace Value

def toJson : Value → Json
  | boolean b => .object [("bool", .bool b)]
  | number k n => .object [(k.key, n.toJson)]
  | text s => .object [("text", .string s)]
  | color c => .object [("color", .string c.hex)]
  | ipv4 a => .object [("ipv4", .ofBytes a.octets)]
  | ipv6 a => .object [("ipv6", .ofBytes a.octets)]
  | range lower upper => .object [("range", .array [lower.toJson, upper.toJson])]
  | bytes bs => .object [("bytes", .ofBytes bs)]

/-- A value without parts, by its member. -/
def ofMember? (name : String) (j : Json) : Option Value :=
  match name with
  | "bool" => j.bool?.map boolean
  | "text" => j.text?.map text
  | "color" =>
    match j.bytes? with
    | some [r, g, b, a] => some (color ⟨r, g, b, a⟩)
    | _ => none
  | "ipv4" => (j.bytes?.filter (·.length == 4)).map fun bs => ipv4 (Ipv4.ofOctets bs)
  | "ipv6" => (j.bytes?.filter (·.length == 16)).map fun bs => ipv6 (Ipv6.ofOctets bs)
  | "bytes" => j.bytes?.map bytes
  | _ => (NumberKind.all.find? (·.key == name)).bind fun k => (Number.ofJson? k j).map (number k)

def ofJson? : Json → Option Value
  | .object [("range", .array [lower, upper])] => return range (← ofJson? lower) (← ofJson? upper)
  | .object [(name, j)] => ofMember? name j
  | _ => none

/-- The two values of a range. -/
def toPair? : Value → Option (Value × Value)
  | range lower upper => some (lower, upper)
  | _ => none

end Value

/-- What the numbers of a kind are: their datatype, the least and the greatest, and zero. -/
def NumberKind.members (k : NumberKind) : List (String × Json) :=
  [("datatype", (Datatype.number k).toJson),
    ("bounds", .array
      [(Value.number k (Number.lowest k)).toJson, (Value.number k (Number.highest k)).toJson]),
    ("zero", (Value.number k (Number.zero k)).toJson)]

namespace Scalar

variable {α : Type} [Scalar α]

def toJson (a : α) : Json := (Scalar.toValue a).toJson

/-- A value that has the shape of the type. -/
def ofJson? (j : Json) : Option α := (Value.ofJson? j).bind Scalar.ofValue?

end Scalar
end ParamSync
