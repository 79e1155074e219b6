import ParamSync.Number.Basic

/-!
# Codes of the wire format

The tags that messages are built from. Each has a fixed byte; a byte outside the known set has
no meaning, and who reads it decides what follows from that. A tag is read back from its own
byte and from no other (`ofCode?_eq_some_iff`, for each kind of tag).
-/

namespace ParamSync

/-- The byte that ends every list of options. -/
def terminator : UInt8 := 0x00

/-! ## Commands -/

/-- What a packet is for. -/
inductive Command
  /-- The exchange of versions; without a record it is a request. -/
  | info
  /-- Asks for every parameter. -/
  | dump
  /-- Reserved. -/
  | discover
  /-- Carries a parameter, or the changed part of one. -/
  | update
  /-- Carries an identifier and a bare value. -/
  | updateValue
  /-- Carries the identifier of a parameter that is gone. -/
  | remove
  /-- An older name of `info`. -/
  | version
deriving DecidableEq

namespace Command

def all : List Command := [info, dump, discover, update, updateValue, remove, version]

def code : Command → UInt8
  | info => 0x01
  | dump => 0x02
  | discover => 0x03
  | update => 0x04
  | updateValue => 0x05
  | remove => 0x06
  | version => 0x07

def name : Command → String
  | info => "Info"
  | dump => "Initialize"
  | discover => "Discover"
  | update => "Update"
  | updateValue => "UpdateValue"
  | remove => "Remove"
  | version => "Version"

/-- The command as JSON shows it. -/
def tag (c : Command) : String := c.name.map Char.toLower

def ofCode? (b : UInt8) : Option Command := all.find? (·.code == b)

def ofTag? (tag : String) : Option Command := all.find? (·.tag == tag)

theorem ofCode?_eq_some_iff {b : UInt8} {c : Command} : ofCode? b = some c ↔ b = c.code := by
  constructor
  · intro h
    rw [ofCode?] at h
    have := List.find?_some h
    exact (eq_of_beq this).symm
  · rintro rfl; cases c <;> rfl

end Command

/-! ## Datatypes -/

/-- The tag of a type definition. Vectors, arrays and lists have a tag but no definition. -/
inductive Datatype
  | custom
  | boolean
  | number (kind : NumberKind)
  | vector2i32 | vector2f32 | vector3i32 | vector3f32 | vector4i32 | vector4f32
  | string
  | rgb
  | rgba
  | enum
  | array
  | list
  | bang
  | group
  | uri
  | ipv4
  | ipv6
  | range
deriving DecidableEq

namespace NumberKind

def all : List NumberKind :=
  [int8, uint8, int16, uint16, int32, uint32, int64, uint64, float32, float64]

def code : NumberKind → UInt8
  | int8 => 0x11
  | uint8 => 0x12
  | int16 => 0x13
  | uint16 => 0x14
  | int32 => 0x15
  | uint32 => 0x16
  | int64 => 0x17
  | uint64 => 0x18
  | float32 => 0x19
  | float64 => 0x1a

def name : NumberKind → String
  | int8 => "Int8"
  | uint8 => "UInt8"
  | int16 => "Int16"
  | uint16 => "UInt16"
  | int32 => "Int32"
  | uint32 => "UInt32"
  | int64 => "Int64"
  | uint64 => "UInt64"
  | float32 => "Float32"
  | float64 => "Float64"

end NumberKind

namespace Datatype

def all : List Datatype :=
  [custom, boolean] ++ NumberKind.all.map number
    ++ [vector2i32, vector2f32, vector3i32, vector3f32, vector4i32, vector4f32, string, rgb, rgba,
      enum, array, list, bang, group, uri, ipv4, ipv6, range]

def code : Datatype → UInt8
  | custom => 0x01
  | boolean => 0x10
  | number k => k.code
  | vector2i32 => 0x1b
  | vector2f32 => 0x1c
  | vector3i32 => 0x1d
  | vector3f32 => 0x1e
  | vector4i32 => 0x1f
  | vector4f32 => 0x20
  | string => 0x21
  | rgb => 0x22
  | rgba => 0x23
  | enum => 0x24
  | array => 0x25
  | list => 0x26
  | bang => 0x27
  | group => 0x28
  | uri => 0x2a
  | ipv4 => 0x2b
  | ipv6 => 0x2c
  | range => 0x2d

/-- The datatype as messages show it. -/
def name : Datatype → String
  | custom => "CustomType"
  | boolean => "Boolean"
  | number k => k.name
  | vector2i32 => "Vector2I32"
  | vector2f32 => "Vector2F32"
  | vector3i32 => "Vector3I32"
  | vector3f32 => "Vector3F32"
  | vector4i32 => "Vector4I32"
  | vector4f32 => "Vector4F32"
  | string => "String"
  | rgb => "Rgb"
  | rgba => "Rgba"
  | enum => "Enum"
  | array => "Array"
  | list => "List"
  | bang => "Bang"
  | group => "Group"
  | uri => "Uri"
  | ipv4 => "Ipv4"
  | ipv6 => "Ipv6"
  | range => "Range"

/-- The datatype as JSON shows it: its name in lower case. -/
def tag (d : Datatype) : String := d.name.map Char.toLower

def ofCode? (b : UInt8) : Option Datatype := all.find? (·.code == b)

def ofTag? (tag : String) : Option Datatype := all.find? (·.tag == tag)

/-- The kind of number that the datatype stands for; only numbers are the elements of ranges. -/
def numberKind? : Datatype → Option NumberKind
  | number k => some k
  | _ => none

def isNumber (d : Datatype) : Bool := d.numberKind?.isSome

theorem ofCode?_eq_some_iff {b : UInt8} {d : Datatype} : ofCode? b = some d ↔ b = d.code := by
  constructor
  · intro h
    rw [ofCode?] at h
    have := List.find?_some h
    exact (eq_of_beq this).symm
  · rintro rfl
    cases d with
    | number k => cases k <;> rfl
    | _ => rfl

end Datatype

/-! ## Options -/

/-- The options of a packet. -/
inductive PacketOption
  | timestamp | data
deriving DecidableEq

namespace PacketOption

def all : List PacketOption := [timestamp, data]

def code : PacketOption → UInt8
  | timestamp => 0x01
  | data => 0x02

def name : PacketOption → String
  | timestamp => "Timestamp"
  | data => "Data"

def ofCode? (b : UInt8) : Option PacketOption := all.find? (·.code == b)

theorem ofCode?_eq_some_iff {b : UInt8} {o : PacketOption} : ofCode? b = some o ↔ b = o.code := by
  constructor
  · intro h
    rw [ofCode?] at h
    have := List.find?_some h
    exact (eq_of_beq this).symm
  · rintro rfl; cases o <;> rfl

end PacketOption

/-- The options of a parameter, after its type definition. -/
inductive ParameterOption
  | value | label | description | tags | order | parentId | widget | userData | userId
deriving DecidableEq

namespace ParameterOption

def all : List ParameterOption :=
  [value, label, description, tags, order, parentId, widget, userData, userId]

def code : ParameterOption → UInt8
  | value => 0x20
  | label => 0x21
  | description => 0x22
  | tags => 0x23
  | order => 0x24
  | parentId => 0x25
  | widget => 0x26
  | userData => 0x27
  | userId => 0x28

def name : ParameterOption → String
  | value => "Value"
  | label => "Label"
  | description => "Description"
  | tags => "Tags"
  | order => "Order"
  | parentId => "ParentId"
  | widget => "Widget"
  | userData => "UserData"
  | userId => "UserId"

def ofCode? (b : UInt8) : Option ParameterOption := all.find? (·.code == b)

theorem ofCode?_eq_some_iff {b : UInt8} {o : ParameterOption} :
    ofCode? b = some o ↔ b = o.code := by
  constructor
  · intro h
    rw [ofCode?] at h
    have := List.find?_some h
    exact (eq_of_beq this).symm
  · rintro rfl; cases o <;> rfl

end ParameterOption

/-- The code of the only option of an info record. -/
def applicationIdCode : UInt8 := 0x1a

/-! The options of a type definition. Their codes overlap: which option a code means depends on
the datatype. -/

namespace DefinitionOption

def default : UInt8 := 0x30

def minimum : UInt8 := 0x31
def maximum : UInt8 := 0x32
def multipleOf : UInt8 := 0x33
def scale : UInt8 := 0x34
def unit : UInt8 := 0x35

def regex : UInt8 := 0x31

def entries : UInt8 := 0x31
def multiselect : UInt8 := 0x32

def filter : UInt8 := 0x31
def schemas : UInt8 := 0x32

def uuid : UInt8 := 0x31
def config : UInt8 := 0x32

end DefinitionOption

/-! ## Scales -/

/-- How a control maps a number onto its travel. -/
inductive NumberScale
  | linear | logarithmic | exp2
deriving DecidableEq

namespace NumberScale

def all : List NumberScale := [linear, logarithmic, exp2]

def code : NumberScale → UInt8
  | linear => 0
  | logarithmic => 1
  | exp2 => 2

def name : NumberScale → String
  | linear => "Linear"
  | logarithmic => "Logarithmic"
  | exp2 => "Exp2"

/-- The scale as JSON shows it. -/
def tag (s : NumberScale) : String := s.name.map Char.toLower

def ofCode? (b : UInt8) : Option NumberScale := all.find? (·.code == b)

def ofTag? (tag : String) : Option NumberScale := all.find? (·.tag == tag)

theorem ofCode?_eq_some_iff {b : UInt8} {s : NumberScale} : ofCode? b = some s ↔ b = s.code := by
  constructor
  · intro h
    rw [ofCode?] at h
    have := List.find?_some h
    exact (eq_of_beq this).symm
  · rintro rfl; cases s <;> rfl

instance : Alike NumberScale := ⟨(· == ·)⟩

instance : LawfulAlike NumberScale := ⟨by simp [alike]⟩

end NumberScale
end ParamSync
