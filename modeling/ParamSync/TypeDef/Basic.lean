import ParamSync.TypeDef.Custom
import ParamSync.TypeDef.Number
import ParamSync.TypeDef.Text

/-!
# Type definitions

The schema half of a parameter: which datatype it has, and what is said about its values. A
definition also knows how bare values of its datatype look on the wire.
-/

namespace ParamSync

/-- The schema of a parameter. -/
inductive TypeDef
  | boolean (d : PlainDef Bool)
  | number (kind : NumberKind) (d : NumberDef kind)
  | string (d : StringDef)
  | enum (d : EnumDef)
  | uri (d : UriDef)
  | rgb (d : PlainDef Color)
  | rgba (d : PlainDef Color)
  | ipv4 (d : PlainDef Ipv4)
  | ipv6 (d : PlainDef Ipv6)
  /-- Pairs of values of another definition, which is a number's unless it was replaced. -/
  | range (element : TypeDef) (default : Field (Value × Value))
  | custom (d : CustomDef)
  | bang
  | group

namespace TypeDef

/-- The definition of a datatype that needs nothing but its tag. -/
def ofDatatype? : Datatype → Option TypeDef
  | .boolean => some (boolean {})
  | .number k => some (number k {})
  | .string => some (string {})
  | .enum => some (enum {})
  | .uri => some (uri {})
  | .rgb => some (rgb {})
  | .rgba => some (rgba {})
  | .ipv4 => some (ipv4 {})
  | .ipv6 => some (ipv6 {})
  | .bang => some bang
  | .group => some group
  | _ => none

/-- A custom type whose values have the given size. -/
def ofSize (size : UInt32) : TypeDef := custom { size }

/-- A range over a kind of number. -/
def rangeOf (kind : NumberKind) : TypeDef := range (number kind {}) {}

def datatype : TypeDef → Datatype
  | boolean _ => .boolean
  | number k _ => .number k
  | string _ => .string
  | enum _ => .enum
  | uri _ => .uri
  | rgb _ => .rgb
  | rgba _ => .rgba
  | ipv4 _ => .ipv4
  | ipv6 _ => .ipv6
  | range _ _ => .range
  | custom _ => .custom
  | bang => .bang
  | group => .group

/-- A range over an element; only numbers will do. -/
def range? (element : TypeDef) : Except ProtocolError TypeDef :=
  if element.datatype.isNumber then .ok (range element {})
  else .error (.invalidRangeElement element.datatype)

/-- Bangs and groups have no value. -/
def hasValue : TypeDef → Bool
  | bang | group => false
  | _ => true

def isGroup : TypeDef → Bool
  | group => true
  | _ => false

/-! ## Values -/

/-- Whether the value has the shape of the datatype. -/
def accepts : TypeDef → Value → Bool
  | boolean _, v => Scalar.accepts Bool v
  | number k _, v => Scalar.accepts (Number k) v
  | string _, v | enum _, v | uri _, v => v.toText?.isSome
  | rgb _, v | rgba _, v => Scalar.accepts Color v
  | ipv4 _, v => Scalar.accepts Ipv4 v
  | ipv6 _, v => Scalar.accepts Ipv6 v
  | range element _, .range lower upper => element.accepts lower && element.accepts upper
  | custom d, v => d.accepts v
  | _, _ => false

/-- The value that a cleared value is sent as. -/
def zero? : TypeDef → Option Value
  | boolean _ => some (Scalar.zeroValue Bool)
  | number k _ => some (Scalar.zeroValue (Number k))
  | string _ | enum _ | uri _ => some (.text "")
  | rgb _ | rgba _ => some (Scalar.zeroValue Color)
  | ipv4 _ => some (Scalar.zeroValue Ipv4)
  | ipv6 _ => some (Scalar.zeroValue Ipv6)
  | range element _ =>
    let zero := element.zero?.getD (Scalar.zeroValue (Number .int32))
    some (.range zero zero)
  | custom d => some d.zero
  | bang | group => none

/-- The two sides of a range whose default was cleared. -/
def zeroPair (element : TypeDef) : Value × Value :=
  let zero := element.zero?.getD (Scalar.zeroValue (Number .int32))
  (zero, zero)

/-! ## Changes -/

/-- Whether any option changed since the last delta write. -/
def hasChanges : TypeDef → Bool
  | boolean d => d.hasChanges
  | number _ d => d.hasChanges
  | string d => d.hasChanges
  | enum d => d.hasChanges
  | uri d => d.hasChanges
  | rgb d | rgba d => d.hasChanges
  | ipv4 d => d.hasChanges
  | ipv6 d => d.hasChanges
  | range element default => element.hasChanges || default.changed
  | custom d => d.hasChanges
  | bang | group => false

/-- The definition once its changes have been sent. -/
def sent : TypeDef → TypeDef
  | boolean d => boolean d.sent
  | number k d => number k d.sent
  | string d => string d.sent
  | enum d => enum d.sent
  | uri d => uri d.sent
  | rgb d => rgb d.sent
  | rgba d => rgba d.sent
  | ipv4 d => ipv4 d.sent
  | ipv6 d => ipv6 d.sent
  | range element default => range element.sent default.sent
  | custom d => custom d.sent
  | bang => bang
  | group => group

/-- The definition after the options that a peer's definition has were applied. Definitions of
another datatype have nothing to tell. -/
def merge : TypeDef → TypeDef → TypeDef
  | boolean d, boolean e => boolean (d.merge e)
  | number k d, number l e => if h : l = k then number k (d.merge (h ▸ e)) else number k d
  | string d, string e => string (d.merge e)
  | enum d, enum e => enum (d.merge e)
  | uri d, uri e => uri (d.merge e)
  | rgb d, rgb e => rgb (d.merge e)
  | rgba d, rgba e => rgba (d.merge e)
  | ipv4 d, ipv4 e => ipv4 (d.merge e)
  | ipv6 d, ipv6 e => ipv6 (d.merge e)
  | range a d, range b e => range (a.merge b) (d.merge e)
  | custom d, custom e => custom (d.merge e)
  | d, _ => d

/-- Whether `merge` would change anything. -/
def gains : TypeDef → TypeDef → Bool
  | boolean d, boolean e => d.gains e
  | number k d, number l e => if h : l = k then d.gains (h ▸ e) else false
  | string d, string e => d.gains e
  | enum d, enum e => d.gains e
  | uri d, uri e => d.gains e
  | rgb d, rgb e => d.gains e
  | rgba d, rgba e => d.gains e
  | ipv4 d, ipv4 e => d.gains e
  | ipv6 d, ipv6 e => d.gains e
  | range a d, range b e => a.gains b || d.gains e
  | custom d, custom e => d.gains e
  | _, _ => false

/-- The comparison of definitions: the same datatype and like options. -/
def equal : TypeDef → TypeDef → Bool
  | boolean d, boolean e => alike d e
  | number k d, number l e => if h : l = k then alike d (h ▸ e) else false
  | string d, string e => alike d e
  | enum d, enum e => alike d e
  | uri d, uri e => alike d e
  | rgb d, rgb e => alike d e
  | rgba d, rgba e => alike d e
  | ipv4 d, ipv4 e => alike d e
  | ipv6 d, ipv6 e => alike d e
  | range a d, range b e => equal a b && alike d e
  | custom d, custom e => alike d e
  | bang, bang => true
  | group, group => true
  | _, _ => false

instance : Alike TypeDef := ⟨equal⟩

end TypeDef
end ParamSync
