import ParamSync.Alike
import ParamSync.Bytes
import ParamSync.Decimal.Shortest

/-!
# Numbers

The ten kinds of number that a parameter can hold, and a number of a given kind as the bits it
has on the wire. Everything that depends on the kind is a function of the bits: the order, the
bounds, the text. So all kinds share one definition, and `Number.ofBytes_toBytes` is the one
statement that writing a number keeps every bit.
-/

namespace ParamSync

/-- The kinds of number. -/
inductive NumberKind
  | int8 | uint8 | int16 | uint16 | int32 | uint32 | int64 | uint64 | float32 | float64
deriving DecidableEq, Repr

namespace NumberKind

/-- The size on the wire, in bytes. -/
def size : NumberKind → Nat
  | int8 | uint8 => 1
  | int16 | uint16 => 2
  | int32 | uint32 | float32 => 4
  | int64 | uint64 | float64 => 8

/-- How the bits of a kind are to be read. -/
inductive Reading
  | signed
  | unsigned
  | binary (F : BinaryFormat)

def reading : NumberKind → Reading
  | int8 | int16 | int32 | int64 => .signed
  | uint8 | uint16 | uint32 | uint64 => .unsigned
  | float32 => .binary .single
  | float64 => .binary .double

end NumberKind

/-- A number of the kind `k`, as its bits. -/
structure Number (k : NumberKind) where
  bits : BitVec (8 * k.size)
deriving DecidableEq

namespace Number

variable {k : NumberKind}

/-- The number with the low bits of `n`. -/
def ofNat (k : NumberKind) (n : Nat) : Number k := ⟨BitVec.ofNat _ n⟩

/-- The number with the low bits of `n` in two's complement. -/
def ofInt (k : NumberKind) (n : Int) : Number k := ⟨BitVec.ofInt _ n⟩

def zero (k : NumberKind) : Number k := ofNat k 0

/-- The bits as a natural number. -/
def toNat (n : Number k) : Nat := n.bits.toNat

/-- The lowest number of the kind that is finite. -/
def lowest (k : NumberKind) : Number k :=
  match k.reading with
  | .signed => ⟨BitVec.intMin _⟩
  | .unsigned => zero k
  | .binary F => ofNat k F.lowest

/-- The highest number of the kind that is finite. -/
def highest (k : NumberKind) : Number k :=
  match k.reading with
  | .signed => ⟨BitVec.intMax _⟩
  | .unsigned => ⟨BitVec.allOnes _⟩
  | .binary F => ofNat k F.largest

/-- Numerical equality; on integers it is equality. -/
def equal (a b : Number k) : Bool :=
  match k.reading with
  | .binary F => F.equal a.toNat b.toNat
  | _ => a == b

/-- Numerical order. -/
def atMost (a b : Number k) : Bool :=
  match k.reading with
  | .signed => a.bits.toInt ≤ b.bits.toInt
  | .unsigned => a.toNat ≤ b.toNat
  | .binary F => F.atMost a.toNat b.toNat

instance : Alike (Number k) := ⟨equal⟩

/-- Whether the number is a NaN; integers never are. -/
def isNaN (n : Number k) : Bool :=
  match k.reading with
  | .binary F => F.isNaN n.toNat
  | _ => false

/-- The number as text. -/
def text (n : Number k) : String :=
  match k.reading with
  | .signed => toString n.bits.toInt
  | .unsigned => toString n.toNat
  | .binary F => Decimal.text F n.toNat

/-- The number as it is written on the wire. -/
def toBytes (n : Number k) : Bytes := Bytes.ofNat k.size n.toNat

/-- The number that `k.size` bytes stand for. -/
def ofBytes (k : NumberKind) (bs : Bytes) : Number k := ofNat k bs.toNat

@[simp] theorem length_toBytes (n : Number k) : n.toBytes.length = k.size := by
  simp [toBytes]

theorem ofBytes_toBytes (n : Number k) : ofBytes k n.toBytes = n := by
  have h : n.toNat < Bytes.capacity k.size := by
    have := n.bits.isLt
    rwa [Nat.pow_mul] at this
  rw [ofBytes, toBytes, Bytes.toNat_ofNat_of_lt h]
  simp [ofNat, toNat]

end Number
end ParamSync
