import ParamSync.Alike
import ParamSync.Bytes
import ParamSync.Text.Hex

/-!
# Internet addresses

An address is the number its octets stand for. `Ipv6.text` is the canonical text: lower-case
groups without leading zeros, the first longest run of at least two zero groups left out, and a
dotted tail for an address that stands for one of the 32-bit kind.
-/

namespace ParamSync

/-- A 32-bit address. -/
structure Ipv4 where
  bits : BitVec 32
deriving DecidableEq

/-- A 128-bit address. -/
structure Ipv6 where
  bits : BitVec 128
deriving DecidableEq

namespace Ipv4

def octets (a : Ipv4) : Bytes := Bytes.ofNat 4 a.bits.toNat

def ofOctets (bs : Bytes) : Ipv4 := ⟨BitVec.ofNat 32 bs.toNat⟩

/-- The octets in decimal, with points between. -/
def text (a : Ipv4) : String := ".".intercalate (a.octets.map fun b => toString b.toNat)

instance : Alike Ipv4 := ⟨(· == ·)⟩

instance : LawfulAlike Ipv4 := ⟨by simp [alike]⟩

theorem ofOctets_octets (a : Ipv4) : ofOctets a.octets = a := by
  have h : a.bits.toNat < Bytes.capacity 4 := a.bits.isLt
  rw [ofOctets, octets, Bytes.toNat_ofNat_of_lt h]
  simp

end Ipv4

namespace Ipv6

def octets (a : Ipv6) : Bytes := Bytes.ofNat 16 a.bits.toNat

def ofOctets (bs : Bytes) : Ipv6 := ⟨BitVec.ofNat 128 bs.toNat⟩

/-- The eight 16-bit groups. -/
def groups (a : Ipv6) : List Nat :=
  (List.range 8).map fun i => (a.bits.extractLsb' (16 * (7 - i)) 16).toNat

/-- The length of the run of zeros that a list begins with. -/
def zeros (gs : List Nat) : Nat := (gs.takeWhile (· == 0)).length

/-- The first longest run of zero groups, as its start and its length; `at_` is the place of the
list in the whole address. -/
def longestZeros (at_ : Nat) : List Nat → Nat × Nat
  | [] => (at_, 0)
  | g :: gs =>
    let here := (at_, zeros (g :: gs))
    let later := longestZeros (at_ + 1) gs
    if here.2 < later.2 then later else here

def groupText (gs : List Nat) : String := ":".intercalate (gs.map Hex.ofNat)

/-- The canonical text. -/
def text (a : Ipv6) : String :=
  if a.bits.toNat >>> 32 = 0xFFFF then
    "::ffff:" ++ Ipv4.text ⟨BitVec.ofNat 32 a.bits.toNat⟩
  else
    let gs := a.groups
    let (start, length) := longestZeros 0 gs
    if 2 ≤ length then
      groupText (gs.take start) ++ "::" ++ groupText (gs.drop (start + length))
    else groupText gs

instance : Alike Ipv6 := ⟨(· == ·)⟩

instance : LawfulAlike Ipv6 := ⟨by simp [alike]⟩

theorem ofOctets_octets (a : Ipv6) : ofOctets a.octets = a := by
  have h : a.bits.toNat < Bytes.capacity 16 := a.bits.isLt
  rw [ofOctets, octets, Bytes.toNat_ofNat_of_lt h]
  simp

end Ipv6
end ParamSync
