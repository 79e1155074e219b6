/-!
# Binary floating point by its bits

A floating-point number is kept as its bits, sign first, then the biased exponent, then the
fraction. Equality and order are those of IEEE 754: a NaN is related to nothing, itself
included, and the two zeros are equal.
-/

namespace ParamSync

/-- The widths of the exponent and the fraction of a binary floating-point format. -/
structure BinaryFormat where
  exponentBits : Nat
  fractionBits : Nat
deriving DecidableEq

namespace BinaryFormat

/-- The 32-bit format. -/
def single : BinaryFormat := ⟨8, 23⟩

/-- The 64-bit format. -/
def double : BinaryFormat := ⟨11, 52⟩

variable (F : BinaryFormat)

/-- The weight of the sign bit. -/
def signBit : Nat := Nat.pow 2 (F.exponentBits + F.fractionBits)

/-- The weight of the least bit of the exponent. -/
def exponentUnit : Nat := Nat.pow 2 F.fractionBits

/-- The bits of positive infinity. -/
def infinity : Nat := (Nat.pow 2 F.exponentBits - 1) * F.exponentUnit

/-- The bits of the largest finite number. -/
def largest : Nat := F.infinity - 1

/-- The bits of the lowest finite number. -/
def lowest : Nat := F.signBit + F.largest

/-- The number's bits without the sign. -/
def magnitude (bits : Nat) : Nat := bits % F.signBit

def isNegative (bits : Nat) : Bool := F.signBit ≤ bits

def isNaN (bits : Nat) : Bool := F.infinity < F.magnitude bits

/-- The place of a number that is not NaN among all of them; both zeros have place 0. -/
def place (bits : Nat) : Int :=
  if F.isNegative bits then -(F.magnitude bits : Int) else F.magnitude bits

/-- IEEE equality. -/
def equal (a b : Nat) : Bool := !F.isNaN a && !F.isNaN b && F.place a == F.place b

/-- IEEE "less than or equal". -/
def atMost (a b : Nat) : Bool := !F.isNaN a && !F.isNaN b && F.place a ≤ F.place b

/-- The power of two of the least positive number. -/
def leastExponent : Int := 2 - (Nat.pow 2 (F.exponentBits - 1) : Nat) - F.fractionBits

/-- The significand and the power of two of a finite number's magnitude. -/
def significand (bits : Nat) : Nat × Int :=
  let m := F.magnitude bits
  let fraction := m % F.exponentUnit
  let exponent := m / F.exponentUnit
  if exponent = 0 then (fraction, F.leastExponent)
  else (F.exponentUnit + fraction, F.leastExponent + exponent - 1)

theorem equal_self_iff (a : Nat) : F.equal a a = true ↔ F.isNaN a = false := by
  simp [equal]

theorem equal_comm (a b : Nat) : F.equal a b = F.equal b a := by
  rw [Bool.eq_iff_iff]
  simp only [equal, Bool.and_eq_true, Bool.not_eq_true', beq_iff_eq]
  constructor
  · rintro ⟨⟨ha, hb⟩, h⟩; exact ⟨⟨hb, ha⟩, h.symm⟩
  · rintro ⟨⟨ha, hb⟩, h⟩; exact ⟨⟨hb, ha⟩, h.symm⟩

end BinaryFormat
end ParamSync
