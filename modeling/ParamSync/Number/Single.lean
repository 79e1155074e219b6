import ParamSync.Number.Basic

/-!
# Arithmetic of 32-bit floating point

Sums, products and fractional parts of numbers kept as their bits. A NaN among the operands is the
result, made quiet, the left one first; where the operation itself has no result, it is the
negative quiet NaN.
-/

namespace ParamSync

/-- A 32-bit floating-point number. -/
abbrev Single := Number .float32

namespace Single

/-- The number with the given bits. -/
def ofBits (bits : Nat) : Single := Number.ofNat .float32 bits

/-- A NaN with its quiet bit set. -/
def quiet (n : Single) : Single := ofBits (n.toNat ||| 0x00400000)

def float (n : Single) : Float32 := Float32.ofBits (UInt32.ofNat n.toNat)

def ofFloat (x : Float32) : Single := if x.isNaN then ofBits 0xffc00000 else ofBits x.toBits.toNat

/-- An operation on two numbers of which none is NaN, carried over to all. -/
def lift (f : Float32 → Float32 → Float32) (a b : Single) : Single :=
  if a.isNaN then quiet a
  else if b.isNaN then quiet b
  else ofFloat (f (float a) (float b))

def add : Single → Single → Single := lift (· + ·)

def mul : Single → Single → Single := lift (· * ·)

/-- The whole part, toward zero. -/
def truncate (x : Float32) : Float32 := if x < 0 then x.ceil else x.floor

/-- What is left without the whole part. -/
def fraction (n : Single) : Single := lift (fun x _ => x - truncate x) n n

end Single
end ParamSync
