/-!
# Byte strings and big-endian words

A byte string is a list of bytes. A word of `n` bytes is written most significant byte first;
`toNat_ofNat` says that reading it back loses only what does not fit.
-/

namespace ParamSync

/-- A message, or a part of one. -/
abbrev Bytes := List UInt8

namespace Bytes

/-- The low `n` bytes of `v`, most significant first. -/
def ofNat : Nat → Nat → Bytes
  | 0, _ => []
  | n + 1, v => ofNat n (v / 256) ++ [UInt8.ofNat v]

/-- How many numbers `n` bytes can hold. -/
def capacity (n : Nat) : Nat := Nat.pow 256 n

/-- The number that a big-endian byte string stands for. -/
def toNat (bs : Bytes) : Nat := bs.foldl (fun v b => v * 256 + b.toNat) 0

/-- The byte string cut, or filled with zeros, to exactly `size` bytes. -/
def fit (size : Nat) (bs : Bytes) : Bytes := bs.take size ++ List.replicate (size - bs.length) 0

@[simp] theorem length_ofNat (n v : Nat) : (ofNat n v).length = n := by
  induction n generalizing v with
  | zero => rfl
  | succ n ih => simp [ofNat, ih]

theorem capacity_succ (n : Nat) : capacity (n + 1) = 256 * capacity n := Nat.pow_succ'

theorem capacity_pos (n : Nat) : 0 < capacity n := Nat.pow_pos (by decide)

@[simp] theorem toNat_nil : toNat [] = 0 := rfl

theorem toNat_concat (bs : Bytes) (b : UInt8) : toNat (bs ++ [b]) = toNat bs * 256 + b.toNat := by
  simp [toNat]

theorem toNat_ofNat (n v : Nat) : toNat (ofNat n v) = v % capacity n := by
  induction n generalizing v with
  | zero => exact (Nat.mod_one v).symm
  | succ n ih =>
    have h : v % capacity (n + 1) = v % 256 + 256 * (v / 256 % capacity n) := by
      rw [capacity_succ, Nat.mod_mul]
    rw [ofNat, toNat_concat, ih, UInt8.toNat_ofNat', h]
    omega

theorem toNat_ofNat_of_lt {n v : Nat} (h : v < capacity n) : toNat (ofNat n v) = v := by
  rw [toNat_ofNat, Nat.mod_eq_of_lt h]

@[simp] theorem length_fit (size : Nat) (bs : Bytes) : (fit size bs).length = size := by
  simp [fit]; omega

@[simp] theorem fit_nil (size : Nat) : fit size [] = List.replicate size 0 := by simp [fit]

theorem fit_of_length_eq {size : Nat} {bs : Bytes} (h : bs.length = size) : fit size bs = bs := by
  subst h; simp [fit]

end Bytes
end ParamSync
