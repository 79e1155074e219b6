import ParamSync.Number.Binary

/-!
# The shortest decimal of a binary floating-point number

Of the decimals that read back as a given finite number, `shortest` takes one with the fewest
digits, and of those the nearest to the number; a tie goes to the larger. For each count of
digits it tests the two neighbours of the number on that decimal grid in exact arithmetic: if
any point of the grid reads back, so does one of those two.
-/

namespace ParamSync

/-- `digits · 10^exponent`. -/
structure Decimal where
  digits : Nat
  exponent : Int
deriving DecidableEq

namespace Decimal

/-- The decimals that read back as one number, all as multiples of a common unit
`numerator / denominator` of length: those between `low` and `high`, the ends included or not. -/
structure Target where
  value : Nat
  low : Nat
  high : Nat
  ends : Bool
  numerator : Nat
  denominator : Nat

/-- The target of the significand `m` with the power of two `q`. A power of two has a
neighbour below that is half as far away as the one above, unless it is the least normal one. -/
def Target.ofSignificand (F : BinaryFormat) (m : Nat) (q : Int) : Target :=
  let narrow := m == F.exponentUnit && F.leastExponent < q
  let unit := q - 2
  { value := 4 * m
    low := if narrow then 4 * m - 1 else 4 * m - 2
    high := 4 * m + 2
    ends := m % 2 == 0
    numerator := if 0 ≤ unit then Nat.pow 2 unit.toNat else 1
    denominator := if 0 ≤ unit then 1 else Nat.pow 2 (-unit).toNat }

/-- Whether `d` steps of the grid `10^e` read back as the target; `up` and `down` scale the
target's unit and the grid to whole numbers. -/
def Target.holds (t : Target) (up down d : Nat) : Bool :=
  let x := d * down
  if t.ends then t.low * up ≤ x && x ≤ t.high * up else t.low * up < x && x < t.high * up

/-- The decimal on the grid `10^e` that reads back as the target and is nearest to it. -/
def Target.onGrid? (t : Target) (e : Int) : Option Decimal :=
  let up := if 0 ≤ e then t.numerator else t.numerator * Nat.pow 10 (-e).toNat
  let down := if 0 ≤ e then t.denominator * Nat.pow 10 e.toNat else t.denominator
  let v := t.value * up
  let d := v / down
  let below := t.holds up down d
  let above := t.holds up down (d + 1)
  if above && (!below || down ≤ 2 * (v % down)) then some ⟨d + 1, e⟩
  else if below then some ⟨d, e⟩
  else none

/-- The first grid with a hit, from `10^e` on through ever finer ones. -/
def Target.search (t : Target) : Nat → Int → Decimal
  | 0, e => ⟨0, e⟩
  | fuel + 1, e => (t.onGrid? e).getD (t.search fuel (e - 1))

/-- How many decimal digits a positive number has before the point, counted down from `n`. -/
def Target.topExponent (t : Target) (n : Nat) (e : Int) : Int :=
  match n with
  | 0 => e
  | n + 1 =>
    let big := if 0 ≤ e then t.denominator * Nat.pow 10 e.toNat ≤ t.value * t.numerator
      else t.denominator ≤ t.value * t.numerator * Nat.pow 10 (-e).toNat
    if big then e else t.topExponent n (e - 1)

/-- The shortest decimal of the finite number with these bits, by magnitude. -/
def shortest (F : BinaryFormat) (bits : Nat) : Decimal :=
  let (m, q) := F.significand bits
  if m = 0 then ⟨0, 0⟩
  else
    let t := Target.ofSignificand F m q
    -- an upper bound on the exponent of the leading digit: three tenths of the binary one
    let guess : Int := (q + m.log2 + 1) * 30103 / 100000 + 1
    t.search 25 (t.topExponent 8 guess + 1)

/-- Digits with leading zeros up to a width. -/
def padLeft (width : Nat) (text : String) : String :=
  String.ofList (List.replicate (width - text.length) '0') ++ text

/-- The decimal written out without an exponent, whole numbers without a point. -/
def positional (d : Decimal) : String :=
  if 0 ≤ d.exponent then toString (d.digits * Nat.pow 10 d.exponent.toNat)
  else
    let places := (-d.exponent).toNat
    let digits := padLeft (places + 1) (toString d.digits)
    let whole := digits.length - places
    String.ofList (digits.toList.take whole) ++ "." ++ String.ofList (digits.toList.drop whole)

/-- A floating-point number as text: the shortest decimal that reads back, written out in full,
with `NaN` and `inf` for what is no number. -/
def text (F : BinaryFormat) (bits : Nat) : String :=
  if F.isNaN bits then "NaN"
  else
    let sign := if F.isNegative bits then "-" else ""
    if F.magnitude bits = F.infinity then sign ++ "inf"
    else sign ++ (shortest F bits).positional

end Decimal
end ParamSync
