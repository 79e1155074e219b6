import ParamSync.Bytes

/-!
# Hexadecimal text

Two lower-case digits a byte.
-/

namespace ParamSync.Hex

/-- The lower-case digit of a value below sixteen. -/
def digit (n : Nat) : Char :=
  if n < 10 then Char.ofNat ('0'.toNat + n) else Char.ofNat ('a'.toNat + (n - 10))

/-- The value of a lower-case digit. -/
def value? (c : Char) : Option Nat :=
  if '0' ≤ c && c ≤ '9' then some (c.toNat - '0'.toNat)
  else if 'a' ≤ c && c ≤ 'f' then some (10 + (c.toNat - 'a'.toNat))
  else none

/-- The two digits of a byte. -/
def byte (b : UInt8) : String := String.ofList [digit (b.toNat / 16), digit (b.toNat % 16)]

/-- The digits of a byte string, byte by byte. -/
def encode (bs : Bytes) : String :=
  bs.foldl (fun text b => (text.push (digit (b.toNat / 16))).push (digit (b.toNat % 16))) ""

/-- Reads digits, two a byte; the bytes before them are given last first. -/
def decodeFrom? (read : Bytes) : List Char → Option Bytes
  | [] => some read.reverse
  | [_] => none
  | high :: low :: rest =>
    match value? high, value? low with
    | some h, some l => decodeFrom? (UInt8.ofNat (16 * h + l) :: read) rest
    | _, _ => none

/-- The bytes that a text of digits names. -/
def decode? (s : String) : Option Bytes := decodeFrom? [] s.toList

/-- The digits of a number, without leading zeros. -/
def ofNat (n : Nat) : String := String.ofList (Nat.toDigits 16 n)

end ParamSync.Hex
