import ParamSync.Bytes

/-!
# UTF-8

Text is written as UTF-8. Reading accepts any bytes: each longest run of bytes that starts a
character but does not finish one becomes a single U+FFFD, as does each byte that cannot start
a character.
-/

namespace ParamSync.Utf8

/-- The bytes of a text. -/
def encode (s : String) : Bytes := s.toList.flatMap String.utf8EncodeChar

/-- A character whose first bytes have been read: the bits so far, how many bytes are still
missing, and the range that the next of them has to lie in. -/
structure Partial where
  bits : Nat
  missing : Nat
  low : UInt8
  high : UInt8
deriving DecidableEq

/-- What a byte that begins a character says about the bytes after it; `none` for a byte that
begins no character of more than one byte. The ranges exclude overlong forms, surrogates and
values past U+10FFFF. -/
def Partial.ofLead? (b : UInt8) : Option Partial :=
  if 0xC2 ≤ b && b ≤ 0xDF then some ⟨b.toNat - 0xC0, 1, 0x80, 0xBF⟩
  else if b == 0xE0 then some ⟨0, 2, 0xA0, 0xBF⟩
  else if b == 0xED then some ⟨0xD, 2, 0x80, 0x9F⟩
  else if 0xE1 ≤ b && b ≤ 0xEF then some ⟨b.toNat - 0xE0, 2, 0x80, 0xBF⟩
  else if b == 0xF0 then some ⟨0, 3, 0x90, 0xBF⟩
  else if 0xF1 ≤ b && b ≤ 0xF3 then some ⟨b.toNat - 0xF0, 3, 0x80, 0xBF⟩
  else if b == 0xF4 then some ⟨4, 3, 0x80, 0x8F⟩
  else none

/-- The text read so far, and the character that is still incomplete. -/
structure Decoder where
  text : String := ""
  pending : Option Partial := none
deriving DecidableEq

namespace Decoder

/-- Takes a byte at the start of a character. -/
def start (text : String) (b : UInt8) : Decoder :=
  if b < 0x80 then ⟨text.push (Char.ofNat b.toNat), none⟩
  else match Partial.ofLead? b with
    | some p => ⟨text, some p⟩
    | none => ⟨text.push '\uFFFD', none⟩

/-- Takes one byte. A byte that does not continue the pending character starts the next one. -/
def feed (d : Decoder) (b : UInt8) : Decoder :=
  match d.pending with
  | none => start d.text b
  | some p =>
    if p.low ≤ b && b ≤ p.high then
      let bits := p.bits * 64 + b.toNat % 64
      if p.missing ≤ 1 then ⟨d.text.push (Char.ofNat bits), none⟩
      else ⟨d.text, some ⟨bits, p.missing - 1, 0x80, 0xBF⟩⟩
    else start (d.text.push '\uFFFD') b

/-- The text once the input has ended. -/
def finish (d : Decoder) : String :=
  match d.pending with
  | none => d.text
  | some _ => d.text.push '\uFFFD'

end Decoder

/-- The text that a byte string stands for. -/
def decode (bs : Bytes) : String := (bs.foldl Decoder.feed {}).finish

@[simp] theorem encode_empty : encode "" = [] := rfl

end ParamSync.Utf8
