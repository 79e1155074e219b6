import ParamSync.Alike
import ParamSync.Text.Hex

/-!
# Colours

Eight bits a channel. On the wire a colour is one number with red in its lowest byte, so
packing loses nothing (`ofPacked_packed`).
-/

namespace ParamSync

/-- A colour with its opacity. -/
structure Color where
  red : UInt8
  green : UInt8
  blue : UInt8
  alpha : UInt8
deriving DecidableEq

namespace Color

/-- A colour that hides what is behind it. -/
def solid (red green blue : UInt8) : Color := ⟨red, green, blue, 0xff⟩

/-- The colour a cleared field is sent as. -/
def clear : Color := ⟨0, 0, 0, 0⟩

/-- The colour as one number of four bytes. -/
def packed (c : Color) : Nat :=
  c.red.toNat + 256 * (c.green.toNat + 256 * (c.blue.toNat + 256 * c.alpha.toNat))

def ofPacked (n : Nat) : Color :=
  ⟨UInt8.ofNat n, UInt8.ofNat (n / 256), UInt8.ofNat (n / 256 / 256),
    UInt8.ofNat (n / 256 / 256 / 256)⟩

/-- The channels in hexadecimal. -/
def hex (c : Color) : String := Hex.encode [c.red, c.green, c.blue, c.alpha]

def text (c : Color) : String := "#" ++ c.hex

instance : Alike Color := ⟨(· == ·)⟩

instance : LawfulAlike Color := ⟨by simp [alike]⟩

theorem packed_lt (c : Color) : c.packed < Bytes.capacity 4 := by
  have := c.red.toNat_lt; have := c.green.toNat_lt
  have := c.blue.toNat_lt; have := c.alpha.toNat_lt
  have hc : Bytes.capacity 4 = 4294967296 := rfl
  rw [hc]; simp only [packed]; omega

theorem ofPacked_packed (c : Color) : ofPacked c.packed = c := by
  have hr := c.red.toNat_lt; have hg := c.green.toNat_lt; have hb := c.blue.toNat_lt
  have h1 : c.packed / 256 = c.green.toNat + 256 * (c.blue.toNat + 256 * c.alpha.toNat) := by
    simp only [packed]; omega
  have h2 : c.packed / 256 / 256 = c.blue.toNat + 256 * c.alpha.toNat := by rw [h1]; omega
  have h3 : c.packed / 256 / 256 / 256 = c.alpha.toNat := by rw [h2]; omega
  have low (x : UInt8) (y : Nat) : UInt8.ofNat (x.toNat + 256 * y) = x := by
    apply UInt8.toNat_inj.1
    rw [UInt8.toNat_ofNat']
    have := x.toNat_lt
    omega
  cases c with
  | mk r g b a =>
    rw [ofPacked, h3, h2, h1]
    simp [packed, low]

end Color
end ParamSync
