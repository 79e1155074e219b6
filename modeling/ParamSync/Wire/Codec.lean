import ParamSync.Ident
import ParamSync.Text.Utf8
import ParamSync.Value
import ParamSync.Wire.Reader

/-!
# Numbers, texts and other small things on the wire

Numbers are big-endian. A text or a string of bytes follows its length, which is a number of
one, two or four bytes; what does not fit is cut off, between two bytes and so possibly inside a
character. Each writer stands beside its reader.
-/

namespace ParamSync

/-! ## Framed bytes -/

/-- How many bytes the length of a text takes. -/
inductive Width
  | tiny | short | long
deriving DecidableEq

namespace Width

/-- The size of the length, in bytes. -/
def size : Width → Nat
  | tiny => 1
  | short => 2
  | long => 4

/-- The greatest length. -/
def limit (w : Width) : Nat := Bytes.capacity w.size - 1

/-- Bytes after their length; those past the greatest length are cut off. -/
def frame (w : Width) (bs : Bytes) : Bytes :=
  let kept := bs.take w.limit
  Bytes.ofNat w.size kept.length ++ kept

/-- A text after its length in bytes. -/
def text (w : Width) (s : String) : Bytes := w.frame (Utf8.encode s)

end Width

/-- Bytes after a length of four bytes. -/
def blob (bs : Bytes) : Bytes := Width.long.frame bs

namespace Reader

/-- A number of `n` bytes. -/
def nat (n : Nat) : Reader Nat := do return (← take n).toNat

/-- A signed number of two bytes. -/
def int16 : Reader Int16 := do return Int16.ofBitVec (BitVec.ofNat 16 (← nat 2))

/-- A signed number of four bytes. -/
def int32 : Reader Int32 := do return Int32.ofBitVec (BitVec.ofNat 32 (← nat 4))

def uint64 : Reader UInt64 := do return UInt64.ofNat (← nat 8)

/-- A flag; every byte but zero is true. -/
def bool : Reader Bool := do return (← u8) != 0

def number (k : NumberKind) : Reader (Number k) := do return Number.ofBytes k (← take k.size)

def paramId : Reader ParamId := do return ⟨← int16⟩

def color : Reader Color := do return Color.ofPacked (← nat 4)

def ipv4 : Reader Ipv4 := do return Ipv4.ofOctets (← take 4)

def ipv6 : Reader Ipv6 := do return Ipv6.ofOctets (← take 16)

/-- Bytes after their length. -/
def frame (w : Width) : Reader Bytes := do take (← nat w.size)

/-- A text after its length. Bytes that are no text become U+FFFD. -/
def text (w : Width) : Reader String := do return Utf8.decode (← frame w)

def blob : Reader Bytes := frame .long

/-- A datatype by its code. -/
def datatype : Reader Datatype := do
  let code ← u8
  ofOption (.unknownDatatype code) (Datatype.ofCode? code)

theorem strict_nat {n : Nat} (hn : 0 < n) : (nat n).Strict := (strict_take hn).bind _

theorem strict_text (w : Width) : (text w).Strict :=
  Strict.bind (Strict.bind (strict_nat (by cases w <;> decide)) _) _

end Reader

/-! ## Writers of the rest -/

def boolBytes (b : Bool) : Bytes := [if b then 1 else 0]

def ParamId.toBytes (id : ParamId) : Bytes := Bytes.ofNat 2 id.val.toBitVec.toNat

def int32Bytes (n : Int32) : Bytes := Bytes.ofNat 4 n.toBitVec.toNat

def uint64Bytes (n : UInt64) : Bytes := Bytes.ofNat 8 n.toNat

def Color.toBytes (c : Color) : Bytes := Bytes.ofNat 4 c.packed

/-! ## What is written is read back -/

namespace Reader

theorem run_nat_append {n v : Nat} (h : v < Bytes.capacity n) (rest : Bytes) :
    (nat n).run (Bytes.ofNat n v ++ rest) = .ok (v, rest) := by
  rw [nat, run_bind_of_ok (run_take_append (by simp) rest), Bytes.toNat_ofNat_of_lt h, run_pure]

theorem run_paramId_append (id : ParamId) (rest : Bytes) :
    Reader.paramId.run (id.toBytes ++ rest) = .ok (id, rest) := by
  have h := run_nat_append (n := 2) (v := id.val.toBitVec.toNat) id.val.toBitVec.isLt rest
  rw [ParamId.toBytes, Reader.paramId, int16]
  simp [run_bind, h]

theorem run_number_append {k : NumberKind} (n : Number k) (rest : Bytes) :
    (number k).run (n.toBytes ++ rest) = .ok (n, rest) := by
  rw [number, run_bind_of_ok (run_take_append n.length_toBytes rest), Number.ofBytes_toBytes,
    run_pure]

theorem run_frame_append {w : Width} {bs : Bytes} (h : bs.length ≤ w.limit) (rest : Bytes) :
    (frame w).run (w.frame bs ++ rest) = .ok (bs, rest) := by
  have hlt : bs.length < Bytes.capacity w.size := by
    have := Bytes.capacity_pos w.size
    simp only [Width.limit] at h
    omega
  rw [Width.frame, List.take_of_length_le h, List.append_assoc, frame,
    run_bind_of_ok (run_nat_append hlt _), run_take_append rfl]

end Reader
end ParamSync
