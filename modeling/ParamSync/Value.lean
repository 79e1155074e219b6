import ParamSync.Address
import ParamSync.Code
import ParamSync.Color
import ParamSync.Text.Quoted

/-!
# Values

What a parameter can hold. A value knows only the shape of its data: whether a text is free,
chosen from a list or an address, and how a colour is written, is for the type definition to say.
-/

namespace ParamSync

/-- A value of a parameter. -/
inductive Value
  | boolean (b : Bool)
  | number (kind : NumberKind) (n : Number kind)
  | text (s : String)
  | color (c : Color)
  | ipv4 (a : Ipv4)
  | ipv6 (a : Ipv6)
  | range (lower upper : Value)
  | bytes (bs : Bytes)
deriving DecidableEq

namespace Value

/-- The value compared as the program compares: numbers as numbers, all else by equality. -/
def equal : Value → Value → Bool
  | boolean a, boolean b => a == b
  | number k a, number l b => if h : k = l then alike (h ▸ a) b else false
  | text a, text b => a == b
  | color a, color b => a == b
  | ipv4 a, ipv4 b => a == b
  | ipv6 a, ipv6 b => a == b
  | range a b, range c d => equal a c && equal b d
  | bytes a, bytes b => a == b
  | _, _ => false

instance : Alike Value := ⟨equal⟩

/-- The number of the kind `k` that the value is, if it is one. -/
def toNumber? (k : NumberKind) : Value → Option (Number k)
  | number l n => if h : l = k then some (h ▸ n) else none
  | _ => none

def numberKind? : Value → Option NumberKind
  | number k _ => some k
  | _ => none

def toText? : Value → Option String
  | text s => some s
  | _ => none

def toBool? : Value → Option Bool
  | boolean b => some b
  | _ => none

def toColor? : Value → Option Color
  | color c => some c
  | _ => none

def toIpv4? : Value → Option Ipv4
  | ipv4 a => some a
  | _ => none

def toIpv6? : Value → Option Ipv6
  | ipv6 a => some a
  | _ => none

/-- The value as people read it. -/
def display : Value → String
  | boolean b => if b then "true" else "false"
  | number _ n => n.text
  | text s => Text.quoted s
  | color c => c.text
  | ipv4 a => a.text
  | ipv6 a => a.text
  | range lower upper => lower.display ++ ".." ++ upper.display
  | bytes bs => toString bs.length ++ " bytes"

@[simp] theorem toNumber?_number (k : NumberKind) (n : Number k) :
    (number k n).toNumber? k = some n := by
  simp [toNumber?]

theorem toNumber?_eq_some_iff {k : NumberKind} {n : Number k} {v : Value} :
    v.toNumber? k = some n ↔ v = number k n := by
  constructor
  · intro h
    cases v <;> simp only [toNumber?, reduceCtorEq] at h
    split at h
    · next l m hl => subst hl; simp_all
    · cases h
  · rintro rfl; simp

end Value
end ParamSync
