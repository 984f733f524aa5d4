/-!
# HookTrace.Bytes

Byte strings as they are read out of memory and stored in records.

* `text`: the bytes in front of the first NUL.
* `startsWith`: whether one byte string begins with another.
* `toNatLE`, `toNatBE`: the number that a byte string spells in either byte order.
* `ofNatLE`: the bytes of a number, least significant first.
* `hexadecimal`: how an address is written in a message.
-/

namespace HookTrace

abbrev Bytes := List UInt8

namespace Bytes

/-- The bytes in front of the first NUL, all of them if there is none. -/
def text (bytes : Bytes) : Bytes :=
  bytes.takeWhile (· ≠ 0)

def ofString (s : String) : Bytes :=
  s.toUTF8.toList

def startsWith : (bytes start : Bytes) → Bool
  | _, [] => true
  | [], _ :: _ => false
  | b :: bytes, s :: start => b == s && startsWith bytes start

/-- The number spelt with the least significant byte first. -/
def toNatLE : Bytes → Nat
  | [] => 0
  | b :: rest => b.toNat + 256 * toNatLE rest

def toNatBE (bytes : Bytes) : Nat :=
  toNatLE bytes.reverse

/-- The `width` low bytes of a number, least significant first. -/
def ofNatLE : (width value : Nat) → Bytes
  | 0, _ => []
  | width + 1, value => UInt8.ofNat (value % 256) :: ofNatLE width (value / 256)

theorem length_ofNatLE (width value : Nat) : (ofNatLE width value).length = width := by
  induction width generalizing value with
  | zero => rfl
  | succ width ih => simp [ofNatLE, ih]

theorem toNatLE_ofNatLE (width value : Nat) :
    toNatLE (ofNatLE width value) = value % Nat.pow 256 width := by
  induction width generalizing value with
  | zero => simp [ofNatLE, toNatLE, Nat.mod_one]
  | succ width ih =>
    have hb : (UInt8.ofNat (value % 256)).toNat = value % 256 := by
      simp [UInt8.toNat_ofNat']
    have hp : Nat.pow 256 (width + 1) = 256 * Nat.pow 256 width := Nat.mul_comm _ _
    rw [ofNatLE, toNatLE, ih, hb, hp, Nat.mod_mul]

theorem zero_not_mem_text (bytes : Bytes) : (0 : UInt8) ∉ text bytes := by
  induction bytes with
  | nil => simp [text]
  | cons b rest ih =>
    by_cases hb : b = 0
    · simp [text, hb]
    · simpa [text, hb, eq_comm] using ih

end Bytes

/-- A number in hexadecimal, lower case and without leading zeros. -/
def hexadecimal (n : Nat) : String :=
  String.ofList (Nat.toDigits 16 n)

end HookTrace
