import HookTrace.Bytes

/-!
# HookTrace.Utf8

Text from bytes that should be UTF-8 but may not be. What is well formed is decoded; each longest
start of a character that breaks off, and each byte that starts none, becomes one replacement
character.
-/

namespace HookTrace.Utf8

/-- Stands for what could not be decoded. -/
def replacement : Char := '\ufffd'

/-- What the first byte of a character says: its own bits, how many bytes follow, and between
which bounds the second byte lies. -/
structure Lead where
  bits : Nat
  following : Nat
  low : UInt8 := 0x80
  high : UInt8 := 0xbf

/-- The bounds of the second byte rule out overlong forms, surrogates and what is beyond the last
code point. -/
def lead? (b : UInt8) : Option Lead :=
  if b < 0x80 then some { bits := b.toNat, following := 0 }
  else if b < 0xc2 then none
  else if b < 0xe0 then some { bits := b.toNat - 0xc0, following := 1 }
  else if b < 0xf0 then
    some {
      bits := b.toNat - 0xe0
      following := 2
      low := if b == 0xe0 then 0xa0 else 0x80
      high := if b == 0xed then 0x9f else 0xbf }
  else if b < 0xf5 then
    some {
      bits := b.toNat - 0xf0
      following := 3
      low := if b == 0xf0 then 0x90 else 0x80
      high := if b == 0xf4 then 0x8f else 0xbf }
  else none

/-- Collects the bits of the bytes that follow, `none` if they break off, and what is left. -/
def follow : (count : Nat) → (low high : UInt8) → (bits : Nat) → Bytes → Option Nat × Bytes
  | 0, _, _, bits, rest => (some bits, rest)
  | _ + 1, _, _, _, [] => (none, [])
  | count + 1, low, high, bits, b :: rest =>
    if low ≤ b && b ≤ high then
      follow count 0x80 0xbf (bits * 64 + (b.toNat - 0x80)) rest
    else (none, b :: rest)

theorem length_follow_le (count : Nat) (low high : UInt8) (bits : Nat) (bytes : Bytes) :
    (follow count low high bits bytes).2.length ≤ bytes.length := by
  induction bytes generalizing count low high bits with
  | nil => cases count <;> simp [follow]
  | cons b rest ih =>
    cases count with
    | zero => simp [follow]
    | succ count =>
      simp only [follow]
      split
      · exact Nat.le_succ_of_le (ih ..)
      · exact Nat.le_refl _

theorem length_lt_of_follow {count : Nat} {low high : UInt8} {bits : Nat} {found : Option Nat}
    {bytes rest : Bytes} (h : follow count low high bits bytes = (found, rest)) (b : UInt8) :
    rest.length < (b :: bytes).length := by
  have hle := length_follow_le count low high bits bytes
  rw [h] at hle
  exact Nat.lt_succ_of_le hle

def decode : Bytes → List Char
  | [] => []
  | b :: rest =>
    match lead? b with
    | none => replacement :: decode rest
    | some lead =>
      match h : follow lead.following lead.low lead.high lead.bits rest with
      | (some code, rest') =>
        have := length_lt_of_follow h b
        Char.ofNat code :: decode rest'
      | (none, rest') =>
        have := length_lt_of_follow h b
        replacement :: decode rest'
termination_by bytes => bytes.length
decreasing_by
  · exact Nat.lt_succ_self _
  · exact this
  · exact this

end HookTrace.Utf8
