import HookTrace.Bytes

/-!
# HookTrace.Field

A byte field of fixed width, the building block of every record. A field always holds exactly
its width; writing into it replaces the bytes at its front and keeps the rest, so that a short
write into a field leaves what was behind it.
-/

namespace HookTrace

structure Field (n : Nat) where
  bytes : Bytes
  length_eq : bytes.length = n
deriving DecidableEq

namespace Field

variable {n : Nat}

def zero (n : Nat) : Field n :=
  ⟨List.replicate n 0, List.length_replicate⟩

def filled (n : Nat) (b : UInt8) : Field n :=
  ⟨List.replicate n b, List.length_replicate⟩

/-- Replaces the front of the field by `source`, or all of it if `source` is wider. -/
def overwrite (field : Field n) (source : Bytes) : Field n where
  bytes := (source ++ field.bytes.drop source.length).take n
  length_eq := by
    have h := field.length_eq
    simp only [List.length_take, List.length_append, List.length_drop]
    omega

/-- `source` from the front of the field, with zeros behind it. -/
def ofBytes (n : Nat) (source : Bytes) : Field n :=
  (zero n).overwrite source

/-- Sets the last byte to NUL, so that the field's text ends inside it. -/
def terminated (field : Field n) : Field n :=
  field.overwrite (field.bytes.take (n - 1) ++ [0])

def text (field : Field n) : Bytes :=
  Bytes.text field.bytes

/-- How many bytes behind the first `length` are not zero. -/
def nonzeroAfter (field : Field n) (length : Nat) : Nat :=
  (field.bytes.drop length).countP (· ≠ 0)

def toNatLE (field : Field n) : Nat :=
  Bytes.toNatLE field.bytes

@[simp] theorem length_bytes (field : Field n) : field.bytes.length = n :=
  field.length_eq

theorem ext_bytes {a b : Field n} (h : a.bytes = b.bytes) : a = b := by
  cases a; cases b; cases h; rfl

@[simp] theorem bytes_zero : (zero n).bytes = List.replicate n 0 := rfl

/-- A write that fits keeps the bytes behind it. -/
theorem bytes_overwrite (field : Field n) {source : Bytes} (h : source.length ≤ n) :
    (field.overwrite source).bytes = source ++ field.bytes.drop source.length := by
  have hb := field.length_eq
  simp only [overwrite]
  apply List.take_of_length_le
  simp only [List.length_append, List.length_drop]
  omega

end Field

end HookTrace
