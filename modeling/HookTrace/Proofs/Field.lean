import HookTrace.Field
import Mathlib.Algebra.Group.Nat.Defs
import Mathlib.Data.List.TakeWhile

/-!
# HookTrace.Proofs.Field

Fields that text was written into. A text that fits is found in its field again, zeros fill the
rest, and neither a terminator that is written with it nor one that is set afterwards makes a
difference.

Fields that spell numbers: no two spell the same one (`Field.eq_of_toNatLE_eq`).
-/

namespace HookTrace

theorem Bytes.text_of_not_mem {bytes : Bytes} (h : (0 : UInt8) ∉ bytes) : text bytes = bytes := by
  refine List.takeWhile_eq_self_iff.2 ?_
  intro b hb
  have hne : b ≠ 0 := fun heq => h (heq ▸ hb)
  simpa using hne

/-- The text ends at its terminator, so zeros behind it add nothing. -/
theorem Bytes.text_append_replicate (bytes : Bytes) (count : Nat) :
    text (bytes ++ List.replicate count 0) = text bytes := by
  induction bytes with
  | nil => cases count <;> simp [text, List.replicate_succ]
  | cons b rest ih =>
    by_cases hb : b = 0
    · simp [text, hb]
    · simpa [text, hb] using ih

theorem Bytes.text_append_zeros {bytes : Bytes} (h : (0 : UInt8) ∉ bytes) (count : Nat) :
    text (bytes ++ List.replicate count 0) = bytes := by
  rw [text_append_replicate, text_of_not_mem h]

/-- The text ends at its terminator, whatever is behind it. -/
theorem Bytes.text_append_nul {bytes : Bytes} (h : (0 : UInt8) ∉ bytes) (rest : Bytes) :
    text (bytes ++ 0 :: rest) = bytes := by
  have hself := text_of_not_mem h
  unfold text at hself ⊢
  rw [List.takeWhile_append_of_pos (List.takeWhile_eq_self_iff.1 hself),
    List.takeWhile_cons_of_neg (by decide), List.append_nil]

/-- A start without NULs does not reach behind the text. -/
theorem Bytes.isPrefix_text_iff (bytes : Bytes) {start : Bytes} (h0 : (0 : UInt8) ∉ start) :
    start <+: text bytes ↔ start <+: bytes := by
  constructor
  · intro hstart
    exact hstart.trans (List.takeWhile_prefix _)
  · rintro ⟨rest, rfl⟩
    have hself := text_of_not_mem h0
    unfold text at hself ⊢
    rw [List.takeWhile_append_of_pos (List.takeWhile_eq_self_iff.1 hself)]
    exact List.prefix_append start _

theorem Bytes.isPrefix_append_zeros_iff (bytes : Bytes) {start : Bytes}
    (h0 : (0 : UInt8) ∉ start) (count : Nat) :
    start <+: bytes ++ List.replicate count 0 ↔ start <+: bytes := by
  rw [← isPrefix_text_iff _ h0, text_append_replicate, isPrefix_text_iff _ h0]

theorem Bytes.toNatLE_lt (bytes : Bytes) : toNatLE bytes < 256 ^ bytes.length := by
  induction bytes with
  | nil => exact Nat.one_pos
  | cons b rest ih =>
    have hb : b.toNat < 256 := b.toNat_lt
    rw [toNatLE, List.length_cons, Nat.pow_succ]
    omega

theorem Bytes.ofNatLE_toNatLE (bytes : Bytes) :
    ofNatLE bytes.length (toNatLE bytes) = bytes := by
  induction bytes with
  | nil => rfl
  | cons b rest ih =>
    have hb : b.toNat < 256 := b.toNat_lt
    have hlow : (b.toNat + 256 * toNatLE rest) % 256 = b.toNat := by omega
    have hhigh : (b.toNat + 256 * toNatLE rest) / 256 = toNatLE rest := by omega
    rw [toNatLE, List.length_cons, ofNatLE, hlow, hhigh, ih, UInt8.ofNat_toNat]

namespace Field

variable {n : Nat} {source : Bytes}

theorem toNatLE_lt (field : Field n) : field.toNatLE < 256 ^ n := by
  have hlt := Bytes.toNatLE_lt field.bytes
  rwa [field.length_eq] at hlt

theorem ofNatLE_toNatLE (field : Field n) : Bytes.ofNatLE n field.toNatLE = field.bytes := by
  have hself := Bytes.ofNatLE_toNatLE field.bytes
  rwa [field.length_eq] at hself

theorem eq_of_toNatLE_eq {a b : Field n} (h : a.toNatLE = b.toNatLE) : a = b := by
  apply ext_bytes
  rw [← a.ofNatLE_toNatLE, h, b.ofNatLE_toNatLE]

theorem bytes_ofBytes (h : source.length ≤ n) :
    (ofBytes n source).bytes = source ++ List.replicate (n - source.length) 0 := by
  rw [ofBytes, bytes_overwrite _ h, bytes_zero, List.drop_replicate]

/-- What is behind a text that fits is zero already. -/
theorem ofBytes_append_zero (h : source.length < n) :
    ofBytes n (source ++ [0]) = ofBytes n source := by
  have hrest : n - source.length = n - (source.length + 1) + 1 := by omega
  apply ext_bytes
  rw [bytes_ofBytes (by rw [List.length_append]; exact h), bytes_ofBytes (Nat.le_of_lt h), hrest,
    List.length_append, List.length_singleton, List.replicate_succ]
  simp

theorem terminated_ofBytes (h : source.length < n) :
    (ofBytes n source).terminated = ofBytes n source := by
  have hbytes := bytes_ofBytes (Nat.le_of_lt h)
  have hrest : n - source.length = n - 1 - source.length + 1 := by omega
  have htake : (ofBytes n source).bytes.take (n - 1) ++ [0] = (ofBytes n source).bytes := by
    rw [hbytes, List.take_append, List.take_of_length_le (by omega), List.take_replicate,
      Nat.min_eq_left (by omega), List.append_assoc, hrest, List.replicate_succ']
  apply ext_bytes
  rw [terminated, htake, bytes_overwrite _ (Nat.le_of_eq (length_bytes _)), length_bytes,
    List.drop_of_length_le (Nat.le_of_eq (length_bytes _)), List.append_nil]

theorem text_ofBytes (h : source.length ≤ n) (h0 : (0 : UInt8) ∉ source) :
    (ofBytes n source).text = source := by
  rw [text, bytes_ofBytes h, Bytes.text_append_zeros h0]

theorem isPrefix_ofBytes (h : source.length ≤ n) : source <+: (ofBytes n source).bytes := by
  rw [bytes_ofBytes h]
  exact List.prefix_append source _

/-- A text that ends inside the field. -/
theorem length_text_lt {field : Field n} (h0 : (0 : UInt8) ∈ field.bytes) :
    field.text.length < n := by
  refine Nat.lt_of_le_of_ne ?_ fun heq => ?_
  · exact (List.takeWhile_prefix _).length_le.trans (Nat.le_of_eq field.length_bytes)
  -- a text as long as the field is all of it
  · have hall : field.text = field.bytes :=
      (List.takeWhile_prefix _).eq_of_length (heq.trans field.length_bytes.symm)
    have hmem : (0 : UInt8) ∈ field.text := by rw [hall]; exact h0
    exact Bytes.zero_not_mem_text field.bytes hmem

theorem zero_mem_terminated (h : 0 < n) (field : Field n) :
    (0 : UInt8) ∈ field.terminated.bytes := by
  have hlen : (field.bytes.take (n - 1) ++ [0]).length ≤ n := by
    rw [List.length_append, List.length_take, length_bytes, List.length_singleton]
    omega
  rw [terminated, bytes_overwrite _ hlen]
  exact List.mem_append_left _ (List.mem_append_right _ (List.mem_singleton_self 0))

/-- Behind what was written into a blank field there is nothing, also if it was cut. -/
theorem nonzeroAfter_ofBytes (n : Nat) (source : Bytes) :
    (ofBytes n source).nonzeroAfter source.length = 0 := by
  show (((source ++ (List.replicate n 0).drop source.length).take n).drop
    source.length).countP _ = 0
  rw [List.drop_take, List.drop_left, List.drop_replicate, List.take_replicate,
    List.countP_replicate]
  rfl

theorem nonzeroAfter_of_length {length : Nat} (h : source.length = length) :
    (ofBytes n source).nonzeroAfter length = 0 :=
  h ▸ nonzeroAfter_ofBytes n source

/-- A start without NULs does not reach into the zeros. -/
theorem isPrefix_ofBytes_iff {start : Bytes} (h : source.length ≤ n)
    (h0 : (0 : UInt8) ∉ start) : start <+: (ofBytes n source).bytes ↔ start <+: source := by
  rw [bytes_ofBytes h]
  exact Bytes.isPrefix_append_zeros_iff source h0 _

end Field

end HookTrace
