import HookTrace.Cpu.Histogram
import Mathlib.Algebra.Group.Nat.Defs

/-!
# HookTrace.Proofs.Cpu.Doubling

The durations that each slot of a histogram takes.

* `log2Slot_eq`: the slot of a duration is its binary logarithm, or the last slot.
* `Halving.exists_ends`, `Halving.Ends.slot_eq`: halving a duration, one slot for each turn, comes
  to an end, and it ends in the slot of the duration.
* `le_log2Slot_iff`: a duration gets as far as a slot if it is not below the slot's power of two.
* `log2Slot_doubles`: so each slot takes the durations from its power of two up to the next one.
-/

namespace HookTrace.Cpu

theorem halvings_eq (remaining left : Nat) :
    halvings remaining left = min left (Nat.log2 remaining) := by
  induction left generalizing remaining with
  | zero => rw [halvings, Nat.zero_min]
  | succ left ih =>
    rw [halvings, Nat.log2_def remaining, ih]
    by_cases h : remaining ≤ 1
    · rw [if_pos h, if_neg (by omega), Nat.min_zero]
    · rw [if_neg h, if_pos (by omega), Nat.add_min_add_right]

theorem log2_max_one (n : Nat) : Nat.log2 (max 1 n) = Nat.log2 n := by
  cases n with
  | zero => rfl
  | succ n => rw [Nat.max_eq_right (Nat.succ_le_succ (Nat.zero_le n))]

theorem log2Slot_eq (value : UInt64) :
    log2Slot value = min (Limits.slots - 1) (Nat.log2 (max 1 value.toNat)) := by
  rw [log2_max_one]
  exact halvings_eq _ _

/-! ### Turn by turn -/

/-- A duration while it is halved: what remains of it, and the slot it has come to. -/
structure Halving where
  remaining : UInt64
  slot : Nat

namespace Halving

variable {a b last : Halving}

/-- Halves what remains and goes on to the next slot, unless no more than one remains or there is
no next slot. -/
def turn? (a : Halving) : Option Halving :=
  if 1 < a.remaining ∧ a.slot < Limits.slots - 1 then some ⟨a.remaining >>> 1, a.slot + 1⟩
  else none

/-- Taking turns comes to an end. -/
inductive Ends : Halving → Halving → Prop where
  | stop {a : Halving} : a.turn? = none → Ends a a
  | turn {a b last : Halving} : a.turn? = some b → Ends b last → Ends a last

theorem Ends.unique (h : Ends a b) (hlast : Ends a last) : b = last := by
  induction h with
  | stop hstop =>
    cases hlast with
    | stop => rfl
    | turn hturn => rw [hstop] at hturn; cases hturn
  | turn hturn _ ih =>
    cases hlast with
    | stop hstop => rw [hturn] at hstop; cases hstop
    | turn hturn' hlast =>
      rw [hturn] at hturn'
      cases hturn'
      exact ih hlast

/-- The induction is on the slots in front of the last one, which every turn has one less of. -/
theorem exists_ends_slot {slot left : Nat} (h : slot + left = Limits.slots - 1)
    (remaining : UInt64) :
    ∃ last, Ends ⟨remaining, slot⟩ last ∧ last.slot = slot + halvings remaining.toNat left := by
  induction left generalizing slot remaining with
  | zero =>
    have hlast : ¬ slot < Limits.slots - 1 := Nat.not_lt.2 (Nat.le_of_eq h.symm)
    exact ⟨⟨remaining, slot⟩, .stop (if_neg fun hturn => hlast hturn.2), rfl⟩
  | succ left ih =>
    have hone : (1 < remaining) ↔ 1 < remaining.toNat := UInt64.lt_iff_toNat_lt
    by_cases hremaining : remaining.toNat ≤ 1
    · have hstop : ¬ 1 < remaining := fun hlt => Nat.not_lt.2 hremaining (hone.1 hlt)
      refine ⟨⟨remaining, slot⟩, .stop (if_neg fun hturn => hstop hturn.1), ?_⟩
      rw [halvings, if_pos hremaining]
      rfl
    · have hnext : slot < Limits.slots - 1 := by omega
      have hturn : turn? ⟨remaining, slot⟩ = some ⟨remaining >>> 1, slot + 1⟩ :=
        if_pos ⟨hone.2 (Nat.lt_of_not_le hremaining), hnext⟩
      obtain ⟨last, hends, hslot⟩ := @ih (slot + 1) (by omega) (remaining >>> 1)
      have hhalf : (remaining >>> 1).toNat = remaining.toNat / 2 := by
        rw [UInt64.toNat_shiftRight]
        exact Nat.shiftRight_eq_div_pow _ 1
      refine ⟨last, .turn hturn hends, ?_⟩
      rw [hslot, hhalf, halvings, if_neg hremaining, Nat.add_assoc, Nat.add_comm 1]

theorem exists_ends (value : UInt64) : ∃ last, Ends ⟨value, 0⟩ last :=
  (exists_ends_slot (Nat.zero_add _) value).imp fun _ h => h.1

theorem Ends.slot_eq {value : UInt64} (h : Ends ⟨value, 0⟩ last) : last.slot = log2Slot value := by
  obtain ⟨_, hends, hslot⟩ := exists_ends_slot (Nat.zero_add _) value
  rw [h.unique hends, hslot, Nat.zero_add]
  rfl

end Halving

/-! ### What a slot takes -/

variable {value longer : UInt64} {slot : Nat}

theorem log2Slot_le (value : UInt64) : log2Slot value ≤ Limits.slots - 1 := by
  rw [log2Slot_eq]
  exact Nat.min_le_left _ _

/-- A duration gets as far as a slot behind the first if it reaches the slot's power of two. -/
theorem le_log2Slot_iff (value : UInt64) (h0 : 0 < slot) (hslot : slot ≤ Limits.slots - 1) :
    slot ≤ log2Slot value ↔ 2 ^ slot ≤ value.toNat := by
  rw [log2Slot_eq, log2_max_one, Nat.le_min, and_iff_right hslot]
  by_cases hvalue : value.toNat = 0
  · have hpow := Nat.two_pow_pos slot
    rw [hvalue, Nat.log2_zero]
    omega
  · exact Nat.le_log2 hvalue

theorem log2Slot_eq_zero_iff : log2Slot value = 0 ↔ value.toNat ≤ 1 := by
  have hone := le_log2Slot_iff value Nat.one_pos (by decide)
  omega

theorem log2Slot_eq_iff (h0 : 0 < slot) (hslot : slot < Limits.slots - 1) :
    log2Slot value = slot ↔ 2 ^ slot ≤ value.toNat ∧ value.toNat < 2 ^ (slot + 1) := by
  have hfrom := le_log2Slot_iff value h0 (Nat.le_of_lt hslot)
  have hto := le_log2Slot_iff value (Nat.succ_pos slot) hslot
  rw [← hfrom, ← Nat.not_le, ← hto]
  omega

theorem log2Slot_eq_last_iff :
    log2Slot value = Limits.slots - 1 ↔ 2 ^ (Limits.slots - 1) ≤ value.toNat := by
  rw [← le_log2Slot_iff value (by decide) (Nat.le_refl _)]
  have hle := log2Slot_le value
  omega

theorem log2Slot_mono (h : value ≤ longer) : log2Slot value ≤ log2Slot longer := by
  by_cases h0 : log2Slot value = 0
  · rw [h0]
    exact Nat.zero_le _
  · have hpos : 0 < log2Slot value := Nat.pos_of_ne_zero h0
    have hreached := (le_log2Slot_iff value hpos (log2Slot_le value)).1 (Nat.le_refl _)
    exact (le_log2Slot_iff longer hpos (log2Slot_le value)).2
      (Nat.le_trans hreached (UInt64.le_iff_toNat_le.1 h))

/-- Slots double. Halving a duration comes to an end, in the slot that is its binary logarithm
rounded down, or the last one. The first slot takes zero and one, each slot behind it what lies
between its power of two and the next, the last one all the rest. A longer duration never falls
into an earlier slot, and a histogram has every slot that a duration can fall into. -/
theorem log2Slot_doubles (value : UInt64) :
    ((∃ last, Halving.Ends ⟨value, 0⟩ last) ∧
      ∀ last, Halving.Ends ⟨value, 0⟩ last → last.slot = log2Slot value) ∧
    log2Slot value = min 31 (Nat.log2 (max value.toNat 1)) ∧
    (log2Slot value = 0 ↔ value = 0 ∨ value = 1) ∧
    (∀ slot, 1 ≤ slot → slot < 31 →
      (log2Slot value = slot ↔ 2 ^ slot ≤ value.toNat ∧ value.toNat ≤ 2 ^ (slot + 1) - 1)) ∧
    (log2Slot value = 31 ↔ 2 ^ 31 ≤ value.toNat) ∧
    (∀ longer, value ≤ longer → log2Slot value ≤ log2Slot longer) ∧
    log2Slot value < Limits.slots ∧
    (Histogram.slotIndex (log2Slot value)).val = log2Slot value := by
  refine ⟨⟨Halving.exists_ends value, fun last h => h.slot_eq⟩, ?logarithm, ?first, ?doubling,
    log2Slot_eq_last_iff, fun longer h => log2Slot_mono h, Nat.lt_succ_of_le (log2Slot_le value),
    Nat.min_eq_left (log2Slot_le value)⟩
  case logarithm =>
    rw [log2Slot_eq, Nat.max_comm]
    rfl
  case first =>
    rw [log2Slot_eq_zero_iff, ← UInt64.toNat_inj, ← UInt64.toNat_inj]
    show value.toNat ≤ 1 ↔ value.toNat = 0 ∨ value.toNat = 1
    omega
  case doubling =>
    intro slot h0 hslot
    have hpow := Nat.two_pow_pos (slot + 1)
    rw [log2Slot_eq_iff h0 hslot]
    omega

/-- Around the last power of two, and at the greatest duration there is. -/
theorem log2Slot_doubles_at_clamp :
    log2Slot 0x7fffffff = 30 ∧ log2Slot 0x80000000 = 31 ∧ log2Slot 0xffffffffffffffff = 31 ∧
    log2Slot 0x7fffffff ≤ log2Slot 0x80000000 := by
  obtain ⟨-, -, -, hbelow, -, hmono, -⟩ := log2Slot_doubles 0x7fffffff
  obtain ⟨-, -, -, -, hfrom, -⟩ := log2Slot_doubles 0x80000000
  obtain ⟨-, -, -, -, hgreatest, -⟩ := log2Slot_doubles 0xffffffffffffffff
  exact ⟨(hbelow 30 (by decide) (by decide)).2 (by decide), hfrom.2 (by decide),
    hgreatest.2 (by decide), hmono 0x80000000 (by decide)⟩

end HookTrace.Cpu
