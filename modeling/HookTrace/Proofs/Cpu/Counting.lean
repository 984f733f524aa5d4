import HookTrace.Proofs.Cpu.Doubling
import HookTrace.Proofs.Cpu.Slices
import HookTrace.Proofs.Store.Capacity

/-!
# HookTrace.Proofs.Cpu.Counting

What counting one more slice does to a set of histograms.

* `Histograms.Roomy`: a set of histograms that only ever sees processes of a set no larger than its
  capacity. It refuses none of them (`Roomy.increment`).
* `Tallied`: a histogram holds the tally of the slices of its process. It is kept by a switch that
  counts nothing for the process (`tallied_of_not_counts`) and by one whose slice is counted
  (`tallied_of_slice`).
-/

namespace HookTrace.Cpu

theorem Histogram.counts_bump (histogram : Histogram) (slot : Nat) (k : Fin Limits.slots) :
    (histogram.bump slot).counts[k] =
      histogram.counts[k] + if min slot (Limits.slots - 1) = k then 1 else 0 := by
  unfold bump
  simp only [Fin.getElem_fin, Vector.getElem_set, slotIndex]
  split
  · rename_i h
    simp only [h]
  · rw [UInt32.add_zero]

theorem Histogram.comm_bump (histogram : Histogram) (slot : Nat) :
    (histogram.bump slot).comm = histogram.comm := rfl

theorem Histogram.counts_fresh (comm : Comm) (k : Fin Limits.slots) :
    (fresh comm).counts[k] = 0 := by
  simp [fresh]

namespace Histograms

variable {histograms : Histograms} {tgids : Finset UInt32}

theorem get?_empty (capacity : Nat) (tgid : UInt32) : (empty capacity).get? tgid = none := by
  simp [get?, empty]

theorem get?_insert (histograms : Histograms) (tgid : UInt32) (histogram : Histogram)
    (other : UInt32) : (histograms.insert tgid histogram).get? other =
      if other = tgid then some histogram else histograms.get? other := by
  simp only [get?, insert, Std.TreeMap.getElem?_insert, Std.LawfulEqCmp.compare_eq_iff_eq]
  by_cases h : other = tgid
  · rw [if_pos h.symm, if_pos h]
  · rw [if_neg (Ne.symm h), if_neg h]

/-- There is room for a histogram of each of `tgids`, and there are no others. -/
structure Roomy (histograms : Histograms) (tgids : Finset UInt32) : Prop where
  card_le : tgids.card ≤ histograms.capacity
  mem : ∀ tgid histogram, histograms.get? tgid = some histogram → tgid ∈ tgids

namespace Roomy

theorem empty {capacity : Nat} (h : tgids.card ≤ capacity) : (empty capacity).Roomy tgids where
  card_le := h
  mem := by
    intro tgid histogram hget
    rw [get?_empty] at hget
    cases hget

theorem insert (h : histograms.Roomy tgids) {tgid : UInt32} (ht : tgid ∈ tgids)
    (histogram : Histogram) : (histograms.insert tgid histogram).Roomy tgids where
  card_le := h.card_le
  mem := by
    intro other found hget
    rw [get?_insert] at hget
    split at hget
    · rename_i heq
      exact heq ▸ ht
    · exact h.mem other found hget

/-- A process of the set that has no histogram yet can get one. -/
theorem size_lt (h : histograms.Roomy tgids) {tgid : UInt32} (ht : tgid ∈ tgids)
    (hnone : histograms.get? tgid = none) : histograms.size < histograms.capacity := by
  have hmem : ∀ other ∈ tgid :: histograms.groups.keys, other ∈ tgids := by
    intro other hm
    rcases List.mem_cons.1 hm with rfl | hm
    · exact ht
    · have hmem := Std.TreeMap.mem_keys.1 hm
      exact h.mem other _ (Std.TreeMap.getElem?_eq_some_getElem hmem)
  have hnodup : (tgid :: histograms.groups.keys).Nodup := by
    refine List.nodup_cons.2 ⟨fun hm => ?_, ?_⟩
    · have hmem := Std.TreeMap.mem_keys.1 hm
      have hsome : histograms.get? tgid = _ := Std.TreeMap.getElem?_eq_some_getElem hmem
      rw [hnone] at hsome
      cases hsome
    · exact Std.TreeMap.nodup_keys
  have hcard := Store.length_le_card hnodup hmem
  rw [List.length_cons, Std.TreeMap.length_keys] at hcard
  have hcapacity := h.card_le
  show histograms.groups.size < _
  omega

/-- A process of the set is counted, and named if it is new. -/
theorem increment (h : histograms.Roomy tgids) {tgid : UInt32} (ht : tgid ∈ tgids) (slot : Nat)
    (comm : Comm) : (histograms.increment tgid slot (pure (.ok comm)) : Id _) =
      .ok (histograms.insert tgid
        (((histograms.get? tgid).getD (.fresh comm)).bump slot)) := by
  unfold Histograms.increment
  cases hget : histograms.get? tgid with
  | some histogram => rfl
  | none =>
    have hsize := Nat.not_le.2 (h.size_lt ht hget)
    simp only [pure, bind, hsize, if_false]
    rfl

end Roomy

end Histograms

/-! ### Histograms as tallies -/

/-- The slot that a slice is counted in. -/
theorem log2Slot_between {began ended : ContextSwitch} (h : began.now < ended.now) :
    log2Slot ((ended.now - began.now) / Switch.nanosecondsPerMillisecond) =
      slotBetween began ended := by
  have hsub : (ended.now - began.now).toNat = ended.now.toNat - began.now.toNat :=
    UInt64.toNat_sub_of_le _ _ (UInt64.le_of_lt h)
  rw [log2Slot_eq, UInt64.toNat_div, hsub]
  rfl

theorem slotBetween_lt (began ended : ContextSwitch) : slotBetween began ended < Limits.slots :=
  Nat.lt_of_le_of_lt (Nat.min_le_left _ _) (by decide)

variable {scope : Scope} {switches : List ContextSwitch} {s : ContextSwitch} {tgid : UInt32}

/-- A process has a histogram if a slice of it was counted. It holds the tally, and the name that
its first slice was counted under. -/
def Tallied (scope : Scope) (switches : List ContextSwitch) (tgid : UInt32) :
    Option Histogram → Prop
  | none => ∀ slot i, ¬ Counts scope switches tgid slot i
  | some histogram =>
    (∀ slot : Fin Limits.slots,
      histogram.counts[slot] = UInt32.ofNat (tally scope switches tgid slot)) ∧
    ∃ j i began ended, Slice scope switches j i began ended ∧ ended.prev.tgid = tgid ∧
      histogram.comm = ended.prev.comm ∧ ∀ k < i, ∀ slot, ¬ Counts scope switches tgid slot k

/-- A switch that does not count for a process leaves its histogram right. -/
theorem tallied_of_not_counts {histogram : Option Histogram}
    (h : Tallied scope switches tgid histogram)
    (hnot : ∀ slot, ¬ Counts scope (switches ++ [s]) tgid slot switches.length) :
    Tallied scope (switches ++ [s]) tgid histogram := by
  cases histogram with
  | none =>
    intro slot i hc
    rcases counts_concat_iff.1 hc with hc | ⟨rfl, hc⟩
    · exact h slot i hc
    · exact hnot slot hc
  | some histogram =>
    obtain ⟨hcounts, j, i, began, ended, hslice, htgid, hcomm, hfirst⟩ := h
    obtain ⟨hslice, hfirst⟩ := first_concat (s := s) hslice hfirst
    refine ⟨fun slot => ?_, j, i, began, ended, hslice, htgid, hcomm, hfirst⟩
    rw [hcounts slot, tally_concat, if_neg (hnot slot), Nat.add_zero]

/-- A slice that is counted in its slot keeps its process's histogram right. -/
theorem tallied_of_slice {histogram : Option Histogram} {j : Nat} {began : ContextSwitch}
    (h : Tallied scope switches s.prev.tgid histogram)
    (hslice : Slice scope (switches ++ [s]) j switches.length began s) :
    Tallied scope (switches ++ [s]) s.prev.tgid
      (some ((histogram.getD (.fresh s.prev.comm)).bump (slotBetween began s))) := by
  have hbefore : ∀ slot : Fin Limits.slots, (histogram.getD (.fresh s.prev.comm)).counts[slot] =
      UInt32.ofNat (tally scope switches s.prev.tgid slot) := by
    intro slot
    cases histogram with
    | none =>
      have hzero : tally scope switches s.prev.tgid slot = 0 :=
        List.countP_eq_zero.2 fun i _ => by simpa only [decide_eq_true_eq] using h slot i
      rw [Option.getD_none, Histogram.counts_fresh, hzero]
      rfl
    | some histogram => exact h.1 slot
  refine ⟨fun slot => ?_, ?_⟩
  · have hmin : min (slotBetween began s) (Limits.slots - 1) = slotBetween began s :=
      Nat.min_eq_left (Nat.le_of_lt_succ (slotBetween_lt began s))
    rw [Histogram.counts_bump, hbefore slot, tally_concat, hmin]
    simp only [hslice.counts_iff, true_and]
    split
    · exact (UInt32.ofNat_add _ _).symm
    · exact UInt32.add_zero _
  · rw [Histogram.comm_bump]
    cases histogram with
    | none =>
      refine ⟨j, switches.length, began, s, hslice, rfl, rfl, fun k hk slot hc => ?_⟩
      exact h slot k ((counts_concat_iff_of_lt hk).1 hc)
    | some histogram =>
      obtain ⟨-, j', i, began', ended, hslice', htgid, hcomm, hfirst⟩ := h
      obtain ⟨hslice', hfirst⟩ := first_concat (s := s) hslice' hfirst
      exact ⟨j', i, began', ended, hslice', htgid, hcomm, hfirst⟩

end HookTrace.Cpu
