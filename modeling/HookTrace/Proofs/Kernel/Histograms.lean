import HookTrace.Kernel.Output
import HookTrace.Proofs.Cpu.Increments

/-!
# HookTrace.Proofs.Kernel.Histograms

The kernel's histograms, next to those of a tracer. A new histogram is created in two ways: a tracer
looks for room first, and the kernel inserts, whether that does something or not, and looks the
group up again. While nothing but its size limits the kernel's map, both come to the same
(`Alike.serve`).
-/

namespace HookTrace.Kernel

open Cpu

namespace HistogramMap

variable {map : HistogramMap} {tgid : UInt32} {i : Increment}

theorem bump_of_some {histogram : Histogram} (h : map.groups[tgid]? = some histogram)
    (slot : Nat) :
    map.bump tgid slot =
      .ok { map with groups := map.groups.insert tgid (histogram.bump slot) } := by
  unfold bump
  rw [h]

theorem insertNew_of_full (h : map.capacity ≤ map.groups.size) (histogram : Histogram) :
    map.insertNew tgid histogram = map := by
  simp [insertNew, h]

/-- What is not found after an insertion was not inserted. -/
theorem insertNew_of_bump_eq_error {histogram : Histogram} {slot : Nat} {fault : Fault}
    (h : (map.insertNew tgid histogram).bump tgid slot = .error fault) :
    map.insertNew tgid histogram = map := by
  unfold insertNew at h ⊢
  split
  · rfl
  · rename_i hnew
    rw [if_neg hnew, bump_of_some Std.TreeMap.getElem?_insert_self] at h
    cases h

theorem serve_of_some {histogram : Histogram} (h : map.groups[i.tgid]? = some histogram) :
    serve map i = (⟨.ok (), 0⟩,
      { map with groups := map.groups.insert i.tgid (histogram.bump i.slot) }) := by
  apply serve_of_pure
  have hmem : map.groups.contains i.tgid := by
    rw [Std.TreeMap.contains_eq_isSome_getElem?, h]
    rfl
  simp only [HistogramTable.increment, increment, if_pos hmem, bump_of_some h]

theorem serve_of_none (h : map.groups[i.tgid]? = none) :
    serve map i = outcome map (i.name.bind fun comm =>
      (map.insertNew i.tgid (.fresh comm)).bump i.tgid i.slot, 1) := by
  apply serve_of_asked
  have hmem : ¬ map.groups.contains i.tgid := by
    rw [Std.TreeMap.contains_eq_isSome_getElem?, h]
    exact Bool.false_ne_true
  exact if_neg hmem

/-- Nothing but its size limits the map, and it holds what the set of histograms holds. -/
structure Alike (histograms : Histograms) (map : HistogramMap) : Prop where
  capacity_eq : map.capacity = histograms.capacity
  accepts : map.refuses = false
  equiv : map.groups.Equiv histograms.groups

namespace Alike

variable {histograms : Histograms}

theorem empty (capacity : Nat) : Alike (.empty capacity) (.empty capacity) :=
  ⟨rfl, rfl, .rfl⟩

theorem getElem?_eq (h : Alike histograms map) (tgid : UInt32) :
    map.groups[tgid]? = histograms.get? tgid :=
  h.equiv.getElem?_eq

theorem insert (h : Alike histograms map) (tgid : UInt32) (histogram : Histogram) :
    Alike (histograms.insert tgid histogram)
      { map with groups := map.groups.insert tgid histogram } :=
  ⟨h.capacity_eq, h.accepts, h.equiv.insert tgid histogram⟩

/-- A fresh histogram that is inserted and then counted in is inserted as counted in. -/
theorem bump_insertNew (h : Alike histograms map) (hnone : histograms.get? tgid = none)
    (hroom : histograms.size < histograms.capacity) (histogram : Histogram) (slot : Nat) :
    ∃ next, (map.insertNew tgid histogram).bump tgid slot = .ok next ∧
      Alike (histograms.insert tgid (histogram.bump slot)) next := by
  have hmem : map.groups.contains tgid = false := by
    rw [Std.TreeMap.contains_eq_isSome_getElem?, h.getElem?_eq, hnone]
    rfl
  have hsize : ¬ map.groups.size ≥ map.capacity := by
    rw [h.equiv.size_eq, h.capacity_eq]
    exact Nat.not_le.2 hroom
  have hnew : map.insertNew tgid histogram =
      { map with groups := map.groups.insert tgid histogram } := by
    simp [insertNew, h.accepts, hmem, hsize]
  rw [hnew, bump_of_some Std.TreeMap.getElem?_insert_self]
  refine ⟨_, rfl, h.capacity_eq, h.accepts, .trans (.of_forall_constGet?_eq fun other => ?_)
    (h.equiv.insert tgid (histogram.bump slot))⟩
  simp only [Std.TreeMap.getElem?_insert]
  split <;> rfl

theorem serve (h : Alike histograms map) (i : Increment) :
    (serve histograms i).1 = (serve map i).1 ∧ Alike (serve histograms i).2 (serve map i).2 := by
  have hmap := h.getElem?_eq i.tgid
  cases hget : histograms.get? i.tgid with
  | some histogram =>
    rw [hget] at hmap
    rw [Histograms.serve_of_some hget, serve_of_some hmap]
    exact ⟨rfl, h.insert i.tgid _⟩
  | none =>
    rw [hget] at hmap
    rw [Histograms.serve_of_none hget, serve_of_none hmap]
    cases i.name with
    | error fault => exact ⟨rfl, h⟩
    | ok comm =>
      by_cases hroom : histograms.size < histograms.capacity
      · obtain ⟨next, hnext, halike⟩ := h.bump_insertNew hget hroom (.fresh comm) i.slot
        simp only [Except.bind, if_pos hroom, hnext]
        exact ⟨rfl, halike⟩
      · have hfull : map.capacity ≤ map.groups.size := by
          rw [h.equiv.size_eq, h.capacity_eq]
          exact Nat.not_lt.1 hroom
        simp only [Except.bind, if_neg hroom, insertNew_of_full hfull, bump, hmap]
        exact ⟨rfl, h⟩

theorem transcript (h : Alike histograms map) (increments : List Increment) :
    (Store.transcript Cpu.serve histograms increments).1 =
        (Store.transcript Cpu.serve map increments).1 ∧
      Alike (Store.transcript Cpu.serve histograms increments).2
        (Store.transcript Cpu.serve map increments).2 :=
  Store.transcript_alike Alike (fun i h => h.serve i) h increments

end Alike

/-- However many groups are allowed, a tracer's histograms and the kernel's answer every increment
alike, as the log tells (`answerTo`), and both hold what was counted. An increment that fails leaves
no trace, in the kernel neither, which inserts before it looks. -/
theorem increments_agree (capacity : Nat) (increments : List Increment) :
    let host := Store.transcript Cpu.serve (Histograms.empty capacity) increments
    let kernel := Store.transcript Cpu.serve (empty capacity) increments
    kernel.1 = host.1 ∧
    (∀ tgid : UInt32, kernel.2.groups[tgid]? = host.2.get? tgid) ∧
    (∀ earlier i a later, host.1 = earlier ++ (i, a) :: later → a = answerTo capacity earlier i) ∧
    (∀ tgid, Recorded (counted host.1 tgid) (host.2.get? tgid)) ∧
    (∀ i fault, (Cpu.serve host.2 i).1.result = .error fault →
      (Cpu.serve host.2 i).2 = host.2 ∧ (Cpu.serve kernel.2 i).2 = kernel.2) ∧
    (∀ tgid histogram slot fault,
      (kernel.2.insertNew tgid histogram).bump tgid slot = .error fault →
        kernel.2.insertNew tgid histogram = kernel.2) ∧
    host.2.tgids.Pairwise (· < ·) ∧ kernel.2.groups.keys = host.2.tgids ∧
    (∀ tgid, tgid ∈ host.2.tgids ↔ tgid ∈ countedGroups host.1) ∧
    host.2.size = (countedGroups host.1).card ∧ host.2.size ≤ capacity := by
  intro host kernel
  obtain ⟨hlog, halike⟩ := (Alike.empty capacity).transcript increments
  have hfaithful := Histograms.Faithful.run capacity increments
  refine ⟨hlog.symm, halike.getElem?_eq, fun _ _ _ _ => hfaithful.answered, hfaithful.recorded,
    fun i fault hfault => ⟨serve_of_error hfault, ?_⟩,
    fun _ _ _ _ => insertNew_of_bump_eq_error, Histograms.tgids_ascending _,
    halike.equiv.keys_eq, fun _ => hfaithful.mem_tgids_iff, hfaithful.size_eq, ?_⟩
  · rw [(halike.serve i).1] at hfault
    exact serve_of_error hfault
  · rw [hfaithful.size_eq]
    exact hfaithful.card_le

/-- Room for one group. Its name is asked for until it is known, and not again; the next group is
named and refused. -/
theorem increments_agree_full :
    let fault := Fault.noBuffer "current comm"
    let name : Comm := Field.zero _
    let increments : List Increment :=
      [⟨7, 3, .error fault⟩, ⟨7, 40, .ok name⟩, ⟨7, 40, .error fault⟩, ⟨8, 3, .ok name⟩]
    (Store.transcript Cpu.serve (empty 1) increments).1 = increments.zip
      [⟨.error fault, 1⟩, ⟨.ok (), 1⟩, ⟨.ok (), 0⟩, ⟨.error histogramsFull, 1⟩] :=
  (increments_agree 1 _).1.trans rfl

end HistogramMap

end HookTrace.Kernel
