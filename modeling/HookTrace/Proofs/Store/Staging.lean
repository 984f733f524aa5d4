import HookTrace.Store.PerCpu

/-!
# HookTrace.Proofs.Store.Staging

Staging records. One that is not in use can be acquired, and afterwards that of its worker is in use
and no other (`acquire_of_free`); one that is given back can be acquired again (`free_release_iff`).

Between two hooks none is in use (`Idle`). A processor that has one can then reserve it, and whatever
is written into it, giving it back leaves the pool as usable as before; a processor that has none is
refused.
-/

namespace HookTrace.Store

variable {ρ : Type}

namespace StagingPool

variable {pool : StagingPool ρ} {n worker : Nat}

/-- The worker has a staging record, and it is not in use. -/
def Free (pool : StagingPool ρ) (worker : Nat) : Prop :=
  ∃ cell, pool.cells[worker]? = some cell ∧ cell.held = false

theorem lt_workers_of_free (h : pool.Free worker) : worker < pool.workers := by
  obtain ⟨cell, hcell, -⟩ := h
  exact (Array.getElem?_eq_some_iff.1 hcell).1

theorem free_empty_iff [Layout ρ] (workers worker : Nat) :
    (empty workers : StagingPool ρ).Free worker ↔ worker < max workers 1 := by
  unfold Free empty
  rw [Array.getElem?_replicate]
  by_cases h : worker < max workers 1
  · rw [if_pos h]
    exact iff_of_true ⟨_, rfl, rfl⟩ h
  · rw [if_neg h]
    exact iff_of_false (fun ⟨_, hcell, _⟩ => by cases hcell) h

/-- A staging record that is replaced says itself whether it is in use; the others stay. -/
theorem free_set_iff (h : worker < pool.workers) (cell : Cell ρ) (i : Nat) :
    (⟨pool.cells.setIfInBounds worker cell⟩ : StagingPool ρ).Free i ↔
      if i = worker then cell.held = false else pool.Free i := by
  have h : worker < pool.cells.size := h
  unfold Free
  rw [Array.getElem?_setIfInBounds]
  by_cases hi : i = worker
  · rw [if_pos hi.symm, if_pos h, if_pos hi]
    simp
  · rw [if_neg (Ne.symm hi), if_neg hi]

theorem acquire_of_not_free (h : ¬ pool.Free worker) : pool.acquire worker = none := by
  unfold acquire
  cases hcell : pool.cells[worker]? with
  | none => rfl
  | some cell =>
    cases hheld : cell.held with
    | false => exact absurd ⟨cell, hcell, hheld⟩ h
    | true => simp [hheld]

/-- Whoever acquires a staging record takes that of one worker, and leaves those of the others. -/
theorem acquire_of_free (h : pool.Free worker) : ∃ record held,
    pool.acquire worker = some (⟨worker, record⟩, held) ∧ held.workers = pool.workers ∧
      ∀ i, held.Free i ↔ i ≠ worker ∧ pool.Free i := by
  obtain ⟨cell, hcell, hfree⟩ := id h
  refine ⟨cell.record, ⟨pool.cells.setIfInBounds worker { cell with held := true }⟩, ?_,
    Array.size_setIfInBounds, fun i => ?_⟩
  · rw [acquire, hcell]
    simp [hfree]
  · rw [free_set_iff (lt_workers_of_free h)]
    by_cases hi : i = worker <;> simp [hi]

theorem workers_release (slot : Slot ρ) : (pool.release slot).workers = pool.workers :=
  Array.size_setIfInBounds

theorem free_release_iff {slot : Slot ρ} (h : slot.cpu < pool.workers) (i : Nat) :
    (pool.release slot).Free i ↔ i = slot.cpu ∨ pool.Free i := by
  unfold release
  rw [free_set_iff h]
  by_cases hi : i = slot.cpu <;> simp [hi]

/-- There are `n` staging records, and none is in use. -/
structure Idle (pool : StagingPool ρ) (n : Nat) : Prop where
  size_eq : pool.cells.size = n
  free : ∀ (i : Nat) (cell : Cell ρ), pool.cells[i]? = some cell → cell.held = false

theorem idle_of_free (hsize : pool.workers = n) (h : ∀ i < n, pool.Free i) : pool.Idle n where
  size_eq := hsize
  free := by
    intro i cell hcell
    have hi : i < pool.workers := (Array.getElem?_eq_some_iff.1 hcell).1
    obtain ⟨found, hfound, hfree⟩ := h i (hsize ▸ hi)
    cases hfound.symm.trans hcell
    exact hfree

theorem idle_empty [Layout ρ] (workers : Nat) :
    (empty workers : StagingPool ρ).Idle (max workers 1) :=
  idle_of_free Array.size_replicate fun i hi => (free_empty_iff workers i).2 hi

namespace Idle

theorem free_of_lt (h : pool.Idle n) (hn : worker < n) : pool.Free worker := by
  have hcell := Array.getElem?_eq_getElem (h.size_eq ▸ hn : worker < pool.cells.size)
  exact ⟨_, hcell, h.free worker _ hcell⟩

theorem acquire_of_le (h : pool.Idle n) (hn : n ≤ worker) : pool.acquire worker = none := by
  refine acquire_of_not_free fun hfree => ?_
  have hlt : worker < n := h.size_eq ▸ lt_workers_of_free hfree
  exact Nat.not_lt.2 hn hlt

theorem acquire_of_lt (h : pool.Idle n) (hn : worker < n) :
    ∃ record held, pool.acquire worker = some (⟨worker, record⟩, held) ∧
      ∀ record, (held.release ⟨worker, record⟩).Idle n := by
  obtain ⟨record, held, hacquire, hworkers, hfree⟩ := acquire_of_free (h.free_of_lt hn)
  have hsize : held.workers = n := hworkers.trans h.size_eq
  refine ⟨record, held, hacquire, fun record => ?_⟩
  refine idle_of_free ((workers_release _).trans hsize) fun i hi => ?_
  rw [free_release_iff (hsize.symm ▸ hn)]
  by_cases hother : i = worker
  · exact .inl hother
  · exact .inr ((hfree i).2 ⟨hother, h.free_of_lt hi⟩)

end Idle

end StagingPool

namespace PerCpuQueues

/-- A channel after records were handed to it, each with the processor it was filled in on. -/
def outputs (channel : PerCpuQueues ρ) (records : List (Nat × ρ)) : PerCpuQueues ρ :=
  records.foldl (fun channel e => (channel.output e.1 e.2).1) channel

theorem outputs_append (channel : PerCpuQueues ρ) (first second : List (Nat × ρ)) :
    channel.outputs (first ++ second) = (channel.outputs first).outputs second :=
  List.foldl_append

end PerCpuQueues

namespace PerCpuOutput

variable [Layout ρ] {output : PerCpuOutput ρ} {n cpu : Nat}

theorem reserve_of_le (h : output.staging.Idle n) (hn : n ≤ cpu) : output.reserve cpu = none := by
  rw [reserve, h.acquire_of_le hn]

theorem reserve_of_not_free (h : ¬ output.staging.Free cpu) : output.reserve cpu = none := by
  rw [reserve, StagingPool.acquire_of_not_free h]

/-- A reserved record is all zeros, whatever the staging record was given back with. -/
theorem reserve_of_free (h : output.staging.Free cpu) : ∃ staging,
    output.reserve cpu = some (⟨cpu, Layout.zero⟩, { output with staging }) ∧
      staging.workers = output.staging.workers ∧
      ∀ i, staging.Free i ↔ i ≠ cpu ∧ output.staging.Free i := by
  obtain ⟨record, staging, hacquire, hworkers, hfree⟩ := StagingPool.acquire_of_free h
  refine ⟨staging, ?_, hworkers, hfree⟩
  rw [reserve, hacquire]

/-- The reserved record is all zeros, and can be given back with any content. -/
theorem reserve_of_lt (h : output.staging.Idle n) (hn : cpu < n) :
    ∃ staging, output.reserve cpu = some (⟨cpu, Layout.zero⟩, { output with staging }) ∧
      ∀ record, (staging.release ⟨cpu, record⟩).Idle n := by
  obtain ⟨record, held, hacquire, hback⟩ := h.acquire_of_lt hn
  refine ⟨held, ?_, hback⟩
  rw [reserve, hacquire]

end PerCpuOutput

end HookTrace.Store
