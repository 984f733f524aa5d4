import HookTrace.Poll.Readiness
import HookTrace.Proofs.Store.Holding
import HookTrace.Proofs.Store.Staging

/-!
# HookTrace.Proofs.Store.Exclusion

Staging slots that are held over each other. However many producers hold slots at once, a processor
has one slot at most: its staging record is free exactly if no slot of that processor is held
(`StagingPool.Lends`), and a commit, a discard and a drop all give it back.

`PerCpuOutput.slots_exclusive`: when a slot can be had, what is in it, what is handed over, and that
the slots of different processors have nothing to do with each other.
-/

namespace HookTrace.Store

open Holding

variable {ρ : Type}

/-- Of the staging records of `n` workers, those of `cpus` are in use, each by one slot. -/
structure StagingPool.Lends (pool : StagingPool ρ) (n : Nat) (cpus : List Nat) : Prop where
  workers_eq : pool.workers = n
  free_iff : ∀ cpu, pool.Free cpu ↔ cpu < n ∧ cpu ∉ cpus
  nodup : cpus.Nodup
  lt : ∀ cpu ∈ cpus, cpu < n

namespace StagingPool.Lends

variable {pool : StagingPool ρ} {n cpu : Nat} {cpus : List Nat}

theorem empty [Layout ρ] (workers : Nat) :
    (StagingPool.empty workers : StagingPool ρ).Lends (max workers 1) [] where
  workers_eq := Array.size_replicate
  free_iff cpu := by
    rw [free_empty_iff]
    simp
  nodup := List.nodup_nil
  lt := by simp

theorem lent (h : pool.Lends n cpus) (hcpu : cpu < n ∧ cpu ∉ cpus) {staging : StagingPool ρ}
    (hworkers : staging.workers = pool.workers)
    (hfree : ∀ i, staging.Free i ↔ i ≠ cpu ∧ pool.Free i) : staging.Lends n (cpus ++ [cpu]) where
  workers_eq := hworkers.trans h.workers_eq
  free_iff i := by
    rw [hfree, h.free_iff, List.mem_append, List.mem_singleton]
    tauto
  nodup := by
    refine List.nodup_append.2 ⟨h.nodup, List.nodup_singleton _, fun i hi j hj heq => ?_⟩
    rw [List.mem_singleton.1 hj] at heq
    exact hcpu.2 (heq ▸ hi)
  lt := by
    intro i hi
    rcases List.mem_append.1 hi with hi | hi
    · exact h.lt i hi
    · exact List.mem_singleton.1 hi ▸ hcpu.1

theorem returned {before after : List Nat} {slot : Slot ρ}
    (h : pool.Lends n (before ++ slot.cpu :: after)) :
    (pool.release slot).Lends n (before ++ after) := by
  have hmem : slot.cpu ∈ before ++ slot.cpu :: after :=
    List.mem_append_right _ List.mem_cons_self
  have hcpu : slot.cpu < n := h.lt slot.cpu hmem
  have hnodup := List.nodup_middle.1 h.nodup
  refine ⟨(workers_release slot).trans h.workers_eq, fun i => ?_, (List.nodup_cons.1 hnodup).2,
    fun i hi => h.lt i ?_⟩
  · rw [free_release_iff (h.workers_eq ▸ hcpu), h.free_iff]
    by_cases hi : i = slot.cpu
    · rw [hi]
      exact iff_of_true (.inl rfl) ⟨hcpu, (List.nodup_cons.1 hnodup).1⟩
    · simp [hi]
  · rcases List.mem_append.1 hi with hi | hi
    · exact List.mem_append_left _ hi
    · exact List.mem_append_right _ (List.mem_cons_of_mem _ hi)

end StagingPool.Lends

namespace PerCpuOutput

variable [Layout ρ] {n : Nat} {channel : PerCpuQueues ρ} {log : Log ρ}
variable {u : Holding (PerCpuOutput ρ) ρ}

/-- `u` is what the uses in `log` have left of an output for `n` workers, whose queues were `channel`
at first. -/
structure Exclusive (n : Nat) (channel : PerCpuQueues ρ) (log : Log ρ)
    (u : Holding (PerCpuOutput ρ) ρ) : Prop where
  accounts : Accounts log u
  lends : u.sink.staging.Lends n u.cpus
  channel_eq : u.sink.channel = channel.outputs (log.committed.map fun e => (e.2.cpu, e.2.record))

namespace Exclusive

/-- A slot of a processor is to be had if the processor has one and it is not held. -/
theorem reply_reserve (h : Exclusive n channel log u) (cpu : Nat) :
    (u.serve (.reserve cpu)).1 =
      if cpu < n ∧ cpu ∉ u.cpus then .reserved u.made ⟨cpu, Layout.zero⟩ else .refused := by
  by_cases hcpu : cpu < n ∧ cpu ∉ u.cpus
  · obtain ⟨staging, hreserve, -⟩ := reserve_of_free ((h.lends.free_iff cpu).2 hcpu)
    have hreserve : RecordSink.reserve u.sink cpu = some (⟨cpu, Layout.zero⟩, _) := hreserve
    simp only [Holding.serve, hreserve, if_pos hcpu]
  · have hreserve : RecordSink.reserve u.sink cpu = none :=
      reserve_of_not_free (mt (h.lends.free_iff cpu).1 hcpu)
    simp only [Holding.serve, hreserve, if_neg hcpu]

theorem cpus_split (h : Exclusive n channel log u) {e : Nat × Slot ρ} (he : e ∈ u.held) :
    ∃ before after, u.cpus = before ++ e.2.cpu :: after ∧
      (u.without e.1).map (·.2.cpu) = before ++ after := by
  obtain ⟨before, after, hheld, hwithout⟩ := h.accounts.split_of_mem he
  refine ⟨before.map (·.2.cpu), after.map (·.2.cpu), ?_, ?_⟩
  · rw [cpus, hheld, List.map_append, List.map_cons]
  · rw [hwithout, List.map_append]

/-- A slot that ends leaves the other slots held, and its processor free. -/
theorem lends_without (h : Exclusive n channel log u) {e : Nat × Slot ρ} (he : e ∈ u.held) :
    (u.sink.staging.release e.2).Lends n ((u.without e.1).map (·.2.cpu)) := by
  obtain ⟨before, after, hcpus, hwithout⟩ := h.cpus_split he
  rw [hwithout]
  exact (hcpus ▸ h.lends).returned

theorem channel_eq_of_quiet (h : Exclusive n channel log u) {e : Holding.Use ρ × Holding.Reply ρ}
    (hquiet : commitment? e = none) : u.sink.channel =
      channel.outputs ((Log.committed (log ++ [e])).map fun e => (e.2.cpu, e.2.record)) := by
  rw [Log.committed_concat, hquiet, Option.toList_none, List.append_nil]
  exact h.channel_eq

theorem serve (h : Exclusive n channel log u) (use : Holding.Use ρ) :
    Exclusive n channel (log ++ [(use, (u.serve use).1)]) (u.serve use).2 := by
  have hserved := u.served use
  have haccounts := h.accounts.of_served clears hserved
  generalize u.serve use = result at hserved haccounts ⊢
  cases hserved with
  | turned_down use hreply =>
    exact ⟨haccounts, h.lends, h.channel_eq_of_quiet (commitment?_of_turned_down use hreply)⟩
  | @reserved cpu slot sink hreserve =>
    have hfree : u.sink.staging.Free cpu := by
      by_contra hlent
      cases (reserve_of_not_free hlent).symm.trans hreserve
    obtain ⟨staging, hreserved, hworkers, hkept⟩ := reserve_of_free hfree
    obtain ⟨rfl, rfl⟩ := Prod.ext_iff.1 (Option.some.inj (hreserved.symm.trans hreserve))
    refine ⟨haccounts, ?_, h.channel_eq_of_quiet rfl⟩
    rw [cpus, List.map_append]
    exact h.lends.lent ((h.lends.free_iff cpu).1 hfree) hworkers hkept
  | written he change =>
    refine ⟨haccounts, ?_, h.channel_eq_of_quiet rfl⟩
    rw [cpus_rewrite]
    exact h.lends
  | committed he =>
    refine ⟨haccounts, h.lends_without he, ?_⟩
    rw [Log.committed_concat, List.map_append, PerCpuQueues.outputs_append, ← h.channel_eq]
    rfl
  | released he huse =>
    exact ⟨haccounts, h.lends_without he, h.channel_eq_of_quiet (commitment?_of_released huse)⟩

theorem run (workers cpus depth : Nat) (uses : List (Holding.Use ρ)) :
    let result := Holding.run (PerCpuOutput.empty workers cpus depth : PerCpuOutput ρ) uses
    Exclusive (max workers 1) (.empty cpus depth) result.1 result.2 := by
  have hempty : Exclusive (max workers 1) (.empty cpus depth) []
      (⟨.empty workers cpus depth, [], 0⟩ : Holding (PerCpuOutput ρ) ρ) :=
    ⟨.empty _, .empty workers, rfl⟩
  exact transcript_keeps (fun use h => h.serve use) hempty uses

/-- After a slot has ended, its processor can be reserved, and the others as before. -/
theorem reply_reserve_of_ended (h : Exclusive n channel log u) {e : Nat × Slot ρ} (he : e ∈ u.held)
    {log' : Log ρ} {u' : Holding (PerCpuOutput ρ) ρ} (h' : Exclusive n channel log' u')
    (hheld : u'.held = u.without e.1) (hmade : u'.made = u.made) (cpu : Nat) :
    (u'.serve (.reserve cpu)).1 =
      if cpu = e.2.cpu then .reserved u.made ⟨cpu, Layout.zero⟩ else (u.serve (.reserve cpu)).1 := by
  obtain ⟨before, after, hcpus, hwithout⟩ := h.cpus_split he
  have hcpus' : u'.cpus = before ++ after := by rw [cpus, hheld, hwithout]
  have hlt : e.2.cpu < n := h.lends.lt e.2.cpu (List.mem_map_of_mem he)
  have hfresh : e.2.cpu ∉ before ++ after :=
    (List.nodup_cons.1 (List.nodup_middle.1 (hcpus ▸ h.lends.nodup))).1
  rw [h'.reply_reserve, h.reply_reserve, hcpus', hcpus, hmade]
  by_cases hcpu : cpu = e.2.cpu
  · rw [if_pos hcpu, hcpu, if_pos ⟨hlt, hfresh⟩]
  · rw [if_neg hcpu]
    simp [hcpu]

end Exclusive

/-- Whatever is asked of an output with `workers` staging records, in whatever order: a processor is
granted a slot exactly if it is one of theirs and none of its slots is held, so that no two slots are
held on one processor, and the record in it is all zeros. Every slot is reserved under a number of
its own and ends at most once; its record is what was written into it. What has been handed over are
the records that were committed, each as it was then, once. Of a slot that is held: a write changes
its record and no other, a commit hands its record over, a discard and a drop hand over nothing, and
each of the three lets its processor be reserved again and does not touch other slots. -/
theorem slots_exclusive (workers cpus depth : Nat) (uses : List (Holding.Use ρ)) :
    let result := Holding.run (PerCpuOutput.empty workers cpus depth : PerCpuOutput ρ) uses
    let log := result.1
    let u := result.2
    (∀ cpu, (u.serve (.reserve cpu)).1 =
      if cpu < max workers 1 ∧ cpu ∉ u.cpus then .reserved u.made ⟨cpu, Layout.zero⟩
      else .refused) ∧
    u.cpus.Nodup ∧
    ((log.reserved.map Prod.fst).Nodup ∧
      (log.reserved.map place).Perm ((log.committed ++ log.released ++ u.held).map place)) ∧
    (∀ e ∈ log.committed ++ u.held, e.2.record = log.content e.1) ∧
    u.sink.channel = (PerCpuQueues.empty cpus depth).outputs
      (log.committed.map fun e => (e.2.cpu, e.2.record)) ∧
    ∀ e ∈ u.held,
      (∀ change, u.serve (.write e.1 change) =
        (.written, { u with held := u.held.map (rewrite e.1 change) })) ∧
      (u.serve (.commit e.1)).2.sink.channel = (u.sink.channel.output e.2.cpu e.2.record).1 ∧
      (∀ use, use = .discard e.1 ∨ use = .drop e.1 →
        (u.serve use).2.sink.channel = u.sink.channel) ∧
      ∀ use, use = .commit e.1 ∨ use = .discard e.1 ∨ use = .drop e.1 →
        (u.serve use).2.held = u.held.filter (·.1 ≠ e.1) ∧
        ∀ cpu, ((u.serve use).2.serve (.reserve cpu)).1 =
          if cpu = e.2.cpu then .reserved u.made ⟨cpu, Layout.zero⟩
          else (u.serve (.reserve cpu)).1 := by
  intro result log u
  have h : Exclusive (max workers 1) (.empty cpus depth) log u := .run workers cpus depth uses
  refine ⟨h.reply_reserve, h.lends.nodup, ⟨h.accounts.numbered ▸ List.nodup_range,
    h.accounts.ended⟩, h.accounts.content_eq, h.channel_eq, fun e he => ?_⟩
  obtain ⟨hwrite, hcommit, hrelease⟩ := h.accounts.serve_of_mem he
  refine ⟨hwrite, ?handed, ?silent, ?again⟩
  case handed =>
    rw [hcommit]
    rfl
  case silent =>
    intro use huse
    rw [hrelease use huse]
    rfl
  case again =>
    intro use huse
    have hleft : (u.serve use).2.held = u.without e.1 ∧ (u.serve use).2.made = u.made := by
      rcases huse with rfl | huse
      · rw [hcommit]
        exact ⟨rfl, rfl⟩
      · rw [hrelease use huse]
        exact ⟨rfl, rfl⟩
    exact ⟨hleft.1, h.reply_reserve_of_ended he (h.serve use) hleft.1 hleft.2⟩

/-- Two slots are held, of two processors, and one of them was written into. -/
theorem slots_exclusive_two_held :
    let named := fun record : Poll.PollRecord => { record with fd := 7 }
    let output : PerCpuOutput Poll.PollRecord := .empty 2 2 4
    let u := (Holding.run output [.reserve 0, .reserve 1, .write 0 named]).2
    (0, ⟨0, named Layout.zero⟩) ∈ u.held ∧ (u.serve (.reserve 0)).1 = .refused ∧
    (u.serve (.commit 0)).2.sink.channel = (u.sink.channel.output 0 (named Layout.zero)).1 ∧
    ((u.serve (.commit 0)).2.serve (.reserve 0)).1 = .reserved 2 ⟨0, Layout.zero⟩ ∧
    (u.serve (.drop 0)).2.sink.channel = u.sink.channel := by
  intro named output u
  have hheld : u.held = [(0, ⟨0, named Layout.zero⟩), (1, ⟨1, Layout.zero⟩)] := rfl
  have hmem : ((0, ⟨0, named Layout.zero⟩) : Nat × Slot Poll.PollRecord) ∈ u.held :=
    hheld ▸ List.mem_cons_self
  have hcpu : ¬ (0 < max 2 1 ∧ 0 ∉ u.cpus) := fun h => h.2 (List.mem_map_of_mem hmem)
  obtain ⟨hreserve, -, -, -, -, hall⟩ :=
    slots_exclusive 2 2 4 [.reserve 0, .reserve 1, .write 0 named]
  obtain ⟨-, hcommit, hrelease, hended⟩ := hall _ hmem
  have hagain := (hended (.commit 0) (.inl rfl)).2 0
  exact ⟨hmem, (hreserve 0).trans (if_neg hcpu), hcommit, hagain.trans (if_pos rfl),
    hrelease (.drop 0) (.inr rfl)⟩

end PerCpuOutput

end HookTrace.Store
