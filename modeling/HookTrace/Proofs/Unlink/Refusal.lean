import HookTrace.Proofs.Unlink.History

/-!
# HookTrace.Proofs.Unlink.Refusal

Entries that are refused: those of the agent and its children, and those that remove a directory.
An entry hook that refuses stores nothing, so a thread all of whose entries since its last deletion
were refused deletes unhindered (`UnlinkTracer.after_refused`). It does not take back what an
earlier entry of the thread has stored either: if the hook on that deletion never ran, a later
removal of a directory is answered in its place (`UnlinkTracer.stale_entry_answers_removal`).
-/

namespace HookTrace.Unlink

open Store

/-- The entries are among those that are awaited; some may have been given up for others. -/
structure Sound (cpus : Nat) (s : UnlinkStores) (awaited : UInt32 → Option UInt64) : Prop where
  coherent : s.pending.Coherent
  awaited_of_entry : ∀ pid address, s.pending.peek? pid = some address →
    awaited pid = some address
  idle : s.events.staging.Idle (max cpus 1)

namespace Act

variable {this : UInt32} {table : RecencyTable UInt32 UInt64} {awaited : UInt32 → Option UInt64}

theorem coherent_entries (h : table.Coherent) (act : Act) : (act.entries this table).Coherent :=
  act.entries_cases (motive := fun table => table.Coherent) this h (h.claimed act.pid)
    fun pathname => h.insert act.pid pathname

theorem awaits_of_entry (h : table.Coherent)
    (ha : ∀ pid address, table.peek? pid = some address → awaited pid = some address) (act : Act)
    {pid : UInt32} {address : UInt64} (hp : (act.entries this table).peek? pid = some address) :
    act.awaits this awaited pid = some address := by
  unfold entries at hp
  unfold awaits
  cases hd : act.isDeletion with
  | true =>
    rw [if_pos hd, h.peek?_claimed] at hp
    split at hp
    · cases hp
    · rename_i hother
      rw [if_neg (Ne.symm hother)]
      exact ha pid address hp
  | false =>
    rw [if_neg (by simp [hd])] at hp
    cases hc : act.considered? this with
    | none =>
      rw [hc] at hp
      simpa using ha pid address hp
    | some noted =>
      simp only [hc] at hp
      by_cases hother : pid = act.pid
      · rw [hother, h.peek?_insert_self] at hp
        rw [if_pos hother.symm]
        exact hp
      · rw [if_neg (Ne.symm hother)]
        exact ha pid address (h.peek?_of_insert hother hp)

end Act

namespace UnlinkTracer

variable (config : UnlinkConfig) (cpus : Nat)

theorem sound_after (past : List Act) :
    Sound cpus (after config cpus past).stores (awaited? config.this past) := by
  induction past with
  | nil =>
    refine ⟨RecencyTable.coherent_empty _, ?_, StagingPool.idle_empty cpus⟩
    intro pid address hp
    have hnone := RecencyTable.peek?_empty Limits.entries pid (ν := UInt64)
    cases hnone.symm.trans hp
  | cons act past ih =>
    have hd := UnlinkStores.decides_hook config act ih.coherent ih.idle
    rw [stores_after_cons, awaited?_cons]
    constructor
    · exact hd.pending_eq ▸ Act.coherent_entries ih.coherent act
    · intro pid address hp
      rw [hd.pending_eq] at hp
      exact Act.awaits_of_entry ih.coherent ih.awaited_of_entry act hp
    · exact hd.idle

/-- However full the table is, a deletion is left alone if every entry of its thread since the
thread's last deletion was refused. -/
theorem after_refused {past : List Act} {task : Task}
    (hrefused : ∀ act ∈ (past.filter (·.pid = task.pid)).takeWhile (!·.isDeletion),
      act.considered? config.this = none) (variant : Variant) (space : AddressSpace) :
    let tracer := after config cpus (.delete variant task space :: past)
    tracer.forced = none ∧
      tracer.stores.events.channel = (after config cpus past).stores.events.channel := by
  intro tracer
  have hsound := sound_after config cpus past
  have hawaited : awaited? config.this past task.pid = none :=
    List.findSome?_eq_none_iff.2 hrefused
  have hentry : (after config cpus past).stores.pending.peek? task.pid = none := by
    refine Option.eq_none_iff_forall_ne_some.2 fun address hp => ?_
    rw [hsound.awaited_of_entry task.pid address hp] at hawaited
    cases hawaited
  have hd := UnlinkStores.decides_hook config (.delete variant task space) hsound.coherent
    hsound.idle
  rw [Act.answered?, hentry] at hd
  refine ⟨?_, ?_⟩
  · show (after config cpus (.delete variant task space :: past)).stores.known.value = none
    rw [stores_after_cons]
    exact congrArg ForcedReturn.value hd.known_eq
  · show (after config cpus (.delete variant task space :: past)).stores.events.channel = _
    rw [stores_after_cons]
    exact hd.channel_eq

/-- The agent deletes a file after a thread of the same number has deleted one. -/
theorem after_refused_agent :
    let traced := Task.ofProcess 42
    let agent : Task := { traced with tgid := 77 }
    let text : Bytes := [47, 100, 97, 116, 97, 47, 97]
    let space := AddressSpace.empty.map 0x1000 (text ++ [0])
    let config : UnlinkConfig := { this := 77, directory := Field.ofBytes _ [47] }
    let past : List Act :=
      [.enter agent 0x1000, .delete .unlink traced space, .enter traced 0x1000]
    (∀ act ∈ (past.filter (·.pid = agent.pid)).takeWhile (!·.isDeletion),
      act.considered? config.this = none) ∧
    (after config 1 (.delete .unlink agent space :: past)).forced = none := by
  intro traced agent text space config past
  have hrefused : ∀ act ∈ (past.filter (·.pid = agent.pid)).takeWhile (!·.isDeletion),
      act.considered? config.this = none := by
    have hlast : (past.filter (·.pid = agent.pid)).takeWhile (!·.isDeletion) =
        [.enter agent 0x1000] := rfl
    rw [hlast]
    exact List.forall_mem_singleton.2 rfl
  exact ⟨hrefused, (after_refused config 1 hrefused .unlink space).1⟩

/-- A thread enters a deletion whose hook never runs, and then removes a directory. The hook on the
removal finds the entry of the deletion, and the removal is not done. -/
theorem stale_entry_answers_removal :
    let task := Task.ofProcess 4242
    let directory : Bytes := [47, 100, 97, 116, 97, 47]
    let text : Bytes := directory ++ [97]
    let space := AddressSpace.empty.map 0x1000 (text ++ [0])
    let config : UnlinkConfig := { this := 77, directory := Field.ofBytes _ directory }
    let removal : Act := .enterAt task 0x2000 Limits.removeDirectory
    let past : List Act := [removal, .enter task 0x1000]
    removal.considered? config.this = none ∧
    (after config 1 past).stores.events.channel = .empty 1 Limits.queueDepth ∧
    (after config 1 (.delete .unlinkat task space :: past)).forced = some 0 ∧
    (after config 1 (.delete .unlinkat task space :: past)).stores.events.channel =
      (PerCpuQueues.empty 1 Limits.queueDepth).outputs [(0, .ofText task text)] := by
  intro task directory text space config removal past
  have hpid : ∀ act ∈ past, act.pid ∈ ({4242} : Finset UInt32) := by decide
  have hroom : ({4242} : Finset UInt32).card ≤ Limits.entries := by decide
  have hanswered : (Act.delete .unlinkat task space).answered? config.directory.text 1
      (awaited? config.this past) = some text := by decide +kernel
  obtain ⟨hforced, hchannel⟩ := after_cons config 1 (.delete .unlinkat task space) hroom hpid
  rw [hanswered] at hforced hchannel
  have hquiet : (after config 1 past).stores.events.channel = .empty 1 Limits.queueDepth := rfl
  rw [hquiet] at hchannel
  exact ⟨rfl, hquiet, hforced, hchannel⟩

end UnlinkTracer

end HookTrace.Unlink
