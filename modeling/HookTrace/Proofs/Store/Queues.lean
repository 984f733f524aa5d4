import HookTrace.Proofs.Store.Staging

/-!
# HookTrace.Proofs.Store.Queues

No record that is handed to a channel is unaccounted for: it can be taken out of a queue, or it was
counted as lost.
-/

namespace HookTrace.Store.PerCpuQueues

variable {ρ : Type} {channel : PerCpuQueues ρ}

/-- How many records can be taken out, or were lost. -/
def accounted (channel : PerCpuQueues ρ) : Nat :=
  channel.drain.1.length + channel.lost

theorem accounted_empty (cpus depth : Nat) : (empty cpus depth : PerCpuQueues ρ).accounted = 0 := by
  simp [accounted, drain, empty]

theorem cpus_output (cpu : Nat) (record : ρ) :
    (channel.output cpu record).1.cpus = channel.cpus := by
  simp only [output]
  split
  · rfl
  · split
    · exact Array.size_setIfInBounds
    · rfl

/-- A queue that is replaced counts as what it has become. -/
theorem length_drain_set {i : Nat} {queue : Fifo ρ} (h : channel.queues[i]? = some queue)
    (queue' : Fifo ρ) :
    ({ channel with queues := channel.queues.setIfInBounds i queue' } :
      PerCpuQueues ρ).drain.1.length + queue.toList.length =
        channel.drain.1.length + queue'.toList.length := by
  obtain ⟨hi, hqueue⟩ := Array.getElem?_eq_some_iff.1 h
  have hlen : i < channel.queues.toList.length := hi
  have hsplit : channel.queues.toList =
      channel.queues.toList.take i ++ queue :: channel.queues.toList.drop (i + 1) := by
    rw [← hqueue, ← Array.getElem_toList, ← List.drop_eq_getElem_cons hlen, List.take_append_drop]
  have hset : channel.queues.toList.set i queue' =
      channel.queues.toList.take i ++ queue' :: channel.queues.toList.drop (i + 1) := by
    rw [List.set_eq_take_append_cons_drop, if_pos hlen]
  have hbefore := congrArg (fun queues => (queues.flatMap Fifo.toList).length) hsplit
  simp only [List.flatMap_append, List.flatMap_cons, List.length_append] at hbefore
  show ((channel.queues.setIfInBounds i queue').toList.flatMap Fifo.toList).length + _ =
    (channel.queues.toList.flatMap Fifo.toList).length + _
  rw [Array.toList_setIfInBounds, hset]
  simp only [List.flatMap_append, List.flatMap_cons, List.length_append]
  omega

theorem accounted_output (h : 0 < channel.cpus) (cpu : Nat) (record : ρ) :
    (channel.output cpu record).1.accounted = channel.accounted + 1 := by
  have hi : cpu % channel.queues.size < channel.queues.size := Nat.mod_lt _ h
  have hqueue := Array.getElem?_eq_getElem hi
  simp only [output, hqueue]
  split
  · have hlength := length_drain_set hqueue (channel.queues[cpu % channel.queues.size].push record)
    rw [Fifo.toList_push, List.length_append, List.length_singleton] at hlength
    simp only [accounted]
    omega
  · simp only [accounted, drain]
    omega

theorem accounted_outputs (h : 0 < channel.cpus) (records : List (Nat × ρ)) :
    (channel.outputs records).accounted = channel.accounted + records.length := by
  induction records generalizing channel with
  | nil => rfl
  | cons e records ih =>
    have hcpus : 0 < (channel.output e.1 e.2).1.cpus := by
      rw [cpus_output]
      exact h
    show ((channel.output e.1 e.2).1.outputs records).accounted = _
    rw [ih hcpus, accounted_output h, List.length_cons]
    omega

/-- A channel starts out with a queue, and with nothing to account for. -/
theorem accounted_outputs_empty (cpus depth : Nat) (records : List (Nat × ρ)) :
    ((empty cpus depth).outputs records).accounted = records.length := by
  have hcpus : 0 < (empty cpus depth : PerCpuQueues ρ).cpus := by
    show 0 < (Array.replicate (max cpus 1) Fifo.empty).size
    rw [Array.size_replicate]
    omega
  rw [accounted_outputs hcpus, accounted_empty, Nat.zero_add]

end HookTrace.Store.PerCpuQueues
