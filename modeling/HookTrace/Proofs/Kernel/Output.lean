import HookTrace.Kernel.Output
import HookTrace.Proofs.Store.Journal

/-!
# HookTrace.Proofs.Kernel.Output

The buffers of the kernel programs, next to the channels of a tracer. A staging record is cleared
before it is used again, so that two buffers which only differ in what is left there take the same
from then on (`PerfOutput.cleared`). As long as its staging records can be had, a buffer is handed
what a tracer's channel is handed: `PerfOutput.sinksMatch_settled`.
-/

namespace HookTrace.Kernel.PerfOutput

open Store

variable {ρ : Type}

/-- A buffer after records were handed to it, each with the processor it was filled in on. -/
def outputs (output : PerfOutput ρ) (records : List (Nat × ρ)) : PerfOutput ρ :=
  records.foldl (fun output e => output.commit ⟨e.1, e.2⟩) output

theorem outputs_append (output : PerfOutput ρ) (first second : List (Nat × ρ)) :
    output.outputs (first ++ second) = (output.outputs first).outputs second :=
  List.foldl_append

/-- The buffer without what is left in its staging records. -/
def cleared (output : PerfOutput ρ) : PerfOutput ρ :=
  { output with staging := ∅ }

theorem cleared_release (output : PerfOutput ρ) (slot : Slot ρ) :
    (output.release slot).cleared = output.cleared := rfl

theorem commit_cleared (output : PerfOutput ρ) (slot : Slot ρ) :
    (output.cleared.commit slot).cleared = (output.commit slot).cleared := by
  have hfull : output.cleared.full slot.cpu = output.full slot.cpu := rfl
  unfold commit
  rw [hfull]
  split <;> rfl

theorem available_commit (output : PerfOutput ρ) (slot : Slot ρ) :
    (output.commit slot).available = output.available := by
  unfold commit
  split <;> rfl

/-- Without a limit no record is dropped. -/
theorem records_outputs_of_unlimited {output : PerfOutput ρ} (h : output.limit = none)
    (records : List (Nat × ρ)) :
    (output.outputs records).records.toList = output.records.toList ++ records := by
  induction records generalizing output with
  | nil => exact (List.append_nil _).symm
  | cons e records ih =>
    have hfull : output.full e.1 = false := by
      unfold full
      rw [h]
    have hcommit : output.commit ⟨e.1, e.2⟩ =
        { output.release ⟨e.1, e.2⟩ with records := output.records.push (e.1, e.2) } := by
      unfold commit
      rw [if_neg (by rw [hfull]; exact Bool.false_ne_true)]
    show ((output.commit ⟨e.1, e.2⟩).outputs records).records.toList = _
    rw [ih (by rw [hcommit]; exact h), hcommit]
    simp

/-- Between two hooks no staging record of a tracer's channel is in use, and those of the buffer can
be had. The buffer holds what `target` holds. -/
structure Settled (n : Nat) (target : PerfOutput ρ) (channel : PerCpuOutput ρ)
    (buffer : PerfOutput ρ) : Prop where
  idle : channel.staging.Idle n
  available : buffer.available = true
  cleared_eq : buffer.cleared = target.cleared

variable [Layout ρ]

theorem reserve_of_available {output : PerfOutput ρ} (h : output.available = true) (cpu : Nat) :
    output.reserve cpu = some (⟨cpu, Layout.zero⟩, output) :=
  if_pos h

/-- A buffer is handed what the channel's journal has down as submitted, in this order. -/
theorem sinksMatch_settled {n cpu : Nat} (hcpu : cpu < n) (start : PerfOutput ρ) :
    SinksMatch (fun (journal : Journal (PerCpuOutput ρ) ρ) (buffer : PerfOutput ρ) =>
      Settled n (start.outputs journal.submissions) journal.sink buffer) cpu where
  reserve_eq_none := by
    intro journal buffer h
    have hsome : RecordSink.reserve buffer cpu = some (⟨cpu, Layout.zero⟩, buffer) :=
      reserve_of_available h.available cpu
    have hne : RecordSink.reserve journal.sink cpu ≠ none :=
      mt (PerCpuOutput.reserve_eq_none_iff h.idle).1 (Nat.not_le.2 hcpu)
    rw [Journal.reserve_eq_none_iff, hsome]
    simp [hne]
  record_eq := by
    intro journal buffer slot slot' held held' h hreserve hreserve'
    cases (reserve_of_available h.available cpu).symm.trans hreserve'
    rw [(PerCpuOutput.reserve_eq_some h.idle (Journal.reserve_eq_some hreserve).1).1]
  commit := by
    intro journal buffer slot slot' held held' record h hreserve hreserve'
    cases (reserve_of_available h.available cpu).symm.trans hreserve'
    obtain ⟨rfl, hback⟩ :=
      PerCpuOutput.reserve_eq_some h.idle (Journal.reserve_eq_some hreserve).1
    refine ⟨hback record, (available_commit _ _).trans h.available, ?_⟩
    rw [Journal.submissions_commit hreserve, outputs_append]
    show (buffer.commit ⟨cpu, record⟩).cleared =
      ((start.outputs journal.submissions).commit ⟨cpu, record⟩).cleared
    rw [← commit_cleared, h.cleared_eq, commit_cleared]
  release := by
    intro journal buffer slot slot' held held' h hreserve hreserve'
    cases (reserve_of_available h.available cpu).symm.trans hreserve'
    obtain ⟨rfl, hback⟩ :=
      PerCpuOutput.reserve_eq_some h.idle (Journal.reserve_eq_some hreserve).1
    refine ⟨hback _, h.available, ?_⟩
    rw [Journal.submissions_release hreserve]
    exact (cleared_release _ _).trans h.cleared_eq

end HookTrace.Kernel.PerfOutput
