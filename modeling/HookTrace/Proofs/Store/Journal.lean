import HookTrace.Proofs.Bindings
import HookTrace.Proofs.Store.Staging

/-!
# HookTrace.Proofs.Store.Journal

Channels that keep a journal. Every deed on the channel is written down in order: what was reserved,
and whether the reservation was submitted or discarded. The channel below does not notice
(`Journal.sinksMatch_sink`), so that a hook which runs on a journal does to its channel what it does
without one; `Hook.submits` reads off what a hook hands over, whatever the channel makes of it.

`Twofold` is a family of hooks bound both ways. `Twofold.channel_after`: what a channel holds after
a run is what was handed over on the way.
-/

namespace HookTrace.Store

/-- What is done with room for a record on a processor. -/
inductive Deed (ρ : Type) where
  | reserved (cpu : Nat)
  | submitted (cpu : Nat) (record : ρ)
  | discarded (cpu : Nat)
deriving DecidableEq

/-- The record that was handed over, with the processor it was filled in on. -/
def Deed.submission? {ρ : Type} : Deed ρ → Option (Nat × ρ)
  | submitted cpu record => some (cpu, record)
  | _ => none

structure Journal (S ρ : Type) where
  sink : S
  /-- The oldest first. -/
  deeds : List (Deed ρ) := []

namespace Journal

variable {S ρ : Type} [RecordSink S ρ]

instance : RecordSink (Journal S ρ) ρ where
  reserve journal cpu :=
    (RecordSink.reserve journal.sink cpu).map fun (slot, sink) =>
      (slot, ⟨sink, journal.deeds ++ [.reserved cpu]⟩)
  refusal journal := RecordSink.refusal journal.sink
  commit journal slot :=
    let (sink, notices) := RecordSink.commit journal.sink slot
    (⟨sink, journal.deeds ++ [.submitted slot.cpu slot.record]⟩, notices)
  release journal slot :=
    ⟨RecordSink.release journal.sink slot, journal.deeds ++ [.discarded slot.cpu]⟩

/-- What was handed over, the oldest first. -/
def submissions (journal : Journal S ρ) : List (Nat × ρ) :=
  journal.deeds.filterMap Deed.submission?

theorem reserve_eq_none_iff {journal : Journal S ρ} {cpu : Nat} :
    RecordSink.reserve journal cpu = none ↔ RecordSink.reserve journal.sink cpu = none :=
  Option.map_eq_none_iff

theorem reserve_eq_some {journal held : Journal S ρ} {cpu : Nat} {slot : Slot ρ}
    (h : RecordSink.reserve journal cpu = some (slot, held)) :
    RecordSink.reserve journal.sink cpu = some (slot, held.sink) ∧
      held.deeds = journal.deeds ++ [.reserved cpu] := by
  obtain ⟨⟨slot', sink⟩, hreserve, heq⟩ := Option.map_eq_some_iff.1 h
  cases heq
  exact ⟨hreserve, rfl⟩

theorem submissions_commit {journal held : Journal S ρ} {cpu : Nat} {slot : Slot ρ}
    (h : RecordSink.reserve journal cpu = some (slot, held)) (filled : Slot ρ) :
    (RecordSink.commit held filled).1.submissions =
      journal.submissions ++ [(filled.cpu, filled.record)] := by
  show (held.deeds ++ [Deed.submitted filled.cpu filled.record]).filterMap Deed.submission? = _
  rw [(reserve_eq_some h).2, List.filterMap_append, List.filterMap_append]
  simp [submissions, Deed.submission?]

theorem submissions_release {journal held : Journal S ρ} {cpu : Nat} {slot : Slot ρ}
    (h : RecordSink.reserve journal cpu = some (slot, held)) (filled : Slot ρ) :
    (RecordSink.release held filled).submissions = journal.submissions := by
  show (held.deeds ++ [Deed.discarded filled.cpu]).filterMap Deed.submission? = _
  rw [(reserve_eq_some h).2, List.filterMap_append, List.filterMap_append]
  simp [submissions, Deed.submission?]

/-- The channel does not notice its journal. -/
theorem sinksMatch_sink (cpu : Nat) :
    SinksMatch (fun (journal : Journal S ρ) (sink : S) => journal.sink = sink) cpu where
  reserve_eq_none := by
    rintro journal _ rfl
    exact reserve_eq_none_iff
  record_eq := by
    rintro journal _ slot slot' held held' rfl h h'
    cases (reserve_eq_some h).1.symm.trans h'
    rfl
  commit := by
    rintro journal _ slot slot' held held' record rfl h h'
    cases (reserve_eq_some h).1.symm.trans h'
    rfl
  release := by
    rintro journal _ slot slot' held held' rfl h h'
    cases (reserve_eq_some h).1.symm.trans h'
    rfl

end Journal

namespace PerCpuOutput

variable {ρ : Type} [Layout ρ] {output held : PerCpuOutput ρ} {n cpu : Nat} {slot : Slot ρ}

theorem channel_reserve (h : output.reserve cpu = some (slot, held)) :
    held.channel = output.channel := by
  obtain ⟨acquired, hacquire, heq⟩ : ∃ acquired, output.staging.acquire cpu = some acquired ∧
      held = { output with staging := acquired.2 } := by
    unfold reserve at h
    split at h
    · cases h
    · cases h
      exact ⟨_, ‹_›, rfl⟩
  rw [heq]

theorem reserve_eq_none_iff (hidle : output.staging.Idle n) :
    output.reserve cpu = none ↔ n ≤ cpu := by
  refine ⟨fun h => Nat.not_lt.1 fun hcpu => ?_, reserve_of_le hidle⟩
  obtain ⟨staging, hreserve, -⟩ := reserve_of_lt hidle hcpu
  cases hreserve.symm.trans h

/-- A reservation holds zeros, and can be given back with any content. -/
theorem reserve_eq_some (hidle : output.staging.Idle n)
    (h : output.reserve cpu = some (slot, held)) :
    slot = ⟨cpu, Layout.zero⟩ ∧ ∀ record, (held.staging.release ⟨cpu, record⟩).Idle n := by
  have hcpu : cpu < n := by
    refine Nat.not_le.1 fun hle => ?_
    cases (reserve_of_le hidle hle).symm.trans h
  obtain ⟨staging, hreserve, hback⟩ := reserve_of_lt hidle hcpu
  cases hreserve.symm.trans h
  exact ⟨rfl, hback⟩

/-- What the journal has down as submitted is what the channel was handed, in this order. -/
theorem sinksMatch_outputs (start : PerCpuQueues ρ) (cpu : Nat) :
    SinksMatch (fun (journal : Journal (PerCpuOutput ρ) ρ) (output : PerCpuOutput ρ) =>
      journal.sink = output ∧ output.channel = start.outputs journal.submissions) cpu where
  reserve_eq_none := by
    rintro journal _ ⟨rfl, _⟩
    exact Journal.reserve_eq_none_iff
  record_eq := by
    rintro journal _ slot slot' held held' ⟨rfl, _⟩ h h'
    cases (Journal.reserve_eq_some h).1.symm.trans h'
    rfl
  commit := by
    rintro journal _ slot slot' held held' record ⟨rfl, hchannel⟩ h h'
    cases (Journal.reserve_eq_some h).1.symm.trans h'
    refine ⟨rfl, ?_⟩
    show (held.sink.channel.output slot.cpu record).1 = _
    rw [channel_reserve h', hchannel, Journal.submissions_commit h, PerCpuQueues.outputs_append]
    rfl
  release := by
    rintro journal _ slot slot' held held' ⟨rfl, hchannel⟩ h h'
    cases (Journal.reserve_eq_some h).1.symm.trans h'
    refine ⟨rfl, ?_⟩
    show held.sink.channel = _
    rw [channel_reserve h', hchannel, Journal.submissions_release h]

/-- Two outputs of which no staging record is in use take the same from then on. -/
theorem sinksMatch_idle (n cpu : Nat) :
    SinksMatch (fun journal journal' : Journal (PerCpuOutput ρ) ρ =>
      journal.sink.staging.Idle n ∧ journal'.sink.staging.Idle n ∧
        journal.deeds = journal'.deeds) cpu where
  reserve_eq_none := by
    rintro journal journal' ⟨hidle, hidle', _⟩
    rw [Journal.reserve_eq_none_iff, Journal.reserve_eq_none_iff]
    exact (reserve_eq_none_iff hidle).trans (reserve_eq_none_iff hidle').symm
  record_eq := by
    rintro journal journal' slot slot' held held' ⟨hidle, hidle', _⟩ h h'
    rw [(reserve_eq_some hidle (Journal.reserve_eq_some h).1).1,
      (reserve_eq_some hidle' (Journal.reserve_eq_some h').1).1]
  commit := by
    rintro journal journal' slot slot' held held' record ⟨hidle, hidle', heq⟩ h h'
    obtain ⟨hreserve, hdeeds⟩ := Journal.reserve_eq_some h
    obtain ⟨hreserve', hdeeds'⟩ := Journal.reserve_eq_some h'
    obtain ⟨rfl, hback⟩ := reserve_eq_some hidle hreserve
    obtain ⟨rfl, hback'⟩ := reserve_eq_some hidle' hreserve'
    refine ⟨hback record, hback' record, ?_⟩
    show held.deeds ++ _ = held'.deeds ++ _
    rw [hdeeds, hdeeds', heq]
  release := by
    rintro journal journal' slot slot' held held' ⟨hidle, hidle', heq⟩ h h'
    obtain ⟨hreserve, hdeeds⟩ := Journal.reserve_eq_some h
    obtain ⟨hreserve', hdeeds'⟩ := Journal.reserve_eq_some h'
    obtain ⟨rfl, hback⟩ := reserve_eq_some hidle hreserve
    obtain ⟨rfl, hback'⟩ := reserve_eq_some hidle' hreserve'
    refine ⟨hback _, hback' _, ?_⟩
    show held.deeds ++ _ = held'.deeds ++ _
    rw [hdeeds, hdeeds', heq]

end PerCpuOutput

end HookTrace.Store

namespace HookTrace

open Store

variable {A P K S ρ : Type}

/-- The records that a hook hands over, the oldest first: what its journal has down as submitted. -/
def Hook.submits (hook : Hook P K (Journal S ρ) Unit) (s : Stores P K S) : List (Nat × ρ) :=
  (hook.after ⟨s.pending, s.known, ⟨s.events, []⟩, s.notices⟩).events.submissions

/-- A hook that leaves its channel alone hands nothing over. -/
theorem Hook.submits_of_events_eq {hook : Hook P K (Journal S ρ) Unit} {s : Stores P K S}
    (h : (hook.after ⟨s.pending, s.known, ⟨s.events, []⟩, s.notices⟩).events = ⟨s.events, []⟩) :
    hook.submits s = [] :=
  congrArg Journal.submissions h

/-- A family of hooks, bound to stores and to the same stores with a journal on the channel. -/
structure Twofold (A P K S ρ : Type) where
  plain : A → Hook P K S Unit
  journaled : A → Hook P K (Journal S ρ) Unit

namespace Twofold

/-- The stores after calls, of which the latest is the first in the list. -/
def after (hooks : Twofold A P K S ρ) (start : Stores P K S) : (past : List A) → Stores P K S
  | [] => start
  | a :: past => { (hooks.plain a).after (after hooks start past) with notices := [] }

/-- All that was handed over, the oldest first. -/
def submissions (hooks : Twofold A P K S ρ) (start : Stores P K S) :
    (past : List A) → List (Nat × ρ)
  | [] => []
  | a :: past =>
    submissions hooks start past ++ (hooks.journaled a).submits (hooks.after start past)

section

variable (hooks : Twofold A P K S ρ) (start : Stores P K S) (later earlier : List A)

theorem after_append :
    hooks.after start (later ++ earlier) = hooks.after (hooks.after start earlier) later := by
  induction later with
  | nil => rfl
  | cons a later ih => rw [List.cons_append, after, ih, after]

/-- A run that goes on hands over more, and takes nothing back. -/
theorem submissions_append : hooks.submissions start (later ++ earlier) =
    hooks.submissions start earlier ++ hooks.submissions (hooks.after start earlier) later := by
  induction later with
  | nil => exact (List.append_nil _).symm
  | cons a later ih =>
    rw [List.cons_append, submissions, ih, after_append, submissions, List.append_assoc]

end

/-- With a journal the hooks do the same, and what it has down as submitted is what the channel was
handed. -/
def Transparent [Layout ρ] (hooks : Twofold A P K (PerCpuOutput ρ) ρ) : Prop :=
  ∀ (a : A) (start : PerCpuQueues ρ),
    Hook.Agree ⟨fun pending pending' => pending = pending', fun known known' => known = known',
      fun journal output =>
        journal.sink = output ∧ output.channel = start.outputs journal.submissions⟩
      (hooks.journaled a) (hooks.plain a)

variable [Layout ρ] {hooks : Twofold A P K (PerCpuOutput ρ) ρ}

theorem Transparent.after_journaled (h : hooks.Transparent) (a : A)
    (s : Stores P K (PerCpuOutput ρ)) :
    let s' := (hooks.journaled a).after ⟨s.pending, s.known, ⟨s.events, []⟩, s.notices⟩
    s'.pending = ((hooks.plain a).after s).pending ∧ s'.known = ((hooks.plain a).after s).known ∧
      s'.events.sink = ((hooks.plain a).after s).events ∧
      ((hooks.plain a).after s).events.channel =
        s.events.channel.outputs ((hooks.journaled a).submits s) := by
  have hafter := (h a s.events.channel ⟨s.pending, s.known, ⟨s.events, []⟩, s.notices⟩ s
    ⟨rfl, rfl, rfl, rfl⟩).2
  exact ⟨hafter.pending, hafter.known, hafter.events⟩

/-- A channel is handed what its journal has down as submitted, and nothing else. -/
theorem channel_after (h : hooks.Transparent) (start : Stores P K (PerCpuOutput ρ))
    (past : List A) : (hooks.after start past).events.channel =
      start.events.channel.outputs (hooks.submissions start past) := by
  induction past with
  | nil => rfl
  | cons a past ih =>
    rw [submissions, PerCpuQueues.outputs_append, ← ih]
    exact (h.after_journaled a (hooks.after start past)).2.2.2

end Twofold

end HookTrace
