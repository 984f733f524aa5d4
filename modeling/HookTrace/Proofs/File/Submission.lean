import HookTrace.Kernel.Output
import HookTrace.Proofs.Failure
import HookTrace.Proofs.Settlement
import HookTrace.Proofs.Store.Slots

/-!
# HookTrace.Proofs.File.Submission

What becomes of the room that an access reserves in a ring. A journal on the ring shows it
(`Store.Journal`), whatever the ring is and whichever way its slots come to their end
(`Store.SlotLife`): the access adds nothing to the journal, or a reservation and its one resolution.

`reservations_resolved`: this, when the record is submitted, and what follows for the room that is
taken in the ring of a tracer between two calls.
-/

namespace HookTrace

open Store

variable {P K S σ ρ : Type}

namespace File.Access

variable [KeyedTable K UInt64 PathEntry]

/-- Completes a reserved record. -/
def complete (filling : CurrentTask) (file : OpenFile) (op : FileOp) (ret : Int64)
    (blank : FileRecord) : Hook P K S (Option FileRecord) := do
  name file (← blank.fill filling op ret)

/-- The hook on an access that has ended, of a task as it answers when it is asked whether it is in
scope and when a record is filled in. Neither asks for one thing twice. -/
def onExitWith [RecordSink S FileRecord] (life : SlotLife S FileRecord σ) (scope : Scope)
    (deciding filling : CurrentTask) (file : OpenFile) (op : FileOp) (ret : Int64) :
    Hook P K S Unit := do
  if !(← file.isRegular) then
    return
  if !(← deciding.inScope scope.target) then
    return
  Hook.emitWith life filling.cpu "vfs event" (complete filling file op ret)

/-- For a task that answers the same each time it is the hook of the tracer. -/
theorem onExitWith_steady [RecordSink S FileRecord] {life : SlotLife S FileRecord σ}
    (h : life.Resolves) (scope : Scope) (task : CurrentTask) (file : OpenFile) (op : FileOp)
    (ret : Int64) :
    (onExitWith life scope task task file op ret : Hook P K S Unit) =
      onExit scope task file op ret := by
  unfold onExitWith onExit
  rw [Hook.emitWith_eq h]
  rfl

/-- Whether an access gets as far as to a reservation. -/
def Considered (scope : Scope) (deciding : CurrentTask) (file : OpenFile) : Prop :=
  file.isRegular = .ok true ∧ deciding.inScope scope.target = .ok true

/-- Whether a file has a name to be reported with, by the path that was found for it. -/
def Named (file : OpenFile) : Option PathEntry → Prop
  | some entry => excluded entry.filename.terminated = false
  | none => ∃ basename, file.basename = .ok basename

/-- Everything that is asked for after the reservation is answered, and the file has a name. -/
structure Completes (filling : CurrentTask) (file : OpenFile) (found : Option PathEntry) :
    Prop where
  tgid : ∃ tgid, filling.tgid = .ok tgid
  pid : ∃ pid, filling.pid = .ok pid
  comm : ∃ comm, filling.comm = .ok comm
  named : Named file found

/-- What naming a file comes to, by the path that was found for it. -/
def named (file : OpenFile) (record : FileRecord) :
    Option PathEntry → Except Fault (Option FileRecord)
  | some entry =>
    if excluded entry.filename.terminated then .ok none
    else .ok (some { record with filename := entry.filename.terminated })
  | none => do
    let basename ← file.basename
    return some { record with filename := record.filename.overwrite basename }

omit [KeyedTable K UInt64 PathEntry] in
theorem named_eq_some_iff (file : OpenFile) (record : FileRecord) (found : Option PathEntry) :
    (∃ record', named file record found = .ok (some record')) ↔ Named file found := by
  unfold named Named
  cases found with
  | some entry => cases h : excluded entry.filename.terminated <;> simp [h]
  | none =>
    cases file.basename with
    | error fault => simp [bind, Except.bind]
    | ok basename => simp [bind, Except.bind, pure, Except.pure]

omit [KeyedTable K UInt64 PathEntry] in
theorem fill_eq_ok_iff (blank : FileRecord) (filling : CurrentTask) (op : FileOp) (ret : Int64) :
    (∃ record, blank.fill filling op ret = .ok record) ↔ (∃ tgid, filling.tgid = .ok tgid) ∧
      (∃ pid, filling.pid = .ok pid) ∧ ∃ comm, filling.comm = .ok comm := by
  unfold FileRecord.fill
  cases filling.tgid <;> cases filling.pid <;> cases filling.comm <;>
    simp [bind, Except.bind, pure, Except.pure]

/-- What is made of a reserved record. -/
def completed (blank : FileRecord) (filling : CurrentTask) (file : OpenFile) (op : FileOp)
    (ret : Int64) (found : Option PathEntry) : Except Fault (Option FileRecord) := do
  named file (← blank.fill filling op ret) found

omit [KeyedTable K UInt64 PathEntry] in
theorem completed_eq_some_iff (blank : FileRecord) (filling : CurrentTask) (file : OpenFile)
    (op : FileOp) (ret : Int64) (found : Option PathEntry) :
    (∃ record, completed blank filling file op ret found = .ok (some record)) ↔
      Completes filling file found := by
  have hfill := fill_eq_ok_iff blank filling op ret
  unfold completed
  cases hf : blank.fill filling op ret with
  | error fault =>
    refine ⟨fun h => ?_, fun h => ?_⟩
    · obtain ⟨record, hrecord⟩ := h
      cases hrecord
    · obtain ⟨record, hrecord⟩ := hfill.2 ⟨h.tgid, h.pid, h.comm⟩
      cases hf.symm.trans hrecord
  | ok record =>
    obtain ⟨htgid, hpid, hcomm⟩ := hfill.1 ⟨record, hf⟩
    exact (named_eq_some_iff file record found).trans
      ⟨fun h => ⟨htgid, hpid, hcomm, h⟩, fun h => h.named⟩

theorem outcome_name (file : OpenFile) (record : FileRecord) (s : Stores P K S) :
    (name file record).outcome s =
      (named file record (KeyedTable.lookup s.known file.identity).1,
        { s with known := (KeyedTable.lookup s.known file.identity).2 }) := by
  have hknown : (Hook.known? file.identity : Hook P K S (Option PathEntry)).outcome s =
      (.ok (KeyedTable.lookup s.known file.identity).1,
        { s with known := (KeyedTable.lookup s.known file.identity).2 }) := rfl
  unfold name named
  rw [Hook.outcome_bind, hknown]
  cases (KeyedTable.lookup s.known file.identity).1 with
  | some entry => cases h : excluded entry.filename.terminated <;> simp [h] <;> rfl
  | none => cases file.basename <;> rfl

/-- However a record is completed, the channel is not touched on the way. -/
theorem outcome_complete (filling : CurrentTask) (file : OpenFile) (op : FileOp) (ret : Int64)
    (blank : FileRecord) (s : Stores P K S) :
    ∃ known, (complete filling file op ret blank).outcome s =
      (completed blank filling file op ret (KeyedTable.lookup s.known file.identity).1,
        { s with known }) := by
  unfold complete completed
  cases blank.fill filling op ret with
  | error fault => exact ⟨s.known, rfl⟩
  | ok record => exact ⟨_, outcome_name file record s⟩

section Journaled

variable [RecordSink S FileRecord] (scope : Scope) (deciding filling : CurrentTask)
variable (file : OpenFile) (op : FileOp) (ret : Int64)

theorem onExitWith_of_not_considered {life : SlotLife S FileRecord σ} {s : Stores P K S}
    (h : ¬ Considered scope deciding file) :
    (onExitWith life scope deciding filling file op ret).after s = s := by
  unfold onExitWith
  unfold Considered at h
  cases hr : file.isRegular with
  | error fault => rfl
  | ok regular =>
    cases regular with
    | false => rfl
    | true =>
      cases hd : deciding.inScope scope.target with
      | error fault => rfl
      | ok inside =>
        cases inside with
        | false => rfl
        | true => exact absurd ⟨hr, hd⟩ h

theorem onExitWith_of_considered {life : SlotLife S FileRecord σ} (hlife : life.Resolves)
    (h : Considered scope deciding file) :
    (onExitWith life scope deciding filling file op ret : Hook P K S Unit) =
      Hook.emit filling.cpu "vfs event" (complete filling file op ret) := by
  unfold onExitWith
  rw [h.1, h.2, Hook.emitWith_eq hlife]
  rfl

/-- Found under the journal is what an access does to a ring without one. -/
theorem agree_onExitWith {life : SlotLife (Journal S FileRecord) FileRecord σ}
    {life' : SlotLife S FileRecord σ} (h : life.Resolves) (h' : life'.Resolves) :
    Hook.Agree (P := P) (K := K)
      ⟨Eq, Eq, fun (journal : Journal S FileRecord) (ring : S) => journal.sink = ring⟩
      (onExitWith life scope deciding filling file op ret)
      (onExitWith life' scope deciding filling file op ret) := by
  unfold onExitWith
  rw [Hook.emitWith_eq h, Hook.emitWith_eq h']
  refine .ask _ fun regular _ => .ite (fun _ => Hook.agree_pure _) fun _ => ?_
  refine .ask _ fun inside _ => .ite (fun _ => Hook.agree_pure _) fun _ => ?_
  refine Hook.Agree.emit (Journal.sinksMatch_sink _) fun R blank => .ask _ fun record _ => ?_
  refine Hook.Agree.known? tablesMatch_eq _ ?_ fun entry _ => ?_
  · exact .ask _ fun basename _ => Hook.agree_pure _
  · exact .ite (fun _ => Hook.agree_pure _) fun _ => Hook.agree_pure _

end Journaled

/-- What an access adds to the journal of a ring: nothing if it does not get to a reservation or is
refused one, and otherwise the reservation and its one resolution, which hands the record over if it
is complete and gives the room back if it is not. -/
def ResolvesOnce (S : Type) {σ : Type} [RecordSink S FileRecord]
    (life : SlotLife (Journal S FileRecord) FileRecord σ) : Prop :=
  ∀ (P K : Type) [KeyedTable K UInt64 PathEntry] (scope : Scope) (deciding filling : CurrentTask)
    (file : OpenFile) (op : FileOp) (ret : Int64) (s : Stores P K (Journal S FileRecord)),
    let deeds := ((onExitWith life scope deciding filling file op ret).after s).events.deeds
    let found := (KeyedTable.lookup s.known file.identity).1
    (¬ Considered scope deciding file ∨ RecordSink.reserve s.events.sink filling.cpu = none →
      deeds = s.events.deeds) ∧
    ∀ slot held, Considered scope deciding file →
      RecordSink.reserve s.events.sink filling.cpu = some (slot, held) →
      (Completes filling file found ∧ ∃ record, deeds =
        s.events.deeds ++ [.reserved filling.cpu, .submitted slot.cpu record]) ∨
      (¬ Completes filling file found ∧ deeds =
        s.events.deeds ++ [.reserved filling.cpu, .discarded slot.cpu])

theorem resolvesOnce_of_resolves {S σ : Type} [RecordSink S FileRecord]
    {life : SlotLife (Journal S FileRecord) FileRecord σ} (h : life.Resolves) :
    ResolvesOnce S life := by
  intro P K _ scope deciding filling file op ret s deeds found
  have hemit : Considered scope deciding file → deeds = ((Hook.emit filling.cpu "vfs event"
      (complete filling file op ret)).after s).events.deeds := by
    intro hcan
    rw [← onExitWith_of_considered scope deciding filling file op ret h hcan]
  refine ⟨fun hnone => ?_, fun slot held hcan hreserve => ?_⟩
  · by_cases hcan : Considered scope deciding file
    · have hnone : RecordSink.reserve s.events filling.cpu = none :=
        Journal.reserve_eq_none_iff.2 (hnone.resolve_left (absurd hcan))
      exact (hemit hcan).trans (by rw [Hook.after_emit_of_none hnone])
    · show ((onExitWith life scope deciding filling file op ret).after s).events.deeds = _
      rw [onExitWith_of_not_considered scope deciding filling file op ret hcan]
  · obtain ⟨known, hbody⟩ := outcome_complete filling file op ret slot.record
      (⟨s.pending, s.known, ⟨held, s.events.deeds ++ [.reserved filling.cpu]⟩, s.notices⟩ :
        Stores P K (Journal S FileRecord))
    have hdeeds : deeds = s.events.deeds ++ [.reserved filling.cpu,
        .resolution slot.cpu (completed slot.record filling file op ret found)] :=
      (hemit hcan).trans (Hook.deeds_emit
        (t := { s with known, events := ⟨held, s.events.deeds ++ [.reserved filling.cpu]⟩ })
        hreserve hbody rfl)
    have hiff := completed_eq_some_iff slot.record filling file op ret found
    by_cases hc : Completes filling file found
    · obtain ⟨record, hrecord⟩ := hiff.2 hc
      refine .inl ⟨hc, record, ?_⟩
      rw [hdeeds, hrecord]
      rfl
    · refine .inr ⟨hc, ?_⟩
      rw [hdeeds]
      cases hanswer : completed slot.record filling file op ret found with
      | error fault => rfl
      | ok record? =>
        cases record? with
        | none => rfl
        | some record => exact absurd (hiff.1 ⟨record, hanswer⟩) hc

end File.Access

open File Access Kernel in
/-- Of every access, on whatever ring and with whichever slots: a reservation is resolved once, and
by a submission just if the record was completed. The ring below gets all of this, and for a task
that answers the same each time the hook is the tracer's own, whose ring holds no room between two
calls but for the records in it. -/
theorem reservations_resolved :
    (∀ (S : Type) [RecordSink S FileRecord],
      ResolvesOnce S OwnedSlot.life ∧ ResolvesOnce S EntrySlot.life) ∧
    (∀ (P K S : Type) [KeyedTable K UInt64 PathEntry] [RecordSink S FileRecord] (scope : Scope)
      (deciding filling : CurrentTask) (file : OpenFile) (op : FileOp) (ret : Int64)
      (s : Stores P K S),
      let journaled : Stores P K (Journal S FileRecord) :=
        ⟨s.pending, s.known, ⟨s.events, []⟩, s.notices⟩
      ((onExitWith OwnedSlot.life scope deciding filling file op ret).after journaled).events.sink =
        ((onExitWith OwnedSlot.life scope deciding filling file op ret).after s).events ∧
      ((onExitWith EntrySlot.life scope deciding filling file op ret).after journaled).events.sink =
        ((onExitWith EntrySlot.life scope deciding filling file op ret).after s).events) ∧
    (∀ (P K S : Type) [KeyedTable K UInt64 PathEntry] [RecordSink S FileRecord] (scope : Scope)
      (task : CurrentTask) (file : OpenFile) (op : FileOp) (ret : Int64),
      (onExitWith OwnedSlot.life scope task task file op ret : Hook P K S Unit) =
        onExit scope task file op ret ∧
      (onExitWith EntrySlot.life scope task task file op ret : Hook P K S Unit) =
        onExit scope task file op ret) ∧
    (∀ (scope : Scope) (ringBytes : Nat) (tracer : FileTracer),
      FileTracer.Reached scope ringBytes tracer →
      tracer.stores.events.used = recordSize FileRecord * tracer.stores.events.queue.size) := by
  refine ⟨?once, ?below, ?steady, ?level⟩
  case once =>
    intro S _
    exact ⟨resolvesOnce_of_resolves OwnedSlot.resolves_life,
      resolvesOnce_of_resolves EntrySlot.resolves_life⟩
  case below =>
    intro P K S _ _ scope deciding filling file op ret s journaled
    have howned := agree_onExitWith (P := P) (K := K) scope deciding filling file op ret
      (OwnedSlot.resolves_life (S := Journal S FileRecord)) (OwnedSlot.resolves_life (S := S))
    have hentry := agree_onExitWith (P := P) (K := K) scope deciding filling file op ret
      (EntrySlot.resolves_life (S := Journal S FileRecord)) (EntrySlot.resolves_life (S := S))
    exact ⟨(howned journaled s ⟨rfl, rfl, rfl⟩).2.events,
      (hentry journaled s ⟨rfl, rfl, rfl⟩).2.events⟩
  case steady =>
    intro P K S _ _ scope task file op ret
    exact ⟨onExitWith_steady OwnedSlot.resolves_life scope task file op ret,
      onExitWith_steady EntrySlot.resolves_life scope task file op ret⟩
  case level =>
    intro scope ringBytes tracer h
    rw [Fifo.size_eq_length_toList]
    exact (FileTracer.sound_of_reaches h).2.2

open File Access Kernel in
/-- A file whose path is not remembered, and whose name cannot be read either. -/
theorem reservations_resolved_unnamed :
    let task := (Task.ofProcess 42).current
    let fault : Fault := .unreadableKernel "read_basename" 0 256
    let file : OpenFile :=
      { identity := 7, isRegular := .ok true, basename := .error fault, fullPath := .error fault }
    let s : Stores Unit (RecencyTable UInt64 PathEntry)
        (Journal (RingOutput FileRecord) FileRecord) :=
      ⟨(), .empty 8, ⟨{ capacity := 4096 }, []⟩, []⟩
    let tracer := ((FileTracer.empty {} 4096).step (.accessed .read task file 5)).2
    Considered {} task file ∧
    ((onExitWith EntrySlot.life {} task task file .read 5).after s).events.deeds =
      [.reserved 0, .discarded 0] ∧
    FileTracer.Reached {} 4096 tracer ∧
    tracer.stores.events.used = recordSize FileRecord * tracer.stores.events.queue.size := by
  intro task fault file s tracer
  have hconsidered : Considered {} task file := ⟨rfl, rfl⟩
  have hreached : FileTracer.Reached {} 4096 tracer := .call _ .start
  have hunknown : (KeyedTable.lookup s.known file.identity).1 = none :=
    ((RecencyTable.coherent_empty 8).fst_get? 7).trans (RecencyTable.peek?_empty 8 7)
  have hunnamed : ¬ Completes task file (KeyedTable.lookup s.known file.identity).1 := by
    rw [hunknown]
    rintro ⟨-, -, -, basename, hbasename⟩
    cases hbasename
  have hroom : s.events.sink.used + RingOutput.recordBytes FileRecord ≤ s.events.sink.capacity := by
    decide +kernel
  have hreserve : RecordSink.reserve s.events.sink task.cpu =
      some (⟨0, Layout.zero⟩, { s.events.sink with reserved := 1 }) := by
    show RingOutput.reserve s.events.sink 0 = _
    rw [RingOutput.reserve, if_pos hroom]
  have honce := ((reservations_resolved.1 (RingOutput FileRecord)).2 Unit
    (RecencyTable UInt64 PathEntry) {} task task file .read 5 s).2 _ _ hconsidered hreserve
  refine ⟨hconsidered, ?_, hreached, reservations_resolved.2.2.2 {} 4096 tracer hreached⟩
  rcases honce with ⟨hcompletes, -⟩ | ⟨-, hdeeds⟩
  · exact absurd hcompletes hunnamed
  · exact hdeeds

end HookTrace
