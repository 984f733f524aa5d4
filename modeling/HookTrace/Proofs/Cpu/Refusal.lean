import HookTrace.Proofs.Cpu.Counting
import HookTrace.Proofs.Store.Capacity
import HookTrace.Proofs.Unwinding
import HookTrace.Store.Refusing

/-!
# HookTrace.Proofs.Cpu.Refusal

Switches to a task whose start is not recorded. What becomes of the outgoing task is `account`, and
that is all there is to a switch to a task out of scope (`outcome_onSwitch_of_outsider`).

* If the table refuses the start, the outgoing task is accounted for all the same and the refusal is
  reported afterwards (`outcome_onSwitch_of_refused`).
* If a question about the incoming task has no answer, the switch ends there and then, and the
  outgoing task goes on running as far as the tables are concerned (`outcome_onSwitch_of_unanswered`,
  `unreadable_parent_keeps_slice`).
-/

namespace HookTrace.Cpu.Switch

open Store

variable {P H S : Type} [KeyedTable P UInt32 UInt64] [HistogramTable H]
variable {scope : Scope} {current : CurrentTask} {prev : TaskInfo} {s : Stores P H S}

/-- What has to be known of the incoming task and is not: whether it is in scope, or its thread. -/
def Unanswered (scope : Scope) (current : CurrentTask) (fault : Fault) : Prop :=
  current.inScope scope.target = .error fault ∨
    current.inScope scope.target = .ok true ∧ current.pid = .error fault

/-- The table has no room for the incoming task's start. -/
structure Refused (scope : Scope) (current : CurrentTask) (table : P) (fault : Fault) : Prop where
  inScope_eq : current.inScope scope.target = .ok true
  exists_pid : ∃ pid, current.pid = .ok pid ∧
    KeyedTable.record table pid current.now = .error fault

omit [HistogramTable H] in
theorem outcome_start_of_outsider (h : current.inScope scope.target = .ok false) :
    (start scope current).outcome s = (.ok none, s) := by
  unfold start
  rw [h]
  rfl

omit [HistogramTable H] in
theorem outcome_start_of_unanswered {fault : Fault} (h : Unanswered scope current fault) :
    (start scope current).outcome s = (.error fault, s) := by
  unfold start
  rcases h with hscope | ⟨hscope, hpid⟩
  · rw [hscope]
    rfl
  · rw [hscope, hpid]
    rfl

omit [HistogramTable H] in
theorem outcome_start_of_refused {fault : Fault} (h : Refused scope current s.pending fault) :
    (start scope current).outcome s = (.ok (some fault), s) := by
  obtain ⟨pid, hpid, hrecord⟩ := h.exists_pid
  have hleave : (Hook.leave pid current.now : Hook P H S Unit) s = .error fault s := by
    unfold Hook.leave
    simp only [hrecord]
  unfold start Hook.outcome
  rw [h.inScope_eq, hpid, Hook.ok_bind]
  simp only [Bool.not_true, Bool.false_eq_true, if_false]
  rw [Hook.ok_bind]
  simp only [tryCatch, tryCatchThe, MonadExceptOf.tryCatch, EStateM.tryCatch, bind, EStateM.bind,
    hleave]
  rfl

theorem outcome_onSwitch_of_outsider (h : current.inScope scope.target = .ok false) :
    (onSwitch scope current prev).outcome s = (account scope prev current.now).outcome s := by
  unfold onSwitch
  rw [Hook.outcome_bind, outcome_start_of_outsider h]
  simp only
  rw [Hook.outcome_bind]
  rcases (account scope prev current.now).outcome s with ⟨answer, t⟩
  cases answer <;> rfl

theorem outcome_onSwitch_of_unanswered {fault : Fault} (h : Unanswered scope current fault) :
    (onSwitch scope current prev).outcome s = (.error fault, s) := by
  unfold onSwitch
  rw [Hook.outcome_bind, outcome_start_of_unanswered h]

/-- A fault of the accounting is reported before the refusal. -/
theorem outcome_onSwitch_of_refused {fault : Fault} (h : Refused scope current s.pending fault) :
    (onSwitch scope current prev).outcome s =
      (((account scope prev current.now).outcome s).1 >>= fun _ => .error fault,
        ((account scope prev current.now).outcome s).2) := by
  unfold onSwitch
  rw [Hook.outcome_bind, outcome_start_of_refused h]
  simp only
  rw [Hook.outcome_bind]
  rcases (account scope prev current.now).outcome s with ⟨answer, t⟩
  cases answer <;> rfl

/-- The histograms after a slice that began at `start` and ends now. -/
def counted? (prev : TaskInfo) (now start : UInt64) (known : H) : Except Fault H :=
  if now ≤ start then .ok known
  else do
    let tgid ← prev.tgid
    (HistogramTable.increment known tgid (log2Slot ((now - start) / nanosecondsPerMillisecond))
      (pure prev.comm) : Id (Except Fault H))

omit [KeyedTable P UInt32 UInt64] in
theorem outcome_count (tgid : UInt32) (slot : Nat) (name : Except Fault Comm) :
    (count tgid slot name : Hook P H S Unit).outcome s =
      match (HistogramTable.increment s.known tgid slot (pure name) : Id (Except Fault H)) with
      | .ok known => (.ok (), { s with known })
      | .error fault => (.error fault, s) := by
  obtain ⟨pending, known, events, notices⟩ := s
  unfold Hook.outcome count
  simp only
  cases (HistogramTable.increment known tgid slot (pure name) : Id (Except Fault H)) <;> rfl

/-- A start that is found is released, whatever becomes of its slice. -/
theorem outcome_account_of_started {pid : UInt32} {now start : UInt64} {pending : P}
    (hscope : prev.inScope scope.target = .ok true) (hpid : prev.pid = .ok pid)
    (hstart : KeyedTable.lookup s.pending pid = (some start, pending)) :
    (account scope prev now).outcome s =
      match counted? prev now start s.known with
      | .ok known => (.ok (), { s with pending := KeyedTable.remove pending pid, known })
      | .error fault => (.error fault, { s with pending := KeyedTable.remove pending pid }) := by
  unfold account counted?
  rw [hscope, hpid, Hook.ok_bind]
  simp only [Bool.not_true, Bool.false_eq_true, if_false]
  rw [Hook.ok_bind, Hook.outcome_claim, hstart]
  by_cases hle : now ≤ start
  · simp only [hle, if_true]
    rfl
  · simp only [hle, if_false]
    cases htgid : prev.tgid with
    | error fault => rfl
    | ok tgid =>
      rw [Hook.ok_bind, outcome_count]
      simp only [bind, Except.bind]
      cases (HistogramTable.increment s.known tgid
        (log2Slot ((now - start) / nanosecondsPerMillisecond)) (pure prev.comm) :
          Id (Except Fault H)) <;> rfl

theorem counted?_of_roomy {known : Histograms} {tgids : Finset UInt32} (h : known.Roomy tgids)
    {prev : Task} (ht : prev.tgid ∈ tgids) {now start : UInt64} (hlt : start < now) :
    counted? prev.current.toTaskInfo now start known =
      .ok (known.insert prev.tgid (((known.get? prev.tgid).getD (.fresh prev.comm)).bump
        (log2Slot ((now - start) / nanosecondsPerMillisecond)))) := by
  unfold counted?
  rw [if_neg (UInt64.not_le.2 hlt)]
  exact h.increment ht _ prev.comm

/-- A switch whose incoming task is not recorded, on any tables that may refuse anything. If the
table refuses the start, the stores are those after a switch at the same time to a task that is out
of scope, and the refusal is reported unless the accounting has a fault to report. A question that
has no answer ends the switch before the outgoing task is looked at. Accounted for means: the
outgoing task's start is released if there is one, and its slice counted if it took any time. -/
theorem onSwitch_unrecorded (scope : Scope) (current : CurrentTask) (prev : TaskInfo)
    (s : Stores P H S) :
    let switched := (onSwitch scope current prev).outcome s
    let accounted := (account scope prev current.now).outcome s
    (∀ fault, Refused scope current s.pending fault →
      switched = (accounted.1 >>= fun _ => .error fault, accounted.2)) ∧
    (∀ fault, Unanswered scope current fault → switched = (.error fault, s)) ∧
    (∀ outsider : CurrentTask, outsider.now = current.now →
      outsider.inScope scope.target = .ok false →
      (onSwitch scope outsider prev).outcome s = accounted) ∧
    ∀ pid start pending, prev.inScope scope.target = .ok true → prev.pid = .ok pid →
      KeyedTable.lookup s.pending pid = (some start, pending) →
      accounted =
        match counted? prev current.now start s.known with
        | .ok known => (.ok (), { s with pending := KeyedTable.remove pending pid, known })
        | .error fault => (.error fault, { s with pending := KeyedTable.remove pending pid }) := by
  intro switched accounted
  refine ⟨?refused, ?unanswered, ?outsider, ?started⟩
  case refused => exact fun fault h => outcome_onSwitch_of_refused h
  case unanswered => exact fun fault h => outcome_onSwitch_of_unanswered h
  case outsider =>
    intro outsider hnow h
    show _ = (account scope prev current.now).outcome s
    rw [outcome_onSwitch_of_outsider h, hnow]
  case started => exact fun pid start pending => outcome_account_of_started

/-- The table holds the start of one thread and refuses that of another, where a stranger would have
come in, and where the other thread's number cannot be read. -/
theorem onSwitch_unrecorded_full :
    let prev := Task.ofProcess 10
    let next := { Task.ofProcess 10 with pid := 20, now := 4000000 }.current
    let stranger := { Task.ofProcess 30 with now := 4000000 }.current
    let nameless := { next with pid := .error (.unreadableKernel "pid" 0 4) }
    let table : RecencyTable UInt32 UInt64 := (RecencyTable.empty 1).insert 10 0
    let s : Stores _ Histograms Unit := ⟨Refusing.mk table "cpu starts" true, .empty 1, (), []⟩
    let switched (current : CurrentTask) :=
      (onSwitch ⟨10⟩ current prev.current.toTaskInfo).outcome s
    (switched next).1 = .error (.outOfSpace "cpu starts") ∧
    (switched next).2 = (switched stranger).2 ∧
    (switched next).2.known.get? 10 = some ((Histogram.fresh prev.comm).bump 2) ∧
    (switched next).2.pending.table.peek? 10 = none ∧
    switched nameless = (.error (.unreadableKernel "pid" 0 4), s) := by
  intro prev next stranger nameless table s switched
  have hcoherent : table.Coherent := (RecencyTable.coherent_empty 1).insert 10 0
  have hfound : (KeyedTable.lookup table 10).1 = some 0 :=
    (RecencyTable.fst_lookup table 10).trans
      ((RecencyTable.coherent_empty 1).peek?_insert_self 10 0)
  have hlookup : KeyedTable.lookup s.pending 10 =
      (some 0, Refusing.mk (KeyedTable.lookup table 10).2 "cpu starts" true) :=
    Prod.ext hfound rfl
  have hroom : (Histograms.empty 1).Roomy {10} := .empty (by decide)
  have hcounted : counted? prev.current.toTaskInfo next.now 0 s.known = _ :=
    counted?_of_roomy hroom (by decide) (by decide)
  obtain ⟨hrefused, -, houtsider, hstarted⟩ :=
    onSwitch_unrecorded ⟨10⟩ next prev.current.toTaskInfo s
  obtain ⟨-, hunanswered, -, -⟩ := onSwitch_unrecorded ⟨10⟩ nameless prev.current.toTaskInfo s
  have haccounted := hstarted 10 0 _ rfl rfl hlookup
  rw [hcounted] at haccounted
  have hstranger : switched stranger = _ := houtsider stranger rfl rfl
  have hnext : switched next = _ := hrefused (.outOfSpace "cpu starts") ⟨rfl, 20, rfl, rfl⟩
  rw [haccounted] at hstranger hnext
  rw [hnext, hstranger]
  refine ⟨rfl, rfl, ?counted, ?released, hunanswered _ (.inr ⟨rfl, rfl⟩)⟩
  case counted =>
    have hslot : log2Slot ((next.now - 0) / nanosecondsPerMillisecond) = 2 := by decide +kernel
    show ((Histograms.empty 1).insert 10 _).get? 10 = _
    rw [Histograms.get?_insert, if_pos rfl, Histograms.get?_empty, hslot]
    rfl
  case released => exact ((hcoherent.get? 10).peek?_erase 10 10).trans (if_pos rfl)

/-- The traced process leaves the processor for a stranger whose parent cannot be read. Its start
stays and its slice is not counted, though a stranger who can be asked would have had both done. -/
theorem unreadable_parent_keeps_slice :
    let prev := Task.ofProcess 4242
    let stranger := { Task.ofProcess 9999 with now := 5000000 }.current
    let fault : Fault := .unreadableKernel "parent_tgid" 0 4
    let unreadable := { stranger with parentTgid := .error fault }
    let table : RecencyTable UInt32 UInt64 :=
      (RecencyTable.empty Limits.cpuEntries).insert 4242 1000000
    let s : Stores _ _ Unit := ⟨table, Histograms.empty Limits.cpuEntries, (), []⟩
    let switched := (onSwitch ⟨4242⟩ unreadable prev.current.toTaskInfo).outcome s
    let other := (onSwitch ⟨4242⟩ stranger prev.current.toTaskInfo).outcome s
    stranger.inScope 4242 = .ok false ∧ switched ≠ (.error fault, other.2) ∧
    switched = (.error fault, s) ∧
    s.pending.peek? 4242 = some 1000000 ∧ s.known.get? 4242 = none ∧
    other.2.pending.peek? 4242 = none ∧
    other.2.known.get? 4242 = some ((Histogram.fresh prev.comm).bump 2) := by
  intro prev stranger fault unreadable table s switched other
  have hempty : (RecencyTable.empty Limits.cpuEntries : RecencyTable UInt32 UInt64).Coherent :=
    RecencyTable.coherent_empty _
  have hcoherent : table.Coherent := hempty.insert 4242 1000000
  have hpeek : table.peek? 4242 = some 1000000 := hempty.peek?_insert_self 4242 1000000
  have hlookup : KeyedTable.lookup s.pending 4242 =
      (some 1000000, (KeyedTable.lookup table 4242).2) :=
    Prod.ext ((RecencyTable.fst_lookup table 4242).trans hpeek) rfl
  have hswitched : switched = (.error fault, s) :=
    outcome_onSwitch_of_unanswered (.inl rfl)
  have hroom : (Histograms.empty Limits.cpuEntries).Roomy {4242} := .empty (by decide)
  have hcounted : counted? prev.current.toTaskInfo stranger.now 1000000 s.known = _ :=
    counted?_of_roomy hroom (by decide) (by decide)
  have hother : other = _ := outcome_onSwitch_of_outsider (by rfl)
  rw [outcome_account_of_started rfl rfl hlookup, hcounted] at hother
  have hreleased : other.2.pending.peek? 4242 = none := by
    rw [hother]
    exact ((hcoherent.get? 4242).peek?_erase 4242 4242).trans (if_pos rfl)
  refine ⟨rfl, ?_, hswitched, hpeek, Histograms.get?_empty _ _, hreleased, ?_⟩
  · intro heq
    have hstores : s = other.2 := congrArg Prod.snd (hswitched.symm.trans heq)
    rw [← hstores] at hreleased
    cases hpeek.symm.trans hreleased
  · have hslot : log2Slot ((stranger.now - 1000000) / nanosecondsPerMillisecond) = 2 := by
      decide +kernel
    rw [hother]
    show ((Histograms.empty _).insert 4242 _).get? 4242 = _
    rw [Histograms.get?_insert, if_pos rfl, Histograms.get?_empty, hslot]
    rfl

end HookTrace.Cpu.Switch
