import HookTrace.Proofs.File.Names
import HookTrace.Proofs.File.PathRule
import HookTrace.Proofs.Fillings

/-!
# HookTrace.Proofs.File.Reports

Which reads and writes are reported, under which name, told from what has happened to a tracer
before: calls, and events that were taken out of its ring (`Turn`). What counts of the calls are the
opens (`resolved?`), as long as the table has room for the files opened (`Recalls`); of the ring, only
how much of it is in use.

* `Access.record?_filling`, `Access.fst_outcome_onExit`: what an access fills in, and how it ends.
* `FileTracer.reports_exactly`: what an access does to the ring, and what it returns.
-/

namespace HookTrace.Store.ByteRing

open RecordSink

variable {ρ : Type} [Layout ρ]

theorem clears : Clears (ByteRing ρ) := by
  intro ring cpu slot held h
  exact (reserve_eq_some h).1

theorem hasRoom_iff (ring : ByteRing ρ) (cpu : Nat) :
    HasRoom ring cpu ↔ ring.used + recordSize ρ ≤ ring.capacity := by
  show (ring.reserve cpu).isSome = true ↔ _
  by_cases hroom : ring.used + recordSize ρ ≤ ring.capacity
  · rw [reserve_of_le hroom]
    exact ⟨fun _ => hroom, fun _ => rfl⟩
  · rw [reserve_of_lt (Nat.not_le.1 hroom)]
    exact ⟨fun h => (Bool.false_ne_true h).elim, fun h => absurd h hroom⟩

/-- A ring after one record was put into it. -/
def pushed (ring : ByteRing ρ) (record : ρ) : ByteRing ρ :=
  { ring with used := ring.used + recordSize ρ, queue := ring.queue.push record }

/-- Room that is given back is as if it had never been taken. -/
theorem settled_eq (ring : ByteRing ρ) (cpu : Nat) (filling? : Option (Filling ρ)) :
    settled ring cpu filling? =
      if ring.used + recordSize ρ ≤ ring.capacity then
        ((filling?.bind Filling.record?).map ring.pushed).getD ring
      else ring := by
  by_cases hroom : ring.used + recordSize ρ ≤ ring.capacity
  · have hreserve : RecordSink.reserve ring cpu =
        some (⟨cpu, Layout.zero⟩, { ring with used := ring.used + recordSize ρ }) :=
      reserve_of_le hroom cpu
    -- a record that is given up
    have hback : RecordSink.release { ring with used := ring.used + recordSize ρ }
        (⟨cpu, Layout.zero⟩ : Slot ρ) = ring := by
      show { ring with used := ring.used + recordSize ρ - recordSize ρ } = ring
      rw [Nat.add_sub_cancel]
    rw [if_pos hroom]
    cases filling? with
    | none => rfl
    | some fill =>
      rw [settled, hreserve, Option.bind_some, Filling.record?]
      simp only
      cases fill Layout.zero with
      | error fault => exact hback
      | ok record? =>
        cases record? with
        | none => exact hback
        | some record => rfl
  · rw [if_neg hroom, settled_of_none (reserve_of_lt (Nat.not_le.1 hroom) cpu)]

theorem capacity_settled (ring : ByteRing ρ) (cpu : Nat) (filling? : Option (Filling ρ)) :
    (settled ring cpu filling?).capacity = ring.capacity := by
  rw [settled_eq]
  split
  · cases filling?.bind Filling.record? <;> rfl
  · rfl

theorem capacity_of_receive {ring rest : ByteRing ρ} {record : ρ}
    (h : ring.receive = some (record, rest)) : rest.capacity = ring.capacity := by
  unfold receive at h
  split at h
  · cases h
  · cases h
    rfl

end HookTrace.Store.ByteRing

namespace HookTrace.File

open Store

/-! ### The hook on an access, for a task and a file -/

namespace Access

variable (scope : Scope) (task : Task) (file : Opened) (op : FileOp) (ret : Int64)

/-- An access that a record is asked for. -/
def Counts (scope : Scope) (task : Task) (file : Opened) : Prop :=
  file.regular = true ∧ inScope task.tgid task.parentTgid scope.target = true

instance : Decidable (Counts scope task file) :=
  inferInstanceAs (Decidable (_ ∧ _))

theorem completed_view (found : Option PathEntry) :
    completed Layout.zero task.current file.view op ret found =
      .ok ((file.reported? found).map (.ofAccess op task ret)) := by
  show named file.view (.ofAccess op task ret (Field.zero _)) found = _
  unfold named Opened.reported?
  cases found with
  | some entry =>
    cases hex : excluded entry.filename.terminated with
    | false =>
      simp only [hex, Bool.false_eq_true, if_false]
      rfl
    | true =>
      simp only [hex, if_true]
      rfl
  | none =>
    have hbasename : file.view.basename =
        .ok (Opened.terminated (Opened.lastComponent file.path)) := rfl
    simp only [hbasename, Option.map_some, ← ofBytes_terminated]
    rfl

theorem record?_filling (found : Option PathEntry) :
    (filling? scope task.current file.view op ret found).bind Filling.record? =
      if Counts scope task file then (file.reported? found).map (.ofAccess op task ret)
      else none := by
  have hregular : file.view.isRegular = .ok file.regular := rfl
  unfold filling?
  rw [hregular, inScope_current]
  simp only [Except.toOption, Option.bind_some]
  by_cases hcounts : Counts scope task file
  · rw [if_pos hcounts, hcounts.1, hcounts.2]
    simp only [Bool.not_true, Bool.false_eq_true, if_false, Option.bind_some]
    rw [Filling.record?, completed_view]
    rfl
  · rw [if_neg hcounts]
    cases hr : file.regular with
    | false => rfl
    | true =>
      cases hin : inScope task.tgid task.parentTgid scope.target with
      | false => rfl
      | true => exact absurd ⟨hr, hin⟩ hcounts

/-- The only fault is that of a ring without room. -/
theorem fst_outcome_onExit (s : FileStores) :
    ((onExit scope task.current file.view op ret).outcome s).1 =
      if Counts scope task file ∧ ¬ s.events.used + recordSize FileRecord ≤ s.events.capacity then
        .error (.outOfSpace "vfs event")
      else .ok () := by
  have hregular : file.view.isRegular = .ok file.regular := rfl
  unfold onExit
  rw [hregular, inScope_current, Hook.ok_bind]
  by_cases hcounts : Counts scope task file
  · rw [hcounts.1, hcounts.2]
    show ((Hook.emit task.current.cpu "vfs event"
      (complete task.current file.view op ret)).outcome s).1 = _
    rw [Hook.outcome_emit]
    by_cases hroom : s.events.used + recordSize FileRecord ≤ s.events.capacity
    · have hreserve : RecordSink.reserve s.events task.current.cpu = some (_, _) :=
        ByteRing.reserve_of_le hroom task.cpu
      obtain ⟨known, hbody⟩ := outcome_complete task.current file.view op ret Layout.zero
        { s with events := { s.events with used := s.events.used + recordSize FileRecord } }
      rw [if_neg fun h => h.2 hroom]
      simp only [hreserve, hbody, completed_view]
      cases file.reported? (KeyedTable.lookup s.known file.view.identity).1 <;> rfl
    · have hreserve : RecordSink.reserve s.events task.current.cpu = none :=
        ByteRing.reserve_of_lt (Nat.not_le.1 hroom) task.cpu
      rw [hreserve, if_pos ⟨hcounts, hroom⟩]
  · have hfits : ¬ (Counts scope task file ∧
        ¬ s.events.used + recordSize FileRecord ≤ s.events.capacity) := fun h => hcounts h.1
    cases hr : file.regular with
    | false => exact (if_neg hfits).symm
    | true =>
      cases hin : inScope task.tgid task.parentTgid scope.target with
      | false => exact (if_neg hfits).symm
      | true => exact absurd ⟨hr, hin⟩ hcounts

end Access

/-! ### Turns of a tracer -/

/-- A call of a hook, or events that are taken out of the ring: the oldest, or all of them. -/
inductive Turn where
  | call (act : Act)
  | receive
  | drain

def Turn.act? : Turn → Option Act
  | call act => some act
  | receive => none
  | drain => none

/-- The calls of a history. -/
def acts (past : List Turn) : List Act :=
  past.filterMap Turn.act?

def Act.opened? : Act → Option UInt64
  | opened file => some file.identity
  | accessed .. => none

namespace FileTracer

def serve (tracer : FileTracer) : Turn → FileTracer
  | .call act => (tracer.step act.call).2
  | .receive =>
    match tracer.stores.events.receive with
    | none => tracer
    | some (_, events) => { tracer with stores := { tracer.stores with events } }
  | .drain =>
    { tracer with stores := { tracer.stores with events := tracer.stores.events.drain.2 } }

variable (scope : Scope) (ringBytes : Nat)

/-- A tracer after turns, of which the latest is the first in the list. -/
def afterTurns : (past : List Turn) → FileTracer
  | [] => .empty scope ringBytes
  | turn :: past => (afterTurns past).serve turn

variable {scope ringBytes}

theorem events_opened (tracer : FileTracer) (file : Opened) :
    (tracer.step (.opened file.view)).2.stores.events = tracer.stores.events := by
  rw [snd_step]
  show ((Access.onOpen file.view).after tracer.stores).events = _
  rw [FileStores.after_opened]
  cases file.resolved? <;> rfl

theorem events_accessed (tracer : FileTracer) (op : FileOp) (task : CurrentTask) (file : OpenFile)
    (ret : Int64) :
    (tracer.step (.accessed op task file ret)).2.stores.events =
      RecordSink.settled tracer.stores.events task.cpu
        (Access.filling? tracer.config task file op ret
          (tracer.stores.known.peek? file.identity)) := by
  rw [snd_step, ← RecencyTable.fst_lookup]
  exact Access.settles_onExit tracer.config task file op ret tracer.stores

theorem code_accessed (tracer : FileTracer) (op : FileOp) (task : Task) (file : Opened)
    (ret : Int64) :
    (tracer.step (.accessed op task.current file.view ret)).1.code ≠ 0 ↔
      Access.Counts tracer.config task file ∧
        ¬ tracer.stores.events.used + recordSize FileRecord ≤ tracer.stores.events.capacity := by
  have hcode : (tracer.step (.accessed op task.current file.view ret)).1.code =
      returnCode ((Access.onExit tracer.config task.current file.view op ret).outcome
        tracer.stores).1 :=
    tracer.code_call (Access.function op) fun scope =>
      Access.hook scope (.accessed op task.current file.view ret)
  rw [hcode, Access.fst_outcome_onExit]
  by_cases hfull : Access.Counts tracer.config task file ∧
      ¬ tracer.stores.events.used + recordSize FileRecord ≤ tracer.stores.events.capacity
  · rw [if_pos hfull]
    exact iff_of_true (Fault.code_ne_zero (.outOfSpace "vfs event")) hfull
  · rw [if_neg hfull]
    exact iff_of_false (fun h => h rfl) hfull

theorem config_serve (tracer : FileTracer) (turn : Turn) :
    (tracer.serve turn).config = tracer.config := by
  cases turn with
  | call act =>
    rw [serve, snd_step]
  | receive =>
    unfold serve
    cases tracer.stores.events.receive <;> rfl
  | drain => rfl

theorem capacity_serve (tracer : FileTracer) (turn : Turn) :
    (tracer.serve turn).stores.events.capacity = tracer.stores.events.capacity := by
  cases turn with
  | call act =>
    cases act with
    | opened file => exact congrArg ByteRing.capacity (events_opened tracer file)
    | accessed op task file ret =>
      show (tracer.step (.accessed op task.current file.view ret)).2.stores.events.capacity = _
      rw [events_accessed, ByteRing.capacity_settled]
  | receive =>
    unfold serve
    cases h : tracer.stores.events.receive with
    | none => rfl
    | some received => exact ByteRing.capacity_of_receive h
  | drain =>
    show tracer.stores.events.drain.2.capacity = _
    rw [ByteRing.drain_eq]

variable (scope : Scope) (ringBytes : Nat)

theorem config_afterTurns (past : List Turn) : (afterTurns scope ringBytes past).config = scope := by
  induction past with
  | nil => rfl
  | cons turn past ih => exact (config_serve _ turn).trans ih

theorem capacity_afterTurns (past : List Turn) :
    (afterTurns scope ringBytes past).stores.events.capacity = ringBytes := by
  induction past with
  | nil => rfl
  | cons turn past ih => exact (capacity_serve _ turn).trans ih

end FileTracer

/-! ### What is remembered -/

/-- What the files that were opened have left behind, in a table with room for them. -/
structure Recalls (identities : Finset UInt64) (past : List Act)
    (known : RecencyTable UInt64 PathEntry) : Prop where
  roomy : known.Roomy identities
  entry : ∀ identity, known.peek? identity =
    (resolved? past identity).map fun path => ⟨.ofBytes _ path⟩

namespace Recalls

variable {identities : Finset UInt64} {past : List Act} {s : FileStores}

theorem empty (h : identities.card ≤ Limits.paths) :
    Recalls identities [] (RecencyTable.empty Limits.paths) where
  roomy := .empty h
  entry := RecencyTable.peek?_empty _

theorem opened (h : Recalls identities past s.known) {file : Opened}
    (hfile : file.identity ∈ identities) :
    Recalls identities (.opened file :: past) ((Access.onOpen file.view).after s).known := by
  rw [FileStores.after_opened]
  cases hr : file.resolved? with
  | none =>
    refine ⟨h.roomy, fun identity => ?_⟩
    rw [resolved?_cons, Act.resolves?, hr, ite_self]
    exact h.entry identity
  | some path =>
    refine ⟨h.roomy.insert hfile _, fun identity => ?_⟩
    rw [h.roomy.peek?_insert hfile, resolved?_cons, Act.resolves?, hr]
    by_cases hother : identity = file.identity
    · rw [if_pos hother, if_pos hother.symm]
      rfl
    · rw [if_neg hother, if_neg (Ne.symm hother)]
      exact h.entry identity

theorem accessed (h : Recalls identities past s.known) (scope : Scope) (op : FileOp) (task : Task)
    (file : Opened) (ret : Int64) :
    Recalls identities (.accessed op task file ret :: past)
      ((Access.onExit scope task.current file.view op ret).after s).known := by
  have htouches := FileStores.touches_accessed scope task file op ret h.roomy.coherent
  refine ⟨h.roomy.touches htouches, fun identity => ?_⟩
  rw [htouches.peek?_eq h.roomy.coherent, resolved?_cons]
  exact h.entry identity

end Recalls

namespace FileTracer

variable (scope : Scope) (ringBytes : Nat)

/-- What each call keeps, and what does not go by the events, holds after any turns. -/
theorem stores_afterTurns {I : List Act → FileStores → Prop}
    (hempty : I [] (empty scope ringBytes).stores)
    (hcall : ∀ {past s} act, I past s →
      I (act :: past) { (Access.hook scope act.call).after s with notices := [] })
    (hread : ∀ {past} {s : FileStores} events, I past s → I past { s with events })
    (past : List Turn) : I (acts past) (afterTurns scope ringBytes past).stores := by
  induction past with
  | nil => exact hempty
  | cons turn past ih =>
    cases turn with
    | call act =>
      show I (act :: acts past) ((afterTurns scope ringBytes past).step act.call).2.stores
      rw [snd_step, config_afterTurns]
      exact hcall act ih
    | receive =>
      show I (acts past) ((afterTurns scope ringBytes past).serve .receive).stores
      unfold serve
      cases (afterTurns scope ringBytes past).stores.events.receive with
      | none => exact ih
      | some received => exact hread received.2 ih
    | drain => exact hread _ ih

theorem remembers_afterTurns (past : List Turn) :
    Remembers (afterTurns scope ringBytes past).stores (acts past) := by
  refine stores_afterTurns (I := fun past s => Remembers s past) scope ringBytes
    (remembers_empty scope ringBytes) (fun act h => ?_) (fun _ h => ?_) past
  · have hstep := remembers_hook scope h act
    exact ⟨hstep.coherent, hstep.path_of_entry⟩
  · exact ⟨h.coherent, h.path_of_entry⟩

theorem recalls_afterTurns {past : List Turn}
    (hroom : ((acts past).filterMap Act.opened?).toFinset.card ≤ Limits.paths) :
    Recalls ((acts past).filterMap Act.opened?).toFinset (acts past)
      (afterTurns scope ringBytes past).stores.known := by
  generalize hids : ((acts past).filterMap Act.opened?).toFinset = identities at hroom ⊢
  -- by induction over the turns before, whose identities are among those of the whole history
  refine stores_afterTurns scope ringBytes
    (I := fun past s => ((past.filterMap Act.opened?).toFinset ⊆ identities →
      Recalls identities past s.known))
    (fun _ => .empty hroom) (fun act h hsub => ?_) (fun _ h => h) past (hids ▸ Finset.Subset.refl _)
  cases act with
  | opened file =>
    have hidentity : (Act.opened file).opened? = some file.identity := rfl
    rw [List.filterMap_cons_some hidentity, List.toFinset_cons, Finset.insert_subset_iff] at hsub
    exact (h hsub.2).opened hsub.1
  | accessed op task file ret => exact (h hsub).accessed scope op task file ret

end FileTracer

/-! ### Reports -/

/-- The name that an access is reported with: the path that the identity of the file was last opened
with, as far as it could be resolved, or else the last component of the file's own path, cut. -/
def Opened.name (file : Opened) (path? : Option Bytes) : Bytes :=
  path?.getD ((lastComponent file.path).take (Limits.filename - 1))

theorem Opened.length_name_lt (file : Opened) {path? : Option Bytes}
    (h : ∀ path, path? = some path → path.length < Limits.filename) :
    (file.name path?).length < Limits.filename := by
  cases path? with
  | some path => exact h path rfl
  | none => exact length_cut_lt _

theorem Opened.reported?_eq (file : Opened) {path? : Option Bytes}
    (h : ∀ path, path? = some path → path.length < Limits.filename) :
    file.reported? (path?.map fun path => ⟨.ofBytes _ path⟩) =
      if ∀ path, path? = some path → excluded (.ofBytes _ path) = false then
        some (.ofBytes _ (file.name path?))
      else none := by
  cases path? with
  | none => exact (if_pos fun path hpath => by cases hpath).symm
  | some path =>
    have hname := Field.terminated_ofBytes (h path rfl)
    simp only [Option.map_some, reported?, hname, Option.some.injEq, forall_eq']
    cases excluded (.ofBytes _ path) <;> rfl

/-- A record tells of a call, under a name. -/
structure FileRecord.Describes (record : FileRecord) (op : FileOp) (task : Task) (ret : Int64)
    (name : Bytes) : Prop where
  size : (record.size.toNat : Int) = max ret.toInt 0
  ret : record.ret = ret
  op : record.op? = some op
  ts : record.ts = task.now
  comm : record.comm = task.comm
  pid : record.pid = task.pid
  tgid : record.tgid = task.tgid
  uid : record.uid = task.uid
  filename : record.filename.bytes = name ++ List.replicate (Limits.filename - name.length) 0
  text : (0 : UInt8) ∉ name → record.filename.text = name

theorem FileRecord.describes_ofAccess (op : FileOp) (task : Task) (ret : Int64) {name : Bytes}
    (h : name.length < Limits.filename) :
    (ofAccess op task ret (.ofBytes _ name)).Describes op task ret name where
  size := by
    show ((if ret ≥ 0 then ret.toUInt64 else 0 : UInt64).toNat : Int) = _
    by_cases hret : 0 ≤ ret
    · have hint : 0 ≤ ret.toInt := Int64.le_iff_toInt_le.1 hret
      have hsize : (ret.toUInt64.toNat : Int) = ret.toInt := by
        rw [Int64.toNat_toUInt64_of_le hret]
        exact Int.toNat_of_nonneg hint
      rw [if_pos hret, hsize, max_eq_left hint]
    · have hint : ret.toInt < 0 := Int64.lt_iff_toInt_lt.1 (Int64.not_le.1 hret)
      rw [if_neg hret, max_eq_right (Int.le_of_lt hint)]
      rfl
  ret := rfl
  op := by cases op <;> rfl
  ts := rfl
  comm := rfl
  pid := rfl
  tgid := rfl
  uid := rfl
  filename := Field.bytes_ofBytes (Nat.le_of_lt h)
  text := Field.text_ofBytes (Nat.le_of_lt h)

namespace FileTracer

variable (scope : Scope) (ringBytes : Nat)

/-- An access after `past` is reported as far as it is not for the ring to say. -/
structure Shows (past : List Turn) (task : Task) (file : Opened) : Prop where
  counts : Access.Counts scope task file
  not_excluded : ∀ path, resolved? (acts past) file.identity = some path →
    excluded (.ofBytes _ path) = false

theorem events_accessed_afterTurns {past : List Turn}
    (hroom : ((acts past).filterMap Act.opened?).toFinset.card ≤ Limits.paths)
    (op : FileOp) (task : Task) (file : Opened) (ret : Int64) [Decidable (Shows scope past task file)] :
    ((afterTurns scope ringBytes past).step
        (.accessed op task.current file.view ret)).2.stores.events =
      if (afterTurns scope ringBytes past).stores.events.used + recordSize FileRecord ≤ ringBytes ∧
          Shows scope past task file then
        (afterTurns scope ringBytes past).stores.events.pushed
          (.ofAccess op task ret (.ofBytes _ (file.name (resolved? (acts past) file.identity))))
      else (afterTurns scope ringBytes past).stores.events := by
  have hentry : (afterTurns scope ringBytes past).stores.known.peek? file.view.identity =
      (resolved? (acts past) file.identity).map fun path => ⟨.ofBytes _ path⟩ :=
    (recalls_afterTurns scope ringBytes hroom).entry file.identity
  have hlen : ∀ path, resolved? (acts past) file.identity = some path →
      path.length < Limits.filename := fun path hpath => length_of_resolved? hpath
  rw [events_accessed, config_afterTurns, hentry, ByteRing.settled_eq, capacity_afterTurns,
    Access.record?_filling, Opened.reported?_eq file hlen]
  by_cases hfits :
      (afterTurns scope ringBytes past).stores.events.used + recordSize FileRecord ≤ ringBytes
  · rw [if_pos hfits]
    by_cases hcounts : Access.Counts scope task file
    · rw [if_pos hcounts]
      by_cases hshown : ∀ path, resolved? (acts past) file.identity = some path →
          excluded (.ofBytes _ path) = false
      · rw [if_pos hshown, if_pos ⟨hfits, hcounts, hshown⟩]
        rfl
      · rw [if_neg hshown, if_neg fun h => hshown h.2.not_excluded]
        rfl
    · rw [if_neg hcounts, if_neg fun h => hcounts h.2.counts]
      rfl
  · rw [if_neg hfits, if_neg fun h => hfits h.1]

/-- Reads and writes are reported exactly. One that counts, of a file whose path is not excluded, adds
one record to the ring if there is room; it is reported with the path that the identity of the file
was last opened with, or with the last component of the file's own path. Every other one leaves the
ring as it was, and so does an open. That there was no room shows in the return code, and nothing
else does. -/
theorem reports_exactly {past : List Turn}
    (hroom : ((acts past).filterMap Act.opened?).toFinset.card ≤ Limits.paths) :
    let tracer := afterTurns scope ringBytes past
    let ring := tracer.stores.events
    let HasRoom := ring.used + recordSize FileRecord ≤ ringBytes
    (∀ op task file ret,
      let ended := tracer.step (Act.accessed op task file ret).call
      let name := file.name (resolved? (acts past) file.identity)
      (HasRoom → Shows scope past task file →
        ∃ record : FileRecord, record.Describes op task ret name ∧
          ended.2.stores.events.queue.toList = ring.queue.toList ++ [record] ∧
          ended.2.stores.events.used = ring.used + recordSize FileRecord) ∧
      (¬ (HasRoom ∧ Shows scope past task file) → ended.2.stores.events = ring) ∧
      (ended.1.code ≠ 0 ↔ Access.Counts scope task file ∧ ¬ HasRoom)) ∧
    (∀ file, (tracer.step (Act.opened file).call).2.stores.events = ring) ∧
    ∀ identity path, resolved? (acts past) identity = some path → (0 : UInt8) ∉ path →
      (excluded (.ofBytes _ path) = true ↔
        (∃ root ∈ ["/proc/", "/sys/", "/dev/", "/run/", "/host/"],
          Bytes.ofString root <+: path) ∨ Bytes.ofString "/.cache/" <:+: path) := by
  classical
  intro tracer ring HasRoom
  refine ⟨fun op task file ret => ⟨?reported, ?other, ?code⟩, ?opened, ?excluded⟩
  case reported =>
    intro hfits hshows
    have hname : (file.name (resolved? (acts past) file.identity)).length < Limits.filename :=
      file.length_name_lt fun path hpath => length_of_resolved? hpath
    have hevents := events_accessed_afterTurns scope ringBytes hroom op task file ret
    rw [if_pos ⟨hfits, hshows⟩] at hevents
    refine ⟨_, FileRecord.describes_ofAccess op task ret hname, ?_, ?_⟩
    · exact (congrArg (·.queue.toList) hevents).trans (Fifo.toList_push _ _)
    · exact congrArg ByteRing.used hevents
  case other =>
    intro hnot
    exact (events_accessed_afterTurns scope ringBytes hroom op task file ret).trans (if_neg hnot)
  case code =>
    have hcode := code_accessed tracer op task file ret
    rw [config_afterTurns, capacity_afterTurns] at hcode
    exact hcode
  case opened => exact events_opened tracer
  case excluded =>
    intro identity path hpath h0
    exact excluded_ofBytes_iff (length_of_resolved? hpath) h0

/-- A ring with room for one record is full after the first read. -/
theorem reports_exactly_full :
    let task := Task.ofProcess 42
    let file : Opened := { identity := 1, path := [47, 115, 114, 118, 47, 100] }
    let opened : List Turn := [.call (.opened file)]
    let full : List Turn := .call (.accessed .read task file 4) :: opened
    let bytes := recordSize FileRecord
    (∃ record : FileRecord, record.Describes .read task 4 file.path ∧
      (afterTurns ⟨42⟩ bytes full).stores.events.queue.toList = [record]) ∧
    ((afterTurns ⟨42⟩ bytes full).step (Act.accessed .write task file 4).call).1.code ≠ 0 ∧
    ((afterTurns ⟨42⟩ bytes full).step (Act.accessed .write task file 4).call).2.stores.events =
      (afterTurns ⟨42⟩ bytes full).stores.events := by
  intro task file opened full bytes
  have hcounts : Access.Counts ⟨42⟩ task file := by decide
  have hshows : Shows ⟨42⟩ opened task file := by
    refine ⟨hcounts, fun path hpath => ?_⟩
    cases hpath
    decide +kernel
  have hempty : (afterTurns ⟨42⟩ bytes opened).stores.events = .empty (recordSize FileRecord) :=
    events_opened _ file
  have hopened : ((acts opened).filterMap Act.opened?).toFinset.card ≤ Limits.paths := by decide
  have hagain : ((acts full).filterMap Act.opened?).toFinset.card ≤ Limits.paths := by decide
  obtain ⟨record, hrecord, hqueue, hused⟩ :=
    ((reports_exactly ⟨42⟩ bytes hopened).1 .read task file 4).1
      (Nat.le_of_eq ((congrArg (·.used + recordSize FileRecord) hempty).trans (Nat.zero_add _)))
      hshows
  have hfull : ¬ (afterTurns ⟨42⟩ bytes full).stores.events.used + recordSize FileRecord ≤
      recordSize FileRecord := by
    have hpos : 0 < recordSize FileRecord := by decide +kernel
    have hring : (afterTurns ⟨42⟩ bytes full).stores.events.used =
        (afterTurns ⟨42⟩ bytes opened).stores.events.used + recordSize FileRecord := hused
    omega
  have hsecond := (reports_exactly ⟨42⟩ bytes hagain).1 .write task file 4
  refine ⟨⟨record, hrecord, ?_⟩, ?_, ?_⟩
  · have hlist : (afterTurns ⟨42⟩ bytes full).stores.events.queue.toList =
        (afterTurns ⟨42⟩ bytes opened).stores.events.queue.toList ++ [record] := hqueue
    rw [hlist, hempty]
    rfl
  · exact hsecond.2.2.2 ⟨hcounts, hfull⟩
  · exact hsecond.2.1 fun h => hfull h.1

end FileTracer

end HookTrace.File
