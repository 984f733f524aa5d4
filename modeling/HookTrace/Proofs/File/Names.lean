import HookTrace.File.Tracer
import HookTrace.Proofs.File.OpenFile
import HookTrace.Proofs.Hook
import HookTrace.Proofs.Store.Capacity

/-!
# HookTrace.Proofs.File.Names

The names that reads and writes are reported with. What is remembered of an identity is the path of
its latest open that could be resolved (`resolved?`), or nothing; an open that could not be resolved
leaves what an earlier file of the same identity has left.

* `FileTracer.after_accessed`: if what is remembered is the file's own path, the file is reported
  with its own path or its own last component, and left out for its own path only.
* `FileTracer.reused_identity_misreports`: the name of another file is reported otherwise.
-/

namespace HookTrace.Store.ByteRing

variable {ρ : Type} [Layout ρ]

theorem reserve_of_le {ring : ByteRing ρ} (h : ring.used + recordSize ρ ≤ ring.capacity)
    (cpu : Nat) : ring.reserve cpu =
      some (⟨cpu, Layout.zero⟩, { ring with used := ring.used + recordSize ρ }) := by
  rw [reserve, claim, if_pos h]

theorem reserve_of_lt {ring : ByteRing ρ} (h : ring.capacity < ring.used + recordSize ρ)
    (cpu : Nat) : ring.reserve cpu = none := by
  rw [reserve, claim, if_neg (Nat.not_le.2 h)]

theorem queue_release (ring : ByteRing ρ) (slot : Slot ρ) :
    (ring.release slot).queue = ring.queue := rfl

end HookTrace.Store.ByteRing

namespace HookTrace.File

open Store

/-- A call of a hook, for a task and a file of which everything is known. -/
inductive Act where
  | opened (file : Opened)
  | accessed (op : FileOp) (task : Task) (file : Opened) (ret : Int64)

def Act.call : Act → Access.Call
  | opened file => .opened file.view
  | accessed op task file ret => .accessed op task.current file.view ret

/-- The path that an open remembers. -/
def Opened.resolved? (file : Opened) : Option Bytes :=
  if file.path.length < Limits.filename then some file.path else none

theorem Opened.length_of_resolved? {file : Opened} {path : Bytes}
    (h : file.resolved? = some path) : path.length < Limits.filename := by
  unfold resolved? at h
  split at h
  · cases h
    assumption
  · cases h

/-- The name that an access is reported with, by what is remembered of its file. -/
def Opened.reported? (file : Opened) : Option PathEntry → Option (Field Limits.filename)
  | some entry =>
    if excluded entry.filename.terminated then none else some entry.filename.terminated
  | none => some (.ofBytes _ ((lastComponent file.path).take (Limits.filename - 1)))

/-- The record of an access. -/
def FileRecord.ofAccess (op : FileOp) (task : Task) (ret : Int64)
    (filename : Field Limits.filename) : FileRecord where
  pid := task.pid
  tgid := task.tgid
  uid := task.uid
  ts := task.now
  size := if ret ≥ 0 then ret.toUInt64 else 0
  ret := ret
  op := UInt8.ofNat (Coded.code op)
  comm := task.comm
  filename := filename

/-- A name that is cut and terminated is the cut name in its field. -/
theorem ofBytes_terminated (name : Bytes) :
    Field.ofBytes Limits.filename (Opened.terminated name) =
      .ofBytes _ (name.take (Limits.filename - 1)) :=
  Field.ofBytes_append_zero (Opened.length_cut_lt name)

namespace Access

variable {P K S : Type} [KeyedTable K UInt64 PathEntry] [RecordSink S FileRecord]

/-! ### The hooks for a task and a file -/

omit [RecordSink S FileRecord] in
theorem after_onOpen (file : Opened) (s : Stores P K S) :
    (onOpen file.view).after s =
      match file.resolved? with
      | none => s
      | some path => (Hook.learn file.identity (⟨.ofBytes _ path⟩ : PathEntry)).after s := by
  rw [onOpen_eq, Opened.resolved?]
  by_cases hlen : file.path.length < Limits.filename
  · have hwritten : (Field.zero Limits.filename).overwrite (Opened.terminated file.path) =
        .ofBytes _ (file.path.take (Limits.filename - 1)) := ofBytes_terminated file.path
    rw [Opened.take_of_length_lt hlen] at hwritten
    rw [Opened.fullPathInto_of_lt hlen, hwritten, if_pos hlen]
    rfl
  · rw [Opened.fullPathInto_of_le (Nat.not_lt.1 hlen), if_neg hlen]
    rfl

omit [RecordSink S FileRecord] in
theorem name_view (file : Opened) {record : FileRecord} (h : record.filename = Field.zero _)
    (s : Stores P K S) :
    name file.view record s =
      .ok ((file.reported? (KeyedTable.lookup s.known file.identity).1).map fun filename =>
          { record with filename })
        { s with known := (KeyedTable.lookup s.known file.identity).2 } := by
  have hbase : file.view.basenameInto record.filename =
      (.ok (), .ofBytes _ ((Opened.lastComponent file.path).take (Limits.filename - 1))) := by
    rw [Opened.basenameInto_view, h, ← ofBytes_terminated]
    rfl
  have hknown : (Hook.known? file.view.identity : Hook P K S (Option PathEntry)) s =
      .ok (KeyedTable.lookup s.known file.identity).1
        { s with known := (KeyedTable.lookup s.known file.identity).2 } := rfl
  rw [name_eq, Opened.reported?.eq_def, hbase]
  simp only [bind, EStateM.bind, hknown]
  cases (KeyedTable.lookup s.known file.identity).1 with
  | none => rfl
  | some entry => cases hex : excluded entry.filename.terminated <;> simp [hex] <;> rfl

theorem after_onExit (scope : Scope) (task : Task) (file : Opened) (op : FileOp) (ret : Int64)
    (s : Stores P K S) :
    (onExit scope task.current file.view op ret).after s =
      if file.regular ∧ inScope task.tgid task.parentTgid scope.target then
        (Hook.emit task.cpu "vfs event" fun blank => do
          name file.view (← FileRecord.fill blank task.current op ret)).after s
      else s := by
  have hreg : file.view.isRegular = .ok file.regular := rfl
  unfold onExit
  rw [hreg, inScope_current, Hook.ok_bind]
  cases file.regular with
  | false => rfl
  | true =>
    rw [Hook.ok_bind]
    cases inScope task.tgid task.parentTgid scope.target <;> rfl

end Access

/-! ### What a call can do to the stores of a tracer -/

abbrev FileStores := Stores Unit (RecencyTable UInt64 PathEntry) (ByteRing FileRecord)

/-- Whether an access is reported, as far as its file's name is not concerned. -/
def Reportable (scope : Scope) (task : Task) (file : Opened) (ring : ByteRing FileRecord) : Prop :=
  file.regular ∧ inScope task.tgid task.parentTgid scope.target ∧
    ring.used + recordSize FileRecord ≤ ring.capacity

instance (scope : Scope) (task : Task) (file : Opened) (ring : ByteRing FileRecord) :
    Decidable (Reportable scope task file ring) :=
  inferInstanceAs (Decidable (_ ∧ _ ∧ _))

namespace FileStores

variable {s : FileStores} (scope : Scope) (task : Task) (file : Opened)

theorem after_opened :
    (Access.onOpen file.view).after s =
      match file.resolved? with
      | none => s
      | some path => { s with known := s.known.insert file.identity ⟨.ofBytes _ path⟩ } := by
  rw [Access.after_onOpen]
  cases file.resolved? with
  | none => rfl
  | some path => exact Hook.after_learn rfl

theorem after_unreportable (op : FileOp) (ret : Int64)
    (h : ¬ Reportable scope task file s.events) :
    let s' := (Access.onExit scope task.current file.view op ret).after s
    s'.known = s.known ∧ s'.events.queue = s.events.queue := by
  rw [Access.after_onExit]
  by_cases hseen : file.regular ∧ inScope task.tgid task.parentTgid scope.target
  · have hroom : s.events.capacity < s.events.used + recordSize FileRecord :=
      Nat.not_le.1 fun hroom => h ⟨hseen.1, hseen.2, hroom⟩
    rw [if_pos hseen, Hook.after_emit_of_none (ByteRing.reserve_of_lt hroom task.cpu)]
    exact ⟨rfl, rfl⟩
  · rw [if_neg hseen]
    exact ⟨rfl, rfl⟩

theorem after_reportable (op : FileOp) (ret : Int64) (hk : s.known.Coherent)
    (h : Reportable scope task file s.events) :
    let s' := (Access.onExit scope task.current file.view op ret).after s
    s'.known = (s.known.get? file.identity).2 ∧
      s'.events.queue =
        match file.reported? (s.known.peek? file.identity) with
        | none => s.events.queue
        | some filename => s.events.queue.push (.ofAccess op task ret filename) := by
  obtain ⟨hregular, hscope, hroom⟩ := h
  have hfill : (Layout.zero : FileRecord).fill task.current op ret =
      .ok (.ofAccess op task ret (Field.zero _)) := rfl
  have hblank : (FileRecord.ofAccess op task ret (Field.zero _)).filename = Field.zero _ := rfl
  have hlookup : (KeyedTable.lookup s.known file.identity).1 = s.known.peek? file.identity :=
    hk.fst_get? file.identity
  rw [Access.after_onExit, if_pos ⟨hregular, hscope⟩,
    Hook.after_emit (ByteRing.reserve_of_le hroom task.cpu)]
  simp only [hfill, Hook.ok_bind]
  rw [Access.name_view file hblank]
  simp only [hlookup]
  cases file.reported? (s.known.peek? file.identity) with
  | none => exact ⟨rfl, ByteRing.queue_release _ ⟨task.cpu, Layout.zero⟩⟩
  | some filename => exact ⟨rfl, rfl⟩

/-- An access shows in what is remembered by the order of the last touches only. -/
theorem touches_accessed (op : FileOp) (ret : Int64) (hk : s.known.Coherent) :
    s.known.Touches ((Access.onExit scope task.current file.view op ret).after s).known := by
  by_cases h : Reportable scope task file s.events
  · rw [(after_reportable scope task file op ret hk h).1]
    exact .key file.identity
  · rw [(after_unreportable scope task file op ret h).1]
    exact .none

end FileStores

/-! ### Runs -/

/-- The path that a call makes remembered of an identity. -/
def Act.resolves? (identity : UInt64) : Act → Option Bytes
  | opened file => if file.identity = identity then file.resolved? else none
  | accessed .. => none

/-- The path of the latest open of an identity that could be resolved. The latest call comes
first. -/
def resolved? (past : List Act) (identity : UInt64) : Option Bytes :=
  past.findSome? (·.resolves? identity)

theorem resolved?_cons (act : Act) (past : List Act) (identity : UInt64) :
    resolved? (act :: past) identity = (act.resolves? identity).or (resolved? past identity) := by
  unfold resolved?
  cases h : act.resolves? identity <;> simp [h]

theorem length_of_resolved? {past : List Act} {identity : UInt64} {path : Bytes}
    (h : resolved? past identity = some path) : path.length < Limits.filename := by
  obtain ⟨act, -, hact⟩ := List.exists_of_findSome?_eq_some h
  cases act with
  | accessed => cases hact
  | opened file =>
    rw [Act.resolves?] at hact
    split at hact
    · exact Opened.length_of_resolved? hact
    · cases hact

/-- Every path that is remembered was resolved when its identity was last opened so. -/
structure Remembers (s : FileStores) (past : List Act) : Prop where
  coherent : s.known.Coherent
  path_of_entry : ∀ identity entry, s.known.peek? identity = some entry →
    ∃ path, resolved? past identity = some path ∧ path.length < Limits.filename ∧
      entry.filename = .ofBytes _ path

namespace FileTracer

/-- A tracer after calls, of which the latest is the first in the list. -/
def after (scope : Scope) (ringBytes : Nat) : (past : List Act) → FileTracer
  | [] => .empty scope ringBytes
  | act :: past => ((after scope ringBytes past).step act.call).2

theorem snd_step (tracer : FileTracer) (call : Access.Call) :
    (tracer.step call).2 =
      ⟨tracer.config, { (Access.hook tracer.config call).after tracer.stores with
        notices := [] }⟩ := by
  rw [← tracer.snd_call call.name fun scope => Access.hook scope call]
  cases call <;> rfl

variable (scope : Scope) (ringBytes : Nat)

theorem config_after (past : List Act) : (after scope ringBytes past).config = scope := by
  induction past with
  | nil => rfl
  | cons act past ih =>
    rw [after, snd_step]
    exact ih

theorem stores_after_cons (act : Act) (past : List Act) :
    (after scope ringBytes (act :: past)).stores =
      { (Access.hook scope act.call).after (after scope ringBytes past).stores with
        notices := [] } := by
  rw [after, snd_step, config_after]

theorem remembers_opened {s : FileStores} {past : List Act} (h : Remembers s past)
    (file : Opened) :
    Remembers ((Access.onOpen file.view).after s) (.opened file :: past) := by
  rw [FileStores.after_opened]
  cases hr : file.resolved? with
  | none =>
    refine ⟨h.coherent, ?_⟩
    intro identity entry hp
    obtain ⟨path, hpath, hlen, hentry⟩ := h.path_of_entry identity entry hp
    refine ⟨path, ?_, hlen, hentry⟩
    rw [resolved?_cons, ← hpath]
    simp [Act.resolves?, hr]
  | some path =>
    refine ⟨h.coherent.insert file.identity _, ?_⟩
    intro identity entry hp
    rw [resolved?_cons]
    by_cases hid : identity = file.identity
    · subst hid
      simp only [h.coherent.peek?_insert_self, Option.some.injEq] at hp
      exact ⟨path, by simp [Act.resolves?, hr], Opened.length_of_resolved? hr, by rw [← hp]⟩
    -- an entry of another file was there before
    · obtain ⟨path, hpath, hlen, hentry⟩ :=
        h.path_of_entry identity entry (h.coherent.peek?_of_insert hid hp)
      exact ⟨path, by simp [Act.resolves?, Ne.symm hid, hpath], hlen, hentry⟩

theorem remembers_accessed {s : FileStores} {past : List Act} (h : Remembers s past) (op : FileOp)
    (task : Task) (file : Opened) (ret : Int64) :
    Remembers ((Access.onExit scope task.current file.view op ret).after s)
      (.accessed op task file ret :: past) := by
  have htouches := FileStores.touches_accessed scope task file op ret h.coherent
  refine ⟨htouches.coherent h.coherent, ?_⟩
  intro identity entry hp
  exact h.path_of_entry identity entry ((htouches.peek?_eq h.coherent identity).symm.trans hp)

theorem remembers_empty : Remembers (empty scope ringBytes).stores [] := by
  refine ⟨RecencyTable.coherent_empty _, ?_⟩
  intro identity entry hp
  have hnone := RecencyTable.peek?_empty Limits.paths identity (ν := PathEntry)
  cases hnone.symm.trans hp

/-- Every call keeps to it. -/
theorem remembers_hook {s : FileStores} {past : List Act} (h : Remembers s past) (act : Act) :
    Remembers ((Access.hook scope act.call).after s) (act :: past) := by
  cases act with
  | opened file => exact remembers_opened h file
  | accessed op task file ret => exact remembers_accessed scope h op task file ret

theorem remembers_after (past : List Act) :
    Remembers (after scope ringBytes past).stores past := by
  induction past with
  | nil => exact remembers_empty scope ringBytes
  | cons act past ih =>
    rw [stores_after_cons]
    have h := remembers_hook scope ih act
    exact ⟨h.coherent, h.path_of_entry⟩

theorem known_after_opened (file : Opened) (past : List Act) :
    (after scope ringBytes (.opened file :: past)).stores.known =
      match file.resolved? with
      | none => (after scope ringBytes past).stores.known
      | some path =>
        (after scope ringBytes past).stores.known.insert file.identity ⟨.ofBytes _ path⟩ := by
  rw [stores_after_cons]
  show ((Access.onOpen file.view).after (after scope ringBytes past).stores).known = _
  rw [FileStores.after_opened]
  cases file.resolved? <;> rfl

theorem events_after_opened (file : Opened) (past : List Act) :
    (after scope ringBytes (.opened file :: past)).stores.events =
      (after scope ringBytes past).stores.events := by
  rw [stores_after_cons]
  show ((Access.onOpen file.view).after (after scope ringBytes past).stores).events = _
  rw [FileStores.after_opened]
  cases file.resolved? <;> rfl

theorem queue_after_unreportable (op : FileOp) (task : Task) (file : Opened) (ret : Int64)
    {past : List Act} (h : ¬ Reportable scope task file (after scope ringBytes past).stores.events) :
    (after scope ringBytes (.accessed op task file ret :: past)).stores.events.queue =
      (after scope ringBytes past).stores.events.queue := by
  rw [stores_after_cons]
  exact (FileStores.after_unreportable scope task file op ret h).2

theorem queue_after_reportable (op : FileOp) (task : Task) (file : Opened) (ret : Int64)
    {past : List Act} (h : Reportable scope task file (after scope ringBytes past).stores.events) :
    (after scope ringBytes (.accessed op task file ret :: past)).stores.events.queue =
      match file.reported? ((after scope ringBytes past).stores.known.peek? file.identity) with
      | none => (after scope ringBytes past).stores.events.queue
      | some filename =>
        (after scope ringBytes past).stores.events.queue.push (.ofAccess op task ret filename) := by
  rw [stores_after_cons]
  exact (FileStores.after_reportable scope task file op ret
    (remembers_after scope ringBytes past).coherent h).2

/-- However full the table is: if what was last resolved for the identity of a file is the file's
own path, an access to the file is reported with that path or with the last component of it, and
it is left out only because that path is excluded. -/
theorem reports_own_name {past : List Act} {file : Opened}
    (hown : ∀ path, resolved? past file.identity = some path → path = file.path)
    (op : FileOp) (task : Task) (ret : Int64) :
    let before := (after scope ringBytes past).stores.events
    let ring := (after scope ringBytes (.accessed op task file ret :: past)).stores.events
    (∃ filename, (filename = .ofBytes _ file.path ∨
        filename = .ofBytes _ ((Opened.lastComponent file.path).take (Limits.filename - 1))) ∧
      ring.queue = before.queue.push (.ofAccess op task ret filename)) ∨
    ring.queue = before.queue ∧
      (Reportable scope task file before → excluded (.ofBytes _ file.path) = true) := by
  intro before ring
  by_cases hreport : Reportable scope task file before
  · have hring := queue_after_reportable scope ringBytes op task file ret hreport
    cases hk : (after scope ringBytes past).stores.known.peek? file.identity with
    | none =>
      rw [hk] at hring
      exact .inl ⟨_, .inr rfl, hring⟩
    | some entry =>
      obtain ⟨path, hresolved, hlen, hentry⟩ :=
        (remembers_after scope ringBytes past).path_of_entry _ _ hk
      have hname : entry.filename.terminated = .ofBytes _ file.path := by
        rw [hentry, Field.terminated_ofBytes hlen, hown path hresolved]
      rw [hk, Opened.reported?, hname] at hring
      by_cases hex : excluded (.ofBytes _ file.path) = true
      · rw [if_pos hex] at hring
        exact .inr ⟨hring, fun _ => hex⟩
      · rw [if_neg hex] at hring
        exact .inl ⟨_, .inl rfl, hring⟩
  · exact .inr ⟨queue_after_unreportable scope ringBytes op task file ret hreport,
      fun h => absurd h hreport⟩

/-- The identity of a closed file is used again, for a file with a short path. -/
theorem reports_own_name_reused :
    let closed : Opened := { identity := 1, path := [47, 101, 116, 99, 47, 112] }
    let file : Opened := { identity := 1, path := [47, 115, 114, 118, 47, 100] }
    let past : List Act := [.opened file, .opened closed]
    (∀ path, resolved? past file.identity = some path → path = file.path) ∧
    ∃ filename, (filename = .ofBytes _ [47, 115, 114, 118, 47, 100] ∨
        filename = .ofBytes _ [100]) ∧
      (after {} Limits.ringBytes (.accessed .read (.ofProcess 42) file 4 :: past)).stores.events.queue
        = Fifo.empty.push (.ofAccess .read (.ofProcess 42) 4 filename) := by
  intro closed file past
  have hown : ∀ path, resolved? past file.identity = some path → path = file.path := by
    have hlast : resolved? past file.identity = some file.path := rfl
    intro path hpath
    exact (Option.some.inj (hlast.symm.trans hpath)).symm
  refine ⟨hown, ?_⟩
  have hbefore : (after {} Limits.ringBytes past).stores.events = .empty Limits.ringBytes := rfl
  rcases reports_own_name {} Limits.ringBytes hown .read (.ofProcess 42) 4 with hnamed | hout
  · rw [hbefore] at hnamed
    exact hnamed
  · have hreport : Reportable {} (.ofProcess 42) file (.empty Limits.ringBytes) := by decide
    rw [hbefore] at hout
    exact absurd (hout.2 hreport) (by decide +kernel)

/-- The identity of a closed file is used again, for a file whose path cannot be resolved. The file
is reported with the path of the closed one. -/
theorem reused_identity_misreports :
    let closed : Opened := { identity := 1, path := [47, 101, 116, 99, 47, 112] }
    let file : Opened := { identity := 1, path := 47 :: List.replicate 300 100 ++ [47, 100] }
    let past : List Act := [.opened file, .opened closed]
    (after {} Limits.ringBytes past).stores.events.queue = .empty ∧
    (after {} Limits.ringBytes (.accessed .read (.ofProcess 42) file 4 :: past)).stores.events.queue
      = Fifo.empty.push (.ofAccess .read (.ofProcess 42) 4 (.ofBytes _ closed.path)) ∧
    Field.ofBytes Limits.filename closed.path ≠ .ofBytes _ file.path ∧
    Field.ofBytes Limits.filename closed.path ≠
      .ofBytes _ ((Opened.lastComponent file.path).take (Limits.filename - 1)) := by
  intro closed file past
  have hclosed : closed.resolved? = some closed.path := rfl
  have hfile : file.resolved? = none := by decide +kernel
  have hevents : (after {} Limits.ringBytes past).stores.events = .empty Limits.ringBytes := by
    rw [events_after_opened, events_after_opened]
    rfl
  have hknown : (after {} Limits.ringBytes past).stores.known.peek? 1 =
      some ⟨.ofBytes _ closed.path⟩ := by
    rw [known_after_opened, hfile, known_after_opened, hclosed]
    exact (RecencyTable.coherent_empty Limits.paths).peek?_insert_self 1 _
  refine ⟨by rw [hevents]; rfl, ?_, by decide +kernel, by decide +kernel⟩
  have hname : file.reported? (some ⟨.ofBytes _ closed.path⟩) = some (.ofBytes _ closed.path) := by
    decide +kernel
  have hreport : Reportable {} (.ofProcess 42) file (.empty Limits.ringBytes) := by decide +kernel
  rw [queue_after_reportable {} Limits.ringBytes .read _ file 4 (hevents ▸ hreport), hknown, hname,
    hevents]
  rfl

end FileTracer

end HookTrace.File
