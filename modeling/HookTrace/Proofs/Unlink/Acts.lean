import HookTrace.Proofs.Hook
import HookTrace.Proofs.Store.Capacity
import HookTrace.Proofs.Store.Staging
import HookTrace.Proofs.Unlink.Directory
import HookTrace.Unlink.Tracer

/-!
# HookTrace.Proofs.Unlink.Acts

The hooks on deletions, called for a task and on a memory of which everything can be asked. What a
call goes by is put in words of the call alone: the pathname that an entry hook takes note of
(`Act.considered?`) and the pathname of a deletion that is answered (`deletion?`).
`UnlinkStores.decides_hook` says all that a call can do to the stores of a tracer.
-/

namespace HookTrace

/-- A string that was read ends with its terminator, and holds no other. -/
theorem AddressSpace.eq_text_of_stringAt {space : AddressSpace} {address : UInt64} {length : Nat}
    {bytes : Bytes} (h : space.stringAt address (length + 1) = some bytes) :
    bytes = bytes.text ++ [0] ∧ (Bytes.text bytes).length ≤ length := by
  unfold stringAt at h
  simp only at h
  cases htail : space.tail address with
  | none => simp [htail] at h
  | some tail =>
    simp only [htail] at h
    split at h
    · cases h
    · have htext := Bytes.text_append_zeros (Bytes.zero_not_mem_text (tail.take length)) 1
      have hlen : (Bytes.text (tail.take length)).length ≤ length := by
        refine Nat.le_trans (List.takeWhile_sublist _).length_le ?_
        exact List.length_take_le length tail
      cases h
      rw [List.replicate_one] at htext
      rw [htext]
      exact ⟨rfl, hlen⟩

end HookTrace

namespace HookTrace.Unlink

/-- A call of a hook: for which task, and on which memory of its process. -/
inductive Act where
  | enter (task : Task) (pathname : UInt64)
  | enterAt (task : Task) (pathname : UInt64) (flags : UInt64)
  | delete (variant : Variant) (task : Task) (space : AddressSpace)

namespace Act

def call : Act → Intercept.Call
  | enter task pathname => .enter task.current pathname
  | enterAt task pathname flags => .enterAt task.current pathname flags
  | delete variant task space => .delete variant task.current space.userSpace

def task : Act → Task
  | enter task _ => task
  | enterAt task _ _ => task
  | delete _ task _ => task

def pid (act : Act) : UInt32 :=
  act.task.pid

def isDeletion : Act → Bool
  | delete .. => true
  | _ => false

/-- The address of the pathname that an entry hook takes note of. It refuses the agent `this` and
its children, and the removal of directories. -/
def considered? (this : UInt32) : Act → Option UInt64
  | enter task pathname =>
    if isOwnProcess task.tgid task.parentTgid this then none else some pathname
  | enterAt task pathname flags =>
    if flags &&& Limits.removeDirectory ≠ 0 ∨ isOwnProcess task.tgid task.parentTgid this then none
    else some pathname
  | delete .. => none

end Act

/-- The pathname at `address`, if its deletion is answered: it can be read now, lies in `directory`,
and the processor has room for a record. -/
def deletion? (directory : Bytes) (cpus : Nat) (task : Task) (space : AddressSpace)
    (address : UInt64) : Option Bytes :=
  if task.cpu < max cpus 1 then
    match space.stringAt address Limits.pathname with
    | none => none
    | some bytes => if directory <+: bytes.text then some bytes.text else none
  else none

/-- The pathname of a call that is answered, where `awaited` are the addresses that entry hooks
took note of. -/
def Act.answered? (directory : Bytes) (cpus : Nat) (awaited : UInt32 → Option UInt64) :
    Act → Option Bytes
  | .delete _ task space => (awaited task.pid).bind (deletion? directory cpus task space)
  | _ => none

/-- The record of an answered deletion. -/
def UnlinkRecord.ofText (task : Task) (text : Bytes) : UnlinkRecord where
  tgid := task.tgid
  pid := task.pid
  uid := task.uid
  pathname := Field.ofBytes _ text

/-- What an answered deletion makes of the registers it was called with. -/
def ForcedReturn.answer (regs : ForcedReturn) : Option Bytes → ForcedReturn
  | none => regs
  | some _ => regs.override 0

theorem ForcedReturn.value_answer (text? : Option Bytes) :
    (answer {} text?).value = text?.map fun _ => 0 := by
  cases text? <;> rfl

/-- What is handed over for an answered deletion. -/
def records (task : Task) (text? : Option Bytes) : List (Nat × UnlinkRecord) :=
  text?.toList.map fun text => (task.cpu, .ofText task text)

theorem deletion?_eq_some_iff {directory : Bytes} {cpus : Nat} {task : Task}
    {space : AddressSpace} {address : UInt64} {text : Bytes} :
    deletion? directory cpus task space address = some text ↔
      task.cpu < max cpus 1 ∧ directory <+: text ∧
        ∃ bytes, space.stringAt address Limits.pathname = some bytes ∧ bytes.text = text := by
  unfold deletion?
  cases space.stringAt address Limits.pathname with
  | none => simp
  | some bytes =>
    simp only [Option.ite_none_right_eq_some, Option.some.injEq, exists_eq_left']
    constructor
    · rintro ⟨hcpu, hin, rfl⟩
      exact ⟨hcpu, hin, rfl⟩
    · rintro ⟨hcpu, hin, rfl⟩
      exact ⟨hcpu, hin, rfl⟩

theorem text_of_deletion {directory : Bytes} {cpus : Nat} {task : Task} {space : AddressSpace}
    {address : UInt64} {text : Bytes} (h : deletion? directory cpus task space address = some text) :
    (UnlinkRecord.ofText task text).pathname.text = text := by
  obtain ⟨_, _, bytes, hread, rfl⟩ := deletion?_eq_some_iff.1 h
  obtain ⟨_, hlen⟩ := AddressSpace.eq_text_of_stringAt hread
  exact Field.text_ofBytes (Nat.le_succ_of_le hlen) (Bytes.zero_not_mem_text bytes)

namespace Intercept

variable {P S : Type} [KeyedTable P UInt32 UInt64] [RecordSink S UnlinkRecord]
variable (config : UnlinkConfig) (task : Task) (space : AddressSpace)
variable (s : Stores P ForcedReturn S)

/-! ### The hooks for a task and a memory -/

omit [RecordSink S UnlinkRecord] in
theorem after_onEnter (pathname : UInt64) :
    (onEnter config task.current pathname).after s =
      match (Act.enter task pathname).considered? config.this with
      | none => s
      | some pathname => (Hook.leave task.pid pathname).after s := by
  show (if isOwnProcess task.tgid task.parentTgid config.this then pure ()
    else Hook.leave task.pid pathname : Hook P ForcedReturn S Unit).after s = _
  cases hown : isOwnProcess task.tgid task.parentTgid config.this <;>
    simp [Act.considered?, hown, Hook.after_pure]

omit [RecordSink S UnlinkRecord] in
theorem after_onEnterAt (pathname flags : UInt64) :
    (onEnterAt config task.current pathname flags).after s =
      match (Act.enterAt task pathname flags).considered? config.this with
      | none => s
      | some pathname => (Hook.leave task.pid pathname).after s := by
  unfold onEnterAt
  by_cases hflags : flags &&& Limits.removeDirectory ≠ 0
  · rw [if_pos hflags, Act.considered?, if_pos (.inl hflags)]
    rfl
  · rw [if_neg hflags, after_onEnter]
    simp only [Act.considered?, hflags, false_or]

omit [KeyedTable P UInt32 UInt64] [RecordSink S UnlinkRecord] in
theorem fill_of_unreadable {address : UInt64} (blank : UnlinkRecord)
    (h : space.stringAt address Limits.pathname = none) :
    ∃ fault, fill config task.current space.userSpace address blank s = .error fault s := by
  refine ⟨.unreadableUser "read_user_str" address Limits.pathname, ?_⟩
  have hread : space.userSpace.readString address Limits.pathname =
      .error (.unreadableUser "read_user_str" address Limits.pathname) := by
    simp [AddressSpace.userSpace, h]
  unfold fill UnlinkRecord.fill
  rw [hread]
  rfl

omit [KeyedTable P UInt32 UInt64] [RecordSink S UnlinkRecord] in
/-- The return value is forced before the record is handed over. -/
theorem fill_of_readable {address : UInt64} {bytes : Bytes}
    (h : space.stringAt address Limits.pathname = some bytes) :
    fill config task.current space.userSpace address Layout.zero s =
      if config.directory.text <+: bytes.text then
        .ok (some (.ofText task bytes.text)) { s with known := s.known.override 0 }
      else .ok none s := by
  have hread : space.userSpace.readString address Limits.pathname = .ok bytes := by
    simp [AddressSpace.userSpace, h]
  obtain ⟨hbytes, hlen⟩ := AddressSpace.eq_text_of_stringAt h
  -- the terminator that was read is one of the zeros behind the pathname
  have hfield : Field.ofBytes Limits.pathname (bytes.text ++ [0]) = .ofBytes _ bytes.text :=
    Field.ofBytes_append_zero (Nat.lt_succ_of_le hlen)
  rw [← hbytes] at hfield
  have hcovers : config.covers (UnlinkRecord.ofText task bytes.text).pathname.bytes = true ↔
      config.directory.text <+: bytes.text :=
    config.covers_ofBytes_iff (Nat.le_succ_of_le hlen)
  have hrecord : (Layout.zero : UnlinkRecord).fill task.current space.userSpace address =
      .ok (.ofText task bytes.text) := by
    unfold UnlinkRecord.fill UnlinkRecord.ofText
    rw [hread, ← hfield]
    rfl
  unfold fill
  rw [hrecord, Hook.ok_bind]
  by_cases hc : config.directory.text <+: bytes.text
  · rw [if_pos hc, hcovers.2 hc]
    rfl
  · rw [if_neg hc, Bool.eq_false_iff.2 (mt hcovers.1 hc)]
    rfl

theorem onDelete_current :
    (onDelete config task.current space.userSpace : Hook P ForcedReturn S Unit) =
      Hook.claim task.pid (intercept config task.current space.userSpace) := rfl

end Intercept

/-! ### What a call can do to the stores of a tracer -/

open Store

abbrev UnlinkStores :=
  Stores (RecencyTable UInt32 UInt64) ForcedReturn (PerCpuOutput UnlinkRecord)

/-- The entries of threads after a call. -/
def Act.entries (this : UInt32) (table : RecencyTable UInt32 UInt64) (act : Act) :
    RecencyTable UInt32 UInt64 :=
  if act.isDeletion then table.claimed act.pid
  else
    match act.considered? this with
    | none => table
    | some pathname => table.insert act.pid pathname

theorem Act.entries_cases {motive : RecencyTable UInt32 UInt64 → Prop} (this : UInt32)
    {table : RecencyTable UInt32 UInt64} (act : Act) (kept : motive table)
    (claimed : motive (table.claimed act.pid))
    (noted : ∀ pathname, motive (table.insert act.pid pathname)) :
    motive (act.entries this table) := by
  unfold entries
  split
  · exact claimed
  · cases act.considered? this with
    | none => exact kept
    | some pathname => exact noted pathname

namespace UnlinkStores

open Intercept

/-- `s'` is `s` after a call by `task` that leaves `pending` of the entries, and has answered the
deletion of `text?`, if of any. -/
structure Decides (cpus : Nat) (task : Task) (text? : Option Bytes)
    (pending : RecencyTable UInt32 UInt64) (s s' : UnlinkStores) : Prop where
  pending_eq : s'.pending = pending
  known_eq : s'.known = s.known.answer text?
  channel_eq : s'.events.channel = s.events.channel.outputs (records task text?)
  idle : s'.events.staging.Idle (max cpus 1)

variable {cpus : Nat} {s : UnlinkStores} (config : UnlinkConfig) (task : Task)
variable (space : AddressSpace)

theorem decides_intercept (hidle : s.events.staging.Idle (max cpus 1)) (address : UInt64) :
    Decides cpus task (deletion? config.directory.text cpus task space address) s.pending s
      ((intercept config task.current space.userSpace address).after s) := by
  show Decides cpus task _ _ s ((Hook.emit task.cpu "unlink event"
    (fill config task.current space.userSpace address)).after s)
  unfold deletion?
  by_cases hcpu : task.cpu < max cpus 1
  · obtain ⟨staging, hreserve, hback⟩ := PerCpuOutput.reserve_of_lt hidle hcpu
    rw [if_pos hcpu, Hook.after_emit hreserve]
    cases hread : space.stringAt address Limits.pathname with
    | none =>
      obtain ⟨fault, hfill⟩ := fill_of_unreadable config task space
        { s with events := { s.events with staging } } Layout.zero hread
      simp only [hfill]
      exact ⟨rfl, rfl, rfl, hback _⟩
    | some bytes =>
      have hfill := fill_of_readable config task space
        { s with events := { s.events with staging } } hread
      simp only [hfill]
      by_cases hc : config.directory.text <+: bytes.text
      · simp only [hc, if_true]
        exact ⟨rfl, rfl, rfl, hback _⟩
      · simp only [hc, if_false]
        exact ⟨rfl, rfl, rfl, hback _⟩
  · rw [if_neg hcpu, Hook.after_emit_of_none (PerCpuOutput.reserve_of_le hidle (Nat.not_lt.1 hcpu))]
    exact ⟨rfl, rfl, rfl, hidle⟩

theorem decides_delete (hp : s.pending.Coherent) (hidle : s.events.staging.Idle (max cpus 1)) :
    Decides cpus task
      ((s.pending.peek? task.pid).bind (deletion? config.directory.text cpus task space))
      (s.pending.claimed task.pid) s
      ((onDelete config task.current space.userSpace).after s) := by
  have hl : KeyedTable.lookup s.pending task.pid = s.pending.get? task.pid := rfl
  rw [onDelete_current, Hook.after_claim, hl, ← hp.fst_get? task.pid]
  unfold RecencyTable.claimed
  cases s.pending.get? task.pid with
  | mk found pending =>
    cases found with
    | none => exact ⟨rfl, rfl, rfl, hidle⟩
    | some address =>
      have h := decides_intercept (s := { s with pending }) config task space hidle address
      exact ⟨congrArg (fun table => (table.erase task.pid).2) h.pending_eq, h.known_eq,
        h.channel_eq, h.idle⟩

theorem decides_entry (hidle : s.events.staging.Idle (max cpus 1)) (address? : Option UInt64) :
    Decides cpus task none
      (match address? with
        | none => s.pending
        | some address => s.pending.insert task.pid address) s
      (match address? with
        | none => s
        | some address => (Hook.leave task.pid address).after s) := by
  cases address? with
  | none => exact ⟨rfl, rfl, rfl, hidle⟩
  | some address =>
    have hleave : (Hook.leave task.pid address).after s =
        { s with pending := s.pending.insert task.pid address } := Hook.after_leave rfl
    simp only [hleave]
    exact ⟨rfl, rfl, rfl, hidle⟩

theorem decides_hook (act : Act) (hp : s.pending.Coherent)
    (hidle : s.events.staging.Idle (max cpus 1)) :
    Decides cpus act.task (act.answered? config.directory.text cpus s.pending.peek?)
      (act.entries config.this s.pending) { s with known := {} }
      ((Intercept.hook config act.call).after s) := by
  cases act with
  | enter task pathname =>
    show Decides _ _ _ _ _
      ((onEnter config task.current pathname).after { s with known := {} })
    rw [after_onEnter]
    exact decides_entry (s := { s with known := {} }) task hidle
      ((Act.enter task pathname).considered? config.this)
  | enterAt task pathname flags =>
    show Decides _ _ _ _ _
      ((onEnterAt config task.current pathname flags).after { s with known := {} })
    rw [after_onEnterAt]
    exact decides_entry (s := { s with known := {} }) task hidle
      ((Act.enterAt task pathname flags).considered? config.this)
  | delete variant task space =>
    exact decides_delete (s := { s with known := {} }) config task space hp hidle

end UnlinkStores

/-! ### Runs -/

namespace UnlinkTracer

/-- A tracer after calls, of which the latest is the first in the list. -/
def after (config : UnlinkConfig) (cpus : Nat) : (past : List Act) → UnlinkTracer
  | [] => .empty config cpus
  | act :: past => ((after config cpus past).step act.call).2

theorem snd_step (tracer : UnlinkTracer) (call : Intercept.Call) :
    (tracer.step call).2 =
      ⟨tracer.config, { (Intercept.hook tracer.config call).after tracer.stores with
        notices := [] }⟩ :=
  tracer.snd_call call.name fun config => Intercept.hook config call

variable (config : UnlinkConfig) (cpus : Nat)

theorem config_after (past : List Act) : (after config cpus past).config = config := by
  induction past with
  | nil => rfl
  | cons act past ih =>
    rw [after, snd_step]
    exact ih

theorem stores_after_cons (act : Act) (past : List Act) :
    (after config cpus (act :: past)).stores =
      { (Intercept.hook config act.call).after (after config cpus past).stores with
        notices := [] } := by
  rw [after, snd_step, config_after]

end UnlinkTracer

end HookTrace.Unlink
