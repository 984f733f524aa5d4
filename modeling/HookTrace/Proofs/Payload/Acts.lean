import HookTrace.Payload.Tracer
import HookTrace.Proofs.Field
import HookTrace.Proofs.Hook
import HookTrace.Proofs.Store.Capacity
import HookTrace.Proofs.Store.Staging

/-!
# HookTrace.Proofs.Payload.Acts

The hooks at the system calls that carry payloads, called for a task and on a memory of which
everything can be asked.

* `captured?`: the record of a transfer that has ended, told from its arguments and the memory.
  `HttpStores.hands_hook` says all that a call can do to the stores of a tracer.
* `HttpTracer.handed`: what a call hands over, read off the tracer itself. Whatever the channel
  holds by then, this is what is put into it (`HttpTracer.channel_step`).
-/

namespace HookTrace.Payload

/-- A call of a hook: for which task and, when the system call ends, on which memory. -/
inductive Act where
  | enter (transfer : Transfer) (task : Task) (args : SyscallArgs)
  | exit (transfer : Transfer) (task : Task) (space : AddressSpace) (ret : Int64)

namespace Act

def call : Act → Plain.Call
  | enter transfer task args => .enter transfer task.current args
  | exit transfer task space ret => .exit transfer task.current space.userSpace ret

def task : Act → Task
  | enter _ task _ => task
  | exit _ task _ _ => task

def pid (act : Act) : UInt32 :=
  act.task.pid

end Act

/-- The record of a payload. -/
def PayloadRecord.ofPayload (transfer : Transfer) (task : Task) (payload : Bytes) :
    PayloadRecord where
  tgid := task.tgid
  pid := task.pid
  uid := task.uid
  len := UInt32.ofNat payload.length
  buf := Field.ofBytes _ payload
  kind := UInt32.ofNat (Coded.code (Kind.ofTransfer transfer))

/-- The record of a transfer that moved `ret` bytes at `buf`, if they can be read and the processor
has room for a record. -/
def captured? (cpus : Nat) (transfer : Transfer) (task : Task) (space : AddressSpace) (ret : Int64)
    (buf : UInt64) : Option PayloadRecord :=
  if 0 < ret ∧ task.cpu < max cpus 1 then
    (space.bytesAt buf (captureLength ret.toNatClampNeg Limits.payload)).map fun captured =>
      .ofPayload transfer task captured.bytes
  else none

/-- The record of a call, where `awaited` are the arguments that threads have entered with. -/
def Act.record? (cpus : Nat) (awaited : UInt32 → Option SyscallArgs) : Act → Option PayloadRecord
  | .enter .. => none
  | .exit transfer task space ret =>
    (awaited task.pid).bind fun args => captured? cpus transfer task space ret args.buf

namespace Plain

variable {P K S : Type} [KeyedTable P UInt32 SyscallArgs] [RecordSink S PayloadRecord]
variable (task : Task) (space : AddressSpace)

/-! ### The hooks for a task and a memory -/

omit [RecordSink S PayloadRecord] in
theorem after_onEnter (scope : Scope) (args : SyscallArgs) (s : Stores P K S) :
    (onEnter scope task.current args).after s =
      if inScope task.tgid task.parentTgid scope.target then (Hook.leave task.pid args).after s
      else s := by
  unfold onEnter
  rw [inScope_current, Hook.ok_bind]
  cases inScope task.tgid task.parentTgid scope.target <;> rfl

theorem onExit_current (kind : Kind) (ret : Int64) :
    (onExit task.current space.userSpace kind ret : Hook P K S Unit) =
      Hook.claim task.pid (capture task.current space.userSpace kind ret) := rfl

theorem fill_of_unreadable {buf : UInt64} {ret : Int64} (blank : PayloadRecord) (kind : Kind)
    (len : UInt32)
    (h : space.bytesAt buf (captureLength ret.toNatClampNeg Limits.payload) = none) :
    ∃ fault, blank.fill task.current space.userSpace buf kind ret len = .error fault := by
  unfold PayloadRecord.fill AddressSpace.userSpace
  simp only [h]
  exact ⟨_, rfl⟩

theorem fill_of_readable {transfer : Transfer} {buf : UInt64} {ret : Int64}
    {captured : Field (captureLength ret.toNatClampNeg Limits.payload)}
    (h : space.bytesAt buf (captureLength ret.toNatClampNeg Limits.payload) = some captured) :
    (Layout.zero : PayloadRecord).fill task.current space.userSpace buf (.ofTransfer transfer) ret
        (UInt32.ofNat (captureLength ret.toNatClampNeg Limits.payload)) =
      .ok (.ofPayload transfer task captured.bytes) := by
  have hlen : captured.bytes.length = captureLength ret.toNatClampNeg Limits.payload :=
    captured.length_eq
  unfold PayloadRecord.fill AddressSpace.userSpace PayloadRecord.ofPayload
  simp only [h]
  rw [hlen]
  rfl

end Plain

/-! ### What a call can do to the stores of a tracer -/

open Store

abbrev HttpStores := Stores (RecencyTable UInt32 SyscallArgs) Unit (PerCpuOutput PayloadRecord)

/-- The entries of threads after a call. -/
def Act.entries (scope : Scope) (table : RecencyTable UInt32 SyscallArgs) :
    Act → RecencyTable UInt32 SyscallArgs
  | .enter _ task args =>
    if inScope task.tgid task.parentTgid scope.target then table.insert task.pid args else table
  | .exit _ task _ _ => table.claimed task.pid

namespace HttpStores

open Plain

/-- `s'` is `s` after a call by `task` that leaves `pending` of the entries, and has handed over
`record?`, if any. -/
structure Hands (cpus : Nat) (task : Task) (record? : Option PayloadRecord)
    (pending : RecencyTable UInt32 SyscallArgs) (s s' : HttpStores) : Prop where
  pending_eq : s'.pending = pending
  channel_eq : s'.events.channel =
    s.events.channel.outputs (record?.toList.map fun record => (task.cpu, record))
  idle : s'.events.staging.Idle (max cpus 1)

variable {cpus : Nat} {s : HttpStores} (task : Task) (space : AddressSpace)

theorem hands_capture (hidle : s.events.staging.Idle (max cpus 1)) (transfer : Transfer)
    (ret : Int64) (args : SyscallArgs) :
    Hands cpus task (captured? cpus transfer task space ret args.buf) s.pending s
      ((capture task.current space.userSpace (.ofTransfer transfer) ret args).after s) := by
  unfold capture captured?
  by_cases hret : 0 < ret
  case neg =>
    rw [if_pos (Int64.not_lt.1 hret), if_neg fun h => hret h.1]
    exact ⟨rfl, rfl, hidle⟩
  rw [if_neg (Int64.not_le.2 hret)]
  by_cases hcpu : task.cpu < max cpus 1
  · obtain ⟨staging, hreserve, hback⟩ := PerCpuOutput.reserve_of_lt hidle hcpu
    rw [if_pos ⟨hret, hcpu⟩, Hook.after_emit hreserve]
    cases hread : space.bytesAt args.buf (captureLength ret.toNatClampNeg Limits.payload) with
    | none =>
      obtain ⟨fault, hfill⟩ := fill_of_unreadable task space Layout.zero (.ofTransfer transfer)
        (UInt32.ofNat (captureLength ret.toNatClampNeg Limits.payload)) hread
      rw [hfill, Hook.error_bind]
      exact ⟨rfl, rfl, hback _⟩
    | some captured =>
      rw [fill_of_readable task space hread, Hook.ok_bind]
      exact ⟨rfl, rfl, hback _⟩
  · rw [if_neg fun h => hcpu h.2,
      Hook.after_emit_of_none (PerCpuOutput.reserve_of_le hidle (Nat.not_lt.1 hcpu))]
    exact ⟨rfl, rfl, hidle⟩

theorem hands_exit (hp : s.pending.Coherent) (hidle : s.events.staging.Idle (max cpus 1))
    (transfer : Transfer) (ret : Int64) :
    Hands cpus task ((s.pending.peek? task.pid).bind fun args =>
        captured? cpus transfer task space ret args.buf) (s.pending.claimed task.pid) s
      ((onExit task.current space.userSpace (.ofTransfer transfer) ret).after s) := by
  have hl : KeyedTable.lookup s.pending task.pid = s.pending.get? task.pid := rfl
  rw [onExit_current, Hook.after_claim, hl, ← hp.fst_get? task.pid]
  unfold RecencyTable.claimed
  cases s.pending.get? task.pid with
  | mk found pending =>
    cases found with
    | none => exact ⟨rfl, rfl, hidle⟩
    | some args =>
      have h := hands_capture (s := { s with pending }) task space hidle transfer ret args
      exact ⟨congrArg (fun table => (table.erase task.pid).2) h.pending_eq, h.channel_eq, h.idle⟩

theorem hands_hook (scope : Scope) (act : Act) (hp : s.pending.Coherent)
    (hidle : s.events.staging.Idle (max cpus 1)) :
    Hands cpus act.task (act.record? cpus s.pending.peek?) (act.entries scope s.pending) s
      ((Plain.hook scope act.call).after s) := by
  cases act with
  | exit transfer task space ret => exact hands_exit task space hp hidle transfer ret
  | enter transfer task args =>
    show Hands _ _ _ _ _ ((onEnter scope task.current args).after s)
    rw [after_onEnter, Act.entries]
    by_cases hin : inScope task.tgid task.parentTgid scope.target = true
    · have hleave : (Hook.leave task.pid args).after s =
          { s with pending := s.pending.insert task.pid args } := Hook.after_leave rfl
      rw [if_pos hin, if_pos hin, hleave]
      exact ⟨rfl, rfl, hidle⟩
    · rw [if_neg hin, if_neg hin]
      exact ⟨rfl, rfl, hidle⟩

end HttpStores

/-! ### Runs -/

namespace HttpTracer

/-- A tracer after calls, of which the latest is the first in the list. -/
def after (scope : Scope) (cpus : Nat) : (past : List Act) → HttpTracer
  | [] => .empty scope cpus
  | act :: past => ((after scope cpus past).step act.call).2

theorem snd_step (tracer : HttpTracer) (call : Plain.Call) :
    (tracer.step call).2 =
      ⟨tracer.config, { (Plain.hook tracer.config call).after tracer.stores with
        notices := [] }⟩ :=
  tracer.snd_call call.name fun scope => Plain.hook scope call

/-- The tracer with a channel of a single queue, which is empty. -/
def withEmptyChannel (tracer : HttpTracer) : HttpTracer :=
  ⟨tracer.config, { tracer.stores with
    events := { tracer.stores.events with channel := .empty 1 Limits.queueDepth } }⟩

/-- The records that a call hands over, the oldest first: those that it would leave in an empty
channel. -/
def handed (tracer : HttpTracer) (act : Act) : List PayloadRecord :=
  (tracer.withEmptyChannel.step act.call).2.stores.events.channel.drain.1

theorem drain_outputs_empty (cpu : Nat) (record? : Option PayloadRecord) :
    ((PerCpuQueues.empty 1 Limits.queueDepth).outputs
      (record?.toList.map fun record => (cpu, record))).drain.1 = record?.toList := by
  cases record? with
  | none => rfl
  | some record =>
    have hdepth : 0 < Limits.queueDepth := by decide
    simp [PerCpuQueues.outputs, PerCpuQueues.output, PerCpuQueues.empty, PerCpuQueues.drain,
      Nat.mod_one, hdepth]

variable {cpus : Nat} {tracer : HttpTracer}

theorem handed_eq (act : Act) (hp : tracer.stores.pending.Coherent)
    (hidle : tracer.stores.events.staging.Idle (max cpus 1)) :
    tracer.handed act = (act.record? cpus tracer.stores.pending.peek?).toList := by
  have h := HttpStores.hands_hook (s := tracer.withEmptyChannel.stores) tracer.config act hp hidle
  rw [handed, snd_step]
  exact (congrArg (fun channel => channel.drain.1) h.channel_eq).trans
    (drain_outputs_empty act.task.cpu _)

/-- A call hands its records over to the channel, and does nothing else to it. -/
theorem channel_step (act : Act) (hp : tracer.stores.pending.Coherent)
    (hidle : tracer.stores.events.staging.Idle (max cpus 1)) :
    (tracer.step act.call).2.stores.events.channel = tracer.stores.events.channel.outputs
      ((tracer.handed act).map fun record => (act.task.cpu, record)) := by
  rw [handed_eq act hp hidle, snd_step]
  exact (HttpStores.hands_hook tracer.config act hp hidle).channel_eq

section

variable (scope : Scope) (cpus : Nat)

theorem config_after (past : List Act) : (after scope cpus past).config = scope := by
  induction past with
  | nil => rfl
  | cons act past ih =>
    rw [after, snd_step]
    exact ih

theorem stores_after_cons (act : Act) (past : List Act) :
    (after scope cpus (act :: past)).stores =
      { (Plain.hook scope act.call).after (after scope cpus past).stores with
        notices := [] } := by
  rw [after, snd_step, config_after]

end

end HttpTracer

end HookTrace.Payload
