import HookTrace.Proofs.File.Submission
import HookTrace.Proofs.Mysql.Submissions
import HookTrace.Proofs.Settlement

/-!
# HookTrace.Proofs.Fillings

What each exit hook fills in, as far as it gets to fill in anything (`filling?`). It goes by the task,
by what the hook was called with, by what the thread entered with (`waiting?`) and, where a hook looks
something up, by what is remembered. That these are all the hook goes by is what `settles_onExit`
says of each, wherever the hook is bound. That of MySQL traffic is in `Proofs.Mysql.Submissions`.
-/

namespace HookTrace

open Store

variable {P K S : Type}

namespace Tcp.Connect

variable [KeyedTable P UInt32 UInt64] [RecordSink S ConnectRecord]
variable (config : ConnectConfig) (task : CurrentTask) (reader : SocketReader)
variable (protocol : Protocol) (ret : Int64)

def filling? (waiting? : UInt32 → Option UInt64) : Option (Filling ConnectRecord) :=
  task.pid.toOption.bind fun pid => (waiting? pid).bind fun socket =>
    if ret ≠ 0 then none
    else (reader socket protocol).toOption.bind fun destination =>
      if !config.admits protocol destination then none
      else some fun blank => do return some (← blank.fill task protocol destination)

theorem settles_onExit (s : Stores P K S) :
    (onExit config task reader protocol ret).Settles s task.cpu
      (filling? config task reader protocol ret fun pid => (KeyedTable.lookup s.pending pid).1) := by
  unfold onExit
  refine .ask _ fun pid _ => .claim pid fun socket => ?_
  unfold report
  refine .ite (fun _ => Hook.settles_pure _) fun _ => .ask _ fun destination _ => ?_
  exact .ite (fun _ => Hook.settles_pure _) fun _ => Hook.settles_emit_pure _ _

end Tcp.Connect

namespace Payload

/-- A transfer that moved `ret` bytes at an address is reported with length `len`. -/
def PayloadRecord.filling? (task : CurrentTask) (memory : UserSpace) (kind : Kind) (ret : Int64)
    (len : UInt32) (waiting? : UInt32 → Option UInt64) : Option (Filling PayloadRecord) :=
  task.pid.toOption.bind fun pid => (waiting? pid).bind fun address =>
    if ret ≤ 0 then none
    else some fun blank => do return some (← blank.fill task memory address kind ret len)

variable [RecordSink S PayloadRecord] (task : CurrentTask) (memory : UserSpace) (kind : Kind)
variable (ret : Int64)

namespace Plain

variable [KeyedTable P UInt32 SyscallArgs]

def filling? (waiting? : UInt32 → Option SyscallArgs) : Option (Filling PayloadRecord) :=
  PayloadRecord.filling? task memory kind ret
    (UInt32.ofNat (captureLength ret.toNatClampNeg Limits.payload))
    fun pid => (waiting? pid).map SyscallArgs.buf

theorem settles_onExit (s : Stores P K S) : (onExit task memory kind ret).Settles s task.cpu
    (filling? task memory kind ret fun pid => (KeyedTable.lookup s.pending pid).1) := by
  unfold onExit filling? PayloadRecord.filling?
  simp only [Option.bind_map]
  refine .ask _ fun pid _ => .claim pid fun args => ?_
  unfold capture
  exact .ite (fun _ => Hook.settles_pure _) fun _ => Hook.settles_emit_pure _ _

end Plain

namespace Tls

variable [KeyedTable P UInt32 UInt64]

def filling? : (waiting? : UInt32 → Option UInt64) → Option (Filling PayloadRecord) :=
  PayloadRecord.filling? task memory kind ret ret.toUInt64.toUInt32

theorem settles_onExit (s : Stores P K S) : (onExit task memory kind ret).Settles s task.cpu
    (filling? task memory kind ret fun pid => (KeyedTable.lookup s.pending pid).1) := by
  unfold onExit filling? PayloadRecord.filling?
  refine .ask _ fun pid _ => .claim pid fun buf => ?_
  unfold capture
  exact .ite (fun _ => Hook.settles_pure _) fun _ => Hook.settles_emit_pure _ _

end Tls

end Payload

namespace Poll.Readiness

variable [KeyedTable P UInt32 Socket] [RecordSink S PollRecord] (task : CurrentTask) (ret : Int64)

def filling? (waiting? : UInt32 → Option Socket) : Option (Filling PollRecord) :=
  task.pid.toOption.bind fun pid => (waiting? pid).bind fun socket =>
    if ret < 0 then none else some fun blank => do return some (← blank.fill task socket ret)

theorem settles_onExit (s : Stores P K S) : (onExit task ret).Settles s task.cpu
    (filling? task ret fun pid => (KeyedTable.lookup s.pending pid).1) := by
  unfold onExit
  refine .ask _ fun pid _ => .claim pid fun socket => ?_
  unfold report
  exact .ite (fun _ => Hook.settles_pure _) fun _ => Hook.settles_emit_pure _ _

end Poll.Readiness

namespace Unlink.Intercept

variable [KeyedTable P UInt32 UInt64] [RecordSink S UnlinkRecord]
variable (config : UnlinkConfig) (task : CurrentTask) (memory : UserSpace)

/-- A deletion elsewhere is given up. -/
def considered (pathname : UInt64) : Filling UnlinkRecord := fun blank => do
  let record ← blank.fill task memory pathname
  if !config.covers record.pathname.bytes then
    return none
  return some record

def filling? (waiting? : UInt32 → Option UInt64) : Option (Filling UnlinkRecord) :=
  task.pid.toOption.bind fun pid => (waiting? pid).bind fun pathname =>
    some (considered config task memory pathname)

omit [KeyedTable P UInt32 UInt64] [RecordSink S UnlinkRecord] in
/-- The forced return value is no business of the channel's. -/
theorem answers_fill (pathname : UInt64) (blank : UnlinkRecord) (s : Stores P ForcedReturn S) :
    (fill config task memory pathname blank).Answers s
      (considered config task memory pathname blank) := by
  unfold fill considered
  refine .ask _ fun record _ => .ite (fun helsewhere => ?_) fun hcovers => ?_
  · rw [if_pos helsewhere]
    exact Hook.answers_pure none
  · rw [if_neg hcovers]
    exact .bind ⟨_, rfl, rfl⟩ fun _ => Hook.answers_pure (some record)

theorem settles_onDelete (s : Stores P ForcedReturn S) :
    (onDelete config task memory).Settles s task.cpu
      (filling? config task memory fun pid => (KeyedTable.lookup s.pending pid).1) := by
  unfold onDelete
  refine .ask _ fun pid _ => .claim pid fun pathname => Hook.settles_emit fun slot held _ => ?_
  exact answers_fill config task memory pathname slot.record _

end Unlink.Intercept

namespace File.Access

variable [KeyedTable K UInt64 PathEntry] [RecordSink S FileRecord]
variable (scope : Scope) (task : CurrentTask) (file : OpenFile) (op : FileOp) (ret : Int64)

def filling? (found : Option PathEntry) : Option (Filling FileRecord) :=
  file.isRegular.toOption.bind fun regular =>
    if !regular then none
    else (task.inScope scope.target).toOption.bind fun inside =>
      if !inside then none else some fun blank => completed blank task file op ret found

theorem settles_onExit (s : Stores P K S) :
    (onExit scope task file op ret).Settles s task.cpu
      (filling? scope task file op ret (KeyedTable.lookup s.known file.identity).1) := by
  unfold onExit
  refine .ask _ fun regular _ => .ite (fun _ => Hook.settles_pure _) fun _ => ?_
  refine .ask _ fun inside _ => .ite (fun _ => Hook.settles_pure _) fun _ => ?_
  refine Hook.settles_emit fun slot held _ => ?_
  obtain ⟨known, h⟩ := outcome_complete task file op ret slot.record { s with events := held }
  exact ⟨_, h, rfl⟩

end File.Access

end HookTrace
