import HookTrace.Proofs.Mysql.Ledger
import HookTrace.Proofs.Store.Journal

/-!
# HookTrace.Proofs.Mysql.Bindings

The hooks of MySQL traffic agree wherever they are bound: `Capture.agree_hook`. With it a run of a
tracer can be followed on a journal (`MysqlTracer.hooks`), which has down what the run hands over
(`MysqlTracer.submissions`).
-/

namespace HookTrace.Mysql

open Store

/-- What a call asks for room for: the descriptor it may make known is one of `fds`, and the thread
that enters a transfer one of `threads`. -/
def Capture.Call.Within (fds : Set Int32) (threads : Set UInt32) : Capture.Call → Prop
  | .connect _ _ fd _ => fd ∈ fds
  | .enter _ task _ => ∀ pid, task.pid = .ok pid → pid ∈ threads
  | _ => True

/-- The processor that a call may reserve a record on. -/
def Capture.Call.cpu? : Capture.Call → Option Nat
  | .exit _ task _ _ => some task.cpu
  | _ => none

namespace Capture

variable {P K S P' K' S' : Type}
variable [KeyedTable P UInt32 SyscallArgs] [KeyedTable K Int32 Connection]
variable [KeyedTable P' UInt32 SyscallArgs] [KeyedTable K' Int32 Connection]
variable [RecordSink S MysqlRecord] [RecordSink S' MysqlRecord]
variable {m : Matching P K S P' K' S'} {fds : Set Int32} {threads : Set UInt32}
variable (config : MysqlConfig) (task : CurrentTask) (memory : UserSpace)

omit [KeyedTable P UInt32 SyscallArgs] [KeyedTable P' UInt32 SyscallArgs]
  [RecordSink S MysqlRecord] [RecordSink S' MysqlRecord] in
theorem agree_onConnect (hk : TablesMatch fds m.known) {fd : Int32} (hfd : fd ∈ fds)
    (uaddr : UInt64) : Hook.Agree m (onConnect config task memory fd uaddr)
      (onConnect config task memory fd uaddr) := by
  unfold onConnect
  refine .ask _ fun inside _ => .ite (fun _ => Hook.agree_pure _) fun _ => ?_
  refine .ask _ fun peer? _ => ?_
  cases peer? with
  | none => exact Hook.agree_pure _
  | some peer => exact .ite (fun _ => Hook.agree_learn hk hfd _) fun _ => Hook.agree_pure _

omit [RecordSink S MysqlRecord] [RecordSink S' MysqlRecord] in
theorem agree_onEnter (hp : TablesMatch threads m.pending) (hk : TablesMatch fds m.known)
    (hpid : ∀ pid, task.pid = .ok pid → pid ∈ threads) (args : SyscallArgs) :
    Hook.Agree m (onEnter config task args) (onEnter config task args) := by
  unfold onEnter
  refine .ask _ fun inside _ => .ite (fun _ => Hook.agree_pure _) fun _ => ?_
  refine .known? hk args.fd (Hook.agree_pure _) fun conn _ => ?_
  exact .ask _ fun pid h => Hook.agree_leave hp (hpid pid h) args

omit [KeyedTable P UInt32 SyscallArgs] [KeyedTable P' UInt32 SyscallArgs]
  [RecordSink S MysqlRecord] [RecordSink S' MysqlRecord] in
theorem agree_fill (hk : TablesMatch fds m.known) {args : SyscallArgs} (hfd : args.fd ∈ fds)
    (conn : Connection) (direction : Direction) (ret : Int64) (blank : MysqlRecord) :
    Hook.Agree m (fill task memory args conn direction ret blank)
      (fill task memory args conn direction ret blank) := by
  unfold fill
  refine .ask _ fun captured _ => ?_
  rcases conn.observe captured.bytes direction with ⟨observation, next⟩
  cases observation with
  | ignore =>
    exact .ite (fun _ => (Hook.agree_learn hk hfd next).bind fun _ => Hook.agree_pure _)
      fun _ => Hook.agree_pure _
  | report sequenceId =>
    refine .ite (fun _ => (Hook.agree_learn hk hfd next).bind fun _ => ?_) fun _ => ?_
    all_goals exact .ask _ fun tgid _ => .ask _ fun pid _ => Hook.agree_pure _

omit [KeyedTable P UInt32 SyscallArgs] [KeyedTable P' UInt32 SyscallArgs] in
theorem agree_capture (hk : TablesMatch fds m.known) (hsink : SinksMatch m.events task.cpu)
    (direction : Direction) (ret : Int64) (args : SyscallArgs) :
    Hook.Agree m (capture config task memory direction ret args)
      (capture config task memory direction ret args) := by
  unfold capture report
  refine .ite (fun _ => Hook.agree_pure _) fun _ => ?_
  refine .ask _ fun inside _ => .ite (fun _ => Hook.agree_pure _) fun _ => ?_
  refine .known? hk args.fd (Hook.agree_pure _) fun conn hfd => ?_
  refine .ite (fun _ => Hook.agree_pure _) fun _ => .emit hsink fun R blank => ?_
  exact agree_fill task memory (m := { m with events := R }) hk hfd conn direction ret blank

theorem agree_onExit (hp : TablesMatch threads m.pending) (hk : TablesMatch fds m.known)
    (hsink : SinksMatch m.events task.cpu) (direction : Direction) (ret : Int64) :
    Hook.Agree m (onExit config task memory direction ret)
      (onExit config task memory direction ret) := by
  unfold onExit
  exact .ask _ fun pid _ => .claim hp pid (agree_capture config task memory hk hsink direction ret)

/-- Bound to stores that match, a hook of MySQL traffic ends alike and leaves stores that match. -/
theorem agree_hook (hp : TablesMatch threads m.pending) (hk : TablesMatch fds m.known) {call : Call}
    (hwithin : call.Within fds threads) (hsink : ∀ cpu, call.cpu? = some cpu →
      SinksMatch m.events cpu) : Hook.Agree m (hook config call) (hook config call) := by
  cases call with
  | connect task memory fd uaddr => exact agree_onConnect config task memory hk hwithin uaddr
  | enter transfer task args => exact agree_onEnter config task hp hk hwithin args
  | exit transfer task memory ret =>
    exact agree_onExit config task memory hp hk (hsink task.cpu rfl) (.ofTransfer transfer) ret
  | close fd => exact Hook.agree_unlearn hk fd

end Capture

namespace Act

def task : Act → Task
  | connect task _ _ _ => task
  | enter _ task _ => task
  | exit _ task _ _ => task
  | close task _ => task

theorem within_call {act : Act} {fds : Set Int32} {threads : Set UInt32}
    (hfd : ∀ fd, act.connected? = some fd → fd ∈ fds)
    (hpid : ∀ pid, act.entered? = some pid → pid ∈ threads) : act.call.Within fds threads := by
  cases act with
  | connect task space fd uaddr => exact hfd fd rfl
  | enter transfer task args =>
    rintro pid ⟨⟩
    exact hpid task.pid rfl
  | exit | close => trivial

end Act

namespace MysqlTracer

variable (config : MysqlConfig) (cpus : Nat)

/-- The hooks of a tracer, with and without a journal. -/
def hooks : Twofold Act (RecencyTable UInt32 SyscallArgs) (RecencyTable Int32 Connection)
    (PerCpuOutput MysqlRecord) MysqlRecord where
  plain act := Capture.hook config act.call
  journaled act := Capture.hook config act.call

/-- All that a run hands over, the oldest first. -/
def submissions (past : List Act) : List (Nat × MysqlRecord) :=
  (hooks config).submissions (empty config cpus).stores past

theorem after_eq (past : List Act) :
    after config cpus past = ⟨config, (hooks config).after (empty config cpus).stores past⟩ := by
  induction past with
  | nil => rfl
  | cons act past ih =>
    rw [after, ih]
    exact snd_step _ act.call

theorem submissions_cons (act : Act) (past : List Act) : submissions config cpus (act :: past) =
    submissions config cpus past ++
      ((hooks config).journaled act).submits (after config cpus past).stores := by
  rw [after_eq]
  rfl

theorem stores_after_append (later earlier : List Act) :
    (after config cpus (later ++ earlier)).stores =
      (hooks config).after (after config cpus earlier).stores later := by
  rw [after_eq, after_eq]
  exact Twofold.after_append (hooks config) _ later earlier

theorem submissions_append (later earlier : List Act) :
    submissions config cpus (later ++ earlier) = submissions config cpus earlier ++
      (hooks config).submissions (after config cpus earlier).stores later := by
  rw [after_eq]
  exact Twofold.submissions_append (hooks config) _ later earlier

theorem transparent_hooks : (hooks config).Transparent := fun _ start =>
  Capture.agree_hook config tablesMatch_eq tablesMatch_eq
    (Act.within_call (fun _ _ => Set.mem_univ _) fun _ _ => Set.mem_univ _)
    fun cpu _ => PerCpuOutput.sinksMatch_outputs start cpu

/-- The channel got what was handed over, and nothing else. -/
theorem channel_after (past : List Act) : (after config cpus past).stores.events.channel =
    (PerCpuQueues.empty cpus Limits.queueDepth).outputs (submissions config cpus past) := by
  rw [after_eq]
  exact Twofold.channel_after (transparent_hooks config) _ past

end MysqlTracer

end HookTrace.Mysql
