import HookTrace.Poll.Readiness
import HookTrace.Proofs.Bindings

/-!
# HookTrace.Proofs.Poll.Bindings

The hooks of polls agree wherever they are bound: `Readiness.agree_hook`.
-/

namespace HookTrace.Poll

open Store

/-- What a call asks for room for: the descriptor it makes known is one of `fds`, and the thread
that enters a poll one of `threads`. -/
def Readiness.Call.Within (fds : Set Int32) (threads : Set UInt32) : Readiness.Call → Prop
  | .connect _ _ fd _ => fd ∈ fds
  | .enter _ task _ _ => ∀ pid, task.pid = .ok pid → pid ∈ threads
  | _ => True

/-- The processor that a call may reserve a record on. -/
def Readiness.Call.cpu? : Readiness.Call → Option Nat
  | .exit _ task _ => some task.cpu
  | _ => none

namespace Readiness

variable {P K S P' K' S' : Type}
variable [KeyedTable P UInt32 Socket] [KeyedTable K Int32 Socket]
variable [KeyedTable P' UInt32 Socket] [KeyedTable K' Int32 Socket]
variable [RecordSink S PollRecord] [RecordSink S' PollRecord]
variable {m : Matching P K S P' K' S'} {fds : Set Int32} {threads : Set UInt32}
variable (scope : Scope) (task : CurrentTask) (memory : UserSpace)

omit [KeyedTable P UInt32 Socket] [KeyedTable P' UInt32 Socket]
  [RecordSink S PollRecord] [RecordSink S' PollRecord] in
theorem agree_onConnect (hk : TablesMatch fds m.known) {fd : Int32} (hfd : fd ∈ fds)
    (uaddr : UInt64) : Hook.Agree m (onConnect scope task memory fd uaddr)
      (onConnect scope task memory fd uaddr) := by
  unfold onConnect
  refine .ask _ fun inside _ => .ite (fun _ => Hook.agree_pure _) fun _ => ?_
  refine .ask _ fun peer? _ => ?_
  cases peer? with
  | none => exact Hook.agree_pure _
  | some peer => exact Hook.agree_learn hk hfd _

omit [RecordSink S PollRecord] [RecordSink S' PollRecord] in
theorem agree_onEnter (hp : TablesMatch threads m.pending) (hk : TablesMatch fds m.known)
    (hpid : ∀ pid, task.pid = .ok pid → pid ∈ threads) (ufds : UInt64) :
    Hook.Agree m (onEnter scope task memory ufds) (onEnter scope task memory ufds) := by
  unfold onEnter
  refine .ask _ fun inside _ => .ite (fun _ => Hook.agree_pure _) fun _ => ?_
  refine .ask _ fun fd _ => .known? hk fd (Hook.agree_pure _) fun socket _ => ?_
  exact .ask _ fun pid h => Hook.agree_leave hp (hpid pid h) socket

omit [KeyedTable K Int32 Socket] [KeyedTable K' Int32 Socket] in
theorem agree_onExit (hp : TablesMatch threads m.pending) (hsink : SinksMatch m.events task.cpu)
    (ret : Int64) : Hook.Agree m (onExit task ret) (onExit task ret) := by
  unfold onExit
  refine .ask _ fun pid _ => .claim hp pid fun socket => ?_
  unfold report
  refine .ite (fun _ => Hook.agree_pure _) fun _ => .emit hsink fun R blank => ?_
  exact .ask _ fun record _ => Hook.agree_pure _

/-- Bound to stores that match, a hook of polls ends alike and leaves stores that match. -/
theorem agree_hook (hp : TablesMatch threads m.pending) (hk : TablesMatch fds m.known) {call : Call}
    (hwithin : call.Within fds threads) (hsink : ∀ cpu, call.cpu? = some cpu →
      SinksMatch m.events cpu) : Hook.Agree m (hook scope call) (hook scope call) := by
  cases call with
  | connect task memory fd uaddr => exact agree_onConnect scope task memory hk hwithin uaddr
  | enter variant task memory ufds => exact agree_onEnter scope task memory hp hk hwithin ufds
  | exit variant task ret => exact agree_onExit task hp (hsink task.cpu rfl) ret
  | close fd => exact Hook.agree_unlearn hk fd

end Readiness

end HookTrace.Poll
