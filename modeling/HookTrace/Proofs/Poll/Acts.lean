import HookTrace.Poll.Tracer
import HookTrace.Proofs.Poll.Bindings
import HookTrace.Proofs.Store.Journal

/-!
# HookTrace.Proofs.Poll.Acts

The hooks of polls, called for a task and on a memory of which everything can be asked, and what a
run of such calls leaves of a tracer (`PollTracer.after`).
-/

namespace HookTrace.Poll

open Store

/-- A call of a hook: for which task, and on which memory of its process. -/
inductive Act where
  | connect (task : Task) (space : AddressSpace) (fd : Int32) (uaddr : UInt64)
  | enter (variant : Variant) (task : Task) (space : AddressSpace) (ufds : UInt64)
  | exit (variant : Variant) (task : Task) (ret : Int64)
  | close (task : Task) (fd : Int32)

namespace Act

def call : Act → Readiness.Call
  | connect task space fd uaddr => .connect task.current space.userSpace fd uaddr
  | enter variant task space ufds => .enter variant task.current space.userSpace ufds
  | exit variant task ret => .exit variant task.current ret
  | close _ fd => .close fd

def task : Act → Task
  | connect task _ _ _ => task
  | enter _ task _ _ => task
  | exit _ task _ => task
  | close task _ => task

/-- The descriptor that a call can make known. -/
def connected? : Act → Option Int32
  | connect _ _ fd _ => some fd
  | _ => none

/-- The thread that a call can set waiting. -/
def entered? : Act → Option UInt32
  | enter _ task _ _ => some task.pid
  | _ => none

theorem within_call {act : Act} {fds : Set Int32} {threads : Set UInt32}
    (hfd : ∀ fd, act.connected? = some fd → fd ∈ fds)
    (hpid : ∀ pid, act.entered? = some pid → pid ∈ threads) : act.call.Within fds threads := by
  cases act with
  | connect task space fd uaddr => exact hfd fd rfl
  | enter variant task space ufds =>
    rintro pid ⟨⟩
    exact hpid task.pid rfl
  | exit | close => trivial

end Act

namespace PollTracer

variable (scope : Scope) (cpus : Nat)

/-- A tracer after calls, of which the latest is the first in the list. -/
def after : (past : List Act) → PollTracer
  | [] => .empty scope cpus
  | act :: past => ((after past).step act.call).2

/-- The hooks of a tracer, with and without a journal. -/
def hooks : Twofold Act (RecencyTable UInt32 Socket) (RecencyTable Int32 Socket)
    (PerCpuOutput PollRecord) PollRecord where
  plain act := Readiness.hook scope act.call
  journaled act := Readiness.hook scope act.call

/-- All that a run hands over, the oldest first. -/
def submissions (past : List Act) : List (Nat × PollRecord) :=
  (hooks scope).submissions (empty scope cpus).stores past

theorem after_eq (past : List Act) :
    after scope cpus past = ⟨scope, (hooks scope).after (empty scope cpus).stores past⟩ := by
  induction past with
  | nil => rfl
  | cons act past ih =>
    rw [after, ih]
    exact Tracer.snd_call _ act.call.name fun scope => Readiness.hook scope act.call

theorem transparent_hooks : (hooks scope).Transparent := fun _ start =>
  Readiness.agree_hook scope tablesMatch_eq tablesMatch_eq
    (Act.within_call (fun _ _ => Set.mem_univ _) fun _ _ => Set.mem_univ _)
    fun cpu _ => PerCpuOutput.sinksMatch_outputs start cpu

/-- The channel got what was handed over, and nothing else. -/
theorem channel_after (past : List Act) : (after scope cpus past).stores.events.channel =
    (PerCpuQueues.empty cpus Limits.queueDepth).outputs (submissions scope cpus past) := by
  rw [after_eq]
  exact Twofold.channel_after (transparent_hooks scope) _ past

end PollTracer

end HookTrace.Poll
