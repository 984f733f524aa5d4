import HookTrace.Limits
import HookTrace.Field
import HookTrace.Fault

/-!
# HookTrace.Task

The tasks that hooks run on behalf of, and the process tree they are restricted to.

* `TaskInfo`: what can be learnt about a task. A task other than the running one is read out of
  kernel memory, so each answer may be a fault instead.
* `CurrentTask`: the running task, of which user, processor and time are always known.
* `Task`: a task all of whose facts are known.
* `inScope`, `isOwnProcess`: the two rules on process trees; `TaskInfo.inScope` reads no more
  of a task than the rule needs.
-/

namespace HookTrace

/-- A command name, padded with NULs. -/
abbrev Comm := Field Limits.comm

structure TaskInfo where
  tgid : Except Fault UInt32
  pid : Except Fault UInt32
  parentTgid : Except Fault UInt32
  comm : Except Fault Comm

structure CurrentTask extends TaskInfo where
  uid : UInt32
  /-- The processor the hook runs on. -/
  cpu : Nat
  /-- Nanoseconds on the monotonic clock. -/
  now : UInt64

structure Task where
  tgid : UInt32
  pid : UInt32
  parentTgid : UInt32
  uid : UInt32
  comm : Comm
  cpu : Nat
  now : UInt64
deriving DecidableEq

namespace Task

/-- The main thread of process `tgid`, a child of the first process. -/
def ofProcess (tgid : UInt32) : Task where
  tgid := tgid
  pid := tgid
  parentTgid := 1
  uid := 0
  comm := Field.zero _
  cpu := 0
  now := 0

/-- Names the task; a command name keeps room for its terminator. -/
def withName (task : Task) (name : Bytes) : Task :=
  { task with comm := Field.ofBytes _ (name.take (Limits.comm - 1)) }

/-- A task all of whose facts can be read. -/
def current (task : Task) : CurrentTask where
  tgid := .ok task.tgid
  pid := .ok task.pid
  parentTgid := .ok task.parentTgid
  comm := .ok task.comm
  uid := task.uid
  cpu := task.cpu
  now := task.now

end Task

/-- Whether a task belongs to the traced process tree; target zero traces everything. -/
def inScope (tgid parentTgid target : UInt32) : Bool :=
  target == 0 || tgid == target || parentTgid == target

/-- Whether a task is the process `this` or a child of it. -/
def isOwnProcess (tgid parentTgid this : UInt32) : Bool :=
  this == tgid || this == parentTgid

/-- The process tree that a tracer is restricted to. -/
structure Scope where
  target : UInt32 := 0
deriving DecidableEq

namespace Scope

/-- Without a process everything is traced. -/
def ofProcess (tgid : Option UInt32) : Scope :=
  ⟨tgid.getD 0⟩

end Scope

namespace TaskInfo

/-- Whether the task is in scope. The parent is read only if the task's own group does not
settle it, and nothing is read when everything is traced. -/
def inScope (task : TaskInfo) (target : UInt32) : Except Fault Bool := do
  if target == 0 then
    return true
  let tgid ← task.tgid
  if tgid == target then
    return true
  return HookTrace.inScope tgid (← task.parentTgid) target

end TaskInfo

end HookTrace
