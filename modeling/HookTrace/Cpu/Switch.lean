import HookTrace.Hook
import HookTrace.Cpu.Histogram

/-!
# HookTrace.Cpu.Switch

Time on a processor, from one context switch to the next. The incoming task's start is kept by
thread; the outgoing task's start is claimed and its slice counted in the histogram of its
process. A start that the table refuses does not keep the outgoing task from being counted.
-/

namespace HookTrace.Cpu

namespace Switch

variable {P H S : Type} [KeyedTable P UInt32 UInt64] [HistogramTable H]

def nanosecondsPerMillisecond : UInt64 := 1000000

def count (tgid : UInt32) (slot : Nat) (name : Except Fault Comm) : Hook P H S Unit := fun s =>
  match s with
  | ⟨pending, known, events, notices⟩ =>
    match (HistogramTable.increment known tgid slot (pure name) : Id _) with
    | .ok known => .ok () ⟨pending, known, events, notices⟩
    | .error fault => .error fault ⟨pending, known, events, notices⟩

/-- Ends the outgoing task's slice. A slice that does not end after its start is not counted. -/
def account (scope : Scope) (prev : TaskInfo) (now : UInt64) : Hook P H S Unit := do
  if !(← prev.inScope scope.target) then
    return
  Hook.claim (← prev.pid) fun start => do
    if now ≤ start then
      return
    let slot := log2Slot ((now - start) / nanosecondsPerMillisecond)
    count (← prev.tgid) slot prev.comm

/-- Starts the incoming task's slice; `some` is why the table refused it. -/
def start (scope : Scope) (current : CurrentTask) : Hook P H S (Option Fault) := do
  if !(← current.inScope scope.target) then
    return none
  let pid ← current.pid
  try
    Hook.leave pid current.now
    return none
  catch fault => return some fault

/-- The switch from `prev` to `current`, on which the hook runs. A start that was refused is
reported after the outgoing task has been accounted for. -/
def onSwitch (scope : Scope) (current : CurrentTask) (prev : TaskInfo) : Hook P H S Unit := do
  let refused ← start scope current
  account scope prev current.now
  match refused with
  | none => return
  | some fault => throw fault

end Switch

end HookTrace.Cpu
