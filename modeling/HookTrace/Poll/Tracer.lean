import HookTrace.Tracer
import HookTrace.Poll.Readiness
import HookTrace.Store.PerCpu
import HookTrace.Store.Recency

/-!
# HookTrace.Poll.Tracer

The tracer of polls: the peers it knows by descriptor, and the polls in flight by thread.
-/

namespace HookTrace.Poll

open Store

abbrev PollTracer :=
  Tracer Scope (RecencyTable UInt32 Socket) (RecencyTable Int32 Socket) (PerCpuOutput PollRecord)

namespace PollTracer

def empty (scope : Scope) (cpus : Nat) : PollTracer where
  config := scope
  stores := ⟨.empty Limits.entries, .empty Limits.entries, .empty cpus cpus Limits.queueDepth, []⟩

def socket (tracer : PollTracer) (fd : Int32) : Option Socket :=
  tracer.stores.known.peek? fd

def step (tracer : PollTracer) (call : Readiness.Call) : Outcome × PollTracer :=
  tracer.call call.name fun scope => Readiness.hook scope call

end PollTracer

end HookTrace.Poll
