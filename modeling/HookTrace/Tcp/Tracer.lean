import HookTrace.Tracer
import HookTrace.Tcp.Connect
import HookTrace.Store.PerCpu
import HookTrace.Store.Recency

/-!
# HookTrace.Tcp.Tracer

The tracer of outbound connections.
-/

namespace HookTrace.Tcp

open Store

abbrev ConnectTracer :=
  Tracer ConnectConfig (RecencyTable UInt32 UInt64) Unit (PerCpuOutput ConnectRecord)

namespace ConnectTracer

def empty (config : ConnectConfig) (cpus : Nat) : ConnectTracer where
  config := config
  stores := ⟨.empty Limits.entries, (), .empty cpus cpus Limits.queueDepth, []⟩

/-- Connects that were entered and have not returned yet. -/
def pending (tracer : ConnectTracer) : Nat :=
  tracer.stores.pending.size

def step (tracer : ConnectTracer) (call : Connect.Call) : Outcome × ConnectTracer :=
  tracer.call call.name fun config => Connect.hook config call

end ConnectTracer

end HookTrace.Tcp
