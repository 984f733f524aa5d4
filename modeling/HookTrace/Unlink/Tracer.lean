import HookTrace.Tracer
import HookTrace.Unlink.Intercept
import HookTrace.Store.PerCpu
import HookTrace.Store.Recency

/-!
# HookTrace.Unlink.Tracer

The interceptor of deletions. If the hook on a deletion forces a return value, the deletion must
not happen.
-/

namespace HookTrace.Unlink

open Store

abbrev UnlinkTracer :=
  Tracer UnlinkConfig (RecencyTable UInt32 UInt64) ForcedReturn (PerCpuOutput UnlinkRecord)

namespace UnlinkTracer

def empty (config : UnlinkConfig) (cpus : Nat) : UnlinkTracer where
  config := config
  stores := ⟨.empty Limits.entries, {}, .empty cpus cpus Limits.queueDepth, []⟩

def forced (tracer : UnlinkTracer) : Option UInt64 :=
  tracer.stores.known.value

def step (tracer : UnlinkTracer) (call : Intercept.Call) : Outcome × UnlinkTracer :=
  tracer.call call.name fun config => Intercept.hook config call

end UnlinkTracer

end HookTrace.Unlink
