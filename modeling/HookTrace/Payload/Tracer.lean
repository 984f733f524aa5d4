import HookTrace.Tracer
import HookTrace.Payload.Capture
import HookTrace.Store.PerCpu
import HookTrace.Store.Recency

/-!
# HookTrace.Payload.Tracer

The tracers of payloads: `HttpTracer` at the system calls that carry them, `HttpsTracer` at the
functions of a TLS library.
-/

namespace HookTrace.Payload

open Store

abbrev HttpTracer :=
  Tracer Scope (RecencyTable UInt32 SyscallArgs) Unit (PerCpuOutput PayloadRecord)

namespace HttpTracer

def empty (scope : Scope) (cpus : Nat) : HttpTracer where
  config := scope
  stores := ⟨.empty Limits.entries, (), .empty cpus cpus Limits.queueDepth, []⟩

/-- Calls that were entered and have not returned yet. -/
def inFlight (tracer : HttpTracer) : Nat :=
  tracer.stores.pending.size

def step (tracer : HttpTracer) (call : Plain.Call) : Outcome × HttpTracer :=
  tracer.call call.name fun scope => Plain.hook scope call

end HttpTracer

abbrev HttpsTracer := Tracer Scope (RecencyTable UInt32 UInt64) Unit (PerCpuOutput PayloadRecord)

namespace HttpsTracer

def empty (scope : Scope) (cpus : Nat) : HttpsTracer where
  config := scope
  stores := ⟨.empty Limits.entries, (), .empty cpus cpus Limits.queueDepth, []⟩

/-- Calls that were entered and have not returned yet. -/
def inFlight (tracer : HttpsTracer) : Nat :=
  tracer.stores.pending.size

def step (tracer : HttpsTracer) (call : Tls.Call) : Outcome × HttpsTracer :=
  tracer.call call.name fun scope => Tls.hook scope call

end HttpsTracer

end HookTrace.Payload
