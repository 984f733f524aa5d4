import HookTrace.Tracer
import HookTrace.Cpu.Switch
import HookTrace.Store.Recency

/-!
# HookTrace.Cpu.Tracer

The tracer of time on processors. It reports nothing of its own; its histograms are read.
-/

namespace HookTrace.Cpu

open Store

abbrev CpuTracer := Tracer Scope (RecencyTable UInt32 UInt64) Histograms Unit

namespace CpuTracer

def empty (scope : Scope) : CpuTracer where
  config := scope
  stores := ⟨.empty Limits.cpuEntries, .empty Limits.cpuEntries, (), []⟩

def histogram (tracer : CpuTracer) (tgid : UInt32) : Option Histogram :=
  tracer.stores.known.get? tgid

def tgids (tracer : CpuTracer) : List UInt32 :=
  tracer.stores.known.tgids

/-- `next` is switched in and `prev` out, at the time `next` has. -/
def step (tracer : CpuTracer) (next : CurrentTask) (prev : TaskInfo) : Outcome × CpuTracer :=
  tracer.call "finish_task_switch" fun scope => Switch.onSwitch scope next prev

end CpuTracer

end HookTrace.Cpu
