import HookTrace.Tracer
import HookTrace.Mysql.Capture
import HookTrace.Store.PerCpu
import HookTrace.Store.Recency

/-!
# HookTrace.Mysql.Tracer

The tracer of MySQL traffic: the connections it knows by descriptor, and the transfers in flight
by thread.
-/

namespace HookTrace.Mysql

open Store

abbrev MysqlTracer :=
  Tracer MysqlConfig (RecencyTable UInt32 SyscallArgs) (RecencyTable Int32 Connection)
    (PerCpuOutput MysqlRecord)

namespace MysqlTracer

def empty (config : MysqlConfig) (cpus : Nat) : MysqlTracer where
  config := config
  stores := ⟨.empty Limits.entries, .empty Limits.entries, .empty cpus cpus Limits.queueDepth, []⟩

def connection (tracer : MysqlTracer) (fd : Int32) : Option Connection :=
  tracer.stores.known.peek? fd

/-- The closing of a known descriptor is noted. -/
def noted (tracer : MysqlTracer) : Capture.Call → List Notice
  | .close fd =>
    match tracer.connection fd with
    | some conn => [.closed fd conn.stage.label]
    | none => []
  | _ => []

def step (tracer : MysqlTracer) (call : Capture.Call) : Outcome × MysqlTracer :=
  let noted := noted tracer call
  let (outcome, tracer) := tracer.call call.name fun config => Capture.hook config call
  ({ outcome with notices := noted ++ outcome.notices }, tracer)

end MysqlTracer

end HookTrace.Mysql
