import HookTrace.Fault

/-!
# HookTrace.Tracing

What the hooks leave in a log: notices as data, and the line each is written as.
-/

namespace HookTrace

inductive Notice where
  /-- A hook failed; the fault became its return code. -/
  | hookFailed (hook : String) (fault : Fault)
  | programFailed (handler : String) (fault : Fault)
  /-- A record went to a processor whose queue was full. -/
  | recordLost (cpu : Nat)
  /-- A ring had no room for one more record. -/
  | ringFull (capacity : Nat)
  /-- A tracked descriptor was closed. -/
  | closed (fd : Int32) (stage : String)
deriving DecidableEq

namespace Notice

/-- The log line, with its level in front. -/
def line : Notice → String
  | hookFailed hook fault => s!"DEBUG {hook}: {fault.message}"
  | programFailed handler fault => s!"ERROR {fault.report handler}"
  | recordLost cpu => s!"TRACE perf queue of cpu {cpu} is full, record lost"
  | ringFull capacity => s!"TRACE ring of {capacity} bytes is full"
  | closed fd stage => s!"TRACE fd {fd.toInt} closed in state {stage}"

end Notice

end HookTrace
