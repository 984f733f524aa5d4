import HookTrace.Build.Job

/-!
# HookTrace.Main

The command line. What a command comes to is printed as the lines of a shell script, one for each
tool it starts; a wrong command line is explained on standard error.
-/

open HookTrace.Build

/-- Whether there are bindings already, which is all a plan depends on. -/
def presentBindings : IO Bindings := do
  try
    return .file (← IO.FS.readBinFile bindingsPath).toList
  catch _ => return .missing

def main (args : List String) : IO UInt32 := do
  match Command.parse args with
  | .ok command =>
    for launch in command.plan (← presentBindings) do
      IO.println launch.line
    return 0
  | .error stop =>
    if stop = .help then IO.println stop.message else IO.eprintln stop.message
    return stop.exitCode.toUInt32
