import HookTrace.Utf8
import HookTrace.Build.CommandLine

/-!
# HookTrace.Build.Job

Building the kernel programs. Bindings for the running kernel's types are generated where they are
missing or asked for again, and the compiler is run in the programs' directory. The two tools are
known by what they do when they are run.

* `Command.run`: what running a command comes to: the tools that were started, why it failed if it
  did, and the bindings afterwards.
-/

namespace HookTrace.Build

inductive Status where
  | exited (code : UInt8)
  | killed (signal : Nat)
deriving DecidableEq

namespace Status

def success (status : Status) : Bool :=
  status == .exited 0

/-- The signals that a process goes on after: none at all, and those of a child, of a continuation,
of urgent data and of a window. -/
def harmless : List Nat := [0, 17, 18, 23, 28]

/-- How a process ends that sends a signal to itself, if it does, and then exits with `code`. -/
def ofSignal (signal : Option Nat) (code : UInt8) : Status :=
  match signal with
  | some signal => if harmless.contains signal then exited code else killed signal
  | none => exited code

/-- The names of the signals, from the first one on. -/
def signalNames : List String :=
  ["HUP", "INT", "QUIT", "ILL", "TRAP", "ABRT", "BUS", "FPE", "KILL", "USR1", "SEGV", "USR2",
    "PIPE", "ALRM", "TERM", "STKFLT", "CHLD", "CONT", "STOP", "TSTP", "TTIN", "TTOU", "URG",
    "XCPU", "XFSZ", "VTALRM", "PROF", "WINCH", "IO", "PWR", "SYS"]

def text : Status → String
  | exited code => s!"exit status: {code.toNat}"
  | killed 0 => "signal: 0"
  | killed (n + 1) =>
    match signalNames[n]? with
    | some name => s!"signal: {n + 1} (SIG{name})"
    | none => s!"signal: {n + 1}"

end Status

structure Tool where
  stdout : Bytes := []
  stderr : Bytes := []
  status : Status := .exited 0

/-- The tools that can be found, if they can. -/
structure Tools where
  generator : Option Tool := none
  compiler : Option Tool := none

def programsDirectory : String := "insight-ebpf"

/-- The way to their bindings, name by name. -/
def bindingsRoute : List String := [programsDirectory, "src", "binding.rs"]

def bindingsPath : String := "/".intercalate bindingsRoute

/-- What there is where the bindings belong. -/
inductive Bindings where
  /-- There is no directory to hold them. -/
  | unplaced
  | missing
  | file (content : Bytes)
  /-- A directory is in their place. -/
  | directory
deriving DecidableEq

namespace Bindings

def exist : Bindings → Bool
  | file _ | directory => true
  | unplaced | missing => false

def content? : Bindings → Option Bytes
  | file content => some content
  | _ => none

/-- Goes on from a directory below the starting point by one name of a path; `none` once the path
has left it. -/
def enter (route : Option (List String)) (name : String) : Option (List String) := do
  let route ← route
  if name == "" || name == "." then some route
  else if name == ".." then if route.isEmpty then none else some route.dropLast
  else some (route ++ [name])

/-- What there is if nothing is but a directory and those on the way to it. -/
def ofDirectory (directory : String) : Bindings :=
  let start := if directory.startsWith "/" then none else some []
  let visited := List.scanl enter start (directory.splitOn "/")
  if visited.contains (some bindingsRoute) then .directory
  else if visited.contains (some bindingsRoute.dropLast) then .missing
  else .unplaced

end Bindings

structure Launch where
  program : String
  /-- The directory it was started in, nothing for the one the job runs in. -/
  directory : String := ""
  /-- Whether the choice of toolchain is passed on. -/
  keepsToolchain : Bool := true
  arguments : List String
  /-- The file that what it prints is kept in, nothing if it is not kept. -/
  output : String := ""
deriving DecidableEq

namespace Launch

/-- The launch as a line for a shell. -/
def line (launch : Launch) : String :=
  let call := " ".intercalate (launch.program :: launch.arguments)
  let call := if launch.output.isEmpty then call else s!"{call} > {launch.output}"
  let call := if launch.keepsToolchain then call else s!"env -u RUSTUP_TOOLCHAIN {call}"
  if launch.directory.isEmpty then call else s!"(cd {launch.directory} && {call})"

end Launch

inductive Failure where
  | generatorNotFound
  | generatorFailed (stderr : Bytes)
  | directoryMissing
  | bindingsAreDirectory
  | compilerNotFound
  | compilerFailed (status : Status)
deriving DecidableEq

namespace Failure

def notFound : String := "No such file or directory (os error 2)"

def isDirectory : String := "Is a directory (os error 21)"

/-- What went wrong, and what caused it if that is known. -/
def parts : Failure → String × Option String
  | generatorNotFound =>
    ("failed to run aya-tool (install it with `cargo install bindgen-cli aya-tool`)", some notFound)
  | generatorFailed stderr => (s!"aya-tool failed: {String.ofList (Utf8.decode stderr)}", none)
  | directoryMissing => (s!"failed to write {bindingsPath}", some notFound)
  | bindingsAreDirectory => (s!"failed to write {bindingsPath}", some isDirectory)
  | compilerNotFound => ("failed to build bpf program", some notFound)
  | compilerFailed status => (s!"building the bpf program failed with {status.text}", none)

def message (failure : Failure) : String :=
  match failure.parts with
  | (what, none) => s!"Error: {what}\n"
  | (what, some cause) => s!"Error: {what}\n\nCaused by:\n    {cause}\n"

end Failure

structure Progress where
  launches : List Launch := []
  bindings : Bindings

/-- A job goes on until it fails; what it has done by then stays done. -/
abbrev Job := EStateM Failure Progress

namespace Job

def start (tool : Option Tool) (launch : Launch) (absent : Failure) : Job Tool := do
  match tool with
  | none => throw absent
  | some tool =>
    modify fun p => { p with launches := p.launches ++ [launch] }
    return tool

def write (content : Bytes) : Job Unit := do
  match (← get).bindings with
  | .unplaced => throw .directoryMissing
  | .directory => throw .bindingsAreDirectory
  | .missing | .file _ => modify fun p => { p with bindings := .file content }

def generatorLaunch : Launch where
  program := "aya-tool"
  arguments := ["generate", "task_struct", "file", "sock"]
  output := bindingsPath

def compilerLaunch (target : Target) : Launch where
  program := "cargo"
  directory := programsDirectory
  keepsToolchain := false
  arguments :=
    ["build", "--verbose", s!"--target={target.name}", "-Z", "build-std=core", "--release"]

def generate (tools : Tools) : Job Unit := do
  let tool ← start tools.generator generatorLaunch .generatorNotFound
  if !tool.status.success then
    throw (.generatorFailed tool.stderr)
  write tool.stdout

/-- Builds the programs, with new bindings if there are none or new ones are asked for. -/
def build (tools : Tools) (options : Options) : Job Unit := do
  if options.regenerate || !(← get).bindings.exist then
    generate tools
  let tool ← start tools.compiler (compilerLaunch options.target) .compilerNotFound
  if !tool.status.success then
    throw (.compilerFailed tool.status)

end Job

structure Result where
  launches : List Launch := []
  stopped : Option Stop := none
  failure : Option Failure := none
  bindings : Bindings

namespace Result

/-- Zero for success, one for a job that failed, two for a wrong command line. -/
def exitCode (result : Result) : UInt8 :=
  match result.stopped, result.failure with
  | some stop, _ => stop.exitCode
  | none, some _ => 1
  | none, none => 0

end Result

namespace Command

def job (tools : Tools) : Command → Job Unit
  | .build options => Job.build tools options
  | .generate => Job.generate tools

/-- Runs a command with the given tools, where the given bindings are. -/
def run (tools : Tools) (bindings : Bindings) (command : Command) : Result :=
  match command.job tools { bindings } with
  | .ok () p => { launches := p.launches, bindings := p.bindings }
  | .error failure p =>
    { launches := p.launches, failure := some failure, bindings := p.bindings }

def runArguments (tools : Tools) (bindings : Bindings) (arguments : List String) : Result :=
  match parse arguments with
  | .ok command => command.run tools bindings
  | .error stop => { stopped := some stop, bindings }

/-- The tools that a command starts if each of them succeeds. -/
def plan (bindings : Bindings) (command : Command) : List Launch :=
  (command.run { generator := some {}, compiler := some {} } bindings).launches

end Command

end HookTrace.Build
