import HookTrace.Kernel.Memory
import HookTrace.Kernel.Output
import HookTrace.Kernel.Program
import HookTrace.Store.Recency
import HookTrace.Store.Refusing

/-!
# HookTrace.Kernel.Machine

A kernel with all programs loaded: memory, configuration and the maps of each family of hooks.

* `Machine.run`: runs one program on behalf of a task. The running task's own facts come from the
  kernel; its parent, and all facts of another task, are read out of kernel memory.
* `Report`: the records a run handed over, what it logged, and a forced return value.
-/

namespace HookTrace.Kernel

open Store

/-- A map that makes room when it is full, but may be refused memory. -/
abbrev LruMap (κ ν : Type) [BEq κ] [Hashable κ] := Refusing (RecencyTable κ ν)

structure Settings where
  http : Scope := {}
  https : Scope := {}
  poll : Scope := {}
  cpu : Scope := {}
  file : Scope := {}
  connect : Tcp.ConnectConfig := {}
  mysql : Mysql.MysqlConfig := {}
  unlink : Unlink.UnlinkConfig := {}

structure Machine where
  settings : Settings
  user : AddressSpace
  memory : AddressSpace
  /-- What resolving the path of a file comes to. -/
  paths : List (UInt64 × FileStruct.PathAnswer)
  connect : Stores (LruMap UInt32 UInt64) Unit (PerfOutput Tcp.ConnectRecord)
  cpu : Stores (LruMap UInt32 UInt64) HistogramMap Unit
  http : Stores (LruMap UInt32 SyscallArgs) Unit (PerfOutput Payload.PayloadRecord)
  https : Stores (LruMap UInt32 UInt64) Unit (PerfOutput Payload.PayloadRecord)
  mysql : Stores (LruMap UInt32 SyscallArgs) (LruMap Int32 Mysql.Connection)
    (PerfOutput Mysql.MysqlRecord)
  poll : Stores (LruMap UInt32 Poll.Socket) (LruMap Int32 Poll.Socket) (PerfOutput Poll.PollRecord)
  unlink : Stores (LruMap UInt32 UInt64) Unlink.ForcedReturn (PerfOutput Unlink.UnlinkRecord)
  file : Stores Unit (LruMap UInt64 File.PathEntry) (RingOutput File.FileRecord)

inductive Event where
  | connect (record : Tcp.ConnectRecord)
  | http (record : Payload.PayloadRecord)
  | https (record : Payload.PayloadRecord)
  | mysql (record : Mysql.MysqlRecord)
  | poll (record : Poll.PollRecord)
  | unlink (record : Unlink.UnlinkRecord)
  | file (record : File.FileRecord)

structure Report where
  /-- Each with the processor it came from. -/
  events : List (Nat × Event) := []
  notices : List Notice := []
  forced : Option UInt64 := none

structure Run where
  program : Program
  context : Context
  task : Task
  unreadable : List TaskStruct.Member := []
  prev : Option (Task × List TaskStruct.Member) := none
  short : Scarcity := {}

namespace Machine

/-- Where the running task, the outgoing task and their parents lie. -/
def taskAddress : UInt64 := 0x10000
def parentAddress : UInt64 := 0x11000
def prevAddress : UInt64 := 0x20000
def prevParentAddress : UInt64 := 0x21000

/-- Puts a socket into kernel memory, as far as it is given. -/
def addSocket (machine : Machine) (address : UInt64) (v4 : Option (Field 4))
    (v6 : Option Tcp.AddressV6) (port : Option UInt16) : Machine :=
  { machine with
    memory := Sock.put machine.memory address (v4.map (·.bytes)) (v6.map (·.bytes)) port }

/-- Puts a file into kernel memory, and says what resolving its path comes to if it has one. Of two
files at one address the later one has a path or none. -/
def addFile (machine : Machine) (address : UInt64) (mode : UInt16) (name : Option Bytes)
    (path : Option FileStruct.PathAnswer) (unreadable : List FileStruct.Member) : Machine :=
  { machine with
    memory := FileStruct.put machine.memory address mode name unreadable
    paths :=
      match path with
      | some path => (address, path) :: machine.paths
      | none => machine.paths.filter (·.1 != address) }

/-- The running task. Its command name cannot be had when it cannot be read. -/
def current (machine : Machine) (run : Run) : CurrentTask :=
  { run.task.current with
    parentTgid := TaskStruct.parentTgid machine.memory taskAddress
    comm :=
      if run.unreadable.contains .comm then .error (.noBuffer "current comm")
      else .ok run.task.comm }

def place (machine : Machine) (run : Run) : Machine :=
  let memory := TaskStruct.put machine.memory taskAddress parentAddress run.task run.unreadable
  let memory :=
    match run.prev with
    | some (prev, unreadable) =>
      TaskStruct.put memory prevAddress prevParentAddress prev unreadable
    | none => memory
  { machine with memory }

/-- The outgoing task of a switch: the given one, or whatever the first register points to. -/
def outgoing (machine : Machine) (run : Run) : Except Fault TaskInfo :=
  if run.context.unreadable then .error (.missingArgument "finish_task_switch prev" 0)
  else
    let address := if run.prev.isSome then prevAddress else run.context.slot 0
    .ok (TaskStruct.info machine.memory address)

/-- Runs a hook, and reports a fault under the program's name. -/
def perform {P K S : Type} [Scarce P] [Scarce K] [Scarce S] (run : Run) (hook : Hook P K S Unit)
    (s : Stores P K S) : List Notice × Stores P K S :=
  match run.short.during hook s with
  | (.ok (), s) => ([], s)
  | (.error fault, s) => ([.programFailed run.program.handler fault], s)

def fresh {ρ : Type} (event : ρ → Event) (before : Nat) (records : Array (Nat × ρ)) :
    List (Nat × Event) :=
  (records.toList.drop before).map fun (cpu, record) => (cpu, event record)

/-- Runs a hook on a family's stores and reports the records that came in. -/
def performPerf {P K ρ : Type} [Scarce P] [Scarce K] (run : Run) (event : ρ → Event)
    (hook : Hook P K (PerfOutput ρ) Unit) (s : Stores P K (PerfOutput ρ)) :
    Report × Stores P K (PerfOutput ρ) :=
  let before := s.events.records.size
  let (notices, s) := perform run hook s
  ({ events := fresh event before s.events.records, notices }, s)

def runConnect (machine : Machine) (run : Run)
    (call : CurrentTask → Except Fault Tcp.Connect.Call) : Report × Machine :=
  let (report, connect) := performPerf run .connect (do
    Tcp.Connect.hook machine.settings.connect (← call (machine.current run))) machine.connect
  (report, { machine with connect })

def runHttp (machine : Machine) (run : Run)
    (call : CurrentTask → Except Fault Payload.Plain.Call) : Report × Machine :=
  let (report, http) := performPerf run .http (do
    Payload.Plain.hook machine.settings.http (← call (machine.current run))) machine.http
  (report, { machine with http })

def runHttps (machine : Machine) (run : Run)
    (call : CurrentTask → Except Fault Payload.Tls.Call) : Report × Machine :=
  let (report, https) := performPerf run .https (do
    Payload.Tls.hook machine.settings.https (← call (machine.current run))) machine.https
  (report, { machine with https })

def runMysql (machine : Machine) (run : Run)
    (call : CurrentTask → Except Fault Mysql.Capture.Call) : Report × Machine :=
  let (report, mysql) := performPerf run .mysql (do
    Mysql.Capture.hook machine.settings.mysql (← call (machine.current run))) machine.mysql
  (report, { machine with mysql })

def runPoll (machine : Machine) (run : Run)
    (call : CurrentTask → Except Fault Poll.Readiness.Call) : Report × Machine :=
  let (report, poll) := performPerf run .poll (do
    Poll.Readiness.hook machine.settings.poll (← call (machine.current run))) machine.poll
  (report, { machine with poll })

def runUnlink (machine : Machine) (run : Run)
    (call : CurrentTask → Except Fault Unlink.Intercept.Call) : Report × Machine :=
  let stores := { machine.unlink with known := {} }
  let (report, unlink) := performPerf run .unlink (do
    Unlink.Intercept.hook machine.settings.unlink (← call (machine.current run))) stores
  ({ report with forced := unlink.known.value }, { machine with unlink })

def runFile (machine : Machine) (run : Run) (call : CurrentTask → File.Access.Call) :
    Report × Machine :=
  let before := machine.file.events.records.size
  let (notices, file) := perform run
    (File.Access.hook machine.settings.file (call (machine.current run))) machine.file
  ({ events := fresh .file before file.events.records, notices }, { machine with file })

def runSwitch (machine : Machine) (run : Run) : Report × Machine :=
  let (notices, cpu) := perform run (do
    let prev ← machine.outgoing run
    Cpu.Switch.onSwitch machine.settings.cpu (machine.current run) prev) machine.cpu
  ({ notices }, { machine with cpu })

def run (machine : Machine) (run : Run) : Report × Machine :=
  let machine := machine.place run
  let context := run.context
  let user := machine.user.userSpace
  let file := FileStruct.view machine.memory machine.paths (context.slot 0)
  match run.program with
  | .connectEntry p => machine.runConnect run fun task => .ok (.enter p task (context.slot 0))
  | .connectReturn p =>
    machine.runConnect run fun task =>
      .ok (.exit p task (Sock.reader machine.memory) (Context.lowWord (context.slot 3)).toInt64)
  | .switch => machine.runSwitch run
  | .httpEntry t =>
    machine.runHttp run fun task => do return .enter t task (← context.transferArgs t)
  | .httpReturn t =>
    machine.runHttp run fun task => do return .exit t task user (← context.returned t.name)
  | .tlsEntry k => machine.runHttps run fun task => .ok (.enter k task (context.slot 1))
  | .tlsReturn k =>
    machine.runHttps run fun task =>
      .ok (.exit k task user (Context.lowWord (context.slot 0)).toInt64)
  | .mysqlConnect =>
    machine.runMysql run fun task => do
      let (fd, uaddr) ← context.connectArgs
      return .connect task user fd uaddr
  | .mysqlEntry t =>
    machine.runMysql run fun task => do return .enter t task (← context.transferArgs t)
  | .mysqlReturn t =>
    machine.runMysql run fun task => do return .exit t task user (← context.returned t.name)
  | .mysqlClose => machine.runMysql run fun _ => do return .close (← context.closeArgs)
  | .pollConnect =>
    machine.runPoll run fun task => do
      let (fd, uaddr) ← context.connectArgs
      return .connect task user fd uaddr
  | .pollEntry v =>
    machine.runPoll run fun task => do
      return .enter v task user (← context.argument s!"{v.name} ufds" 0)
  | .pollReturn v =>
    machine.runPoll run fun task => do return .exit v task (← context.returned v.name)
  | .pollClose => machine.runPoll run fun _ => do return .close (← context.closeArgs)
  | .unlinkEntry .unlink =>
    machine.runUnlink run fun task => do
      return .enter task (← context.argument "unlink pathname" 0)
  | .unlinkEntry .unlinkat =>
    machine.runUnlink run fun task => do
      let pathname ← context.argument "unlinkat pathname" 1
      let flags ← context.argument "unlinkat flag" 2
      return .enterAt task pathname flags
  | .delete v => machine.runUnlink run fun task => .ok (.delete v task user)
  | .fileOpen => machine.runFile run fun _ => .opened file
  | .fileReturn op =>
    machine.runFile run fun task => .accessed op task file (context.slot 4).toInt64

/-- The consumer takes every record out of every channel. -/
def consume (machine : Machine) : Machine :=
  { machine with
    connect := { machine.connect with events := { machine.connect.events with records := #[] } }
    http := { machine.http with events := { machine.http.events with records := #[] } }
    https := { machine.https with events := { machine.https.events with records := #[] } }
    mysql := { machine.mysql with events := { machine.mysql.events with records := #[] } }
    poll := { machine.poll with events := { machine.poll.events with records := #[] } }
    unlink := { machine.unlink with events := { machine.unlink.events with records := #[] } }
    file := { machine.file with events := { machine.file.events with records := #[] } } }

def lost (machine : Machine) : Nat :=
  machine.connect.events.lost + machine.http.events.lost + machine.https.events.lost
    + machine.mysql.events.lost + machine.poll.events.lost + machine.unlink.events.lost

end Machine

end HookTrace.Kernel
