import HookTrace.Cpu.Switch
import HookTrace.File.Access
import HookTrace.Mysql.Capture
import HookTrace.Payload.Capture
import HookTrace.Poll.Readiness
import HookTrace.Tcp.Connect
import HookTrace.Unlink.Intercept

/-!
# HookTrace.Kernel.Program

The kernel programs: what each is attached to, and how it finds the arguments of its hook in the
context it is run with.

* `Program`: one for each hook and traced function. `name` is the program's own name, `handler`
  the one it reports faults with.
* `Context`: the words of a context. Those of a system call's tracepoint are read with a check,
  registers and argument slots without one.
-/

namespace HookTrace.Kernel

inductive Program where
  | connectEntry (protocol : Tcp.Protocol)
  | connectReturn (protocol : Tcp.Protocol)
  | switch
  | httpEntry (transfer : Transfer)
  | httpReturn (transfer : Transfer)
  | tlsEntry (kind : Payload.Kind)
  | tlsReturn (kind : Payload.Kind)
  | mysqlConnect
  | mysqlEntry (transfer : Transfer)
  | mysqlReturn (transfer : Transfer)
  | mysqlClose
  | pollConnect
  | pollEntry (variant : Poll.Variant)
  | pollReturn (variant : Poll.Variant)
  | pollClose
  | unlinkEntry (variant : Unlink.Variant)
  | delete (variant : Unlink.Variant)
  | fileOpen
  | fileReturn (op : File.FileOp)
deriving DecidableEq

namespace Program

def all : List Program :=
  let transfers := [.sendto, .recvfrom]
  [.switch, .mysqlConnect, .mysqlClose, .pollConnect, .pollClose, .fileOpen]
    ++ [Tcp.Protocol.ipv4, .ipv6].flatMap (fun p => [.connectEntry p, .connectReturn p])
    ++ transfers.flatMap (fun t => [.httpEntry t, .httpReturn t, .mysqlEntry t, .mysqlReturn t])
    ++ [Payload.Kind.request, .response].flatMap (fun k => [.tlsEntry k, .tlsReturn k])
    ++ [Poll.Variant.poll, .ppoll].flatMap (fun v => [.pollEntry v, .pollReturn v])
    ++ [Unlink.Variant.unlink, .unlinkat].flatMap (fun v => [.unlinkEntry v, .delete v])
    ++ [File.FileOp.read, .write].map .fileReturn

def attachment : Program → String
  | connectEntry _ => "fentry"
  | connectReturn _ | fileReturn _ => "fexit"
  | switch | delete _ => "kprobe"
  | tlsEntry _ => "uprobe"
  | tlsReturn _ => "uretprobe"
  | fileOpen => "lsm"
  | _ => "tracepoint"

/-- What a program is attached to. Where two families of hooks share a system call, the family is
named in front. -/
def subject : Program → String
  | connectEntry p | connectReturn p => Tcp.Connect.function p
  | switch => "finish_task_switch"
  | httpEntry t => s!"http_sys_enter_{t.name}"
  | httpReturn t => s!"http_sys_exit_{t.name}"
  | tlsEntry k | tlsReturn k => Payload.Tls.function k
  | mysqlConnect => "mysql_sys_enter_connect"
  | mysqlEntry t => s!"mysql_sys_enter_{t.name}"
  | mysqlReturn t => s!"mysql_sys_exit_{t.name}"
  | mysqlClose => "mysql_sys_enter_close"
  | pollConnect => "poll_sys_enter_connect"
  | pollEntry v => s!"sys_enter_{v.name}"
  | pollReturn v => s!"sys_exit_{v.name}"
  | pollClose => "poll_sys_enter_close"
  | unlinkEntry v => s!"sys_enter_{v.name}"
  | delete v => s!"sys_{v.name}"
  | fileOpen => "vfs_file_open"
  | fileReturn op => File.Access.function op

def name (program : Program) : String :=
  s!"{program.attachment}_{program.subject}"

def handler (program : Program) : String :=
  s!"{program.subject}_{program.attachment}"

def ofName? (name : String) : Option Program :=
  all.find? (·.name == name)

end Program

structure Context where
  words : List UInt64
  /-- Whether every checked read fails. -/
  unreadable : Bool := false

namespace Context

/-- The argument of a system call, read with a check. -/
def argument (context : Context) (op : String) (index : Nat) : Except Fault UInt64 :=
  match context.unreadable, context.words[index]? with
  | false, some word => .ok word
  | _, _ => .error (.missingArgument op index)

/-- A register or an argument slot, zero if there is none. -/
def slot (context : Context) (index : Nat) : UInt64 :=
  context.words.getD index 0

/-- A signed word of half the width. -/
def lowWord (word : UInt64) : Int32 :=
  word.toUInt32.toInt32

def transferArgs (context : Context) (transfer : Transfer) : Except Fault SyscallArgs := do
  let fd ← context.argument s!"{transfer.name} fd" 0
  let buf ← context.argument s!"{transfer.name} buff" 1
  let len ← context.argument s!"{transfer.name} len" 2
  return ⟨lowWord fd, buf, len⟩

def returned (context : Context) (syscall : String) : Except Fault Int64 := do
  return (← context.argument s!"{syscall} ret" 0).toInt64

def connectArgs (context : Context) : Except Fault (Int32 × UInt64) := do
  let fd ← context.argument "connect fd" 0
  let uaddr ← context.argument "connect uservaddr" 1
  return (lowWord fd, uaddr)

def closeArgs (context : Context) : Except Fault Int32 := do
  return lowWord (← context.argument "close fd" 0)

end Context

end HookTrace.Kernel
