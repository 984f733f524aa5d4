import HookTrace.Hook
import HookTrace.SocketAddress
import HookTrace.Task
import HookTrace.Layout

/-!
# HookTrace.Poll.Readiness

Polls on connected sockets. A connect makes the descriptor's peer known; a later poll on that
descriptor is reported together with the peer it had when the poll was entered.
-/

namespace HookTrace.Poll

structure Socket where
  fd : Int32
  addr : UInt32
  port : UInt32
deriving DecidableEq

structure PollRecord where
  tgid : UInt32
  pid : UInt32
  uid : UInt32
  fd : Int32
  addr : UInt32
  port : UInt32
  ret : Int32
deriving DecidableEq

instance : Layout PollRecord where
  zero := ⟨0, 0, 0, 0, 0, 0, 0⟩
  members := List.replicate 7 (.word 4)

namespace PollRecord

def fill (record : PollRecord) (task : CurrentTask) (socket : Socket) (ret : Int64) :
    Except Fault PollRecord := do
  return { record with
    tgid := ← task.tgid
    pid := ← task.pid
    uid := task.uid
    fd := socket.fd
    addr := socket.addr
    port := socket.port
    ret := ret.toInt32 }

end PollRecord

inductive Variant where
  | poll
  | ppoll
deriving DecidableEq

namespace Variant

def name : Variant → String
  | poll => "poll"
  | ppoll => "ppoll"

end Variant

namespace Readiness

variable {P K S : Type}
variable [KeyedTable P UInt32 Socket] [KeyedTable K Int32 Socket] [RecordSink S PollRecord]

def onConnect (scope : Scope) (task : CurrentTask) (memory : UserSpace) (fd : Int32)
    (uaddr : UInt64) : Hook P K S Unit := do
  if !(← task.inScope scope.target) then
    return
  match ← InetAddress.read? memory uaddr with
  | none => return
  | some peer => Hook.learn fd { fd, addr := peer.addr, port := peer.port.toUInt32 : Socket }

/-- The descriptor in the first entry of a poll's array. -/
def polledFd (memory : UserSpace) (ufds : UInt64) : Except Fault Int32 := do
  let fd ← memory.read ufds 4
  return (UInt32.ofNat fd.toNatLE).toInt32

/-- A thread enters a poll, of which only the first descriptor is looked at. -/
def onEnter (scope : Scope) (task : CurrentTask) (memory : UserSpace) (ufds : UInt64) :
    Hook P K S Unit := do
  if !(← task.inScope scope.target) then
    return
  let fd ← polledFd memory ufds
  match ← Hook.known? (P := P) (S := S) fd with
  | none => return
  | some (socket : Socket) => Hook.leave (← task.pid) socket

/-- A poll of `socket` has ended, which failed if `ret` is negative. -/
def report (task : CurrentTask) (ret : Int64) (socket : Socket) : Hook P K S Unit := do
  if ret < 0 then
    return
  Hook.emit task.cpu "poll event" fun (blank : PollRecord) => do
    return some (← blank.fill task socket ret)

def onExit (task : CurrentTask) (ret : Int64) : Hook P K S Unit := do
  Hook.claim (← task.pid) (report task ret)

def onClose (fd : Int32) : Hook P K S Unit :=
  Hook.unlearn fd

inductive Call where
  | connect (task : CurrentTask) (memory : UserSpace) (fd : Int32) (uaddr : UInt64)
  | enter (variant : Variant) (task : CurrentTask) (memory : UserSpace) (ufds : UInt64)
  | exit (variant : Variant) (task : CurrentTask) (ret : Int64)
  | close (fd : Int32)

def Call.name : Call → String
  | connect .. => "sys_enter_connect"
  | enter variant .. => s!"sys_enter_{variant.name}"
  | exit variant .. => s!"sys_exit_{variant.name}"
  | close _ => "sys_enter_close"

def hook (scope : Scope) : Call → Hook P K S Unit
  | .connect task memory fd uaddr => onConnect scope task memory fd uaddr
  | .enter _ task memory ufds => onEnter scope task memory ufds
  | .exit _ task ret => onExit task ret
  | .close fd => onClose fd

end Readiness

end HookTrace.Poll
