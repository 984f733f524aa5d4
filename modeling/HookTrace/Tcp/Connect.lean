import HookTrace.Hook
import HookTrace.Task
import HookTrace.Tcp.AllowList

/-!
# HookTrace.Tcp.Connect

Outbound connections that succeeded and whose destination is admitted. The entry hook leaves the
socket's address for the exit hook of the same thread, which finds the destination in it.
-/

namespace HookTrace.Tcp

structure ConnectRecord where
  tgid : UInt32
  pid : UInt32
  uid : UInt32
  /-- Zero on an IPv6 connection. -/
  v4 : UInt32
  /-- Zeros on an IPv4 connection. -/
  v6 : AddressV6
  port : UInt16
  comm : Comm
  protocol : UInt32
deriving DecidableEq

instance : Layout ConnectRecord where
  zero := ⟨0, 0, 0, 0, Field.zero _, 0, Field.zero _, 0⟩
  members := [.word 4, .word 4, .word 4, .word 4, .field 16, .word 2, .word 2,
    .field Limits.comm, .word 4]

namespace ConnectRecord

def protocol? (record : ConnectRecord) : Option Protocol :=
  decode? Protocol record.protocol.toNat

/-- Fills in a record; of the destination's addresses it keeps that of the protocol. -/
def fill (record : ConnectRecord) (task : CurrentTask) (protocol : Protocol)
    (destination : Destination) : Except Fault ConnectRecord := do
  return { record with
    tgid := ← task.tgid
    pid := ← task.pid
    uid := task.uid
    protocol := UInt32.ofNat (Coded.code protocol)
    port := destination.port
    v4 := match protocol with
      | .ipv4 => destination.v4
      | .ipv6 => 0
    v6 := match protocol with
      | .ipv4 => Field.zero _
      | .ipv6 => destination.v6
    comm := ← task.comm }

end ConnectRecord

namespace Connect

variable {P K S : Type} [KeyedTable P UInt32 UInt64] [RecordSink S ConnectRecord]

def onEnter (config : ConnectConfig) (task : CurrentTask) (socket : UInt64) :
    Hook P K S Unit := do
  if !(← task.inScope config.target) then
    return
  Hook.leave (← task.pid) socket

/-- A connect of `socket` has ended, which succeeded if it returned zero. -/
def report (config : ConnectConfig) (task : CurrentTask) (reader : SocketReader)
    (protocol : Protocol) (ret : Int64) (socket : UInt64) : Hook P K S Unit := do
  if ret ≠ 0 then
    return
  let destination ← reader socket protocol
  if !config.admits protocol destination then
    return
  Hook.emit task.cpu "connect event" fun blank => do
    return some (← blank.fill task protocol destination)

def onExit (config : ConnectConfig) (task : CurrentTask) (reader : SocketReader)
    (protocol : Protocol) (ret : Int64) : Hook P K S Unit := do
  Hook.claim (← task.pid) (report config task reader protocol ret)

inductive Call where
  | enter (protocol : Protocol) (task : CurrentTask) (socket : UInt64)
  | exit (protocol : Protocol) (task : CurrentTask) (reader : SocketReader) (ret : Int64)

def function : Protocol → String
  | .ipv4 => "tcp_v4_connect"
  | .ipv6 => "tcp_v6_connect"

def Call.name : Call → String
  | enter protocol .. => function protocol
  | exit protocol .. => s!"{function protocol}_ret"

def hook (config : ConnectConfig) : Call → Hook P K S Unit
  | .enter _ task socket => onEnter config task socket
  | .exit protocol task reader ret => onExit config task reader protocol ret

end Connect

end HookTrace.Tcp
