import HookTrace.Hook
import HookTrace.SocketAddress
import HookTrace.Syscall
import HookTrace.Task
import HookTrace.Mysql.Connection
import HookTrace.Mysql.Ports

/-!
# HookTrace.Mysql.Capture

Traffic of MySQL connections. A connect to a tracked port makes a descriptor known; every
transfer on a known descriptor is captured, fed to the connection's handshake and reported,
unless the handshake says that the connection is none. Descriptors are numbered per process, so
a known number only means something inside the traced scope.
-/

namespace HookTrace.Mysql

def Direction.ofTransfer : Transfer → Direction
  | .sendto => .clientToServer
  | .recvfrom => .serverToClient

structure MysqlRecord where
  tgid : UInt32
  pid : UInt32
  uid : UInt32
  fd : Int32
  len : UInt32
  sequenceId : UInt32
  buf : Field Limits.payload
  direction : UInt32
deriving DecidableEq

instance : Layout MysqlRecord where
  zero := ⟨0, 0, 0, 0, 0, 0, Field.zero _, 0⟩
  members := [.word 4, .word 4, .word 4, .word 4, .word 4, .word 4, .field Limits.payload,
    .word 4]

namespace MysqlRecord

def payload (record : MysqlRecord) : Bytes :=
  record.buf.bytes.take record.len.toNat

def direction? (record : MysqlRecord) : Option Direction :=
  decode? Direction record.direction.toNat

end MysqlRecord

namespace Capture

variable {P K S : Type}
variable [KeyedTable P UInt32 SyscallArgs] [KeyedTable K Int32 Connection]
variable [RecordSink S MysqlRecord]

def onConnect (config : MysqlConfig) (task : CurrentTask) (memory : UserSpace) (fd : Int32)
    (uaddr : UInt64) : Hook P K S Unit := do
  if !(← task.inScope config.target) then
    return
  match ← InetAddress.read? memory uaddr with
  | none => return
  | some peer =>
    if config.tracksPort peer.port then
      Hook.learn fd (Connection.connecting fd peer.port)

/-- A thread enters a transfer, of which only those on known descriptors count. -/
def onEnter (config : MysqlConfig) (task : CurrentTask) (args : SyscallArgs) :
    Hook P K S Unit := do
  if !(← task.inScope config.target) then
    return
  match ← Hook.known? (P := P) (S := S) args.fd with
  | none => return
  | some _ => Hook.leave (← task.pid) args

/-- Captures a transfer into a record. What the handshake learns from it is remembered even if
the record cannot be completed. -/
def fill (task : CurrentTask) (memory : UserSpace) (args : SyscallArgs) (conn : Connection)
    (direction : Direction) (ret : Int64) (record : MysqlRecord) :
    Hook P K S (Option MysqlRecord) := do
  let length := captureLength ret.toNatClampNeg Limits.payload
  let captured ← memory.read args.buf length
  let (observation, next) := conn.observe captured.bytes direction
  if next ≠ conn then
    Hook.learn args.fd next
  match observation with
  | .ignore => return none
  | .report sequenceId =>
    return some { record with
      buf := record.buf.overwrite captured.bytes
      tgid := ← task.tgid
      pid := ← task.pid
      uid := task.uid
      fd := args.fd
      len := UInt32.ofNat length
      sequenceId := sequenceId.toUInt32
      direction := UInt32.ofNat (Coded.code direction) }

/-- Bytes were moved, which are reported if the descriptor is known. -/
def report (task : CurrentTask) (memory : UserSpace) (direction : Direction) (ret : Int64)
    (args : SyscallArgs) : Hook P K S Unit := do
  match ← Hook.known? (P := P) (S := S) args.fd with
  | none => return
  | some conn =>
    if conn.stage = .invalid then
      return
    Hook.emit task.cpu "mysql event" (fill task memory args conn direction ret)

/-- A transfer has ended, which moved bytes if `ret` is positive. -/
def capture (config : MysqlConfig) (task : CurrentTask) (memory : UserSpace)
    (direction : Direction) (ret : Int64) (args : SyscallArgs) : Hook P K S Unit := do
  if ret ≤ 0 then
    return
  if !(← task.inScope config.target) then
    return
  report task memory direction ret args

def onExit (config : MysqlConfig) (task : CurrentTask) (memory : UserSpace)
    (direction : Direction) (ret : Int64) : Hook P K S Unit := do
  Hook.claim (← task.pid) (capture config task memory direction ret)

def onClose (fd : Int32) : Hook P K S Unit :=
  Hook.unlearn fd

inductive Call where
  | connect (task : CurrentTask) (memory : UserSpace) (fd : Int32) (uaddr : UInt64)
  | enter (transfer : Transfer) (task : CurrentTask) (args : SyscallArgs)
  | exit (transfer : Transfer) (task : CurrentTask) (memory : UserSpace) (ret : Int64)
  | close (fd : Int32)

def Call.name : Call → String
  | connect .. => "sys_enter_connect"
  | enter transfer .. => s!"sys_enter_{transfer.name}"
  | exit transfer .. => s!"sys_exit_{transfer.name}"
  | close _ => "sys_enter_close"

def hook (config : MysqlConfig) : Call → Hook P K S Unit
  | .connect task memory fd uaddr => onConnect config task memory fd uaddr
  | .enter _ task args => onEnter config task args
  | .exit transfer task memory ret => onExit config task memory (.ofTransfer transfer) ret
  | .close fd => onClose fd

end Capture

end HookTrace.Mysql
