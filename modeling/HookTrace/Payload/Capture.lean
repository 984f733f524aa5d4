import HookTrace.AddressSpace
import HookTrace.Code
import HookTrace.Hook
import HookTrace.Syscall
import HookTrace.Task

/-!
# HookTrace.Payload.Capture

Payloads of requests and responses, taken from the buffers they were sent from or received into.

* `PayloadRecord`: the bytes captured, which end where `len` says or where the field ends.
* `Plain`: payloads as `sendto` and `recvfrom` carry them. `len` is what was captured.
* `Tls`: payloads at the edge of a TLS library, before encryption and after decryption. `len` is
  what the library returned, which may be more than was captured.
-/

namespace HookTrace.Payload

/-- Which half of an exchange a payload belongs to. -/
inductive Kind where
  | request
  | response
deriving DecidableEq

instance : Coded Kind where
  all := [.request, .response]
  code
    | .request => 0
    | .response => 1
  label
    | .request => "Request"
    | .response => "Response"

/-- What is sent is a request, what is received a response. -/
def Kind.ofTransfer : Transfer → Kind
  | .sendto => .request
  | .recvfrom => .response

structure PayloadRecord where
  tgid : UInt32
  pid : UInt32
  uid : UInt32
  len : UInt32
  buf : Field Limits.payload
  kind : UInt32
deriving DecidableEq

instance : Layout PayloadRecord where
  zero := ⟨0, 0, 0, 0, Field.zero _, 0⟩
  members := [.word 4, .word 4, .word 4, .word 4, .field Limits.payload, .word 4]

namespace PayloadRecord

def payload (record : PayloadRecord) : Bytes :=
  record.buf.bytes.take record.len.toNat

def kind? (record : PayloadRecord) : Option Kind :=
  decode? Kind record.kind.toNat

/-- Captures what a call returning `ret` left at `address`, to be reported with length `len`. -/
def fill (record : PayloadRecord) (task : CurrentTask) (memory : UserSpace) (address : UInt64)
    (kind : Kind) (ret : Int64) (len : UInt32) : Except Fault PayloadRecord := do
  let captured ← memory.read address (captureLength ret.toNatClampNeg Limits.payload)
  return { record with
    buf := record.buf.overwrite captured.bytes
    tgid := ← task.tgid
    pid := ← task.pid
    uid := task.uid
    len
    kind := UInt32.ofNat (Coded.code kind) }

end PayloadRecord

namespace Plain

variable {P K S : Type} [KeyedTable P UInt32 SyscallArgs] [RecordSink S PayloadRecord]

def onEnter (scope : Scope) (task : CurrentTask) (args : SyscallArgs) : Hook P K S Unit := do
  if !(← task.inScope scope.target) then
    return
  Hook.leave (← task.pid) args

/-- A transfer has ended, which moved bytes if `ret` is positive. -/
def capture (task : CurrentTask) (memory : UserSpace) (kind : Kind) (ret : Int64)
    (args : SyscallArgs) : Hook P K S Unit := do
  if ret ≤ 0 then
    return
  let len := UInt32.ofNat (captureLength ret.toNatClampNeg Limits.payload)
  Hook.emit task.cpu "http event" fun blank => do
    return some (← blank.fill task memory args.buf kind ret len)

def onExit (task : CurrentTask) (memory : UserSpace) (kind : Kind) (ret : Int64) :
    Hook P K S Unit := do
  Hook.claim (← task.pid) (capture task memory kind ret)

inductive Call where
  | enter (transfer : Transfer) (task : CurrentTask) (args : SyscallArgs)
  | exit (transfer : Transfer) (task : CurrentTask) (memory : UserSpace) (ret : Int64)

def Call.name : Call → String
  | enter transfer .. => s!"sys_enter_{transfer.name}"
  | exit transfer .. => s!"sys_exit_{transfer.name}"

def hook (scope : Scope) : Call → Hook P K S Unit
  | .enter _ task args => onEnter scope task args
  | .exit transfer task memory ret => onExit task memory (.ofTransfer transfer) ret

end Plain

namespace Tls

variable {P K S : Type} [KeyedTable P UInt32 UInt64] [RecordSink S PayloadRecord]

/-- A thread enters the library with its buffer of plain bytes. -/
def onEnter (scope : Scope) (task : CurrentTask) (buf : UInt64) : Hook P K S Unit := do
  if !(← task.inScope scope.target) then
    return
  Hook.leave (← task.pid) buf

/-- The library has returned the bytes moved or, if not positive, an error. -/
def capture (task : CurrentTask) (memory : UserSpace) (kind : Kind) (ret : Int64)
    (buf : UInt64) : Hook P K S Unit := do
  if ret ≤ 0 then
    return
  Hook.emit task.cpu "https event" fun blank => do
    return some (← blank.fill task memory buf kind ret ret.toUInt64.toUInt32)

def onExit (task : CurrentTask) (memory : UserSpace) (kind : Kind) (ret : Int64) :
    Hook P K S Unit := do
  Hook.claim (← task.pid) (capture task memory kind ret)

/-- A call of one of the hooks; the library writes requests and reads responses. -/
inductive Call where
  | enter (kind : Kind) (task : CurrentTask) (buf : UInt64)
  | exit (kind : Kind) (task : CurrentTask) (memory : UserSpace) (ret : Int64)

def function : Kind → String
  | .request => "ssl_write"
  | .response => "ssl_read"

def Call.name : Call → String
  | enter kind .. => function kind
  | exit kind .. => s!"{function kind}_ret"

def hook (scope : Scope) : Call → Hook P K S Unit
  | .enter _ task buf => onEnter scope task buf
  | .exit kind task memory ret => onExit task memory kind ret

end Tls

end HookTrace.Payload
