import HookTrace.AddressSpace
import HookTrace.Layout
import HookTrace.Scarcity
import HookTrace.Task
import HookTrace.Unlink.Directory

/-!
# HookTrace.Unlink.Intercept

Deletions that are answered without being done. The entry hook leaves the pathname's address;
the hook on the system call itself decides. A deletion in the configured directory is forced to
return zero, so that its body never runs, and is reported. Deletions of directories and those by
the agent that owns the interceptor are not considered.
-/

namespace HookTrace.Unlink

structure UnlinkRecord where
  tgid : UInt32
  pid : UInt32
  uid : UInt32
  pathname : Field Limits.pathname
deriving DecidableEq

instance : Layout UnlinkRecord where
  zero := ⟨0, 0, 0, Field.zero _⟩
  members := [.word 4, .word 4, .word 4, .field Limits.pathname]

namespace UnlinkRecord

/-- Fills in a record with the pathname as it is in memory now. -/
def fill (record : UnlinkRecord) (task : CurrentTask) (memory : UserSpace) (address : UInt64) :
    Except Fault UnlinkRecord := do
  let tgid ← task.tgid
  let pid ← task.pid
  let name ← memory.readString address Limits.pathname
  return { tgid, pid, uid := task.uid, pathname := record.pathname.overwrite name }

end UnlinkRecord

/-- The return value forced on the traced function, if any; of several the last counts. -/
structure ForcedReturn where
  value : Option UInt64 := none
deriving DecidableEq

namespace ForcedReturn

def override (_forced : ForcedReturn) (value : UInt64) : ForcedReturn :=
  ⟨some value⟩

instance : Scarce ForcedReturn := ⟨fun _ => id⟩

end ForcedReturn

inductive Variant where
  | unlink
  | unlinkat
deriving DecidableEq

namespace Variant

def name : Variant → String
  | unlink => "unlink"
  | unlinkat => "unlinkat"

end Variant

namespace Intercept

variable {P S : Type} [KeyedTable P UInt32 UInt64] [RecordSink S UnlinkRecord]

def onEnter (config : UnlinkConfig) (task : CurrentTask) (pathname : UInt64) :
    Hook P ForcedReturn S Unit := do
  let tgid ← task.tgid
  let parentTgid ← task.parentTgid
  if isOwnProcess tgid parentTgid config.this then
    return
  Hook.leave (← task.pid) pathname

def onEnterAt (config : UnlinkConfig) (task : CurrentTask) (pathname : UInt64) (flags : UInt64) :
    Hook P ForcedReturn S Unit := do
  if flags &&& Limits.removeDirectory ≠ 0 then
    return
  onEnter config task pathname

/-- Fills in the record of a deletion, and forces its return value. A deletion elsewhere has
neither. -/
def fill (config : UnlinkConfig) (task : CurrentTask) (memory : UserSpace) (pathname : UInt64)
    (blank : UnlinkRecord) : Hook P ForcedReturn S (Option UnlinkRecord) := do
  let record ← blank.fill task memory pathname
  if !config.covers record.pathname.bytes then
    return none
  modify fun s => { s with known := s.known.override 0 }
  return some record

def intercept (config : UnlinkConfig) (task : CurrentTask) (memory : UserSpace)
    (pathname : UInt64) : Hook P ForcedReturn S Unit :=
  Hook.emit task.cpu "unlink event" (fill config task memory pathname)

/-- The deletion itself is about to run. -/
def onDelete (config : UnlinkConfig) (task : CurrentTask) (memory : UserSpace) :
    Hook P ForcedReturn S Unit := do
  Hook.claim (← task.pid) (intercept config task memory)

inductive Call where
  | enter (task : CurrentTask) (pathname : UInt64)
  | enterAt (task : CurrentTask) (pathname : UInt64) (flags : UInt64)
  | delete (variant : Variant) (task : CurrentTask) (memory : UserSpace)

def Call.name : Call → String
  | enter .. => "sys_enter_unlink"
  | enterAt .. => "sys_enter_unlinkat"
  | delete variant .. => s!"sys_{variant.name}"

/-- Each call has registers of its own, in which nothing is forced at first. -/
def hook (config : UnlinkConfig) (call : Call) : Hook P ForcedReturn S Unit := do
  modify fun s => { s with known := {} }
  match call with
  | .enter task pathname => onEnter config task pathname
  | .enterAt task pathname flags => onEnterAt config task pathname flags
  | .delete _ task memory => onDelete config task memory

end Intercept

end HookTrace.Unlink
