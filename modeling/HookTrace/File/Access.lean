import HookTrace.Code
import HookTrace.Hook
import HookTrace.Layout
import HookTrace.Task
import HookTrace.File.OpenFile
import HookTrace.File.PathRule

/-!
# HookTrace.File.Access

Reads and writes of regular files. The hooks on them cannot ask for a file's path, so the hook on
opening remembers it. A file whose path is known is reported with it, unless the path is
excluded; another is reported with the last component of its path.
-/

namespace HookTrace.File

inductive FileOp where
  | read
  | write
deriving DecidableEq

instance : Coded FileOp where
  all := [.read, .write]
  code
    | .read => 0
    | .write => 1
  label
    | .read => "Read"
    | .write => "Write"

structure PathEntry where
  filename : Field Limits.filename
deriving DecidableEq

instance : Layout PathEntry where
  zero := ⟨Field.zero _⟩
  members := [.field Limits.filename]

structure FileRecord where
  pid : UInt32
  tgid : UInt32
  uid : UInt32
  ts : UInt64
  /-- The bytes moved, zero if the call failed. -/
  size : UInt64
  ret : Int64
  op : UInt8
  comm : Comm
  filename : Field Limits.filename
deriving DecidableEq

instance : Layout FileRecord where
  zero := ⟨0, 0, 0, 0, 0, 0, 0, Field.zero _, Field.zero _⟩
  members := [.word 4, .word 4, .word 4, .word 4, .word 8, .word 8, .word 8, .word 1,
    .field Limits.comm, .field Limits.filename]

namespace FileRecord

def op? (record : FileRecord) : Option FileOp :=
  decode? FileOp record.op.toNat

/-- Fills in all but the name. -/
def fill (record : FileRecord) (task : CurrentTask) (op : FileOp) (ret : Int64) :
    Except Fault FileRecord := do
  return { record with
    tgid := ← task.tgid
    pid := ← task.pid
    uid := task.uid
    ts := task.now
    size := if ret ≥ 0 then ret.toUInt64 else 0
    ret
    op := UInt8.ofNat (Coded.code op)
    comm := ← task.comm }

end FileRecord

namespace Access

variable {P K S : Type} [KeyedTable K UInt64 PathEntry] [RecordSink S FileRecord]

def onOpen (file : OpenFile) : Hook P K S Unit := do
  let path ← file.fullPath
  Hook.learn file.identity { filename := Field.ofBytes _ path : PathEntry }

/-- Names the file in a record, `none` if its path is excluded. -/
def name (file : OpenFile) (record : FileRecord) : Hook P K S (Option FileRecord) := do
  match ← Hook.known? (P := P) (S := S) file.identity with
  | some (entry : PathEntry) =>
    let filename := entry.filename.terminated
    if excluded filename then
      return none
    return some { record with filename }
  | none =>
    let basename ← file.basename
    return some { record with filename := record.filename.overwrite basename }

def onExit (scope : Scope) (task : CurrentTask) (file : OpenFile) (op : FileOp) (ret : Int64) :
    Hook P K S Unit := do
  if !(← file.isRegular) then
    return
  if !(← task.inScope scope.target) then
    return
  Hook.emit task.cpu "vfs event" fun blank => do
    name file (← FileRecord.fill blank task op ret)

inductive Call where
  | opened (file : OpenFile)
  | accessed (op : FileOp) (task : CurrentTask) (file : OpenFile) (ret : Int64)

def function : FileOp → String
  | .read => "vfs_read"
  | .write => "vfs_write"

def Call.name : Call → String
  | opened _ => "file_open"
  | accessed op .. => function op

def hook (scope : Scope) : Call → Hook P K S Unit
  | .opened file => onOpen file
  | .accessed op task file ret => onExit scope task file op ret

end Access

end HookTrace.File
