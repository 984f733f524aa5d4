import HookTrace.AddressSpace
import HookTrace.Task
import HookTrace.File.OpenFile
import HookTrace.Tcp.Destination

/-!
# HookTrace.Kernel.Memory

Kernel objects as bytes in kernel memory, and what programs read out of them.

* `TaskStruct`, `Sock`, `FileStruct`: for each kind of object where its members lie, how it is
  put into memory with some of its members unreadable, and how it is read.
-/

namespace HookTrace.Kernel

def readMember (memory : AddressSpace) (op : String) (address : UInt64) (length : Nat) :
    Except Fault (Field length) :=
  match memory.bytesAt address length with
  | some field => .ok field
  | none => .error (.unreadableKernel op address length)

def readPointer (memory : AddressSpace) (op : String) (address : UInt64) :
    Except Fault UInt64 := do
  return UInt64.ofNat (← readMember memory op address 8).toNatLE

/-- Maps a member. Nothing is mapped for one that is not given, and what is there stays. -/
def putMember (memory : AddressSpace) (address : UInt64) : Option Bytes → AddressSpace
  | some bytes => memory.map address bytes
  | none => memory

namespace TaskStruct

inductive Member where
  | pid
  | tgid
  | realParent
  | comm
  | parentTgid
deriving DecidableEq

namespace Member

def all : List Member := [pid, tgid, realParent, comm, parentTgid]

def name : Member → String
  | pid => "pid"
  | tgid => "tgid"
  | realParent => "real_parent"
  | comm => "comm"
  | parentTgid => "parent_tgid"

def ofName? (name : String) : Option Member :=
  all.find? (·.name == name)

end Member

/-- Where the members of the task at `task`, and those of its parent, lie. -/
def offset : Member → UInt64
  | .pid => 0
  | .tgid => 4
  | .realParent => 8
  | .comm => 16
  | .parentTgid => 4

/-- Puts a task at `address` and its parent at `parent`, in place of those that were there. -/
def put (memory : AddressSpace) (address parent : UInt64) (task : Task)
    (unreadable : List Member) : AddressSpace :=
  let member (at_ : UInt64) (m : Member) (bytes : Bytes) (memory : AddressSpace) :=
    if unreadable.contains m then memory.unmap (at_ + offset m)
    else memory.map (at_ + offset m) bytes
  memory
    |> member address .pid (Bytes.ofNatLE 4 task.pid.toNat)
    |> member address .tgid (Bytes.ofNatLE 4 task.tgid.toNat)
    |> member address .realParent (Bytes.ofNatLE 8 parent.toNat)
    |> member address .comm task.comm.bytes
    |> member parent .parentTgid (Bytes.ofNatLE 4 task.parentTgid.toNat)

def parentTgid (memory : AddressSpace) (task : UInt64) : Except Fault UInt32 := do
  let parent ← readPointer memory "real_parent" (task + offset .realParent)
  return UInt32.ofNat (← readMember memory "parent tgid" (parent + offset .parentTgid) 4).toNatLE

def info (memory : AddressSpace) (task : UInt64) : TaskInfo where
  tgid := do return UInt32.ofNat (← readMember memory "tgid" (task + offset .tgid) 4).toNatLE
  pid := do return UInt32.ofNat (← readMember memory "pid" (task + offset .pid) 4).toNatLE
  parentTgid := parentTgid memory task
  comm := readMember memory "comm" (task + offset .comm) Limits.comm

end TaskStruct

namespace Sock

def v4Offset : UInt64 := 0
def portOffset : UInt64 := 12
def v6Offset : UInt64 := 16

/-- Puts a socket at `address`, as far as it is given. -/
def put (memory : AddressSpace) (address : UInt64) (v4 v6 : Option Bytes)
    (port : Option UInt16) : AddressSpace :=
  let memory := putMember memory (address + v4Offset) v4
  let memory :=
    putMember memory (address + portOffset) (port.map fun p => (Bytes.ofNatLE 2 p.toNat).reverse)
  putMember memory (address + v6Offset) v6

/-- The port is read first, then the address of the protocol. -/
def reader (memory : AddressSpace) : Tcp.SocketReader := fun sock protocol => do
  let port ← readMember memory "skc_dport" (sock + portOffset) 2
  let port := UInt16.ofNat (Bytes.toNatBE port.bytes)
  match protocol with
  | .ipv4 =>
    let v4 ← readMember memory "skc_daddr" (sock + v4Offset) 4
    return { v4 := UInt32.ofNat v4.toNatLE, port }
  | .ipv6 => return { v6 := ← readMember memory "skc_v6_daddr" (sock + v6Offset) 16, port }

end Sock

namespace FileStruct

inductive Member where
  | inode
  | mode
  | dentry
  | namePointer
  | text
deriving DecidableEq

namespace Member

def all : List Member := [inode, mode, dentry, namePointer, text]

def name : Member → String
  | inode => "f_inode"
  | mode => "i_mode"
  | dentry => "dentry"
  | namePointer => "d_name"
  | text => "name"

def ofName? (name : String) : Option Member :=
  all.find? (·.name == name)

end Member

/-- What resolving a file's path comes to: the path, or a result without one. -/
inductive PathAnswer where
  | path (bytes : Bytes)
  | result (code : Int64)

/-- Where a file has its directory entry, and where its other parts are put. -/
def dentryOffset : UInt64 := 16
def inodeDistance : UInt64 := 0x100
def dentryDistance : UInt64 := 0x200
def namePointerOffset : UInt64 := 8
def nameDistance : UInt64 := 0x300

/-- The file type bits of a mode, and those of a regular file. -/
def typeMask : UInt16 := 0xf000
def regularType : UInt16 := 0x8000

/-- Puts a file at `address`, with its inode, its directory entry and its name behind it, as far as
they are given and readable. -/
def put (memory : AddressSpace) (address : UInt64) (mode : UInt16) (name : Option Bytes)
    (unreadable : List Member) : AddressSpace :=
  let member (at_ : UInt64) (m : Member) (bytes : Option Bytes) (memory : AddressSpace) :=
    putMember memory at_ (if unreadable.contains m then none else bytes)
  let pointer (target : UInt64) : Option Bytes := some (Bytes.ofNatLE 8 target.toNat)
  memory
    |> member address .inode (pointer (address + inodeDistance))
    |> member (address + inodeDistance) .mode (some (Bytes.ofNatLE 2 mode.toNat))
    |> member (address + dentryOffset) .dentry (pointer (address + dentryDistance))
    |> member (address + dentryDistance + namePointerOffset) .namePointer
      (pointer (address + nameDistance))
    |> member (address + nameDistance) .text (name.map (· ++ [0]))

def isRegular (memory : AddressSpace) (file : UInt64) : Except Fault Bool := do
  let inode ← readPointer memory "f_inode" file
  let mode ← readMember memory "i_mode" inode 2
  return UInt16.ofNat mode.toNatLE &&& typeMask == regularType

def basename (memory : AddressSpace) (file : UInt64) : Except Fault Bytes := do
  let dentry ← readPointer memory "f_path.dentry" (file + dentryOffset)
  let name ← readPointer memory "d_name" (dentry + namePointerOffset)
  match memory.stringAt name Limits.filename with
  | some bytes => return bytes
  | none => throw (.unreadableKernel "d_name" name Limits.filename)

/-- The bytes that resolving a path writes. A result that is not negative writes nothing; a path
that does not fit and a file without one have results of their own. -/
def resolve : Option PathAnswer → Except Fault Bytes
  | some (.path bytes) =>
    if bytes.length ≥ Limits.filename then .error (.noPath "d_path" File.Opened.nameTooLong)
    else .ok (bytes ++ [0])
  | some (.result code) => if code < 0 then .error (.noPath "d_path" code) else .ok []
  | none => .error (.noPath "d_path" (-14))

/-- What is read of the file at an address, which is its identity. -/
def view (memory : AddressSpace) (paths : List (UInt64 × PathAnswer)) (file : UInt64) :
    File.OpenFile where
  identity := file
  isRegular := isRegular memory file
  basename := basename memory file
  fullPath := resolve (paths.lookup file)

end FileStruct

end HookTrace.Kernel
