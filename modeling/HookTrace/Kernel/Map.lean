import HookTrace.Kernel.Machine

/-!
# HookTrace.Kernel.Map

The maps that the kernel programs declare, by the names a loader finds them under.

* `MapSpec.all`: the maps as they are declared.
* `Machine.empty`: the machine that starts with all of them empty.
* `Machine.contents`: what the hash maps hold, as it shows from outside.
-/

namespace HookTrace.Kernel

open Store

inductive MapKind where
  | hash
  | perfEventArray
  | perCpuArray
  | lruHash
  | ring
deriving DecidableEq

namespace MapKind

def code : MapKind → Nat
  | hash => 1
  | perfEventArray => 4
  | perCpuArray => 6
  | lruHash => 9
  | ring => 27

end MapKind

structure MapSpec where
  name : String
  kind : MapKind
  keySize : Nat := 4
  valueSize : Nat := 4
  entries : Nat := 0
  flags : Nat := 0
deriving DecidableEq

instance : Layout UInt64 where
  zero := 0
  members := [.word 8]

instance : Layout Poll.Socket where
  zero := ⟨0, 0, 0⟩
  members := List.replicate 3 (.word 4)

namespace MapSpec

/-- A table that makes room when it is full. -/
def lru (name : String) (ν : Type) [Layout ν] : MapSpec :=
  { name, kind := .lruHash, valueSize := recordSize ν, entries := Limits.entries }

/-- The staging record and the buffer of a family of hooks. -/
def perf (family : String) (ρ : Type) [Layout ρ] : List MapSpec :=
  [{ name := s!"{family}_SCRATCH", kind := .perCpuArray, valueSize := recordSize ρ, entries := 1 },
    { name := s!"{family}_EVENTS", kind := .perfEventArray }]

def all : List MapSpec :=
  [lru "CONNECT_SOCKETS" UInt64] ++ perf "CONNECT" Tcp.ConnectRecord
    ++ [{ lru "CPU_STARTS" UInt64 with entries := Limits.cpuEntries },
      { name := "CPU_HISTOGRAMS", kind := .hash, valueSize := recordSize Cpu.Histogram,
        entries := Limits.cpuEntries }]
    ++ [lru "HTTP_ARGS" SyscallArgs] ++ perf "HTTP" Payload.PayloadRecord
    ++ [lru "HTTPS_BUFFERS" UInt64] ++ perf "HTTPS" Payload.PayloadRecord
    ++ [lru "MYSQL_CONNECTIONS" Mysql.Connection, lru "MYSQL_ARGS" SyscallArgs]
    ++ perf "MYSQL" Mysql.MysqlRecord
    ++ [lru "POLL_SOCKETS" Poll.Socket, lru "POLL_ARGS" Poll.Socket] ++ perf "POLL" Poll.PollRecord
    ++ [lru "UNLINK_ARGS" UInt64] ++ perf "UNLINK" Unlink.UnlinkRecord
    ++ [{ lru "VFS_PATHS" File.PathEntry with keySize := 8, entries := Limits.paths },
      { name := "VFS_EVENTS", kind := .ring, keySize := 0, valueSize := 0,
        entries := Limits.ringBytes }]

/-- How many entries a map has room for: as declared, unless a size is given for it. -/
def roomOf (sizes : List (String × Nat)) (name : String) : Nat :=
  match sizes.lookup name with
  | some size => size
  | none => ((all.find? (·.name == name)).map (·.entries)).getD 0

end MapSpec

namespace Event

/-- The map that a record is handed over through. -/
def channel : Event → String
  | connect _ => "CONNECT_EVENTS"
  | http _ => "HTTP_EVENTS"
  | https _ => "HTTPS_EVENTS"
  | mysql _ => "MYSQL_EVENTS"
  | poll _ => "POLL_EVENTS"
  | unlink _ => "UNLINK_EVENTS"
  | file _ => "VFS_EVENTS"

end Event

inductive Entry where
  | address (value : UInt64)
  | args (value : SyscallArgs)
  | socket (value : Poll.Socket)
  | connection (value : Mysql.Connection)
  | histogram (value : Cpu.Histogram)
  | path (value : File.PathEntry)

namespace Entry

/-- Entries by the number their key stands for, in ascending order. -/
def inOrder {κ ν : Type} (number : κ → Int) (entry : ν → Entry) (items : List (κ × ν)) :
    List (Int × Entry) :=
  (items.map fun (key, value) => (number key, entry value)).mergeSort (·.1 ≤ ·.1)

def byThread {ν : Type} (entry : ν → Entry) (map : LruMap UInt32 ν) : List (Int × Entry) :=
  inOrder (fun pid => pid.toNat) entry map.table.toList

def byDescriptor {ν : Type} (entry : ν → Entry) (map : LruMap Int32 ν) : List (Int × Entry) :=
  inOrder Int32.toInt entry map.table.toList

end Entry

namespace Machine

/-- What every hash map holds, by the map's name. -/
def contents (machine : Machine) : List (String × List (Int × Entry)) :=
  [("CONNECT_SOCKETS", Entry.byThread .address machine.connect.pending),
    ("CPU_STARTS", Entry.byThread .address machine.cpu.pending),
    ("CPU_HISTOGRAMS",
      Entry.inOrder (fun tgid => tgid.toNat) .histogram machine.cpu.known.groups.toList),
    ("HTTP_ARGS", Entry.byThread .args machine.http.pending),
    ("HTTPS_BUFFERS", Entry.byThread .address machine.https.pending),
    ("MYSQL_CONNECTIONS", Entry.byDescriptor .connection machine.mysql.known),
    ("MYSQL_ARGS", Entry.byThread .args machine.mysql.pending),
    ("POLL_SOCKETS", Entry.byDescriptor .socket machine.poll.known),
    ("POLL_ARGS", Entry.byThread .socket machine.poll.pending),
    ("UNLINK_ARGS", Entry.byThread .address machine.unlink.pending),
    ("VFS_PATHS",
      Entry.inOrder (fun file => file.toNat) .path machine.file.known.table.toList)]

/-- A machine with empty maps, of which some have other sizes than declared, and with room for
`limit` records of each processor in each buffer. -/
def empty (settings : Settings) (sizes : List (String × Nat)) (limit : Option Nat) : Machine :=
  let room := MapSpec.roomOf sizes
  let table {κ ν : Type} [BEq κ] [Hashable κ] (name label : String) : LruMap κ ν :=
    ⟨.empty (room name), label, false⟩
  { settings
    user := .empty
    memory := .empty
    paths := []
    connect := ⟨table "CONNECT_SOCKETS" "connect sockets", (), { limit }, []⟩
    cpu := ⟨table "CPU_STARTS" "cpu starts", .empty (room "CPU_HISTOGRAMS"), (), []⟩
    http := ⟨table "HTTP_ARGS" "http args", (), { limit }, []⟩
    https := ⟨table "HTTPS_BUFFERS" "https buffers", (), { limit }, []⟩
    mysql :=
      ⟨table "MYSQL_ARGS" "mysql args", table "MYSQL_CONNECTIONS" "mysql connections", { limit }, []⟩
    poll := ⟨table "POLL_ARGS" "poll args", table "POLL_SOCKETS" "poll sockets", { limit }, []⟩
    unlink := ⟨table "UNLINK_ARGS" "unlink args", {}, { limit }, []⟩
    file :=
      ⟨(), table "VFS_PATHS" "path cache", { capacity := room "VFS_EVENTS" }, []⟩ }

end Machine

end HookTrace.Kernel
