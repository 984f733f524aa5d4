/-!
# HookTrace.Limits

The sizes fixed in advance: how much of a payload is captured, how many entries each table
holds, and how wide the byte fields of a record are. Everything a hook copies or stores is
bounded by one of these.
-/

namespace HookTrace.Limits

/-- Most bytes captured from a single send or receive. -/
def payload : Nat := 30720

/-- Entries of every table that pairs an entry hook with its exit hook. -/
def entries : Nat := 10240

/-- Entries of the start-time and histogram tables of the scheduler hooks. -/
def cpuEntries : Nat := 65536

/-- Destinations of one address family that can be allow-listed. -/
def allowed : Nat := 32

/-- Bytes of the watched directory, terminator included. -/
def directory : Nat := 128

/-- Bytes of the pathname of a deletion, terminator included. -/
def pathname : Nat := 4096

/-- Bytes of a reported file name, terminator included. -/
def filename : Nat := 256

/-- Bytes of a task's command name, terminator included. -/
def comm : Nat := 16

/-- Slots of a latency histogram. -/
def slots : Nat := 32

/-- Files whose path is remembered from open to read or write. -/
def paths : Nat := 8192

def mysqlPort : UInt16 := 3306

def inet : UInt16 := 2

def inet6 : UInt16 := 10

/-- The `unlinkat` flag that asks for the removal of a directory. -/
def removeDirectory : UInt64 := 0x200

/-- Records that one processor's queue holds. -/
def queueDepth : Nat := 64

/-- Bytes of the ring that file records go through. -/
def ringBytes : Nat := 0x1000000

end HookTrace.Limits
