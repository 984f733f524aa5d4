import HookTrace.Layout

/-!
# HookTrace.Syscall

The pair of system calls that move bytes over a socket, and the arguments they are entered
with.
-/

namespace HookTrace

inductive Transfer where
  | sendto
  | recvfrom
deriving DecidableEq

namespace Transfer

def name : Transfer → String
  | sendto => "sendto"
  | recvfrom => "recvfrom"

end Transfer

/-- What a transfer was called with: descriptor, buffer and length. -/
structure SyscallArgs where
  fd : Int32
  buf : UInt64
  len : UInt64
deriving DecidableEq

instance : Layout SyscallArgs where
  zero := ⟨0, 0, 0⟩
  members := [.word 4, .word 4, .word 8, .word 8]

/-- How many of `actual` bytes are copied into a buffer of `capacity`. -/
def captureLength (actual capacity : Nat) : Nat :=
  min actual capacity

end HookTrace
