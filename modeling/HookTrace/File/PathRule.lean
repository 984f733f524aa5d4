import HookTrace.Limits
import HookTrace.Field

/-!
# HookTrace.File.PathRule

Paths that are never worth reporting: those of pseudo-filesystems and host mounts, and those with
a cache directory in them.
-/

namespace HookTrace.File

/-- Pseudo-filesystems and mounts of the host. -/
def excludedRoots : List Bytes :=
  ["/proc/", "/sys/", "/dev/", "/run/", "/host/"].map Bytes.ofString

def cacheSegment : Bytes := Bytes.ofString "/.cache/"

/-- Looks for the cache segment at the first `offsets` offsets of a path, up to its terminator. -/
def hasCacheSegment (path : Bytes) : (offsets : Nat) → Bool
  | 0 => false
  | offsets + 1 =>
    match path with
    | [] => false
    | b :: rest => b != 0 && (path.startsWith cacheSegment || hasCacheSegment rest offsets)

/-- Whether a path is left out. The cache segment is looked for where all of it lies in the field
and one byte is left behind it, which a terminated path leaves. -/
def excluded (path : Field Limits.filename) : Bool :=
  excludedRoots.any (path.bytes.startsWith ·)
    || hasCacheSegment path.bytes (Limits.filename - cacheSegment.length)

end HookTrace.File
