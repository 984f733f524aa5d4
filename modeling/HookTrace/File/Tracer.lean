import HookTrace.Tracer
import HookTrace.File.Access
import HookTrace.Store.Recency
import HookTrace.Store.ByteRing

/-!
# HookTrace.File.Tracer

The tracer of file reads and writes. The hook on opening a file only observes: the open is
always allowed.
-/

namespace HookTrace.File

open Store

abbrev FileTracer := Tracer Scope Unit (RecencyTable UInt64 PathEntry) (ByteRing FileRecord)

namespace FileTracer

def empty (scope : Scope) (ringBytes : Nat) : FileTracer where
  config := scope
  stores := ⟨(), .empty Limits.paths, .empty ringBytes, []⟩

def cachedPaths (tracer : FileTracer) : Nat :=
  tracer.stores.known.size

def step (tracer : FileTracer) (call : Access.Call) : Outcome × FileTracer :=
  let (outcome, tracer) := tracer.call call.name fun scope => Access.hook scope call
  match call with
  | .opened _ => ({ outcome with code := 0 }, tracer)
  | .accessed .. => (outcome, tracer)

end FileTracer

end HookTrace.File
