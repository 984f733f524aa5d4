import HookTrace.Hook

/-!
# HookTrace.Tracer

What all tracers have in common: a tracer owns the stores of one family of hooks, takes calls of
its hooks one after the other, and turns a fault into the hook's return code. A fault never
reaches the caller of the traced function.
-/

namespace HookTrace

/-- How a call of a hook ended: its return code, and what it left in the log. -/
structure Outcome where
  code : UInt32 := 0
  notices : List Notice := []
deriving DecidableEq

namespace Hook

variable {P K S : Type}

/-- Calls a hook under the name it is logged with. -/
def call (name : String) (hook : Hook P K S Unit) (s : Stores P K S) : Outcome × Stores P K S :=
  match hook s with
  | .ok () ⟨pending, known, events, notices⟩ =>
    ({ notices }, ⟨pending, known, events, []⟩)
  | .error fault ⟨pending, known, events, notices⟩ =>
    ({ code := fault.code, notices := notices ++ [.hookFailed name fault] },
      ⟨pending, known, events, []⟩)

end Hook

/-- A configuration and the stores of one family of hooks. -/
structure Tracer (C P K S : Type) where
  config : C
  stores : Stores P K S

namespace Tracer

variable {C P K S : Type}

/-- Takes one call of a hook under the name it is logged with. -/
def call (tracer : Tracer C P K S) (name : String) (hook : C → Hook P K S Unit) :
    Outcome × Tracer C P K S :=
  match tracer with
  | ⟨config, stores⟩ =>
    match (hook config).call name stores with
    | (outcome, stores) => (outcome, ⟨config, stores⟩)

end Tracer

end HookTrace
