import HookTrace.Hook

/-!
# HookTrace.Scarcity

What hooks run short of. A hook must come to an end, and leave its stores in order, also when the
system around it refuses memory for a new entry or holds on to a staging record.

* `Scarcity`: what there is not enough of.
* `Scarce`: how a store behaves under a scarcity. Under none it behaves as usual.
* `Scarcity.during`: runs a hook under a scarcity that ends with it.
-/

namespace HookTrace

structure Scarcity where
  /-- No table gets memory for an entry. -/
  entries : Bool := false
  /-- No staging record can be had. -/
  staging : Bool := false
  /-- The one worker whose staging record is in use elsewhere. -/
  worker : Option Nat := none

/-- A store that scarcity may affect. -/
class Scarce (S : Type) where
  under : Scarcity → S → S

instance : Scarce Unit := ⟨fun _ => id⟩

instance {P K S : Type} [Scarce P] [Scarce K] [Scarce S] : Scarce (Stores P K S) :=
  ⟨fun short s =>
    match s with
    | ⟨pending, known, events, notices⟩ =>
      ⟨Scarce.under short pending, Scarce.under short known, Scarce.under short events, notices⟩⟩

namespace Scarcity

variable {P K S α : Type} [Scarce P] [Scarce K] [Scarce S]

/-- Runs a hook on stores that are short of something until it ends. -/
def during (short : Scarcity) (hook : Hook P K S α) (s : Stores P K S) :
    Except Fault α × Stores P K S :=
  match hook.outcome (Scarce.under short s) with
  | (answer, s) => (answer, Scarce.under {} s)

end Scarcity

end HookTrace
