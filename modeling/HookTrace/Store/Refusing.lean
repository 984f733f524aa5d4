import HookTrace.Scarcity

/-!
# HookTrace.Store.Refusing

A table that can be made to refuse every new entry, as a kernel's tables do when they run out of
memory. What it refuses is named after its label; finding and removing always work.
-/

namespace HookTrace.Store

structure Refusing (T : Type) where
  table : T
  label : String
  refuses : Bool := false

namespace Refusing

variable {T κ ν : Type} [KeyedTable T κ ν]

def record (t : Refusing T) (key : κ) (value : ν) : Except Fault (Refusing T) :=
  match t with
  | ⟨_, label, true⟩ => .error (.outOfSpace label)
  | ⟨table, label, false⟩ =>
    match KeyedTable.record table key value with
    | .ok table => .ok ⟨table, label, false⟩
    | .error fault => .error fault

def lookup (t : Refusing T) (key : κ) : Option ν × Refusing T :=
  match t with
  | ⟨table, label, refuses⟩ =>
    match KeyedTable.lookup table key with
    | (value, table) => (value, ⟨table, label, refuses⟩)

def remove (t : Refusing T) (key : κ) : Refusing T :=
  match t with
  | ⟨table, label, refuses⟩ => ⟨KeyedTable.remove table key, label, refuses⟩

instance : KeyedTable (Refusing T) κ ν where
  record := record
  lookup := lookup
  remove := remove

instance : Scarce (Refusing T) where
  under short t :=
    match t with
    | ⟨table, label, _⟩ => ⟨table, label, short.entries⟩

end Refusing

end HookTrace.Store
