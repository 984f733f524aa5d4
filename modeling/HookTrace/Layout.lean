/-!
# HookTrace.Layout

How many bytes a record takes in memory. Each member lies at the next multiple of its own
alignment, and the whole is rounded up to the largest alignment among its members, so that
records can lie side by side.
-/

namespace HookTrace

def roundUp (n step : Nat) : Nat :=
  (n + step - 1) / step * step

/-- A member of a record: its size in bytes and its alignment. -/
structure Member where
  size : Nat
  align : Nat

namespace Member

/-- An integer of `size` bytes is aligned to its own size. -/
def word (size : Nat) : Member := ⟨size, size⟩

/-- A byte field lies anywhere. -/
def field (size : Nat) : Member := ⟨size, 1⟩

/-- `count` integers of `size` bytes each. -/
def words (size count : Nat) : Member := ⟨size * count, size⟩

end Member

/-- The bytes taken by a record with the given members, in order. -/
def layoutSize (members : List Member) : Nat :=
  let last := members.foldl (fun offset m => roundUp offset m.align + m.size) 0
  roundUp last (members.foldl (fun align m => max align m.align) 1)

/-- A record of fixed layout for which all bytes zero is a value. -/
class Layout (ρ : Type) where
  zero : ρ
  members : List Member

def recordSize (ρ : Type) [Layout ρ] : Nat :=
  layoutSize (Layout.members ρ)

end HookTrace
