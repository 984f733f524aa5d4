import Std.Data.TreeMap
import HookTrace.Layout
import HookTrace.Scarcity
import HookTrace.Task

/-!
# HookTrace.Cpu.Histogram

How long each process stays on a processor, counted in slots that double in width.

* `log2Slot`: the slot of a duration.
* `Histogram`: the counts of one thread group, and the command name it was first seen with.
* `HistogramTable`: what a hook needs of a set of histograms. The name of a group is asked for
  only when its histogram is created.
* `Histograms`: a bounded set of them, by thread group.
-/

namespace HookTrace.Cpu

/-- Halves a number until it is at most one, at most `left` times, and counts how often. -/
def halvings : (remaining left : Nat) → Nat
  | _, 0 => 0
  | remaining, left + 1 => if remaining ≤ 1 then 0 else halvings (remaining / 2) left + 1

/-- The slot of a duration: its binary logarithm rounded down, the last slot for all that is
longer. Zero shares the first slot with one. -/
def log2Slot (value : UInt64) : Nat :=
  halvings value.toNat (Limits.slots - 1)

structure Histogram where
  counts : Vector UInt32 Limits.slots
  comm : Comm
deriving DecidableEq

namespace Histogram

def fresh (comm : Comm) : Histogram :=
  ⟨Vector.replicate _ 0, comm⟩

/-- The last slot takes everything beyond it. -/
def slotIndex (slot : Nat) : Fin Limits.slots :=
  ⟨min slot (Limits.slots - 1), by simp only [Limits.slots]; omega⟩

/-- Counts one more in a slot; a count that overflows starts over. -/
def bump (histogram : Histogram) (slot : Nat) : Histogram :=
  let i := slotIndex slot
  { histogram with counts := histogram.counts.set i (histogram.counts[i] + 1) }

def total (histogram : Histogram) : Nat :=
  histogram.counts.toList.foldr (fun count rest => count.toNat + rest) 0

end Histogram

instance : Layout Histogram where
  zero := .fresh (Field.zero _)
  members := [.words 4 Limits.slots, .field Limits.comm]

/-- Counts a duration for a thread group. Whoever increments can be asked for the group's name,
which may have effects of its own and may fail. -/
class HistogramTable (H : Type) where
  increment {m : Type → Type} [Monad m] (table : H) (tgid : UInt32) (slot : Nat)
    (name : m (Except Fault Comm)) : m (Except Fault H)

/-- What a refused histogram is reported as. -/
def histogramsFull : Fault := .outOfSpace "cpu histograms"

structure Histograms where
  capacity : Nat
  groups : Std.TreeMap UInt32 Histogram

namespace Histograms

def empty (capacity : Nat) : Histograms := ⟨capacity, ∅⟩

def get? (histograms : Histograms) (tgid : UInt32) : Option Histogram :=
  histograms.groups[tgid]?

/-- The thread groups that have a histogram, in ascending order. -/
def tgids (histograms : Histograms) : List UInt32 :=
  histograms.groups.keys

def size (histograms : Histograms) : Nat :=
  histograms.groups.size

def insert (histograms : Histograms) (tgid : UInt32) (histogram : Histogram) : Histograms :=
  { histograms with groups := histograms.groups.insert tgid histogram }

/-- A group without a histogram is named first, then room is looked for. -/
def increment {m : Type → Type} [Monad m] (histograms : Histograms) (tgid : UInt32) (slot : Nat)
    (name : m (Except Fault Comm)) : m (Except Fault Histograms) :=
  match histograms.get? tgid with
  | some histogram => pure (.ok (histograms.insert tgid (histogram.bump slot)))
  | none => do
    match ← name with
    | .error fault => return .error fault
    | .ok comm =>
      if histograms.size ≥ histograms.capacity then return .error histogramsFull
      else return .ok (histograms.insert tgid ((Histogram.fresh comm).bump slot))

instance : HistogramTable Histograms where
  increment := increment

/-- A set of histograms is limited by its capacity alone. -/
instance : Scarce Histograms := ⟨fun _ => id⟩

end Histograms

end HookTrace.Cpu
