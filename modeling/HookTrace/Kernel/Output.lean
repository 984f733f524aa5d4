import Std.Data.TreeMap
import HookTrace.Cpu.Histogram
import HookTrace.Layout
import HookTrace.Scarcity

/-!
# HookTrace.Kernel.Output

The kernel's stores that have no counterpart in a process.

* `HistogramMap`: histograms in a plain map, which refuses a new key when it is full. A histogram
  is inserted only where there is none, and looked up again before it is counted in.
* `PerfOutput`: one staging record per processor and a buffer of records, each with the processor
  it came from. A buffer that is limited drops a record when its processor has too many waiting.
* `RingOutput`: a ring in which each record takes a header and whole words.
-/

namespace HookTrace.Kernel

open Cpu

structure HistogramMap where
  capacity : Nat
  groups : Std.TreeMap UInt32 Histogram
  refuses : Bool := false

namespace HistogramMap

def empty (capacity : Nat) : HistogramMap := { capacity, groups := ∅ }

/-- Inserts where nothing is yet and where there is room; otherwise nothing happens. -/
def insertNew (map : HistogramMap) (tgid : UInt32) (histogram : Histogram) : HistogramMap :=
  if map.refuses || map.groups.contains tgid || map.groups.size ≥ map.capacity then map
  else { map with groups := map.groups.insert tgid histogram }

/-- Counts in a histogram that is there. -/
def bump (map : HistogramMap) (tgid : UInt32) (slot : Nat) : Except Fault HistogramMap :=
  match map.groups[tgid]? with
  | some histogram => .ok { map with groups := map.groups.insert tgid (histogram.bump slot) }
  | none => .error histogramsFull

def increment {m : Type → Type} [Monad m] (map : HistogramMap) (tgid : UInt32) (slot : Nat)
    (name : m (Except Fault Comm)) : m (Except Fault HistogramMap) :=
  if map.groups.contains tgid then pure (map.bump tgid slot)
  else do
    match ← name with
    | .error fault => return .error fault
    | .ok comm => return (map.insertNew tgid (.fresh comm)).bump tgid slot

instance : HistogramTable HistogramMap where
  increment := increment

instance : Scarce HistogramMap := ⟨fun short map => { map with refuses := short.entries }⟩

end HistogramMap

structure PerfOutput (ρ : Type) where
  /-- What each processor's staging record was last given back with. -/
  staging : Std.TreeMap Nat ρ := ∅
  /-- Whether the staging records can be had. -/
  available : Bool := true
  /-- Records not consumed yet, oldest first. -/
  records : Array (Nat × ρ) := #[]
  /-- How many records of one processor may wait. -/
  limit : Option Nat := none
  lost : Nat := 0

namespace PerfOutput

variable {ρ : Type}

def waiting (output : PerfOutput ρ) (cpu : Nat) : Nat :=
  output.records.toList.countP (·.1 == cpu)

def full (output : PerfOutput ρ) (cpu : Nat) : Bool :=
  match output.limit with
  | some limit => limit ≤ output.waiting cpu
  | none => false

def reserve [Layout ρ] (output : PerfOutput ρ) (cpu : Nat) : Option (Slot ρ × PerfOutput ρ) :=
  if output.available then some (⟨cpu, Layout.zero⟩, output) else none

def release (output : PerfOutput ρ) (slot : Slot ρ) : PerfOutput ρ :=
  { output with staging := output.staging.insert slot.cpu slot.record }

/-- A record beyond the limit is dropped and counted. -/
def commit (output : PerfOutput ρ) (slot : Slot ρ) : PerfOutput ρ :=
  if output.full slot.cpu then { output.release slot with lost := output.lost + 1 }
  else { output.release slot with records := output.records.push (slot.cpu, slot.record) }

instance [Layout ρ] : RecordSink (PerfOutput ρ) ρ where
  reserve := reserve
  refusal _ := []
  commit output slot := (output.commit slot, [])
  release := release

instance : Scarce (PerfOutput ρ) :=
  ⟨fun short output => { output with available := !short.staging }⟩

end PerfOutput

structure RingOutput (ρ : Type) where
  capacity : Nat
  /-- Reservations that are neither submitted nor discarded. -/
  reserved : Nat := 0
  /-- Records submitted and not consumed yet, oldest first. -/
  records : Array (Nat × ρ) := #[]

namespace RingOutput

variable {ρ : Type}

/-- The bytes that one record takes: its own, rounded up to whole words, and a header. -/
def recordBytes (ρ : Type) [Layout ρ] : Nat :=
  roundUp (recordSize ρ) 8 + 8

def used [Layout ρ] (ring : RingOutput ρ) : Nat :=
  (ring.reserved + ring.records.size) * recordBytes ρ

def reserve [Layout ρ] (ring : RingOutput ρ) (cpu : Nat) : Option (Slot ρ × RingOutput ρ) :=
  if ring.used + recordBytes ρ ≤ ring.capacity then
    some (⟨cpu, Layout.zero⟩, { ring with reserved := ring.reserved + 1 })
  else none

def submit (ring : RingOutput ρ) (slot : Slot ρ) : RingOutput ρ :=
  { ring with
    reserved := ring.reserved - 1
    records := ring.records.push (slot.cpu, slot.record) }

def discard (ring : RingOutput ρ) (_slot : Slot ρ) : RingOutput ρ :=
  { ring with reserved := ring.reserved - 1 }

instance [Layout ρ] : RecordSink (RingOutput ρ) ρ where
  reserve := reserve
  refusal _ := []
  commit ring slot := (ring.submit slot, [])
  release := discard

instance : Scarce (RingOutput ρ) := ⟨fun _ => id⟩

end RingOutput

end HookTrace.Kernel
