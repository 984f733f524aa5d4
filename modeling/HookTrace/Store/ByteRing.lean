import HookTrace.Layout
import HookTrace.Scarcity
import HookTrace.Store.Fifo

/-!
# HookTrace.Store.ByteRing

Output through one ring that accounts for its bytes. Room is taken when a record is reserved and
stays taken until the record is released or, once committed, received, so that a slow consumer
shows to producers as refused reservations.
-/

namespace HookTrace.Store

structure ByteRing (ρ : Type) where
  capacity : Nat
  /-- The bytes taken by held slots and by records not yet received. -/
  used : Nat
  queue : Fifo ρ

namespace ByteRing

variable {ρ : Type}

def empty (capacity : Nat) : ByteRing ρ :=
  ⟨capacity, 0, Fifo.empty⟩

def claim [Layout ρ] (ring : ByteRing ρ) : Option (ByteRing ρ) :=
  if ring.used + recordSize ρ ≤ ring.capacity then
    some { ring with used := ring.used + recordSize ρ }
  else none

def free [Layout ρ] (ring : ByteRing ρ) : ByteRing ρ :=
  { ring with used := ring.used - recordSize ρ }

/-- Room for one record, all zeros. -/
def reserve [Layout ρ] (ring : ByteRing ρ) (cpu : Nat) : Option (Slot ρ × ByteRing ρ) :=
  match ring.claim with
  | some ring => some (⟨cpu, Layout.zero⟩, ring)
  | none => none

/-- Hands a record to the consumer, with its room. -/
def commit (ring : ByteRing ρ) (slot : Slot ρ) : ByteRing ρ :=
  { ring with queue := ring.queue.push slot.record }

/-- Gives a slot's room back; its record is never seen. -/
def release [Layout ρ] (ring : ByteRing ρ) (_slot : Slot ρ) : ByteRing ρ :=
  ring.free

def receive [Layout ρ] (ring : ByteRing ρ) : Option (ρ × ByteRing ρ) :=
  match ring.queue.pop? with
  | none => none
  | some (record, queue) => some (record, { ring.free with queue })

def drain [Layout ρ] (ring : ByteRing ρ) : List ρ × ByteRing ρ :=
  (ring.queue.toList,
    ring.queue.toList.foldl (fun ring _ => ring.free) { ring with queue := Fifo.empty })

instance [Layout ρ] : RecordSink (ByteRing ρ) ρ where
  reserve := reserve
  refusal ring := [.ringFull ring.capacity]
  commit ring slot := (ring.commit slot, [])
  release := release

instance [Layout ρ] : RecordSource (ByteRing ρ) ρ where
  drain := drain

/-- A ring stages nothing and has its room from the start. -/
instance : Scarce (ByteRing ρ) := ⟨fun _ => id⟩

end ByteRing

end HookTrace.Store
