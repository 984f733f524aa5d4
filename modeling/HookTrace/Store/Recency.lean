import Std.Data.HashMap
import Std.Data.TreeMap
import HookTrace.Hook

/-!
# HookTrace.Store.Recency

A bounded table that makes room by giving up the entry touched longest ago.

Every entry carries the tick at which it was last touched, and an index from ticks to keys gives
the oldest entry at once. Storing and finding touch an entry, peeking and erasing do not; a
search that finds nothing uses up a tick without touching anything.

* `insert`: stores an entry, then evicts while there are too many.
* `get?`, `peek?`: find an entry, with and without touching it.
* `erase`: removes an entry; that of an absent key is no error.
-/

namespace HookTrace.Store

structure RecencyTable (κ ν : Type) [BEq κ] [Hashable κ] where
  capacity : Nat
  /-- Each value with the tick of its last touch. -/
  entries : Std.HashMap κ (ν × Nat)
  /-- The key touched at each tick. -/
  recency : Std.TreeMap Nat κ
  /-- The last tick used up. -/
  tick : Nat

namespace RecencyTable

theorem mem_of_minKey? {κ : Type} {recency : Std.TreeMap Nat κ} {tick : Nat}
    (h : recency.minKey? = some tick) : tick ∈ recency :=
  (Std.TreeMap.minKey?_eq_some_iff_mem_and_forall.1 h).1

theorem size_erase_lt {κ : Type} {recency : Std.TreeMap Nat κ} {tick : Nat} (h : tick ∈ recency) :
    (recency.erase tick).size < recency.size := by
  have hc : recency.contains tick = true := h
  have hne : recency.size ≠ 0 := by
    intro h0
    have hempty : recency.isEmpty = true := by
      rw [Std.TreeMap.isEmpty_eq_size_eq_zero, h0]; rfl
    rw [Std.TreeMap.contains_of_isEmpty hempty] at hc
    exact Bool.noConfusion hc
  rw [Std.TreeMap.size_erase, if_pos hc]
  omega

variable {κ ν : Type} [BEq κ] [Hashable κ]

/-- A table holds at least one entry. -/
def empty (capacity : Nat) : RecencyTable κ ν where
  capacity := max capacity 1
  entries := ∅
  recency := ∅
  tick := 0

def size (table : RecencyTable κ ν) : Nat :=
  table.entries.size

def isEmpty (table : RecencyTable κ ν) : Bool :=
  table.size == 0

def peek? (table : RecencyTable κ ν) (key : κ) : Option ν :=
  table.entries[key]?.map Prod.fst

/-- The entries in no particular order. -/
def toList (table : RecencyTable κ ν) : List (κ × ν) :=
  table.entries.toList.map fun (key, value, _) => (key, value)

/-- Gives up the entries touched longest ago, as long as there are more than the capacity. Each
round takes one tick out of the index. -/
def evict (table : RecencyTable κ ν) : RecencyTable κ ν :=
  if table.entries.size ≤ table.capacity then table
  else
    match h : table.recency.minKey? with
    | none => table
    | some tick =>
      let oldest := table.recency.get tick (mem_of_minKey? h)
      evict { table with
        recency := table.recency.erase tick
        entries := table.entries.erase oldest }
termination_by table.recency.size
decreasing_by exact size_erase_lt (mem_of_minKey? h)

def insert (table : RecencyTable κ ν) (key : κ) (value : ν) : RecencyTable κ ν :=
  match table with
  | ⟨capacity, entries, recency, tick⟩ =>
    let recency :=
      match entries[key]? with
      | some (_, old) => recency.erase old
      | none => recency
    evict {
      capacity
      entries := entries.insert key (value, tick + 1)
      recency := recency.insert (tick + 1) key
      tick := tick + 1 }

def get? (table : RecencyTable κ ν) (key : κ) : Option ν × RecencyTable κ ν :=
  match table with
  | ⟨capacity, entries, recency, tick⟩ =>
    match entries[key]? with
    | none => (none, ⟨capacity, entries, recency, tick + 1⟩)
    | some (value, old) =>
      (some value, {
        capacity
        entries := entries.insert key (value, tick + 1)
        recency := (recency.erase old).insert (tick + 1) key
        tick := tick + 1 })

def erase (table : RecencyTable κ ν) (key : κ) : Option ν × RecencyTable κ ν :=
  match table with
  | ⟨capacity, entries, recency, tick⟩ =>
    match entries[key]? with
    | none => (none, ⟨capacity, entries, recency, tick⟩)
    | some (value, old) =>
      (some value, ⟨capacity, entries.erase key, recency.erase old, tick⟩)

/-- A full table makes room, so that nothing is ever refused. -/
instance : KeyedTable (RecencyTable κ ν) κ ν where
  record table key value := .ok (table.insert key value)
  lookup := get?
  remove table key := (table.erase key).2

end RecencyTable

end HookTrace.Store
