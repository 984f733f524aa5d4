import HookTrace.Proofs.Store.Capacity
import HookTrace.Store.Refusing

/-!
# HookTrace.Proofs.Store.Laws

What a hook that finds and removes entries may rely on. `MapLaws T` says that a table is a map in
disguise: finding an entry tells what the map has and changes nothing that another search could
tell, and removing one takes that entry out and no other. The laws need only hold of the tables
that can come about (`Valid`). Storing is not among them, since a bounded table may give up other
entries for a new one.

`RoomLaws T keys` adds storing, for tables that only ever see keys of a set they have room for: such
a table is a map.

* `RecencyTable.mapLaws`, `RecencyTable.roomLaws`: the recency table obeys them.
* `Refusing.roomLaws`: so does a table that could refuse entries, as long as it does not.
-/

namespace HookTrace.Store

structure MapLaws (T : Type) {κ ν : Type} [KeyedTable T κ ν] where
  Valid : T → Prop
  entry : T → κ → Option ν
  lookup_eq : ∀ {table : T} (key : κ), Valid table →
    (KeyedTable.lookup table key).1 = entry table key
  valid_lookup : ∀ {table : T} (key : κ), Valid table → Valid (KeyedTable.lookup table key).2
  entry_lookup : ∀ {table : T} (key other : κ), Valid table →
    entry (KeyedTable.lookup table key).2 other = entry table other
  valid_remove : ∀ {table : T} (key : κ), Valid table → Valid (KeyedTable.remove table key)
  entry_remove_self : ∀ {table : T} (key : κ), Valid table →
    entry (KeyedTable.remove table key) key = none
  entry_remove_of_ne : ∀ {table : T} {key other : κ}, Valid table → other ≠ key →
    entry (KeyedTable.remove table key) other = entry table other

namespace RecencyTable

variable {κ ν : Type} [BEq κ] [LawfulBEq κ] [DecidableEq κ] [Hashable κ] [LawfulHashable κ]

def mapLaws : MapLaws (RecencyTable κ ν) where
  Valid := Coherent
  entry := peek?
  lookup_eq key h := h.fst_get? key
  valid_lookup key h := h.get? key
  entry_lookup key other h := h.peek?_get? key other
  valid_remove key h := h.erase key
  entry_remove_self key h := (h.peek?_erase key key).trans (if_pos rfl)
  entry_remove_of_ne h hne := (h.peek?_erase _ _).trans (if_neg hne)

end RecencyTable

/-- Every entry is of one of `keys`, each of which can be stored at no cost to another. -/
structure RoomLaws (T : Type) {κ ν : Type} [KeyedTable T κ ν] (keys : Finset κ) extends
    MapLaws T where
  mem : ∀ {table : T} {key : κ} {value : ν}, Valid table → entry table key = some value →
    key ∈ keys
  record : ∀ {table : T} {key : κ} (value : ν), Valid table → key ∈ keys →
    ∃ table', KeyedTable.record table key value = .ok table' ∧ Valid table' ∧
      entry table' key = some value ∧ ∀ other, other ≠ key → entry table' other = entry table other

def RecencyTable.roomLaws {κ ν : Type} [BEq κ] [LawfulBEq κ] [DecidableEq κ] [Hashable κ]
    (keys : Finset κ) : RoomLaws (RecencyTable κ ν) keys where
  Valid table := table.Roomy keys
  entry := peek?
  lookup_eq key h := h.coherent.fst_get? key
  valid_lookup key h := h.get? key
  entry_lookup key other h := h.coherent.peek?_get? key other
  valid_remove key h := h.erase key
  entry_remove_self key h := (h.coherent.peek?_erase key key).trans (if_pos rfl)
  entry_remove_of_ne h hne := (h.coherent.peek?_erase _ _).trans (if_neg hne)
  mem h hp := h.mem _ _ hp
  record value h hk := by
    refine ⟨_, rfl, h.insert hk value, ?_, ?_⟩
    · exact (h.peek?_insert hk value _).trans (if_pos rfl)
    · intro other hne
      exact (h.peek?_insert hk value other).trans (if_neg hne)

def Refusing.roomLaws {T κ ν : Type} [KeyedTable T κ ν] {keys : Finset κ}
    (laws : RoomLaws T keys) : RoomLaws (Refusing T) keys where
  Valid t := t.refuses = false ∧ laws.Valid t.table
  entry t := laws.entry t.table
  lookup_eq key h := laws.lookup_eq key h.2
  valid_lookup key h := ⟨h.1, laws.valid_lookup key h.2⟩
  entry_lookup key other h := laws.entry_lookup key other h.2
  valid_remove key h := ⟨h.1, laws.valid_remove key h.2⟩
  entry_remove_self key h := laws.entry_remove_self key h.2
  entry_remove_of_ne h hne := laws.entry_remove_of_ne h.2 hne
  mem h he := laws.mem h.2 he
  record {t key} value h hk := by
    obtain ⟨table, label, refuses⟩ := t
    obtain ⟨rfl, htable⟩ := h
    obtain ⟨table', hrecord, hvalid, hself, hothers⟩ := laws.record value htable hk
    refine ⟨⟨table', label, false⟩, ?_, ⟨rfl, hvalid⟩, hself, hothers⟩
    show Refusing.record _ _ _ = _
    rw [Refusing.record, hrecord]

end HookTrace.Store
