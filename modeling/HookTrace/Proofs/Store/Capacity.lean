import HookTrace.Proofs.Store.Ranking
import Mathlib.Data.Finset.Card

/-!
# HookTrace.Proofs.Store.Capacity

Recency tables as maps. `Coherent` holds of every table that can come about: looking an entry up
or erasing it does to `peek?` what it does to a map, and storing one may cost other entries but
adds none (`Coherent.peek?_of_insert`). A table that only ever sees keys of a set no larger than its
capacity is `Roomy`: it forgets nothing, and storing is what it is for a map.
-/

namespace HookTrace.Store

/-- A list without repetitions is no longer than a set that has all of its members. -/
theorem length_le_card {α : Type} {as : List α} {s : Finset α} (h : as.Nodup)
    (hmem : ∀ a ∈ as, a ∈ s) : as.length ≤ s.card := by
  classical
  rw [← List.toFinset_card_of_nodup h]
  exact Finset.card_le_card fun a ha => hmem a (List.mem_toFinset.1 ha)

variable {κ ν : Type} [BEq κ]

namespace Ranking

variable [LawfulBEq κ] {r : Ranking κ ν}

theorem mem_insert_of_ne {key other : κ} {value v : ν} (hne : other ≠ key)
    (hm : (other, v) ∈ (r.insert key value).entries) : (other, v) ∈ r.entries := by
  have hm := List.mem_of_mem_take hm
  rcases List.mem_cons.1 hm with heq | hm
  · cases heq
    exact absurd rfl hne
  · exact (mem_others.1 hm).1

theorem mem_insert_of_room {key other : κ} {value v : ν} (hne : other ≠ key)
    (hroom : (r.others key).length < r.capacity) (hm : (other, v) ∈ r.entries) :
    (other, v) ∈ (r.insert key value).entries := by
  show (other, v) ∈ ((key, value) :: r.others key).take r.capacity
  rw [List.take_of_length_le hroom]
  exact List.mem_cons_of_mem _ (mem_others.2 ⟨hm, hne⟩)

theorem peek?_get? (r : Ranking κ ν) (key other : κ) :
    (r.get? key).2.peek? other = r.peek? other := by
  cases hp : r.peek? key with
  | none => rw [snd_get?_of_none hp]
  | some value =>
    have he := entries_get?_of_some hp
    refine Option.ext fun v => ?_
    rw [peek?_eq_some_iff, peek?_eq_some_iff, he, List.mem_cons, mem_others]
    by_cases hk : other = key
    · subst hk
      rw [← peek?_eq_some_iff, hp]
      simp [eq_comm]
    · simp [hk]

theorem peek?_erase (r : Ranking κ ν) (key other : κ) [DecidableEq κ] :
    (r.erase key).2.peek? other = if other = key then none else r.peek? other := by
  refine Option.ext fun v => ?_
  rw [peek?_eq_some_iff]
  show (other, v) ∈ r.others key ↔ _
  rw [mem_others]
  by_cases hk : other = key
  · simp [hk]
  · simp [hk, peek?_eq_some_iff]

/-- Moving an entry to the front makes no difference if it is erased next. -/
theorem erase_get? (r : Ranking κ ν) (key : κ) :
    ((r.get? key).2.erase key).2 = (r.erase key).2 := by
  cases hp : r.peek? key with
  | none => rw [snd_get?_of_none hp]
  | some value =>
    refine Ranking.ext (capacity_get? r key) ?_
    show (r.get? key).2.entries.filter (·.1 != key) = r.entries.filter (·.1 != key)
    rw [entries_get?_of_some hp, List.filter_cons_of_neg (by simp)]
    exact List.filter_filter.trans (by simp)

theorem erase_of_none {r : Ranking κ ν} {key : κ} (h : r.peek? key = none) :
    (r.erase key).2 = r :=
  Ranking.ext rfl (others_of_none h)

end Ranking

namespace RecencyTable

variable [Hashable κ] {table : RecencyTable κ ν} {keys : Finset κ}

def Coherent (table : RecencyTable κ ν) : Prop :=
  ∃ r, table.Ranks r

theorem coherent_empty (capacity : Nat) : (empty capacity : RecencyTable κ ν).Coherent :=
  ⟨_, .empty capacity⟩

theorem peek?_empty (capacity : Nat) (key : κ) :
    (empty capacity : RecencyTable κ ν).peek? key = none := by
  simp [peek?, empty]

/-- A search finds the entry that peeking shows, whatever else is wrong with the table. -/
theorem fst_lookup (table : RecencyTable κ ν) (key : κ) :
    (KeyedTable.lookup table key).1 = table.peek? key := by
  obtain ⟨capacity, entries, recency, tick⟩ := table
  show (RecencyTable.get? ⟨capacity, entries, recency, tick⟩ key).1 = entries[key]?.map Prod.fst
  unfold RecencyTable.get?
  simp only
  cases entries[key]? <;> rfl

theorem erase_of_none {key : κ} (h : table.peek? key = none) : (table.erase key).2 = table := by
  obtain ⟨capacity, entries, recency, tick⟩ := table
  have hentry : entries[key]? = none := Option.map_eq_none_iff.1 h
  simp only [erase, hentry]

namespace Coherent

variable [LawfulBEq κ] [LawfulHashable κ]

theorem insert (h : table.Coherent) (key : κ) (value : ν) : (table.insert key value).Coherent :=
  let ⟨_, hr⟩ := h
  ⟨_, hr.insert key value⟩

theorem get? (h : table.Coherent) (key : κ) : (table.get? key).2.Coherent :=
  let ⟨_, hr⟩ := h
  ⟨_, (hr.get? key).2⟩

theorem erase (h : table.Coherent) (key : κ) : (table.erase key).2.Coherent :=
  let ⟨_, hr⟩ := h
  ⟨_, (hr.erase key).2⟩

theorem fst_get? (h : table.Coherent) (key : κ) : (table.get? key).1 = table.peek? key := by
  obtain ⟨r, hr⟩ := h
  rw [(hr.get? key).1, hr.peek?_eq]

theorem peek?_get? (h : table.Coherent) (key other : κ) :
    (table.get? key).2.peek? other = table.peek? other := by
  obtain ⟨r, hr⟩ := h
  rw [(hr.get? key).2.peek?_eq, Ranking.peek?_get?, hr.peek?_eq]

theorem peek?_erase [DecidableEq κ] (h : table.Coherent) (key other : κ) :
    (table.erase key).2.peek? other = if other = key then none else table.peek? other := by
  obtain ⟨r, hr⟩ := h
  rw [(hr.erase key).2.peek?_eq, Ranking.peek?_erase, hr.peek?_eq]

theorem peek?_insert_self (h : table.Coherent) (key : κ) (value : ν) :
    (table.insert key value).peek? key = some value := by
  obtain ⟨r, hr⟩ := h
  rw [(hr.insert key value).peek?_eq, Ranking.peek?_insert_self]

/-- Storing under one key never adds or changes an entry of another. -/
theorem peek?_of_insert (h : table.Coherent) {key other : κ} {value v : ν} (hne : other ≠ key)
    (hp : (table.insert key value).peek? other = some v) : table.peek? other = some v := by
  obtain ⟨r, hr⟩ := h
  rw [(hr.insert key value).peek?_eq, Ranking.peek?_eq_some_iff] at hp
  rw [hr.peek?_eq, Ranking.peek?_eq_some_iff]
  exact Ranking.mem_insert_of_ne hne hp

theorem peek?_insert_of_none (h : table.Coherent) {key other : κ} {value : ν} (hne : other ≠ key)
    (hp : table.peek? other = none) : (table.insert key value).peek? other = none := by
  cases hins : (table.insert key value).peek? other with
  | none => rfl
  | some v =>
    rw [h.peek?_of_insert hne hins] at hp
    cases hp

end Coherent

/-- The table after a claim of `key` has ended: what the claim found is erased. -/
def claimed (table : RecencyTable κ ν) (key : κ) : RecencyTable κ ν :=
  match table.get? key with
  | (none, table) => table
  | (some _, table) => (table.erase key).2

theorem Ranks.claimed [LawfulBEq κ] [LawfulHashable κ] {r : Ranking κ ν} (h : table.Ranks r)
    (key : κ) : (table.claimed key).Ranks (r.erase key).2 := by
  have hget := h.get? key
  unfold RecencyTable.claimed
  cases hg : table.get? key with
  | mk found table' =>
    rw [hg] at hget
    obtain ⟨hfound, hranks⟩ := hget
    cases found with
    | none =>
      rw [Ranking.erase_of_none hfound.symm]
      rwa [Ranking.snd_get?_of_none hfound.symm] at hranks
    | some value =>
      have herase := (hranks.erase key).2
      rwa [Ranking.erase_get?] at herase

namespace Coherent

variable [LawfulBEq κ] [LawfulHashable κ]

theorem claimed (h : table.Coherent) (key : κ) : (table.claimed key).Coherent :=
  let ⟨_, hr⟩ := h
  ⟨_, hr.claimed key⟩

theorem peek?_claimed [DecidableEq κ] (h : table.Coherent) (key other : κ) :
    (table.claimed key).peek? other = if other = key then none else table.peek? other := by
  obtain ⟨r, hr⟩ := h
  rw [(hr.claimed key).peek?_eq, Ranking.peek?_erase, hr.peek?_eq]

end Coherent

/-- Nothing but the order of the last touches may have changed. -/
inductive Touches (table : RecencyTable κ ν) : RecencyTable κ ν → Prop
  | none : Touches table table
  | key (key : κ) : Touches table (table.get? key).2

namespace Touches

variable [LawfulBEq κ] [LawfulHashable κ] {table' : RecencyTable κ ν}

theorem coherent (h : table.Touches table') (ht : table.Coherent) : table'.Coherent := by
  cases h with
  | none => exact ht
  | key key => exact ht.get? key

theorem peek?_eq (h : table.Touches table') (ht : table.Coherent) (other : κ) :
    table'.peek? other = table.peek? other := by
  cases h with
  | none => rfl
  | key key => exact ht.peek?_get? key other

end Touches

/-- The table has room for all of `keys`, and no other key in it. -/
structure Roomy (table : RecencyTable κ ν) (keys : Finset κ) : Prop where
  coherent : table.Coherent
  card_le : keys.card ≤ table.capacity
  mem : ∀ key value, table.peek? key = some value → key ∈ keys

namespace Roomy

theorem empty {capacity : Nat} (h : keys.card ≤ capacity) :
    (empty capacity : RecencyTable κ ν).Roomy keys where
  coherent := coherent_empty capacity
  card_le := Nat.le_trans h (Nat.le_max_left _ _)
  mem := by
    intro key value hp
    rw [peek?_empty] at hp
    cases hp

variable [LawfulBEq κ] [LawfulHashable κ]

theorem get? (h : table.Roomy keys) (key : κ) : (table.get? key).2.Roomy keys := by
  obtain ⟨r, hr⟩ := h.coherent
  refine ⟨h.coherent.get? key, ?_, ?_⟩
  · rw [(hr.get? key).2.capacity_eq, Ranking.capacity_get?, ← hr.capacity_eq]
    exact h.card_le
  · intro other value hp
    rw [h.coherent.peek?_get?] at hp
    exact h.mem other value hp

theorem touches {table' : RecencyTable κ ν} (h : table.Roomy keys) (ht : table.Touches table') :
    table'.Roomy keys := by
  cases ht with
  | none => exact h
  | key key => exact h.get? key

theorem erase [DecidableEq κ] (h : table.Roomy keys) (key : κ) :
    (table.erase key).2.Roomy keys := by
  obtain ⟨r, hr⟩ := h.coherent
  refine ⟨h.coherent.erase key, ?_, ?_⟩
  · rw [(hr.erase key).2.capacity_eq]
    exact hr.capacity_eq ▸ h.card_le
  · intro other value hp
    rw [h.coherent.peek?_erase] at hp
    split at hp
    · cases hp
    · exact h.mem other value hp

omit [LawfulHashable κ] in
/-- A new entry of a key of the set does not go beyond the capacity. -/
theorem length_others_lt (h : table.Roomy keys) {r : Ranking κ ν} (hr : table.Ranks r) {key : κ}
    (hk : key ∈ keys) : (r.others key).length < r.capacity := by
  -- the key and those of the other entries are different keys, all of the set
  have hmem : ∀ k ∈ key :: (r.others key).map Prod.fst, k ∈ keys := by
    intro k hm
    rcases List.mem_cons.1 hm with rfl | hm
    · exact hk
    · obtain ⟨e, he, rfl⟩ := List.mem_map.1 hm
      refine h.mem e.1 e.2 ?_
      rw [hr.peek?_eq, Ranking.peek?_eq_some_iff]
      exact (Ranking.mem_others.1 he).1
  have hnodup : (key :: (r.others key).map Prod.fst).Nodup := by
    refine List.nodup_cons.2 ⟨?_, r.distinct_others key⟩
    intro hm
    obtain ⟨e, he, heq⟩ := List.mem_map.1 hm
    exact (Ranking.mem_others.1 he).2 heq
  have hcard := length_le_card hnodup hmem
  rw [List.length_cons, List.length_map] at hcard
  have hcapacity := h.card_le
  rw [hr.capacity_eq] at hcapacity
  omega

theorem claimed [DecidableEq κ] (h : table.Roomy keys) (key : κ) :
    (table.claimed key).Roomy keys := by
  have hget := h.get? key
  unfold RecencyTable.claimed
  cases hg : table.get? key with
  | mk found table' =>
    rw [hg] at hget
    cases found with
    | none => exact hget
    | some value => exact hget.erase key

theorem peek?_insert [DecidableEq κ] (h : table.Roomy keys) {key : κ} (hk : key ∈ keys) (value : ν)
    (other : κ) : (table.insert key value).peek? other =
      if other = key then some value else table.peek? other := by
  obtain ⟨r, hr⟩ := h.coherent
  by_cases hother : other = key
  · rw [if_pos hother, hother, h.coherent.peek?_insert_self]
  · rw [if_neg hother]
    refine Option.ext fun v => ⟨h.coherent.peek?_of_insert hother, ?_⟩
    intro hp
    rw [hr.peek?_eq, Ranking.peek?_eq_some_iff] at hp
    rw [(hr.insert key value).peek?_eq, Ranking.peek?_eq_some_iff]
    exact Ranking.mem_insert_of_room hother (h.length_others_lt hr hk) hp

theorem insert [DecidableEq κ] (h : table.Roomy keys) {key : κ} (hk : key ∈ keys) (value : ν) :
    (table.insert key value).Roomy keys := by
  obtain ⟨r, hr⟩ := h.coherent
  refine ⟨h.coherent.insert key value, ?_, ?_⟩
  · rw [(hr.insert key value).capacity_eq]
    exact hr.capacity_eq ▸ h.card_le
  · intro other v hp
    rw [h.peek?_insert hk] at hp
    split at hp
    · rename_i heq
      exact heq ▸ hk
    · exact h.mem other v hp

theorem size_eq [DecidableEq κ] (h : table.Roomy keys) :
    table.size = (keys.filter fun key => table.peek? key ≠ none).card := by
  obtain ⟨r, hr⟩ := h.coherent
  have hset : (r.entries.map Prod.fst).toFinset =
      keys.filter fun key => table.peek? key ≠ none := by
    ext key
    rw [List.mem_toFinset, List.mem_map, Finset.mem_filter, Option.ne_none_iff_exists']
    constructor
    · rintro ⟨e, he, rfl⟩
      have hp : table.peek? e.1 = some e.2 := by
        rw [hr.peek?_eq, Ranking.peek?_eq_some_iff]
        exact he
      exact ⟨h.mem e.1 e.2 hp, e.2, hp⟩
    · rintro ⟨-, value, hp⟩
      rw [hr.peek?_eq, Ranking.peek?_eq_some_iff] at hp
      exact ⟨_, hp, rfl⟩
  rw [hr.size_eq, ← hset, List.toFinset_card_of_nodup r.distinct, List.length_map]

end Roomy

end RecencyTable

end HookTrace.Store
