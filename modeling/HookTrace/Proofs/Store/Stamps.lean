import HookTrace.Store.Recency
import Mathlib.Data.List.Induction
import Mathlib.Data.List.Nodup

/-!
# HookTrace.Proofs.Store.Stamps

What a recency table holds, as one list. `Holds table l` says that `l` lists the entries of the
table with the ticks of their last touches, the latest first, and that both of the table's maps
tell just that.

* `Holds.touch`: storing or finding an entry moves it to the front, under the next tick.
* `Holds.evict`: evicting cuts the list to the capacity.
* `Holds.drop`: erasing takes the entry of one key out.
-/

namespace HookTrace.Store

/-- An entry with the tick of its last touch. -/
structure Stamp (κ ν : Type) where
  key : κ
  value : ν
  tick : Nat

namespace RecencyTable

variable {κ ν : Type} [BEq κ] [Hashable κ] {table : RecencyTable κ ν} {l : List (Stamp κ ν)}

@[simp] theorem capacity_evict (table : RecencyTable κ ν) :
    table.evict.capacity = table.capacity := by
  fun_induction evict table with
  | case1 => rfl
  | case2 => rfl
  | case3 _ _ _ _ _ ih => exact ih

structure Holds (table : RecencyTable κ ν) (l : List (Stamp κ ν)) : Prop where
  falling : l.Pairwise fun a b => b.tick < a.tick
  entries : ∀ key value tick, table.entries[key]? = some (value, tick) ↔ ⟨key, value, tick⟩ ∈ l
  recency : ∀ tick key, table.recency[tick]? = some key ↔ ∃ value, ⟨key, value, tick⟩ ∈ l
  bounded : ∀ e ∈ l, 0 < e.tick ∧ e.tick ≤ table.tick

/-- The list without the entry of a key. -/
def without (l : List (Stamp κ ν)) (key : κ) : List (Stamp κ ν) :=
  l.filter (·.key != key)

namespace Holds

theorem nil {table : RecencyTable κ ν} (he : table.entries = ∅) (hr : table.recency = ∅) :
    table.Holds [] where
  falling := .nil
  entries := by intros; simp [he]
  recency := by intros; simp [hr]
  bounded := by simp

theorem miss (h : table.Holds l) : Holds { table with tick := table.tick + 1 } l where
  falling := h.falling
  entries := h.entries
  recency := h.recency
  bounded := fun e he => ⟨(h.bounded e he).1, Nat.le_succ_of_le (h.bounded e he).2⟩

theorem stamp_eq (h : table.Holds l) {a b : Stamp κ ν} (ha : a ∈ l) (hb : b ∈ l)
    (hk : a.key = b.key) : a = b := by
  have ha := (h.entries a.key a.value a.tick).2 ha
  have hb := (h.entries b.key b.value b.tick).2 hb
  rw [hk, hb] at ha
  cases a; cases b; cases ha; cases hk; rfl

theorem nodup (h : table.Holds l) : l.Nodup :=
  h.falling.imp fun hab heq => by subst heq; exact Nat.lt_irrefl _ hab

/-- The smallest tick in the index is that of the last entry of the list. -/
theorem minKey?_recency {l : List (Stamp κ ν)} {e : Stamp κ ν} (h : table.Holds (l ++ [e])) :
    table.recency.minKey? = some e.tick := by
  rw [Std.TreeMap.minKey?_eq_some_iff_mem_and_forall]
  constructor
  · rw [Std.TreeMap.mem_iff_isSome_getElem?, (h.recency e.tick e.key).2 ⟨e.value, by simp⟩]
    rfl
  · intro tick ht
    obtain ⟨key, hk⟩ := Option.isSome_iff_exists.1 (Std.TreeMap.mem_iff_isSome_getElem?.1 ht)
    obtain ⟨value, hm⟩ := (h.recency tick key).1 hk
    have hle : e.tick ≤ tick := by
      rcases List.mem_append.1 hm with hm | hm
      · exact Nat.le_of_lt ((List.pairwise_append.1 h.falling).2.2 _ hm e (by simp))
      · simp only [List.mem_singleton] at hm
        exact Nat.le_of_eq (congrArg Stamp.tick hm).symm
    rw [Nat.isLE_compare]
    exact hle

/-- What an eviction gives up is the last entry of the list. -/
theorem oldest_eq {l : List (Stamp κ ν)} {e : Stamp κ ν} (h : table.Holds (l ++ [e])) {tick : Nat}
    (hsome : table.recency.minKey? = some tick) :
    tick = e.tick ∧ table.recency.get tick (mem_of_minKey? hsome) = e.key := by
  have hmin := h.minKey?_recency
  cases hsome.symm.trans hmin
  have hget : table.recency[e.tick]? = some e.key :=
    (h.recency e.tick e.key).2 ⟨e.value, by simp⟩
  rw [Std.TreeMap.getElem?_eq_some_getElem (mem_of_minKey? hmin)] at hget
  exact ⟨rfl, Option.some.inj hget⟩

variable [LawfulBEq κ]

omit [Hashable κ] in
theorem mem_without {key : κ} {e : Stamp κ ν} : e ∈ without l key ↔ e ∈ l ∧ e.key ≠ key := by
  simp [without]

variable [LawfulHashable κ]

/-- Both lists name every key once. -/
theorem size_entries (h : table.Holds l) : table.entries.size = l.length := by
  have hperm : table.entries.toList.Perm (l.map fun e => (e.key, e.value, e.tick)) := by
    rw [List.perm_ext_iff_of_nodup]
    · rintro ⟨key, value, tick⟩
      rw [Std.HashMap.mem_toList_iff_getElem?_eq_some, h.entries]
      constructor
      · intro hm
        exact List.mem_map.2 ⟨_, hm, rfl⟩
      · intro hm
        obtain ⟨e, he, heq⟩ := List.mem_map.1 hm
        cases heq
        exact he
    · refine Std.HashMap.distinct_keys_toList.imp ?_
      intro a b hab heq
      simp [heq] at hab
    · refine List.Nodup.map_on ?_ h.nodup
      intro a _ b _ heq
      cases a; cases b; cases heq; rfl
  rw [← Std.HashMap.length_toList, hperm.length_eq, List.length_map]

theorem drop (h : table.Holds l) {e : Stamp κ ν} (he : e ∈ l) :
    Holds { table with
      entries := table.entries.erase e.key
      recency := table.recency.erase e.tick } (without l e.key) where
  falling := h.falling.filter _
  entries := by
    intro key value tick
    rw [Std.HashMap.getElem?_erase, mem_without]
    by_cases hk : key = e.key
    · subst hk
      simp
    · have hb : (e.key == key) = false := beq_false_of_ne (Ne.symm hk)
      simp [hb, hk, h.entries]
  recency := by
    intro tick key
    rw [Std.TreeMap.getElem?_erase]
    by_cases ht : e.tick = tick
    · rw [if_pos (by simpa using ht)]
      constructor
      · intro hn
        cases hn
      · rintro ⟨value, hm⟩
        obtain ⟨hm, hne⟩ := mem_without.1 hm
        have hk := (h.recency tick key).2 ⟨value, hm⟩
        rw [← ht, (h.recency e.tick e.key).2 ⟨e.value, he⟩] at hk
        cases hk
        exact absurd rfl hne
    · rw [if_neg (by simpa using ht), h.recency]
      constructor
      · rintro ⟨value, hm⟩
        refine ⟨value, mem_without.2 ⟨hm, ?_⟩⟩
        intro hk
        exact ht (congrArg Stamp.tick (h.stamp_eq hm he hk)).symm
      · rintro ⟨value, hm⟩
        exact ⟨value, (mem_without.1 hm).1⟩
  bounded := fun a ha => h.bounded a (mem_without.1 ha).1

/-- The index without the tick of a key. -/
def released (table : RecencyTable κ ν) (key : κ) : Std.TreeMap Nat κ :=
  match table.entries[key]? with
  | some (_, old) => table.recency.erase old
  | none => table.recency

theorem released_eq_some (h : table.Holds l) (key : κ) (tick : Nat) (other : κ) :
    (released table key)[tick]? = some other ↔ ∃ value, ⟨other, value, tick⟩ ∈ without l key := by
  unfold released
  cases hk : table.entries[key]? with
  | none =>
    have hall : without l key = l := by
      refine List.filter_eq_self.2 fun e he => ?_
      have hne : e.key ≠ key := by
        intro heq
        have he := (h.entries e.key e.value e.tick).2 he
        rw [heq, hk] at he
        cases he
      simpa using hne
    rw [hall]
    exact h.recency tick other
  | some entry =>
    obtain ⟨value, old⟩ := entry
    exact (h.drop ((h.entries key value old).1 hk)).recency tick other

/-- An entry that is stored or found goes to the front, under the next tick. -/
theorem touch (h : table.Holds l) (key : κ) (value : ν) :
    Holds {
      capacity := table.capacity
      entries := table.entries.insert key (value, table.tick + 1)
      recency := (released table key).insert (table.tick + 1) key
      tick := table.tick + 1 } (⟨key, value, table.tick + 1⟩ :: without l key) where
  falling := by
    refine List.pairwise_cons.2 ⟨?_, h.falling.filter _⟩
    intro e he
    exact Nat.lt_succ_of_le (h.bounded e (mem_without.1 he).1).2
  entries := by
    intro other v tick
    rw [Std.HashMap.getElem?_insert]
    by_cases hk : key = other
    · subst hk
      simp [mem_without, eq_comm]
    · have hb : (key == other) = false := beq_false_of_ne hk
      simp [hb, mem_without, h.entries, Ne.symm hk]
  recency := by
    intro tick other
    rw [Std.TreeMap.getElem?_insert]
    by_cases ht : table.tick + 1 = tick
    · subst ht
      have hnew : ∀ v, (⟨other, v, table.tick + 1⟩ : Stamp κ ν) ∉ without l key := by
        intro v hm
        have hle := (h.bounded _ (mem_without.1 hm).1).2
        exact Nat.not_succ_le_self _ hle
      simp [hnew, eq_comm]
    · rw [if_neg (by simpa using ht), h.released_eq_some]
      simp [Ne.symm ht]
  bounded := by
    intro e he
    rcases List.mem_cons.1 he with rfl | he
    · exact ⟨Nat.succ_pos _, Nat.le_refl _⟩
    · obtain ⟨hpos, hle⟩ := h.bounded e (mem_without.1 he).1
      exact ⟨hpos, Nat.le_succ_of_le hle⟩

theorem evictOldest {init : List (Stamp κ ν)} {e : Stamp κ ν} (h : table.Holds (init ++ [e])) :
    Holds { table with
      entries := table.entries.erase e.key
      recency := table.recency.erase e.tick } init := by
  have hd := h.drop (e := e) (by simp)
  have hinit : without (init ++ [e]) e.key = init := by
    have hne : ∀ a ∈ init, a.key ≠ e.key := by
      intro a ha hk
      have heq := h.stamp_eq (List.mem_append_left _ ha) (by simp) hk
      have hlt := (List.pairwise_append.1 h.falling).2.2 a ha e (by simp)
      rw [heq] at hlt
      exact Nat.lt_irrefl _ hlt
    unfold without
    rw [List.filter_append, List.filter_eq_self.2 (by simpa using hne)]
    simp
  rwa [hinit] at hd

theorem evict (h : table.Holds l) : table.evict.Holds (l.take table.capacity) := by
  induction l using List.reverseRecOn generalizing table with
  | nil =>
    rw [RecencyTable.evict, if_pos (by rw [h.size_entries]; exact Nat.zero_le _)]
    simpa using h
  | append_singleton init e ih =>
    rw [RecencyTable.evict]
    have hsize := h.size_entries
    rw [List.length_append, List.length_singleton] at hsize
    split
    · rename_i hle
      rw [List.take_of_length_le (by simp; omega)]
      exact h
    · rename_i hgt
      split
      · rename_i hnone
        rw [h.minKey?_recency] at hnone
        cases hnone
      · rename_i tick hsome
        obtain ⟨rfl, hkey⟩ := h.oldest_eq hsome
        simp only [hkey]
        rw [List.take_append_of_le_length (by omega)]
        exact ih h.evictOldest

end Holds

end RecencyTable

end HookTrace.Store
