import HookTrace.Proofs.Store.Stamps

/-!
# HookTrace.Proofs.Store.Ranking

A bounded table as a list: the entries in the order of their last touch, the latest first. Storing
and finding put an entry in front, and what does not fit falls off the back. `Ranks table r` says
that a recency table holds the entries of the ranking `r`, in that order; each operation of the
one is the operation of that name on the other.
-/

namespace HookTrace.Store

@[ext] structure Ranking (κ ν : Type) where
  capacity : Nat
  positive : 0 < capacity
  entries : List (κ × ν)
  distinct : (entries.map Prod.fst).Nodup
  room : entries.length ≤ capacity

namespace Ranking

variable {κ ν : Type}

def empty (capacity : Nat) : Ranking κ ν where
  capacity := max capacity 1
  positive := Nat.lt_of_lt_of_le Nat.zero_lt_one (Nat.le_max_right _ _)
  entries := []
  distinct := .nil
  room := Nat.zero_le _

variable [BEq κ]

def peek? (r : Ranking κ ν) (key : κ) : Option ν :=
  r.entries.lookup key

def others (r : Ranking κ ν) (key : κ) : List (κ × ν) :=
  r.entries.filter (·.1 != key)

theorem sublist_others (r : Ranking κ ν) (key : κ) : (r.others key).Sublist r.entries :=
  List.filter_sublist

theorem distinct_others (r : Ranking κ ν) (key : κ) : ((r.others key).map Prod.fst).Nodup :=
  List.Nodup.sublist ((r.sublist_others key).map _) r.distinct

variable [LawfulBEq κ]

theorem mem_others {r : Ranking κ ν} {key : κ} {e : κ × ν} :
    e ∈ r.others key ↔ e ∈ r.entries ∧ e.1 ≠ key := by
  simp [others]

theorem peek?_eq_some_iff {r : Ranking κ ν} {key : κ} {value : ν} :
    r.peek? key = some value ↔ (key, value) ∈ r.entries := by
  obtain ⟨capacity, positive, entries, distinct, room⟩ := r
  unfold peek?
  induction entries with
  | nil => simp
  | cons e rest ih =>
    obtain ⟨k, v⟩ := e
    have hrest := ih (List.nodup_cons.1 distinct).2 (Nat.le_of_succ_le room)
    by_cases hk : key = k
    · cases hk
      have hnot : ∀ other, (key, other) ∉ rest := by
        intro other hm
        have hkey : key ∈ rest.map Prod.fst := List.mem_map_of_mem (f := Prod.fst) hm
        exact (List.nodup_cons.1 distinct).1 hkey
      simp [hnot, eq_comm]
    · have hb : (key == k) = false := beq_false_of_ne hk
      have hne : (key, value) ≠ (k, v) := fun heq => hk (congrArg Prod.fst heq)
      simp only [List.lookup_cons, hb, List.mem_cons, hne, false_or]
      exact hrest

theorem peek?_eq_none_iff {r : Ranking κ ν} {key : κ} :
    r.peek? key = none ↔ ∀ value, (key, value) ∉ r.entries := by
  constructor
  · intro hn value hm
    rw [peek?_eq_some_iff.2 hm] at hn
    cases hn
  · intro hn
    cases hp : r.peek? key with
    | none => rfl
    | some value => exact absurd (peek?_eq_some_iff.1 hp) (hn value)

theorem others_of_none {r : Ranking κ ν} {key : κ} (h : r.peek? key = none) :
    r.others key = r.entries := by
  refine List.filter_eq_self.2 fun e hm => ?_
  have hne : e.1 ≠ key := by
    rintro rfl
    exact peek?_eq_none_iff.1 h e.2 hm
  simpa using hne

theorem distinct_front (r : Ranking κ ν) (key : κ) (value : ν) :
    (((key, value) :: r.others key).map Prod.fst).Nodup := by
  refine List.nodup_cons.2 ⟨?_, r.distinct_others key⟩
  intro hm
  obtain ⟨e, he, hk⟩ := List.mem_map.1 hm
  exact (mem_others.1 he).2 hk

/-- Puts an entry in front, and drops what does not fit at the back. -/
def insert (r : Ranking κ ν) (key : κ) (value : ν) : Ranking κ ν where
  capacity := r.capacity
  positive := r.positive
  entries := ((key, value) :: r.others key).take r.capacity
  distinct := List.Nodup.sublist ((List.take_sublist _ _).map _) (r.distinct_front key value)
  room := List.length_take_le _ _

theorem peek?_insert_self (r : Ranking κ ν) (key : κ) (value : ν) :
    (r.insert key value).peek? key = some value := by
  obtain ⟨n, hn⟩ := Nat.exists_eq_succ_of_ne_zero (Nat.ne_of_gt r.positive)
  refine peek?_eq_some_iff.2 ?_
  simp [insert, hn]

theorem length_others_lt {r : Ranking κ ν} {key : κ} {value : ν} (h : r.peek? key = some value) :
    (r.others key).length < r.entries.length := by
  refine List.length_filter_lt_length_iff_exists.2 ⟨_, peek?_eq_some_iff.1 h, ?_⟩
  simp

/-- Finds an entry and moves it to the front. -/
def get? (r : Ranking κ ν) (key : κ) : Option ν × Ranking κ ν :=
  match h : r.peek? key with
  | none => (none, r)
  | some value =>
    (some value, {
      capacity := r.capacity
      positive := r.positive
      entries := (key, value) :: r.others key
      distinct := r.distinct_front key value
      room := Nat.le_trans (length_others_lt h) r.room })

theorem snd_get?_of_none {r : Ranking κ ν} {key : κ} (h : r.peek? key = none) :
    (r.get? key).2 = r := by
  unfold get?
  split
  · rfl
  · rename_i value hsome
    rw [h] at hsome
    cases hsome

theorem entries_get?_of_some {r : Ranking κ ν} {key : κ} {value : ν}
    (h : r.peek? key = some value) : (r.get? key).2.entries = (key, value) :: r.others key := by
  unfold get?
  split
  · rename_i hnone
    rw [h] at hnone
    cases hnone
  · rename_i v hsome
    rw [h] at hsome
    cases hsome
    rfl

@[simp] theorem capacity_get? (r : Ranking κ ν) (key : κ) :
    (r.get? key).2.capacity = r.capacity := by
  unfold get?
  split <;> rfl

/-- Takes an entry out and answers its value. -/
def erase (r : Ranking κ ν) (key : κ) : Option ν × Ranking κ ν :=
  (r.peek? key, {
    capacity := r.capacity
    positive := r.positive
    entries := r.others key
    distinct := r.distinct_others key
    room := Nat.le_trans (r.sublist_others key).length_le r.room })

end Ranking

namespace RecencyTable

variable {κ ν : Type} [BEq κ] [Hashable κ]

structure Ranks (table : RecencyTable κ ν) (r : Ranking κ ν) : Prop where
  capacity_eq : table.capacity = r.capacity
  holds : ∃ l, table.Holds l ∧ r.entries = l.map fun e => (e.key, e.value)

namespace Ranks

variable [LawfulBEq κ] {table : RecencyTable κ ν} {r : Ranking κ ν}

omit [LawfulBEq κ] in
theorem empty (capacity : Nat) : (empty capacity : RecencyTable κ ν).Ranks (.empty capacity) :=
  ⟨rfl, [], .nil rfl rfl, rfl⟩

theorem peek?_eq (h : table.Ranks r) (key : κ) : table.peek? key = r.peek? key := by
  obtain ⟨l, hl, he⟩ := h.holds
  have hmem : ∀ value, (key, value) ∈ r.entries ↔ ∃ tick, (⟨key, value, tick⟩ : Stamp κ ν) ∈ l := by
    intro value
    rw [he, List.mem_map]
    constructor
    · rintro ⟨e, hm, heq⟩
      cases heq
      exact ⟨e.tick, hm⟩
    · rintro ⟨tick, hm⟩
      exact ⟨_, hm, rfl⟩
  unfold RecencyTable.peek?
  cases hk : table.entries[key]? with
  | none =>
    refine (Ranking.peek?_eq_none_iff.2 fun value hm => ?_).symm
    obtain ⟨tick, hm⟩ := (hmem value).1 hm
    rw [(hl.entries key value tick).2 hm] at hk
    cases hk
  | some entry =>
    obtain ⟨value, tick⟩ := entry
    have hm := (hl.entries key value tick).1 hk
    exact (Ranking.peek?_eq_some_iff.2 ((hmem value).2 ⟨tick, hm⟩)).symm

omit [Hashable κ] [LawfulBEq κ] in
theorem others_eq {l : List (Stamp κ ν)} (he : r.entries = l.map fun e => (e.key, e.value))
    (key : κ) : r.others key = (without l key).map fun e => (e.key, e.value) := by
  unfold Ranking.others without
  rw [he, List.filter_map]
  rfl

variable [LawfulHashable κ]

theorem size_eq (h : table.Ranks r) : table.size = r.entries.length := by
  obtain ⟨l, hl, he⟩ := h.holds
  rw [he, List.length_map]
  exact hl.size_entries

theorem insert (h : table.Ranks r) (key : κ) (value : ν) :
    (table.insert key value).Ranks (r.insert key value) := by
  obtain ⟨l, hl, he⟩ := h.holds
  have hevict := (hl.touch key value).evict
  cases table with
  | mk capacity entries recency tick =>
    refine ⟨?_, _, hevict, ?_⟩
    · exact (capacity_evict _).trans h.capacity_eq
    · have hc : capacity = r.capacity := h.capacity_eq
      simp only [Ranking.insert, others_eq he, ← hc, List.map_take, List.map_cons]

theorem get? (h : table.Ranks r) (key : κ) :
    (table.get? key).1 = r.peek? key ∧ (table.get? key).2.Ranks (r.get? key).2 := by
  obtain ⟨l, hl, he⟩ := h.holds
  have hpeek := h.peek?_eq key
  have hc := h.capacity_eq
  have htouch := hl.touch key
  cases table with
  | mk capacity entries recency tick =>
    simp only [RecencyTable.peek?, RecencyTable.get?] at hpeek ⊢
    simp only [Holds.released] at htouch
    cases hk : entries[key]? with
    | none =>
      rw [hk] at hpeek
      refine ⟨hpeek, ?_⟩
      rw [Ranking.snd_get?_of_none hpeek.symm]
      exact ⟨hc, l, hl.miss, he⟩
    | some entry =>
      obtain ⟨value, old⟩ := entry
      rw [hk] at hpeek htouch
      refine ⟨hpeek, ⟨hc.trans (Ranking.capacity_get? r key).symm, _, htouch value, ?_⟩⟩
      rw [Ranking.entries_get?_of_some hpeek.symm, others_eq he]
      rfl

theorem erase (h : table.Ranks r) (key : κ) :
    (table.erase key).1 = r.peek? key ∧ (table.erase key).2.Ranks (r.erase key).2 := by
  obtain ⟨l, hl, he⟩ := h.holds
  have hpeek := h.peek?_eq key
  have hc := h.capacity_eq
  cases table with
  | mk capacity entries recency tick =>
    simp only [RecencyTable.peek?, RecencyTable.erase] at hpeek ⊢
    cases hk : entries[key]? with
    | none =>
      rw [hk] at hpeek
      refine ⟨hpeek, hc, l, hl, ?_⟩
      rw [← he]
      exact Ranking.others_of_none hpeek.symm
    | some entry =>
      obtain ⟨value, old⟩ := entry
      rw [hk] at hpeek
      exact ⟨hpeek, hc, _, hl.drop ((hl.entries key value old).1 hk), others_eq he key⟩

end Ranks

end RecencyTable

end HookTrace.Store
