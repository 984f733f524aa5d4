import HookTrace.Proofs.Store.Capacity
import HookTrace.Proofs.Store.Eviction

/-!
# HookTrace.Proofs.Store.Ticks

The inside of a recency table: its entries, the index from ticks to keys, and the last tick. Both
maps tell the same at any time (`RecencyTable.Holds`), and ticks are in the order of the last
touches, which is shown over the log of a table in use (`Ordered`).

An eviction is followed round by round (`evictNoting`): in a table whose maps agree it takes the
entries behind the capacity, the oldest first (`rounds_of_holds`). Storing adds one entry at most,
hence the index gives up at most one key, which is never the one that is stored.

`use_indexed`: all this holds of a table in use.
-/

namespace HookTrace.Store.RecencyTable

variable {κ ν : Type} [BEq κ] [Hashable κ] {table table' : RecencyTable κ ν}

/-! ### Evictions, round by round -/

/-- Evicts like `evict`, and notes of each round the key that was given up, or that the index had
none. -/
def evictNoting (table : RecencyTable κ ν) : List (Option κ) × RecencyTable κ ν :=
  if table.entries.size ≤ table.capacity then ([], table)
  else
    match h : table.recency.minKey? with
    | none => ([none], table)
    | some tick =>
      let oldest := table.recency.get tick (mem_of_minKey? h)
      let (rounds, left) := evictNoting { table with
        recency := table.recency.erase tick
        entries := table.entries.erase oldest }
      (some oldest :: rounds, left)
termination_by table.recency.size
decreasing_by exact size_erase_lt (mem_of_minKey? h)

theorem snd_evictNoting (table : RecencyTable κ ν) : table.evictNoting.2 = table.evict := by
  fun_induction evict table with
  | case1 table hle => rw [evictNoting, if_pos hle]
  | case2 table hgt hnone =>
    rw [evictNoting, if_neg hgt]
    split
    · rfl
    · rename_i hsome
      rw [hnone] at hsome
      cases hsome
  | case3 table hgt tick hsome oldest ih =>
    rw [evictNoting, if_neg hgt]
    split
    · rename_i hnone
      rw [hnone] at hsome
      cases hsome
    · rename_i other hother
      cases hsome.symm.trans hother
      exact ih

theorem entries_evict_subset {key : κ} {entry : ν × Nat} [LawfulBEq κ] [LawfulHashable κ]
    (h : table.evict.entries[key]? = some entry) : table.entries[key]? = some entry := by
  fun_induction evict table with
  | case1 | case2 => exact h
  | case3 table hgt tick hsome oldest ih =>
    have hleft := ih h
    rw [Std.HashMap.getElem?_erase] at hleft
    split at hleft
    · cases hleft
    · exact hleft

@[simp] theorem tick_evict (table : RecencyTable κ ν) : table.evict.tick = table.tick := by
  fun_induction evict table with
  | case1 => rfl
  | case2 => rfl
  | case3 _ _ _ _ _ ih => exact ih

variable [LawfulBEq κ] [LawfulHashable κ] {l : List (Stamp κ ν)}

/-- The entries behind the capacity are given up, the oldest first. -/
theorem rounds_of_holds (h : table.Holds l) :
    table.evictNoting.1 = (l.drop table.capacity).reverse.map fun e => some e.key := by
  induction l using List.reverseRecOn generalizing table with
  | nil =>
    rw [evictNoting, if_pos (by rw [h.size_entries]; exact Nat.zero_le _), List.drop_nil]
    rfl
  | append_singleton init e ih =>
    have hsize := h.size_entries
    rw [List.length_append, List.length_singleton] at hsize
    rw [evictNoting]
    split
    · rename_i hle
      rw [List.drop_of_length_le (by rw [List.length_append, List.length_singleton]; omega)]
      rfl
    · rename_i hgt
      split
      · rename_i hnone
        rw [h.minKey?_recency] at hnone
        cases hnone
      · rename_i tick hsome
        obtain ⟨rfl, hkey⟩ := h.oldest_eq hsome
        simp only [hkey, ih h.evictOldest]
        rw [List.drop_append_of_le_length (by omega), List.reverse_append]
        rfl

/-! ### What a table looks like once an entry is stored -/

/-- A table with an entry stored under the next tick, before it makes room. -/
def stored (table : RecencyTable κ ν) (key : κ) (value : ν) : RecencyTable κ ν where
  capacity := table.capacity
  entries := table.entries.insert key (value, table.tick + 1)
  recency := (Holds.released table key).insert (table.tick + 1) key
  tick := table.tick + 1

omit [LawfulBEq κ] [LawfulHashable κ] in
theorem insert_eq_evict (table : RecencyTable κ ν) (key : κ) (value : ν) :
    table.insert key value = (table.stored key value).evict := by
  cases table
  rfl

omit [LawfulHashable κ] in
theorem entries_stored {key other : κ} {value v : ν} {tick : Nat}
    (h : (table.stored key value).entries[other]? = some (v, tick)) :
    other = key ∧ tick = table.tick + 1 ∨
      other ≠ key ∧ table.entries[other]? = some (v, tick) := by
  have h : (table.entries.insert key (value, table.tick + 1))[other]? = some (v, tick) := h
  rw [Std.HashMap.getElem?_insert] at h
  split at h
  · rename_i hk
    cases h
    exact .inl ⟨(beq_iff_eq.1 hk).symm, rfl⟩
  · rename_i hk
    exact .inr ⟨fun heq => hk (beq_iff_eq.2 heq.symm), h⟩

omit [LawfulBEq κ] [LawfulHashable κ] in
theorem get?_of_some {key : κ} {value : ν} {old : Nat}
    (h : table.entries[key]? = some (value, old)) :
    (table.get? key).2 = table.stored key value := by
  obtain ⟨capacity, entries, recency, tick⟩ := table
  have h : entries[key]? = some (value, old) := h
  unfold RecencyTable.get? stored Holds.released
  simp only [h]

omit [LawfulBEq κ] [LawfulHashable κ] in
theorem get?_of_none {key : κ} (h : table.entries[key]? = none) :
    (table.get? key).2 = { table with tick := table.tick + 1 } := by
  obtain ⟨capacity, entries, recency, tick⟩ := table
  have h : entries[key]? = none := h
  unfold RecencyTable.get?
  simp only [h]

/-- Storing gives up one key at most, which is another one and was in the table. -/
theorem rounds_stored (h : table.Holds l) (hcapacity : 1 ≤ table.capacity)
    (hroom : l.length ≤ table.capacity) (key : κ) (value : ν) :
    let rounds := (table.stored key value).evictNoting.1
    rounds.length ≤ 1 ∧ ∀ round ∈ rounds, ∃ oldest, round = some oldest ∧ oldest ≠ key ∧
      table.entries[oldest]?.isSome := by
  intro rounds
  have hrounds : rounds = (((⟨key, value, table.tick + 1⟩ :: without l key).drop
      table.capacity).reverse.map fun e => some e.key) := rounds_of_holds (h.touch key value)
  obtain ⟨capacity, hsucc⟩ := Nat.exists_eq_add_of_le' hcapacity
  rw [hsucc, List.drop_succ_cons] at hrounds
  constructor
  · have hlen : (without l key).length ≤ l.length := List.length_filter_le _ _
    rw [hrounds, List.length_map, List.length_reverse, List.length_drop]
    omega
  · intro round hround
    rw [hrounds, List.mem_map] at hround
    obtain ⟨e, he, rfl⟩ := hround
    obtain ⟨hl, hne⟩ := Holds.mem_without.1 (List.mem_of_mem_drop (List.mem_reverse.1 he))
    refine ⟨e.key, rfl, hne, ?_⟩
    rw [(h.entries e.key e.value e.tick).2 hl]
    rfl

/-! ### Tables in use -/

/-- What a request may make of a table, and the key that it touches. -/
inductive Turns (table : RecencyTable κ ν) : RecencyTable κ ν → Option κ → Prop
  | insert (key : κ) (value : ν) : Turns table (table.insert key value) (some key)
  | get (key : κ) : Turns table (table.get? key).2 ((table.peek? key).map fun _ => key)
  | erase (key : κ) : Turns table (table.erase key).2 none
  | idle : Turns table table none

omit [LawfulBEq κ] [LawfulHashable κ] in
theorem turns_serve (s : Session (RecencyTable κ ν) κ ν) (request : Request κ ν) :
    Turns s.table (serve s request).2.table (touched (request, (serve s request).1)) := by
  cases request with
  | insert key value | record key value => exact .insert key value
  | get key | lookup key | take key =>
    have hget : Turns s.table _ _ := .get key
    rw [← fst_lookup] at hget
    revert hget
    simp only [serve, touched, KeyedTable.take_eq]
    cases (KeyedTable.lookup s.table key).1 <;> exact id
  | delete key | remove key => exact .erase key
  | peek key | claimed i => exact .idle
  | finish i =>
    simp only [serve]
    cases s.claims[i]? with
    | none => exact .idle
    | some claim => exact .erase claim.key

namespace Turns

variable {key? : Option κ}

omit [LawfulBEq κ] [LawfulHashable κ] in
theorem tick_le (h : Turns table table' key?) :
    table.tick ≤ table'.tick ∧ table'.tick ≤ table.tick + 1 := by
  cases h with
  | insert key value =>
    rw [insert_eq_evict, tick_evict]
    exact ⟨Nat.le_succ _, Nat.le_refl _⟩
  | get key =>
    cases hentry : table.entries[key]? with
    | none =>
      rw [get?_of_none hentry]
      exact ⟨Nat.le_succ _, Nat.le_refl _⟩
    | some entry =>
      rw [get?_of_some hentry]
      exact ⟨Nat.le_succ _, Nat.le_refl _⟩
  | erase key =>
    obtain ⟨capacity, entries, recency, tick⟩ := table
    unfold RecencyTable.erase
    simp only
    cases entries[key]? <;> exact ⟨Nat.le_refl _, Nat.le_succ _⟩
  | idle => exact ⟨Nat.le_refl _, Nat.le_succ _⟩

/-- The entry that is touched gets the next tick, and the others keep theirs. -/
theorem entries (h : Turns table table' key?) {key : κ} {value : ν} {tick : Nat}
    (hentry : table'.entries[key]? = some (value, tick)) :
    key? = some key ∧ tick = table.tick + 1 ∧ table'.tick = tick ∨
      key? ≠ some key ∧ table.entries[key]? = some (value, tick) := by
  cases h with
  | insert other v =>
    rw [insert_eq_evict] at hentry ⊢
    rcases entries_stored (entries_evict_subset hentry) with ⟨rfl, rfl⟩ | ⟨hne, hold⟩
    · exact .inl ⟨rfl, rfl, tick_evict _⟩
    · exact .inr ⟨fun heq => hne (Option.some.inj heq).symm, hold⟩
  | get other =>
    cases hother : table.entries[other]? with
    | none =>
      rw [get?_of_none hother] at hentry
      exact .inr ⟨by simp [peek?, hother], hentry⟩
    | some entry =>
      rw [get?_of_some hother] at hentry ⊢
      have hpeek : table.peek? other = some entry.1 := by simp [peek?, hother]
      rw [hpeek]
      rcases entries_stored hentry with ⟨rfl, rfl⟩ | ⟨hne, hold⟩
      · exact .inl ⟨rfl, rfl, rfl⟩
      · exact .inr ⟨fun heq => hne (Option.some.inj heq).symm, hold⟩
  | erase other =>
    refine .inr ⟨(Option.some_ne_none key).symm, ?_⟩
    obtain ⟨capacity, entries, recency, last⟩ := table
    unfold RecencyTable.erase at hentry
    simp only at hentry
    cases hother : entries[other]? with
    | none =>
      rw [hother] at hentry
      exact hentry
    | some entry =>
      rw [hother] at hentry
      simp only [Std.HashMap.getElem?_erase] at hentry
      split at hentry
      · cases hentry
      · exact hentry
  | idle => exact .inr ⟨(Option.some_ne_none key).symm, hentry⟩

end Turns

/-- Ticks are counted no faster than requests, none is ahead of its time, and an entry that was
touched has a greater tick than those that were not touched since. -/
structure Ordered (log : List (Request κ ν × Answer κ ν)) (table : RecencyTable κ ν) : Prop where
  tick_le : table.tick ≤ log.length
  bounded : ∀ (key : κ) (value : ν) (tick : Nat),
    table.entries[key]? = some (value, tick) → tick ≤ table.tick
  order : ∀ earlier exchange later (key other : κ) (value v : ν) (tick tick' : Nat),
    log = earlier ++ exchange :: later → touched exchange = some key →
    other ≠ key → other ∉ later.filterMap touched →
    table.entries[key]? = some (value, tick) → table.entries[other]? = some (v, tick') →
    tick' < tick

namespace Ordered

variable {log : List (Request κ ν × Answer κ ν)}

omit [LawfulBEq κ] [LawfulHashable κ] in
theorem empty (capacity : Nat) : Ordered [] (empty capacity : RecencyTable κ ν) where
  tick_le := Nat.le_refl _
  bounded := by simp [RecencyTable.empty]
  order := by simp [RecencyTable.empty]

theorem step (h : Ordered log table) {exchange : Request κ ν × Answer κ ν}
    (hturns : Turns table table' (touched exchange)) : Ordered (log ++ [exchange]) table' where
  tick_le := by
    rw [List.length_append, List.length_singleton]
    have htick := hturns.tick_le
    have hlog := h.tick_le
    omega
  bounded := by
    intro key value tick hentry
    rcases hturns.entries hentry with ⟨-, -, htick⟩ | ⟨-, hold⟩
    · exact Nat.le_of_eq htick.symm
    · exact (h.bounded key value tick hold).trans hturns.tick_le.1
  order := by
    intro earlier exchange' later key other value v tick tick' hlog htouched hne hnot hentry hother
    rcases List.eq_nil_or_concat later with rfl | ⟨later, last, rfl⟩
    · -- the entry has just been touched, and the other one has not
      obtain ⟨-, hlast⟩ := List.append_inj' hlog rfl
      cases hlast
      rcases hturns.entries hother with ⟨heq, -⟩ | ⟨-, hold⟩
      · exact absurd (Option.some.inj (heq.symm.trans htouched)) hne
      rcases hturns.entries hentry with ⟨-, rfl, -⟩ | ⟨hnone, -⟩
      · exact Nat.lt_succ_of_le (h.bounded other v tick' hold)
      · exact absurd htouched hnone
    · rw [List.concat_eq_append] at hlog hnot
      rw [← List.cons_append, ← List.append_assoc] at hlog
      obtain ⟨hearlier, hlast⟩ := List.append_inj' hlog rfl
      cases hlast
      rw [List.filterMap_append, List.mem_append, not_or] at hnot
      rcases hturns.entries hother with ⟨heq, -⟩ | ⟨-, hold⟩
      · exact absurd (by simp [heq]) hnot.2
      rcases hturns.entries hentry with ⟨-, rfl, -⟩ | ⟨-, hkept⟩
      · exact Nat.lt_succ_of_le (h.bounded other v tick' hold)
      · exact h.order earlier exchange' later key other value v tick tick' hearlier htouched hne
          hnot.1 hkept hold

end Ordered

theorem ordered_use (capacity : Nat) (requests : List (Request κ ν)) :
    Ordered (use capacity requests).1 (use capacity requests).2.table :=
  @transcript_keeps _ _ _ serve (fun log s => Ordered log s.table)
    (fun request h => h.step (turns_serve _ request)) [] ⟨.empty capacity, []⟩
    (.empty capacity) requests

/-- A recency table in use. The index and the entries name the same keys with the same ticks. No
two entries share a tick, and every tick lies between one and the last tick used up, of which there
are no more than requests. Of two entries the one that was touched later has the greater tick, and
there are no more entries than the capacity allows. Storing yet another entry takes one round of
eviction at most; the round finds a key in the index to give up, which had an entry before, and it
never gives up the key that is stored. -/
theorem use_indexed (capacity : Nat) (requests : List (Request κ ν)) :
    let used := use capacity requests
    let table := used.2.table
    (∀ (tick : Nat) (key : κ), table.recency[tick]? = some key ↔
      ∃ value, table.entries[key]? = some (value, tick)) ∧
    (∀ (key other : κ) (value v : ν) (tick : Nat), table.entries[key]? = some (value, tick) →
      table.entries[other]? = some (v, tick) → key = other) ∧
    (∀ (key : κ) (value : ν) (tick : Nat), table.entries[key]? = some (value, tick) →
      0 < tick ∧ tick ≤ table.tick) ∧
    table.tick ≤ requests.length ∧
    (∀ earlier exchange later (key other : κ) (value v : ν) (tick tick' : Nat),
      used.1 = earlier ++ exchange :: later → touched exchange = some key →
      other ≠ key → other ∉ later.filterMap touched →
      table.entries[key]? = some (value, tick) → table.entries[other]? = some (v, tick') →
      tick' < tick) ∧
    table.entries.size ≤ max capacity 1 ∧
    ∀ key value,
      let rounds := (table.stored key value).evictNoting.1
      (table.stored key value).evictNoting.2 = table.insert key value ∧ rounds.length ≤ 1 ∧
      (∀ round ∈ rounds, ∃ oldest, round = some oldest ∧ oldest ≠ key ∧
        table.entries[oldest]?.isSome) ∧
      (table.insert key value).peek? key = some value := by
  intro used table
  obtain ⟨-, hranks, -⟩ := use_follows capacity requests
  have hordered := ordered_use capacity requests
  obtain ⟨l, hholds, hentries⟩ := hranks.holds
  have hcapacity : table.capacity = max capacity 1 :=
    hranks.capacity_eq.trans (Ranking.capacity_transcript _ requests)
  have hroom : l.length ≤ table.capacity := by
    have hroom := (Ranking.use capacity requests).2.table.room
    rwa [hentries, List.length_map, ← hranks.capacity_eq] at hroom
  refine ⟨?index, ?distinct, ?bounded, ?count, hordered.order, ?size, ?store⟩
  case index =>
    intro tick key
    refine (hholds.recency tick key).trans (exists_congr fun value => ?_)
    exact (hholds.entries key value tick).symm
  case distinct =>
    intro key other value v tick hkey hother
    have hkey := (hholds.recency tick key).2 ⟨value, (hholds.entries _ _ _).1 hkey⟩
    have hother := (hholds.recency tick other).2 ⟨v, (hholds.entries _ _ _).1 hother⟩
    exact Option.some.inj (hkey.symm.trans hother)
  case bounded =>
    intro key value tick hentry
    exact hholds.bounded _ ((hholds.entries _ _ _).1 hentry)
  case count =>
    have hlength : used.1.length = requests.length := by
      rw [← List.length_map Prod.fst]
      exact congrArg List.length (map_fst_transcript _ requests)
    exact hlength ▸ hordered.tick_le
  case size =>
    rw [← hcapacity, hholds.size_entries]
    exact hroom
  case store =>
    intro key value rounds
    obtain ⟨hlength, hfound⟩ := rounds_stored hholds
      (hcapacity ▸ Nat.le_max_right capacity 1) hroom key value
    refine ⟨?_, hlength, hfound, Coherent.peek?_insert_self ⟨_, hranks⟩ key value⟩
    rw [snd_evictNoting, insert_eq_evict]

/-- An entry that was found again is later than one that was stored after it, also if a search that
found nothing has used up a tick since. -/
theorem use_indexed_found :
    let requests : List (Request UInt32 UInt64) := [.insert 1 10, .insert 2 20, .get 1, .get 9]
    let table := (use 2 requests).2.table
    ∃ tick tick', table.entries[(1 : UInt32)]? = some (10, tick) ∧
      table.entries[(2 : UInt32)]? = some (20, tick') ∧ tick' < tick := by
  intro requests table
  obtain ⟨hlog, hranks, -⟩ := use_follows 2 requests
  obtain ⟨-, -, -, -, horder, -⟩ := use_indexed 2 requests
  have hentry : ∀ {key : UInt32} {value : UInt64}, table.peek? key = some value →
      ∃ tick, table.entries[key]? = some (value, tick) := by
    intro key value hpeek
    obtain ⟨⟨_, tick⟩, hentry, rfl⟩ := Option.map_eq_some_iff.1 hpeek
    exact ⟨tick, hentry⟩
  obtain ⟨tick, hone⟩ := hentry ((hranks.peek?_eq 1).trans rfl)
  obtain ⟨tick', htwo⟩ := hentry ((hranks.peek?_eq 2).trans rfl)
  refine ⟨tick, tick', hone, htwo, ?_⟩
  exact horder [(.insert 1 10, .done), (.insert 2 20, .done)] (.get 1, .value (some 10))
    [(.get 9, .value none)] 1 2 10 20 tick tick' (hlog.trans rfl) rfl (by decide) (by decide)
    hone htwo

end HookTrace.Store.RecencyTable
