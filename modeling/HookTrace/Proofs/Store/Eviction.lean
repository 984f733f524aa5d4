import HookTrace.Proofs.Store.Requests

/-!
# HookTrace.Proofs.Store.Eviction

Which entry a bounded table gives up. In a ranking the entries in front of a key are those touched
since (`Behind`), so a key that nobody removes falls off the back only when as many other keys have
been touched as the table holds (`Crowded`).

`use_recency` carries this over to the recency table, together with the agreement of the two in
every answer and every entry.
-/

namespace HookTrace.Store

variable {κ ν : Type}

/-- The key that is stored or found. -/
def touched : Request κ ν × Answer κ ν → Option κ
  | (.insert key _, _) | (.record key _, _) => some key
  | (.get key, .value (some _)) | (.lookup key, .value (some _)) => some key
  | (.take _, .claim (some claim)) => some claim.key
  | _ => none

/-- The key that is to be gone afterwards. -/
def removed : Request κ ν × Answer κ ν → Option κ
  | (.delete key, _) | (.remove key, _) => some key
  | (.finish _, .claim (some claim)) => some claim.key
  | _ => none

/-- There are `capacity` keys other than `key` among `keys`. -/
def Crowded (capacity : Nat) (keys : List κ) (key : κ) : Prop :=
  ∃ others : List κ, others.Nodup ∧ others.length = capacity ∧
    ∀ other ∈ others, other ≠ key ∧ other ∈ keys

theorem Crowded.mono {capacity : Nat} {keys keys' : List κ} {key : κ}
    (h : Crowded capacity keys key) (hsub : ∀ k ∈ keys, k ∈ keys') :
    Crowded capacity keys' key := by
  obtain ⟨others, hnodup, hlen, hall⟩ := h
  exact ⟨others, hnodup, hlen, fun other hm => ⟨(hall other hm).1, hsub _ (hall other hm).2⟩⟩

namespace Ranking

variable {r : Ranking κ ν} {keys : List κ} {key : κ}

/-- The ranking has an entry of `key`, and in front of it only entries of `keys`. -/
def Behind (r : Ranking κ ν) (keys : List κ) (key : κ) : Prop :=
  ∃ front value back, r.entries = front ++ (key, value) :: back ∧ ∀ e ∈ front, e.1 ∈ keys

theorem Behind.mono {keys' : List κ} (h : r.Behind keys key) (hsub : ∀ k ∈ keys, k ∈ keys') :
    r.Behind keys' key := by
  obtain ⟨front, value, back, he, hfront⟩ := h
  exact ⟨front, value, back, he, fun e hm => hsub _ (hfront e hm)⟩

variable [BEq κ] [LawfulBEq κ]

theorem Behind.peek?_ne_none (h : r.Behind keys key) : r.peek? key ≠ none := by
  obtain ⟨front, value, back, he, _⟩ := h
  intro hn
  exact peek?_eq_none_iff.1 hn value (he ▸ by simp)

theorem behind_insert_self (r : Ranking κ ν) (keys : List κ) (key : κ) (value : ν) :
    (r.insert key value).Behind keys key := by
  obtain ⟨n, hn⟩ := Nat.exists_eq_succ_of_ne_zero (Nat.ne_of_gt r.positive)
  exact ⟨[], value, (r.others key).take n, by simp [insert, hn], by simp⟩

/-- Taking another key's entry out keeps the order of the rest. -/
theorem others_of_behind {front back : List (κ × ν)} {value : ν} {other : κ}
    (he : r.entries = front ++ (key, value) :: back) (hne : other ≠ key) :
    r.others other = front.filter (·.1 != other) ++ (key, value) :: back.filter (·.1 != other) := by
  unfold others
  rw [he, List.filter_append, List.filter_cons_of_pos (by simpa using Ne.symm hne)]

theorem behind_erase (h : r.Behind keys key) {other : κ} (hne : other ≠ key) :
    (r.erase other).2.Behind keys key := by
  obtain ⟨front, value, back, he, hfront⟩ := h
  exact ⟨_, value, _, others_of_behind he hne, fun e hm => hfront e (List.mem_filter.1 hm).1⟩

theorem behind_get? (h : r.Behind keys key) (other : κ) :
    (r.get? other).2.Behind (keys ++ ((r.peek? other).map fun _ => other).toList) key := by
  cases hp : r.peek? other with
  | none =>
    rw [snd_get?_of_none hp]
    simpa using h
  | some v =>
    have hentries := entries_get?_of_some hp
    by_cases hk : other = key
    · subst hk
      exact ⟨[], v, _, hentries, by simp⟩
    · obtain ⟨front, value, back, he, hfront⟩ := h
      rw [others_of_behind he hk] at hentries
      refine ⟨(other, v) :: front.filter (·.1 != other), value, _, hentries, ?_⟩
      intro e hm
      rcases List.mem_cons.1 hm with rfl | hm
      · simp
      · exact List.mem_append_left _ (hfront e (List.mem_filter.1 hm).1)

theorem behind_insert (h : r.Behind keys key) (other : κ) (v : ν) :
    (r.insert other v).Behind (keys ++ [other]) key ∨
      Crowded r.capacity (keys ++ [other]) key := by
  by_cases hk : other = key
  · exact .inl (hk ▸ behind_insert_self r _ other v)
  obtain ⟨front, value, back, he, hfront⟩ := h
  have hothers := others_of_behind he hk
  -- the entries that stand in front of the key once the new one is stored
  let front' := (other, v) :: front.filter (·.1 != other)
  have hsplit : (other, v) :: r.others other =
      front' ++ (key, value) :: back.filter (·.1 != other) := by
    rw [hothers]; rfl
  have hkeys : ∀ e ∈ front', e.1 ∈ keys ++ [other] := by
    intro e hm
    rcases List.mem_cons.1 hm with rfl | hm
    · simp
    · exact List.mem_append_left _ (hfront e (List.mem_filter.1 hm).1)
  have hdistinct := r.distinct_front other v
  rw [hsplit, List.map_append, List.nodup_append] at hdistinct
  by_cases hroom : front'.length < r.capacity
  · left
    obtain ⟨n, hn⟩ : ∃ n, r.capacity = front'.length + (n + 1) :=
      ⟨r.capacity - front'.length - 1, by omega⟩
    refine ⟨front', value, (back.filter (·.1 != other)).take n, ?_, hkeys⟩
    show ((other, v) :: r.others other).take r.capacity = _
    rw [hsplit, hn, List.take_length_add_append, List.take_succ_cons]
  · right
    refine ⟨(front'.take r.capacity).map Prod.fst, ?_, ?_, ?_⟩
    · exact List.Nodup.sublist ((List.take_sublist _ _).map _) hdistinct.1
    · rw [List.length_map, List.length_take]
      omega
    · intro k hm
      obtain ⟨e, he, rfl⟩ := List.mem_map.1 hm
      have he := List.mem_of_mem_take he
      exact ⟨hdistinct.2.2 _ (List.mem_map_of_mem he) _ (by simp), hkeys e he⟩

theorem capacity_serve (s : Session (Ranking κ ν) κ ν) (request : Request κ ν) :
    (serve s request).2.table.capacity = s.table.capacity := by
  cases request with
  | get key | lookup key | take key => exact capacity_get? s.table key
  | finish i =>
    simp only [serve]
    cases s.claims[i]? <;> rfl
  | _ => rfl

theorem capacity_transcript (s : Session (Ranking κ ν) κ ν)
    (requests : List (Request κ ν)) :
    (transcript serve s requests).2.table.capacity = s.table.capacity := by
  induction requests generalizing s with
  | nil => rfl
  | cons request rest ih => exact (ih _).trans (capacity_serve s request)

/-- One request: an entry that it does not remove stays, behind one key more at most, unless the
table is crowded. -/
theorem behind_serve {s : Session (Ranking κ ν) κ ν} (h : s.table.Behind keys key)
    (request : Request κ ν) (hkept : removed (request, (serve s request).1) ≠ some key) :
    (serve s request).2.table.Behind
        (keys ++ (touched (request, (serve s request).1)).toList) key ∨
      Crowded s.table.capacity (keys ++ (touched (request, (serve s request).1)).toList) key := by
  cases request with
  | insert other v | record other v => exact behind_insert h other v
  | get other | lookup other | take other =>
    left
    have hfound := behind_get? h other
    simp only [serve, touched]
    cases hp : s.table.peek? other <;> simpa [hp] using hfound
  | peek other | claimed i =>
    left
    simpa [serve, touched] using h
  | delete other | remove other =>
    left
    have hne : other ≠ key := fun heq => hkept (congrArg some heq)
    simpa [serve, touched] using behind_erase h hne
  | finish i =>
    left
    simp only [serve, touched] at hkept ⊢
    cases hi : s.claims[i]? with
    | none => simpa [hi] using h
    | some claim =>
      rw [hi] at hkept
      have hne : claim.key ≠ key := fun heq => hkept (congrArg some heq)
      simpa [hi] using behind_erase h hne

/-- All requests: an entry that none of them removes stays unless the table gets crowded. -/
theorem behind_transcript {s : Session (Ranking κ ν) κ ν} (h : s.table.Behind keys key)
    (requests : List (Request κ ν))
    (hkept : key ∉ (transcript serve s requests).1.filterMap removed) :
    (∃ keys', (transcript serve s requests).2.table.Behind keys' key) ∨
      Crowded s.table.capacity (keys ++ (transcript serve s requests).1.filterMap touched) key := by
  induction requests generalizing s keys with
  | nil => exact .inl ⟨keys, h⟩
  | cons request rest ih =>
    simp only [transcript, List.filterMap_eq_flatMap_toList, List.flatMap_cons,
      List.mem_append, not_or] at hkept ⊢
    obtain ⟨hfirst, hrest⟩ := hkept
    rw [← List.filterMap_eq_flatMap_toList] at hrest
    have hfirst : removed (request, (serve s request).1) ≠ some key := by
      intro heq
      simp [heq] at hfirst
    rcases behind_serve h request hfirst with hbehind | hcrowded
    · have hrun := ih hbehind hrest
      rwa [List.append_assoc, List.filterMap_eq_flatMap_toList, capacity_serve] at hrun
    · right
      refine hcrowded.mono fun k hm => ?_
      rw [← List.append_assoc]
      exact List.mem_append_left _ hm

/-- What has just been touched is in front of all else. -/
theorem behind_of_touched {s : Session (Ranking κ ν) κ ν} {request : Request κ ν}
    (h : touched (request, (serve s request).1) = some key) :
    (serve s request).2.table.Behind [] key := by
  cases request with
  | insert other v | record other v =>
    cases h
    exact behind_insert_self s.table [] _ v
  | get other | lookup other | take other =>
    simp only [serve, touched] at h
    cases hp : s.table.peek? other with
    | none => simp [hp] at h
    | some v =>
      simp only [hp] at h
      cases h
      exact ⟨[], v, _, entries_get?_of_some hp, by simp⟩
  | peek other | delete other | remove other | claimed i | finish i => simp [touched] at h

end Ranking

section Use

variable [BEq κ] [LawfulBEq κ] [Hashable κ] [LawfulHashable κ]

theorem RecencyTable.use_follows (capacity : Nat) (requests : List (Request κ ν)) :
    (RecencyTable.use capacity requests).1 = (Ranking.use capacity requests).1 ∧
      RecencyTable.Follows (RecencyTable.use capacity requests).2
        (Ranking.use capacity requests).2 :=
  RecencyTable.transcript_follows ⟨.empty capacity, rfl⟩ requests

/-- A recency table in use agrees with the ranking in every answer, every open claim and every
entry. What it was last asked to store it has; and of a key that was touched and not removed since it
has lost the entry only if since then as many other keys were touched as it holds. -/
theorem use_recency (capacity : Nat) (requests : List (Request κ ν)) :
    let used := RecencyTable.use capacity requests
    let ranked := Ranking.use capacity requests
    (used.1 = ranked.1 ∧ used.2.claims = ranked.2.claims ∧
      (∀ key, used.2.table.peek? key = ranked.2.table.peek? key) ∧
      used.2.table.size = ranked.2.table.entries.length) ∧
    (∀ earlier key value, requests = earlier ++ [.insert key value] ∨
        requests = earlier ++ [.record key value] → used.2.table.peek? key = some value) ∧
    (∀ earlier exchange later key, used.1 = earlier ++ exchange :: later →
        touched exchange = some key → key ∉ later.filterMap removed →
        used.2.table.peek? key = none →
        Crowded (max capacity 1) (later.filterMap touched) key) := by
  intro used ranked
  obtain ⟨hlog, htable, hclaims⟩ := RecencyTable.use_follows capacity requests
  refine ⟨⟨hlog, hclaims, htable.peek?_eq, htable.size_eq⟩, ?_, ?_⟩
  · intro earlier key value hreq
    show (RecencyTable.use capacity requests).2.table.peek? key = some value
    rw [htable.peek?_eq]
    rcases hreq with rfl | rfl <;>
      · rw [Ranking.use, transcript_append]
        exact Ranking.peek?_insert_self _ key value
  · rintro earlier ⟨request, answer⟩ later key hsplit htouched hkept hgone
    obtain ⟨t, rfl, hrest⟩ := transcript_split (hlog.symm.trans hsplit)
    have hcap : (Ranking.serve t request).2.table.capacity = max capacity 1 := by
      rw [← Ranking.capacity_transcript _ (later.map Prod.fst), hrest]
      exact Ranking.capacity_transcript _ requests
    have hrun := Ranking.behind_transcript (Ranking.behind_of_touched htouched)
      (later.map Prod.fst) (by rw [hrest]; exact hkept)
    rw [hrest, hcap, List.nil_append] at hrun
    rcases hrun with ⟨keys, hbehind⟩ | hcrowded
    · exact absurd ((htable.peek?_eq key).symm.trans hgone) hbehind.peek?_ne_none
    · exact hcrowded

/-- Of two entries the one that was looked up stays, and the other makes room for a third. -/
theorem use_recency_evicts_unused :
    let requests : List (Request UInt32 UInt64) :=
      [.insert 1 10, .insert 2 20, .get 1, .insert 3 30]
    (RecencyTable.use 2 requests).2.table.peek? 2 = none ∧ Crowded 2 [1, 3] (2 : UInt32) := by
  intro requests
  obtain ⟨⟨hlog, -, hpeek, -⟩, -, hcrowded⟩ := use_recency 2 requests
  have hgone : (RecencyTable.use 2 requests).2.table.peek? 2 = none := (hpeek 2).trans rfl
  refine ⟨hgone, ?_⟩
  exact hcrowded [(.insert 1 10, .done)] (.insert 2 20, .done)
    [(.get 1, .value (some 10)), (.insert 3 30, .done)] 2 (hlog.trans rfl) rfl (by decide) hgone

end Use

end HookTrace.Store
