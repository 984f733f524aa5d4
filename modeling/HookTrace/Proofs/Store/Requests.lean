import HookTrace.Proofs.Store.Ranking

/-!
# HookTrace.Proofs.Store.Requests

Bounded tables in use. Requests come one after the other, and claims stay open between them for as
long as their holder likes.

`transcript_follows`: a recency table answers every sequence of requests as the ranking does that
keeps its entries in the order of their last touch.
-/

namespace HookTrace.Store

/-- What is asked of a table. Claims that are open are counted from zero, the oldest first. -/
inductive Request (κ ν : Type) where
  | insert (key : κ) (value : ν)
  | record (key : κ) (value : ν)
  | get (key : κ)
  | lookup (key : κ)
  | peek (key : κ)
  | delete (key : κ)
  | remove (key : κ)
  | take (key : κ)
  /-- Looks at an open claim. -/
  | claimed (i : Nat)
  | finish (i : Nat)

inductive Answer (κ ν : Type) where
  | done
  | refused (fault : Fault)
  | value (value : Option ν)
  | claim (claim : Option (Claim κ ν))

/-- A table and the claims on it that are open. -/
structure Session (T κ ν : Type) where
  table : T
  claims : List (Claim κ ν) := []

/-- Takes requests one after the other, and notes each with its answer. -/
def transcript {σ α β : Type} (serve : σ → α → β × σ) (s : σ) : List α → List (α × β) × σ
  | [] => ([], s)
  | a :: rest =>
    let (b, s) := serve s a
    let (log, s) := transcript serve s rest
    ((a, b) :: log, s)

section Serve

variable {κ ν : Type} [BEq κ]

/-- A recency table in use. -/
def RecencyTable.serve [Hashable κ] (s : Session (RecencyTable κ ν) κ ν) :
    Request κ ν → Answer κ ν × Session (RecencyTable κ ν) κ ν
  | .insert key value => (.done, { s with table := s.table.insert key value })
  | .record key value =>
    match KeyedTable.record s.table key value with
    | .ok table => (.done, { s with table })
    | .error fault => (.refused fault, s)
  | .get key =>
    let (value, table) := s.table.get? key
    (.value value, { s with table })
  | .lookup key =>
    let (value, table) := KeyedTable.lookup s.table key
    (.value value, { s with table })
  | .peek key => (.value (s.table.peek? key), s)
  | .delete key =>
    let (value, table) := s.table.erase key
    (.value value, { s with table })
  | .remove key => (.done, { s with table := KeyedTable.remove s.table key })
  | .take key =>
    let (claim, table) := KeyedTable.take s.table key
    (.claim claim, ⟨table, s.claims ++ claim.toList⟩)
  | .claimed i => (.claim s.claims[i]?, s)
  | .finish i =>
    match s.claims[i]? with
    | some claim => (.claim claim, ⟨KeyedTable.finish s.table claim, s.claims.eraseIdx i⟩)
    | none => (.claim none, s)

def Ranking.serve [LawfulBEq κ] (s : Session (Ranking κ ν) κ ν) :
    Request κ ν → Answer κ ν × Session (Ranking κ ν) κ ν
  | .insert key value | .record key value =>
    (.done, { s with table := s.table.insert key value })
  | .get key | .lookup key => (.value (s.table.peek? key), { s with table := (s.table.get? key).2 })
  | .peek key => (.value (s.table.peek? key), s)
  | .delete key => (.value (s.table.peek? key), { s with table := (s.table.erase key).2 })
  | .remove key => (.done, { s with table := (s.table.erase key).2 })
  | .take key =>
    let claim := (s.table.peek? key).map (Claim.mk key)
    (.claim claim, ⟨(s.table.get? key).2, s.claims ++ claim.toList⟩)
  | .claimed i => (.claim s.claims[i]?, s)
  | .finish i =>
    match s.claims[i]? with
    | some claim => (.claim claim, ⟨(s.table.erase claim.key).2, s.claims.eraseIdx i⟩)
    | none => (.claim none, s)

/-- All requests to a new table, with their answers, and what they leave. -/
def RecencyTable.use [Hashable κ] (capacity : Nat) (requests : List (Request κ ν)) :
    List (Request κ ν × Answer κ ν) × Session (RecencyTable κ ν) κ ν :=
  transcript RecencyTable.serve ⟨.empty capacity, []⟩ requests

def Ranking.use [LawfulBEq κ] (capacity : Nat) (requests : List (Request κ ν)) :
    List (Request κ ν × Answer κ ν) × Session (Ranking κ ν) κ ν :=
  transcript Ranking.serve ⟨.empty capacity, []⟩ requests

end Serve

section Transcript

variable {σ α β : Type} {serve : σ → α → β × σ}

theorem transcript_append (s : σ) (as bs : List α) :
    transcript serve s (as ++ bs) =
      ((transcript serve s as).1 ++ (transcript serve (transcript serve s as).2 bs).1,
        (transcript serve (transcript serve s as).2 bs).2) := by
  induction as generalizing s with
  | nil => rfl
  | cons a rest ih => simp only [List.cons_append, transcript, ih]

theorem map_fst_transcript (s : σ) (as : List α) : (transcript serve s as).1.map Prod.fst = as := by
  induction as generalizing s with
  | nil => rfl
  | cons a rest ih => simp only [transcript, List.map_cons, ih]

/-- What every request keeps, of the log so far and the state it has led to, a transcript keeps. -/
theorem transcript_keeps {inv : List (α × β) → σ → Prop}
    (hstep : ∀ {log s} a, inv log s → inv (log ++ [(a, (serve s a).1)]) (serve s a).2)
    {log : List (α × β)} {s : σ} (h : inv log s) (as : List α) :
    inv (log ++ (transcript serve s as).1) (transcript serve s as).2 := by
  induction as generalizing log s with
  | nil => simpa [transcript] using h
  | cons a rest ih => simpa [transcript] using ih (hstep a h)

/-- What answers alike at every request, from states that stay related, has one log. -/
theorem transcript_alike {τ : Type} {serve' : τ → α → β × τ} (related : σ → τ → Prop)
    (hstep : ∀ {s t} a, related s t →
      (serve s a).1 = (serve' t a).1 ∧ related (serve s a).2 (serve' t a).2)
    {s : σ} {t : τ} (h : related s t) (as : List α) :
    (transcript serve s as).1 = (transcript serve' t as).1 ∧
      related (transcript serve s as).2 (transcript serve' t as).2 := by
  induction as generalizing s t with
  | nil => exact ⟨rfl, h⟩
  | cons a rest ih =>
    obtain ⟨hanswer, hnext⟩ := hstep a h
    obtain ⟨hlog, hrest⟩ := ih hnext
    refine ⟨?_, hrest⟩
    simp only [transcript, hanswer, hlog]

/-- A transcript that is split tells the state at the split. -/
theorem transcript_split {s : σ} {as : List α} {earlier later : List (α × β)} {a : α} {b : β}
    (h : (transcript serve s as).1 = earlier ++ (a, b) :: later) :
    ∃ t, b = (serve t a).1 ∧
      transcript serve (serve t a).2 (later.map Prod.fst) = (later, (transcript serve s as).2) := by
  have has : as = earlier.map Prod.fst ++ a :: later.map Prod.fst := by
    have hmap : (transcript serve s as).1.map Prod.fst = as := map_fst_transcript s as
    rw [← hmap, h, List.map_append, List.map_cons]
  refine ⟨(transcript serve s (earlier.map Prod.fst)).2, ?_⟩
  rw [has, transcript_append] at h ⊢
  have hlen : (transcript serve s (earlier.map Prod.fst)).1.length = earlier.length := by
    rw [← List.length_map Prod.fst, map_fst_transcript, List.length_map]
  obtain ⟨-, htail⟩ := List.append_inj h hlen
  obtain ⟨hhead, hlater⟩ := List.cons_eq_cons.1 htail
  exact ⟨(congrArg Prod.snd hhead).symm, Prod.ext hlater rfl⟩

end Transcript

namespace RecencyTable

variable {κ ν : Type} [BEq κ] [Hashable κ] [LawfulBEq κ] [LawfulHashable κ]

/-- A table in use holds what a ranking in use holds, and the same claims are open. -/
structure Follows (s : Session (RecencyTable κ ν) κ ν) (r : Session (Ranking κ ν) κ ν) : Prop where
  table : s.table.Ranks r.table
  claims : s.claims = r.claims

theorem serve_follows {s : Session (RecencyTable κ ν) κ ν} {r : Session (Ranking κ ν) κ ν}
    (h : Follows s r) (request : Request κ ν) :
    (serve s request).1 = (Ranking.serve r request).1 ∧
      Follows (serve s request).2 (Ranking.serve r request).2 := by
  obtain ⟨table, claims⟩ := s
  obtain ⟨ranking, claims'⟩ := r
  obtain ⟨ht, rfl⟩ := h
  simp only at ht
  cases request with
  | insert key value => exact ⟨rfl, ht.insert key value, rfl⟩
  | record key value => exact ⟨rfl, ht.insert key value, rfl⟩
  | get key | lookup key =>
    obtain ⟨hvalue, hr⟩ := ht.get? key
    exact ⟨congrArg Answer.value hvalue, hr, rfl⟩
  | peek key => exact ⟨congrArg Answer.value (ht.peek?_eq key), ht, rfl⟩
  | delete key =>
    obtain ⟨hvalue, hr⟩ := ht.erase key
    exact ⟨congrArg Answer.value hvalue, hr, rfl⟩
  | remove key => exact ⟨rfl, (ht.erase key).2, rfl⟩
  | take key =>
    obtain ⟨hvalue, hr⟩ := ht.get? key
    have htake : KeyedTable.take table key =
        ((ranking.peek? key).map (Claim.mk key), (table.get? key).2) := by
      rw [KeyedTable.take_eq, ← hvalue]
      rfl
    simp only [serve, Ranking.serve, htake]
    exact ⟨trivial, hr, rfl⟩
  | claimed i => exact ⟨rfl, ht, rfl⟩
  | finish i =>
    simp only [serve, Ranking.serve]
    cases claims[i]? with
    | none => exact ⟨rfl, ht, rfl⟩
    | some claim => exact ⟨rfl, (ht.erase claim.key).2, rfl⟩

theorem transcript_follows {s : Session (RecencyTable κ ν) κ ν} {r : Session (Ranking κ ν) κ ν}
    (h : Follows s r) (requests : List (Request κ ν)) :
    (transcript serve s requests).1 = (transcript Ranking.serve r requests).1 ∧
      Follows (transcript serve s requests).2 (transcript Ranking.serve r requests).2 :=
  transcript_alike Follows (fun request h => serve_follows h request) h requests

end RecencyTable

end HookTrace.Store
