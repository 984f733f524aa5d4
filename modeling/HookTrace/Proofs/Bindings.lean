import HookTrace.Proofs.Hook
import HookTrace.Proofs.Store.Laws
import Mathlib.Data.Finset.Basic

/-!
# HookTrace.Proofs.Bindings

One hook, bound to two sets of stores. A hook knows of its stores no more than their classes say, so
that on stores which give the same answers it takes the same course.

* `Matching`: when two sets of stores count as the same, a relation for each kind of store.
  `TablesMatch` and `SinksMatch` are what such a relation has to keep.
* `Hook.Agree`: bound to stores that match, a hook ends alike and leaves stores that match. It is
  closed under everything hooks are made of, so that for a hook it is read off the hook's text.
* `RoomLaws.tablesMatch`: two tables with room match if they have the same entries.
-/

namespace HookTrace

open Store

variable {P K S P' K' S' α β κ ν ρ : Type}

structure Matching (P K S P' K' S' : Type) where
  pending : P → P' → Prop
  known : K → K' → Prop
  events : S → S' → Prop

/-- Stores that match. Their logs need not. -/
structure Matching.Holds (m : Matching P K S P' K' S') (s : Stores P K S) (s' : Stores P' K' S') :
    Prop where
  pending : m.pending s.pending s'.pending
  known : m.known s.known s'.known
  events : m.events s.events s'.events

/-- What two tables answer to the same request to store: both grant it, or both refuse it for the
same reason. -/
def AnswersMatch {T T' : Type} (R : T → T' → Prop) : Except Fault T → Except Fault T' → Prop
  | .ok table, .ok table' => R table table'
  | .error fault, .error fault' => fault = fault'
  | _, _ => False

/-- A relation of tables that is kept by every request, where entries are stored for `keys` only. -/
structure TablesMatch {T T' : Type} [KeyedTable T κ ν] [KeyedTable T' κ ν] (keys : Set κ)
    (R : T → T' → Prop) : Prop where
  fst_lookup : ∀ {table table'} (key : κ), R table table' →
    (KeyedTable.lookup table key).1 = (KeyedTable.lookup table' key).1
  snd_lookup : ∀ {table table'} (key : κ), R table table' →
    R (KeyedTable.lookup table key).2 (KeyedTable.lookup table' key).2
  found : ∀ {table table'} {key : κ} {value : ν}, R table table' →
    (KeyedTable.lookup table key).1 = some value → key ∈ keys
  record : ∀ {table table'} {key : κ} (value : ν), R table table' → key ∈ keys →
    AnswersMatch R (KeyedTable.record table key value) (KeyedTable.record table' key value)
  remove : ∀ {table table'} (key : κ), R table table' →
    R (KeyedTable.remove table key) (KeyedTable.remove table' key)

/-- A relation of channels that is kept by a reservation on `cpu` once it is resolved. -/
structure SinksMatch [RecordSink S ρ] [RecordSink S' ρ] (R : S → S' → Prop) (cpu : Nat) : Prop where
  reserve_eq_none : ∀ {sink sink'}, R sink sink' →
    (RecordSink.reserve sink cpu = none ↔ RecordSink.reserve sink' cpu = none)
  record_eq : ∀ {sink sink' slot slot' held held'}, R sink sink' →
    RecordSink.reserve sink cpu = some (slot, held) →
    RecordSink.reserve sink' cpu = some (slot', held') → slot.record = slot'.record
  commit : ∀ {sink sink' slot slot' held held'} (record : ρ), R sink sink' →
    RecordSink.reserve sink cpu = some (slot, held) →
    RecordSink.reserve sink' cpu = some (slot', held') →
    R (RecordSink.commit held { slot with record }).1
      (RecordSink.commit held' { slot' with record }).1
  release : ∀ {sink sink' slot slot' held held'}, R sink sink' →
    RecordSink.reserve sink cpu = some (slot, held) →
    RecordSink.reserve sink' cpu = some (slot', held') →
    R (RecordSink.release held slot) (RecordSink.release held' slot')

theorem tablesMatch_eq {T : Type} [KeyedTable T κ ν] :
    TablesMatch (Set.univ : Set κ) (fun table table' : T => table = table') where
  fst_lookup := by
    rintro _ _ key rfl
    rfl
  snd_lookup := by
    rintro _ _ key rfl
    rfl
  found _ _ := Set.mem_univ _
  record := by
    rintro table _ key value rfl _
    cases KeyedTable.record table key value <;> exact rfl
  remove := by
    rintro _ _ key rfl
    rfl

namespace Store.RoomLaws

variable {T T' : Type} [KeyedTable T κ ν] [KeyedTable T' κ ν] {keys : Finset κ}

/-- Two tables with room for the same keys and with the same entries. -/
structure Alike (laws : RoomLaws T keys) (laws' : RoomLaws T' keys) (table : T) (table' : T') :
    Prop where
  valid : laws.Valid table
  valid' : laws'.Valid table'
  entry_eq : ∀ key, laws.entry table key = laws'.entry table' key

theorem tablesMatch (laws : RoomLaws T keys) (laws' : RoomLaws T' keys) :
    TablesMatch (keys : Set κ) (laws.Alike laws') where
  fst_lookup key h := by
    rw [laws.lookup_eq key h.valid, laws'.lookup_eq key h.valid', h.entry_eq]
  snd_lookup key h := by
    refine ⟨laws.valid_lookup key h.valid, laws'.valid_lookup key h.valid', fun other => ?_⟩
    rw [laws.entry_lookup key other h.valid, laws'.entry_lookup key other h.valid', h.entry_eq]
  found h hfound := by
    rw [laws.lookup_eq _ h.valid] at hfound
    exact laws.mem h.valid hfound
  record {_ _ key} value h hk := by
    obtain ⟨table, hrecord, hvalid, hself, hothers⟩ := laws.record value h.valid hk
    obtain ⟨table', hrecord', hvalid', hself', hothers'⟩ := laws'.record value h.valid' hk
    rw [hrecord, hrecord']
    refine ⟨hvalid, hvalid', fun other => ?_⟩
    by_cases hother : other = key
    · rw [hother, hself, hself']
    · rw [hothers other hother, hothers' other hother, h.entry_eq]
  remove key h := by
    refine ⟨laws.valid_remove key h.valid, laws'.valid_remove key h.valid', fun other => ?_⟩
    by_cases hother : other = key
    · rw [hother, laws.entry_remove_self key h.valid, laws'.entry_remove_self key h.valid']
    · rw [laws.entry_remove_of_ne h.valid hother, laws'.entry_remove_of_ne h.valid' hother,
        h.entry_eq]

end Store.RoomLaws

namespace Hook

/-! ### Outcomes along the steps of a hook -/

theorem outcome_bind (hook : Hook P K S α) (f : α → Hook P K S β) (s : Stores P K S) :
    (hook >>= f).outcome s =
      match hook.outcome s with
      | (.ok a, s') => (f a).outcome s'
      | (.error fault, s') => (.error fault, s') := by
  unfold outcome
  simp only [bind, EStateM.bind]
  cases hook s <;> rfl

theorem outcome_leave [KeyedTable P κ ν] (key : κ) (value : ν) (s : Stores P K S) :
    (leave key value).outcome s =
      match KeyedTable.record s.pending key value with
      | .ok pending => (.ok (), { s with pending })
      | .error fault => (.error fault, s) := by
  obtain ⟨pending, known, events, notices⟩ := s
  unfold outcome leave
  simp only
  cases KeyedTable.record pending key value <;> rfl

theorem outcome_learn [KeyedTable K κ ν] (key : κ) (value : ν) (s : Stores P K S) :
    (learn key value).outcome s =
      match KeyedTable.record s.known key value with
      | .ok known => (.ok (), { s with known })
      | .error fault => (.error fault, s) := by
  obtain ⟨pending, known, events, notices⟩ := s
  unfold outcome learn
  simp only
  cases KeyedTable.record known key value <;> rfl

theorem outcome_claim [KeyedTable P κ ν] (key : κ) (body : ν → Hook P K S Unit)
    (s : Stores P K S) : (claim key body).outcome s =
      match KeyedTable.lookup s.pending key with
      | (none, pending) => (.ok (), { s with pending })
      | (some value, pending) =>
        let (answer, s) := (body value).outcome { s with pending }
        (answer, { s with pending := KeyedTable.remove s.pending key }) := by
  obtain ⟨pending, known, events, notices⟩ := s
  have htake : (take key : Hook P K S _) ⟨pending, known, events, notices⟩ =
      .ok ((KeyedTable.lookup pending key).1.map (Claim.mk key))
        ⟨(KeyedTable.lookup pending key).2, known, events, notices⟩ := by
    simp only [take, KeyedTable.take_eq]
  unfold claim outcome
  simp only [bind, EStateM.bind, htake]
  cases KeyedTable.lookup pending key with
  | mk found pending =>
    cases found with
    | none => rfl
    | some value =>
      simp only [Option.map_some, tryFinally, Functor.map, EStateM.map, tryFinally']
      cases body value ⟨pending, known, events, notices⟩ <;> rfl

theorem outcome_emit [RecordSink S ρ] (cpu : Nat) (op : String)
    (body : ρ → Hook P K S (Option ρ)) (s : Stores P K S) :
    (emit cpu op body).outcome s =
      match RecordSink.reserve s.events cpu with
      | none =>
        (.error (.outOfSpace op), { s with notices := s.notices ++ RecordSink.refusal s.events })
      | some (slot, events) =>
        match (body slot.record).outcome { s with events } with
        | (.ok (some record), s) =>
          (.ok (), { s with
            events := (RecordSink.commit s.events { slot with record }).1
            notices := s.notices ++ (RecordSink.commit s.events { slot with record }).2 })
        | (.ok none, s) => (.ok (), { s with events := RecordSink.release s.events slot })
        | (.error fault, s) =>
          (.error fault, { s with events := RecordSink.release s.events slot }) := by
  unfold emit outcome
  simp only
  cases RecordSink.reserve s.events cpu with
  | none => rfl
  | some reserved =>
    obtain ⟨slot, events⟩ := reserved
    simp only
    cases body slot.record { s with events } with
    | ok record? s => cases record? <;> rfl
    | error fault s => rfl

/-! ### Agreement -/

/-- Bound to stores that match, the hooks end alike and leave stores that match. -/
def Agree (m : Matching P K S P' K' S') (hook : Hook P K S α) (hook' : Hook P' K' S' α) : Prop :=
  ∀ s s', m.Holds s s' →
    (hook.outcome s).1 = (hook'.outcome s').1 ∧ m.Holds (hook.after s) (hook'.after s')

variable {m : Matching P K S P' K' S'}

theorem agree_pure (a : α) : Agree m (pure a) (pure a) :=
  fun _ _ h => ⟨rfl, h⟩

theorem Agree.bind {hook : Hook P K S α} {hook' : Hook P' K' S' α} {f : α → Hook P K S β}
    {f' : α → Hook P' K' S' β} (h : Agree m hook hook') (hf : ∀ a, Agree m (f a) (f' a)) :
    Agree m (hook >>= f) (hook' >>= f') := by
  intro s s' hs
  obtain ⟨hanswer, hafter⟩ := h s s' hs
  unfold after at hafter ⊢
  rw [outcome_bind, outcome_bind]
  rcases hr : hook.outcome s with ⟨answer, t⟩
  rcases hr' : hook'.outcome s' with ⟨answer', t'⟩
  rw [hr, hr'] at hanswer hafter
  cases hanswer
  cases answer with
  | error fault => exact ⟨rfl, hafter⟩
  | ok a => exact hf a t t' hafter

/-- A hook asks the task or the memory, which is the same on both sides. -/
theorem Agree.ask (answer : Except Fault α) {f : α → Hook P K S β} {f' : α → Hook P' K' S' β}
    (hf : ∀ a, answer = .ok a → Agree m (f a) (f' a)) :
    Agree m ((liftM answer : Hook P K S α) >>= f) ((liftM answer : Hook P' K' S' α) >>= f') := by
  cases answer with
  | ok a => exact hf a rfl
  | error fault => exact fun _ _ h => ⟨rfl, h⟩

theorem Agree.ite {c : Prop} [Decidable c] {hook₁ hook₂ : Hook P K S α}
    {hook₁' hook₂' : Hook P' K' S' α} (h₁ : c → Agree m hook₁ hook₁')
    (h₂ : ¬ c → Agree m hook₂ hook₂') :
    Agree m (if c then hook₁ else hook₂) (if c then hook₁' else hook₂') := by
  split
  · exact h₁ ‹_›
  · exact h₂ ‹_›

section Tables

variable {keys : Set κ}

theorem agree_leave [KeyedTable P κ ν] [KeyedTable P' κ ν] (hp : TablesMatch keys m.pending)
    {key : κ} (hk : key ∈ keys) (value : ν) : Agree m (leave key value) (leave key value) := by
  intro s s' h
  have hrecord := hp.record value h.pending hk
  unfold after
  rw [outcome_leave, outcome_leave]
  cases hr : KeyedTable.record s.pending key value <;>
    cases hr' : KeyedTable.record s'.pending key value <;> rw [hr, hr'] at hrecord
  case error.error => exact ⟨congrArg _ hrecord, h⟩
  case ok.ok => exact ⟨rfl, hrecord, h.known, h.events⟩
  all_goals exact hrecord.elim

theorem agree_learn [KeyedTable K κ ν] [KeyedTable K' κ ν] (hk : TablesMatch keys m.known)
    {key : κ} (hkey : key ∈ keys) (value : ν) : Agree m (learn key value) (learn key value) := by
  intro s s' h
  have hrecord := hk.record value h.known hkey
  unfold after
  rw [outcome_learn, outcome_learn]
  cases hr : KeyedTable.record s.known key value <;>
    cases hr' : KeyedTable.record s'.known key value <;> rw [hr, hr'] at hrecord
  case error.error => exact ⟨congrArg _ hrecord, h⟩
  case ok.ok => exact ⟨rfl, h.pending, hrecord, h.events⟩
  all_goals exact hrecord.elim

theorem agree_unlearn [KeyedTable K κ ν] [KeyedTable K' κ ν] (hk : TablesMatch keys m.known)
    (key : κ) : Agree m (unlearn key) (unlearn key) :=
  fun _ _ h => ⟨rfl, h.pending, hk.remove key h.known, h.events⟩

/-- What is found is the same, and it is found under one of the keys. -/
theorem Agree.known? [KeyedTable K κ ν] [KeyedTable K' κ ν] (hk : TablesMatch keys m.known)
    (key : κ) {f : Option ν → Hook P K S α} {f' : Option ν → Hook P' K' S' α}
    (hnone : Agree m (f none) (f' none))
    (hsome : ∀ value, key ∈ keys → Agree m (f (some value)) (f' (some value))) :
    Agree m (known? key >>= f) (known? key >>= f') := by
  intro s s' h
  have hlookup := hk.fst_lookup key h.known
  have hs : m.Holds { s with known := (KeyedTable.lookup s.known key).2 }
      { s' with known := (KeyedTable.lookup s'.known key).2 } :=
    ⟨h.pending, hk.snd_lookup key h.known, h.events⟩
  show ((f (KeyedTable.lookup s.known key).1).outcome _).1 =
      ((f' (KeyedTable.lookup s'.known key).1).outcome _).1 ∧ m.Holds _ _
  rw [after_known?_bind, after_known?_bind, ← hlookup]
  cases hfound : (KeyedTable.lookup s.known key).1 with
  | none => exact hnone _ _ hs
  | some value => exact hsome value (hk.found h.known hfound) _ _ hs

theorem Agree.claim [KeyedTable P κ ν] [KeyedTable P' κ ν] (hp : TablesMatch keys m.pending)
    (key : κ) {body : ν → Hook P K S Unit} {body' : ν → Hook P' K' S' Unit}
    (hbody : ∀ value, Agree m (body value) (body' value)) :
    Agree m (claim key body) (claim key body') := by
  intro s s' h
  have hlookup := hp.fst_lookup key h.pending
  have hs : m.Holds { s with pending := (KeyedTable.lookup s.pending key).2 }
      { s' with pending := (KeyedTable.lookup s'.pending key).2 } :=
    ⟨hp.snd_lookup key h.pending, h.known, h.events⟩
  unfold after
  rw [outcome_claim, outcome_claim]
  rcases hl : KeyedTable.lookup s.pending key with ⟨found, pending⟩
  rcases hl' : KeyedTable.lookup s'.pending key with ⟨found', pending'⟩
  rw [hl, hl'] at hlookup hs
  cases hlookup
  cases found with
  | none => exact ⟨rfl, hs⟩
  | some value =>
    obtain ⟨hanswer, hafter⟩ := hbody value _ _ hs
    exact ⟨hanswer, hp.remove key hafter.pending, hafter.known, hafter.events⟩

end Tables

/-- Between a reservation and its end the channels are nobody's business, so that the body has to
agree whatever they are. -/
theorem Agree.emit [RecordSink S ρ] [RecordSink S' ρ] {cpu : Nat} (hsink : SinksMatch m.events cpu)
    {op : String} {body : ρ → Hook P K S (Option ρ)} {body' : ρ → Hook P' K' S' (Option ρ)}
    (hbody : ∀ (R : S → S' → Prop) blank,
      Agree { m with events := R } (body blank) (body' blank)) :
    Agree m (emit cpu op body) (emit cpu op body') := by
  intro s s' h
  have hnone := hsink.reserve_eq_none h.events
  unfold after
  rw [outcome_emit, outcome_emit]
  cases hr : RecordSink.reserve s.events cpu with
  | none =>
    rw [hnone.1 hr]
    exact ⟨rfl, h.pending, h.known, h.events⟩
  | some reserved =>
    cases hr' : RecordSink.reserve s'.events cpu with
    | none => simp [hnone.2 hr'] at hr
    | some reserved' =>
      obtain ⟨slot, held⟩ := reserved
      obtain ⟨slot', held'⟩ := reserved'
      have hblank := hsink.record_eq h.events hr hr'
      obtain ⟨hanswer, hafter⟩ := hbody (fun e e' => e = held ∧ e' = held') slot.record
        { s with events := held } { s' with events := held' } ⟨h.pending, h.known, rfl, rfl⟩
      unfold after at hafter
      simp only [← hblank]
      rcases ho : (body slot.record).outcome { s with events := held } with ⟨answer, t⟩
      rcases ho' : (body' slot.record).outcome { s' with events := held' } with ⟨answer', t'⟩
      rw [ho, ho'] at hanswer hafter
      cases hanswer
      obtain ⟨hpending, hknown, rfl, rfl⟩ := hafter
      cases answer with
      | error fault => exact ⟨rfl, hpending, hknown, hsink.release h.events hr hr'⟩
      | ok record? =>
        cases record? with
        | none => exact ⟨rfl, hpending, hknown, hsink.release h.events hr hr'⟩
        | some record => exact ⟨rfl, hpending, hknown, hsink.commit record h.events hr hr'⟩

end Hook

end HookTrace
