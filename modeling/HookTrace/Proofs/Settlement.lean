import HookTrace.Proofs.Store.Journal

/-!
# HookTrace.Proofs.Settlement

What becomes of the reservation of an exit hook. Such a hook leaves its channel alone, or it reserves
room for one record and fills it in (`Filling`). The filling says all that the channel gets to know:
`Hook.Settles` is read off a hook's text, for any channel, and so for one with a journal and for the
one below it.

`RecordSink.handed` is what is handed over in the end. It goes by the filling, and by whether the
channel has room; a record that was in the room before has no part in it, since every record is
reserved as zeros (`RecordSink.Clears`).
-/

namespace HookTrace

open Store

variable {P K S α κ ν ρ : Type}

/-- What is made of a record that was reserved: it is completed, or given up, or something that has
to be asked for it is not answered. -/
abbrev Filling (ρ : Type) := ρ → Except Fault (Option ρ)

/-- The record that comes out of a blank one. -/
def Filling.record? [Layout ρ] (fill : Filling ρ) : Option ρ :=
  (fill Layout.zero).toOption.join

namespace RecordSink

variable [RecordSink S ρ] {sink : S} {cpu : Nat}

/-- A channel after room on `cpu` was filled in. Without a filling no room is asked for. -/
def settled (sink : S) (cpu : Nat) : Option (Filling ρ) → S
  | none => sink
  | some fill =>
    match reserve sink cpu with
    | none => sink
    | some (slot, held) =>
      match fill slot.record with
      | .ok (some record) => (commit held { slot with record }).1
      | .ok none => release held slot
      | .error _ => release held slot

/-- Whether there is room for a record on `cpu`. -/
def HasRoom (sink : S) (cpu : Nat) : Prop :=
  (reserve sink cpu).isSome

instance (sink : S) (cpu : Nat) : Decidable (HasRoom sink cpu) :=
  inferInstanceAs (Decidable ((reserve sink cpu).isSome = true))

theorem hasRoom_of_reserve {slot : Slot ρ} {held : S} (h : reserve sink cpu = some (slot, held)) :
    HasRoom sink cpu :=
  (congrArg Option.isSome h).trans rfl

theorem not_hasRoom_of_reserve (h : reserve sink cpu = none) : ¬ HasRoom sink cpu :=
  fun hroom => Bool.false_ne_true ((congrArg Option.isSome h).symm.trans hroom)

theorem settled_of_none (h : reserve sink cpu = none) (filling? : Option (Filling ρ)) :
    settled sink cpu filling? = sink := by
  cases filling? with
  | none => rfl
  | some fill => rw [settled, h]

variable [Layout ρ]

/-- Whatever was in it before, a record is reserved as zeros. -/
def Clears (S : Type) {ρ : Type} [Layout ρ] [RecordSink S ρ] : Prop :=
  ∀ (sink : S) (cpu : Nat) (slot : Slot ρ) (held : S), reserve sink cpu = some (slot, held) →
    slot = ⟨cpu, Layout.zero⟩

/-- What is handed over, with the processor it is filled in on. -/
def handed (sink : S) (cpu : Nat) (filling? : Option (Filling ρ)) : List (Nat × ρ) :=
  if HasRoom sink cpu then (filling?.bind Filling.record?).toList.map fun record => (cpu, record)
  else []

/-- What is handed over goes by whether there is room, and by nothing else of the channel. -/
theorem handed_congr {sink' : S} (h : HasRoom sink' cpu ↔ HasRoom sink cpu)
    (filling? : Option (Filling ρ)) : handed sink' cpu filling? = handed sink cpu filling? := by
  unfold handed
  by_cases hroom : HasRoom sink cpu
  · rw [if_pos hroom, if_pos (h.2 hroom)]
  · rw [if_neg hroom, if_neg fun hroom' => hroom (h.1 hroom')]

theorem record?_of_mem_handed {filling? : Option (Filling ρ)} {e : Nat × ρ}
    (h : e ∈ handed sink cpu filling?) : filling?.bind Filling.record? = some e.2 := by
  unfold handed at h
  split at h
  · obtain ⟨record, hrecord, rfl⟩ := List.mem_map.1 h
    exact Option.mem_toList.1 hrecord
  · cases h

theorem mem_handed {filling? : Option (Filling ρ)} {e : Nat × ρ}
    (h : e ∈ handed sink cpu filling?) :
    ∃ fill, filling? = some fill ∧ fill Layout.zero = .ok (some e.2) := by
  obtain ⟨fill, rfl, hfill⟩ := Option.bind_eq_some_iff.1 (record?_of_mem_handed h)
  refine ⟨fill, rfl, ?_⟩
  unfold Filling.record? at hfill
  cases hanswer : fill Layout.zero with
  | error fault => simp [hanswer, Except.toOption] at hfill
  | ok record? => simp_all [Except.toOption]

end RecordSink

open RecordSink

/-! ### Channels -/

namespace Store

theorem PerCpuOutput.clears [Layout ρ] : Clears (PerCpuOutput ρ) := by
  intro output cpu slot held h
  have h : output.reserve cpu = some (slot, held) := h
  by_cases hfree : output.staging.Free cpu
  · obtain ⟨staging, hreserve, -⟩ := reserve_of_free hfree
    cases hreserve.symm.trans h
    rfl
  · cases (reserve_of_not_free hfree).symm.trans h

/-- An output gets what is handed over, and nothing else. -/
theorem PerCpuOutput.channel_settled [Layout ρ] (output : PerCpuOutput ρ) (cpu : Nat)
    (filling? : Option (Filling ρ)) : (settled output cpu filling?).channel =
      output.channel.outputs (handed output cpu filling?) := by
  cases hreserve : RecordSink.reserve output cpu with
  | none =>
    rw [settled_of_none hreserve, handed, if_neg (not_hasRoom_of_reserve hreserve)]
    rfl
  | some reserved =>
    obtain ⟨slot, held⟩ := reserved
    have hroom := hasRoom_of_reserve hreserve
    have hchannel : held.channel = output.channel := channel_reserve hreserve
    obtain rfl := clears output cpu slot held hreserve
    cases filling? with
    | none =>
      rw [handed, if_pos hroom]
      rfl
    | some fill =>
      rw [settled, hreserve, handed, if_pos hroom, Option.bind_some, Filling.record?]
      simp only
      cases fill Layout.zero with
      | error fault => exact hchannel
      | ok record? =>
        cases record? with
        | none => exact hchannel
        | some record => exact congrArg (fun queues => (queues.output cpu record).1) hchannel

theorem PerCpuOutput.hasRoom_iff [Layout ρ] {output : PerCpuOutput ρ} {n cpu : Nat}
    (h : output.staging.Idle n) : HasRoom output cpu ↔ cpu < n := by
  have hnone : RecordSink.reserve output cpu = none ↔ n ≤ cpu := reserve_eq_none_iff h
  unfold HasRoom
  rw [Option.isSome_iff_ne_none, Ne, hnone, Nat.not_le]

theorem PerCpuOutput.handed_of_idle [Layout ρ] {output : PerCpuOutput ρ} {n : Nat}
    (h : output.staging.Idle n) (cpu : Nat) (filling? : Option (Filling ρ)) :
    handed output cpu filling? =
      if cpu < n then (filling?.bind Filling.record?).toList.map fun record => (cpu, record)
      else [] := by
  unfold handed
  exact if_congr (hasRoom_iff h) rfl rfl

/-- A staging record that was filled in can be reserved again. -/
theorem PerCpuOutput.idle_settled [Layout ρ] {output : PerCpuOutput ρ} {n : Nat}
    (h : output.staging.Idle n) (cpu : Nat) (filling? : Option (Filling ρ)) :
    (settled output cpu filling?).staging.Idle n := by
  cases filling? with
  | none => exact h
  | some fill =>
    cases hreserve : RecordSink.reserve output cpu with
    | none =>
      rw [settled_of_none hreserve]
      exact h
    | some reserved =>
      obtain ⟨slot, held⟩ := reserved
      obtain ⟨rfl, hback⟩ := reserve_eq_some h hreserve
      rw [settled, hreserve]
      simp only
      cases fill Layout.zero with
      | error fault => exact hback _
      | ok record? => cases record? <;> exact hback _

/-- How a reservation is resolved, by what was made of the record. -/
def Deed.resolution (cpu : Nat) : Except Fault (Option ρ) → Deed ρ
  | .ok (some record) => .submitted cpu record
  | .ok none => .discarded cpu
  | .error _ => .discarded cpu

namespace Journal

variable [RecordSink S ρ] {cpu : Nat} {slot : Slot ρ} {held : S}

/-- A reservation on a channel with a journal is followed by its resolution. -/
theorem deeds_settled (journal : Journal S ρ)
    (h : RecordSink.reserve journal.sink cpu = some (slot, held)) (fill : Filling ρ) :
    (settled journal cpu (some fill)).deeds =
      journal.deeds ++ [.reserved cpu, .resolution slot.cpu (fill slot.record)] := by
  have hjournal : RecordSink.reserve journal cpu =
      some (slot, ⟨held, journal.deeds ++ [.reserved cpu]⟩) := congrArg (Option.map _) h
  have hdeeds : (settled journal cpu (some fill)).deeds =
      journal.deeds ++ [.reserved cpu] ++ [.resolution slot.cpu (fill slot.record)] := by
    rw [settled, hjournal]
    simp only
    cases fill slot.record with
    | error fault => rfl
    | ok record? => cases record? <;> rfl
  rw [hdeeds, List.append_assoc]
  rfl

/-- What the journal has down as submitted is what is handed over. -/
theorem submissions_settled [Layout ρ] (hclears : Clears S) (sink : S) (cpu : Nat)
    (filling? : Option (Filling ρ)) :
    (settled (⟨sink, []⟩ : Journal S ρ) cpu filling?).submissions = handed sink cpu filling? := by
  cases hreserve : RecordSink.reserve sink cpu with
  | none =>
    have hjournal : RecordSink.reserve (⟨sink, []⟩ : Journal S ρ) cpu = none :=
      reserve_eq_none_iff.2 hreserve
    rw [settled_of_none hjournal, handed, if_neg (not_hasRoom_of_reserve hreserve)]
    rfl
  | some reserved =>
    obtain ⟨slot, held⟩ := reserved
    have hroom := hasRoom_of_reserve hreserve
    obtain rfl := hclears sink cpu slot held hreserve
    cases filling? with
    | none =>
      rw [handed, if_pos hroom]
      rfl
    | some fill =>
      have hdeeds := deeds_settled ⟨sink, []⟩ hreserve fill
      rw [submissions, hdeeds, handed, if_pos hroom, Option.bind_some, Filling.record?]
      cases fill Layout.zero with
      | error fault => rfl
      | ok record? => cases record? <;> rfl

end Journal

end Store

/-! ### Hooks -/

namespace Hook

/-- The hook ends with `answer`, and does not touch the channel on the way. -/
def Answers (hook : Hook P K S α) (s : Stores P K S) (answer : Except Fault α) : Prop :=
  ∃ t, hook.outcome s = (answer, t) ∧ t.events = s.events

section Rules

variable {β : Type} {s : Stores P K S}

theorem answers_pure (a : α) : (pure a : Hook P K S α).Answers s (.ok a) :=
  ⟨s, rfl, rfl⟩

theorem Answers.ask (asked : Except Fault α) {f : α → Hook P K S β} {answer : α → Except Fault β}
    (h : ∀ a, asked = .ok a → (f a).Answers s (answer a)) :
    ((liftM asked : Hook P K S α) >>= f).Answers s (asked >>= answer) := by
  cases asked with
  | ok a => exact h a rfl
  | error fault => exact ⟨s, rfl, rfl⟩

theorem Answers.bind {hook : Hook P K S α} {f : α → Hook P K S β} {a : α} {answer : Except Fault β}
    (h : hook.Answers s (.ok a)) (hf : ∀ t, (f a).Answers t answer) :
    (hook >>= f).Answers s answer := by
  obtain ⟨t, hhook, ht⟩ := h
  obtain ⟨u, hanswer, hu⟩ := hf t
  refine ⟨u, ?_, hu.trans ht⟩
  rw [outcome_bind, hhook]
  exact hanswer

theorem Answers.ite {c : Prop} [Decidable c] {hook₁ hook₂ : Hook P K S α} {answer : Except Fault α}
    (h₁ : c → hook₁.Answers s answer) (h₂ : ¬ c → hook₂.Answers s answer) :
    (if c then hook₁ else hook₂).Answers s answer := by
  split
  · exact h₁ ‹_›
  · exact h₂ ‹_›

end Rules

/-- On a channel the hook does what `filling?` says, if there is one: it fills in a record on `cpu`,
once. -/
def Settles [RecordSink S ρ] (hook : Hook P K S α) (s : Stores P K S) (cpu : Nat)
    (filling? : Option (Filling ρ)) : Prop :=
  (hook.after s).events = settled s.events cpu filling?

section Rules

variable [RecordSink S ρ] {s : Stores P K S} {cpu : Nat}

theorem settles_pure (a : α) : (pure a : Hook P K S α).Settles s cpu none := rfl

theorem Settles.ask {β : Type} (answer : Except Fault α) {f : α → Hook P K S β}
    {filling? : α → Option (Filling ρ)}
    (h : ∀ a, answer = .ok a → (f a).Settles s cpu (filling? a)) :
    ((liftM answer : Hook P K S α) >>= f).Settles s cpu (answer.toOption.bind filling?) := by
  cases answer with
  | ok a => exact h a rfl
  | error fault => rfl

theorem Settles.ite {c : Prop} [Decidable c] {hook₁ hook₂ : Hook P K S α}
    {filling₁? filling₂? : Option (Filling ρ)} (h₁ : c → hook₁.Settles s cpu filling₁?)
    (h₂ : ¬ c → hook₂.Settles s cpu filling₂?) :
    (if c then hook₁ else hook₂).Settles s cpu (if c then filling₁? else filling₂?) := by
  split
  · exact h₁ ‹_›
  · exact h₂ ‹_›

theorem Settles.claim [KeyedTable P κ ν] (key : κ) {body : ν → Hook P K S Unit}
    {filling? : ν → Option (Filling ρ)}
    (h : ∀ value, (body value).Settles { s with pending := (KeyedTable.lookup s.pending key).2 }
      cpu (filling? value)) :
    (Hook.claim key body).Settles s cpu
      ((KeyedTable.lookup s.pending key).1.bind filling?) := by
  unfold Settles at h ⊢
  rw [after_claim]
  rcases hl : KeyedTable.lookup s.pending key with ⟨found, pending⟩
  cases found with
  | none => rfl
  | some value =>
    rw [hl] at h
    exact h value

theorem Settles.known? [KeyedTable K κ ν] (key : κ) {f : Option ν → Hook P K S α}
    (filling? : Option ν → Option (Filling ρ))
    (h : ∀ value?, (f value?).Settles { s with known := (KeyedTable.lookup s.known key).2 }
      cpu (filling? value?)) :
    (Hook.known? key >>= f).Settles s cpu (filling? (KeyedTable.lookup s.known key).1) := by
  unfold Settles
  rw [after_known?_bind]
  exact h _

theorem settles_emit {op : String} {body : ρ → Hook P K S (Option ρ)} {fill : Filling ρ}
    (h : ∀ slot held, RecordSink.reserve s.events cpu = some (slot, held) →
      (body slot.record).Answers { s with events := held } (fill slot.record)) :
    (emit cpu op body).Settles s cpu (some fill) := by
  unfold Settles after
  rw [outcome_emit, settled]
  cases hreserve : RecordSink.reserve s.events cpu with
  | none => rfl
  | some reserved =>
    obtain ⟨slot, held⟩ := reserved
    obtain ⟨t, hbody, ht⟩ := h slot held hreserve
    simp only [hbody]
    cases fill slot.record with
    | error fault => exact congrArg (RecordSink.release · slot) ht
    | ok record? =>
      cases record? with
      | none => exact congrArg (RecordSink.release · slot) ht
      | some record =>
        exact congrArg (fun held => (RecordSink.commit held { slot with record }).1) ht

/-- Most records are filled in without the stores. -/
theorem settles_emit_pure (op : String) (fill : ρ → Except Fault ρ) :
    (emit cpu op fun blank => do return some (← fill blank) : Hook P K S Unit).Settles s cpu
      (some fun blank => do return some (← fill blank)) :=
  settles_emit fun _ _ _ => .ask _ fun record _ => answers_pure (some record)

end Rules

/-- A reservation on a channel with a journal is followed by its resolution. -/
theorem deeds_emit [RecordSink S ρ] {cpu : Nat} {op : String}
    {body : ρ → Hook P K (Journal S ρ) (Option ρ)} {s t : Stores P K (Journal S ρ)} {slot : Slot ρ}
    {held : S} {answer : Except Fault (Option ρ)}
    (hreserve : RecordSink.reserve s.events.sink cpu = some (slot, held))
    (hbody : (body slot.record).outcome
      { s with events := ⟨held, s.events.deeds ++ [.reserved cpu]⟩ } = (answer, t))
    (ht : t.events = ⟨held, s.events.deeds ++ [.reserved cpu]⟩) :
    ((Hook.emit cpu op body).after s).events.deeds =
      s.events.deeds ++ [.reserved cpu, .resolution slot.cpu answer] := by
  have hsettles : (Hook.emit cpu op body).Settles s cpu (some fun _ => answer) := by
    refine settles_emit fun slot' held' h => ⟨t, ?_, ?_⟩
    all_goals
      cases (congrArg (Option.map _) hreserve).symm.trans h
      assumption
  rw [show _ = _ from hsettles]
  exact Journal.deeds_settled s.events hreserve _

theorem submits_of_settles [Layout ρ] [RecordSink S ρ] (hclears : Clears S)
    {hook : Hook P K (Journal S ρ) Unit} {s : Stores P K S} {cpu : Nat}
    {filling? : Option (Filling ρ)}
    (h : hook.Settles ⟨s.pending, s.known, ⟨s.events, []⟩, s.notices⟩ cpu filling?) :
    hook.submits s = handed s.events cpu filling? :=
  (congrArg Journal.submissions h).trans
    (Journal.submissions_settled hclears s.events cpu filling?)

theorem channel_of_settles [Layout ρ] {hook : Hook P K (PerCpuOutput ρ) Unit}
    {s : Stores P K (PerCpuOutput ρ)} {cpu : Nat} {filling? : Option (Filling ρ)}
    (h : hook.Settles s cpu filling?) :
    (hook.after s).events.channel = s.events.channel.outputs (handed s.events cpu filling?) :=
  (congrArg PerCpuOutput.channel h).trans (PerCpuOutput.channel_settled s.events cpu filling?)

end Hook

/-! ### Runs -/

namespace Twofold

variable {A : Type} [Layout ρ]

/-- Each hook fills in a record at most once, and the same with and without a journal. -/
def Settled (hooks : Twofold A P K (PerCpuOutput ρ) ρ) : Prop :=
  ∀ (a : A) (s : Stores P K (PerCpuOutput ρ)), ∃ cpu filling?,
    (hooks.journaled a).Settles ⟨s.pending, s.known, ⟨s.events, []⟩, s.notices⟩ cpu filling? ∧
      (hooks.plain a).Settles s cpu filling?

/-- A channel is handed what its journal has down as submitted, and nothing else. -/
theorem Settled.channel_after {hooks : Twofold A P K (PerCpuOutput ρ) ρ} (h : hooks.Settled)
    (start : Stores P K (PerCpuOutput ρ)) (past : List A) :
    (hooks.after start past).events.channel =
      start.events.channel.outputs (hooks.submissions start past) := by
  induction past with
  | nil => rfl
  | cons a past ih =>
    obtain ⟨cpu, filling?, hjournaled, hplain⟩ := h a (hooks.after start past)
    rw [submissions, PerCpuQueues.outputs_append, ← ih,
      Hook.submits_of_settles PerCpuOutput.clears hjournaled]
    exact Hook.channel_of_settles hplain

end Twofold

end HookTrace
