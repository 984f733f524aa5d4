import HookTrace.Task
import HookTrace.Tracer

/-!
# HookTrace.Proofs.Hook

What a hook leaves in its stores. A hook that ends with a fault leaves what it stored before, so
`after` does not ask how the hook ended: it is computed here along the steps that hooks are put
together from. For a task and a memory that always answer the answers can be put in
(`ok_bind`, `error_bind`).
-/

namespace HookTrace

theorem inScope_current (task : Task) (target : UInt32) :
    task.current.toTaskInfo.inScope target =
      .ok (inScope task.tgid task.parentTgid target) := by
  unfold TaskInfo.inScope inScope Task.current
  cases h0 : target == 0 with
  | true => rfl
  | false =>
    cases hg : task.tgid == target <;>
      simp [hg, bind, Except.bind, pure, Except.pure]

namespace Hook

variable {P K S α β κ ν ρ : Type}

section Answers

variable (f : α → Hook P K S β)

theorem ok_bind (a : α) : (liftM (.ok a : Except Fault α) : Hook P K S α) >>= f = f a := rfl

theorem error_bind (fault : Fault) :
    (liftM (.error fault : Except Fault α) : Hook P K S α) >>= f = throw fault := rfl

end Answers

theorem bind_of_ok {hook : Hook P K S α} {s s' : Stores P K S} {a : α} (h : hook s = .ok a s')
    (f : α → Hook P K S β) : (hook >>= f) s = f a s' := by
  simp only [bind, EStateM.bind, h]

/-- The stores that a hook leaves, however it ends. -/
def after (hook : Hook P K S α) (s : Stores P K S) : Stores P K S :=
  (hook.outcome s).2

theorem snd_call (name : String) (hook : Hook P K S Unit) (s : Stores P K S) :
    (hook.call name s).2 = { hook.after s with notices := [] } := by
  unfold call after outcome
  cases hook s <;> rfl

theorem call_of_ok {hook : Hook P K S Unit} {s s' : Stores P K S} (h : hook s = .ok () s')
    (name : String) :
    hook.call name s = ({ notices := s'.notices }, { s' with notices := [] }) := by
  unfold call
  rw [h]

theorem after_pure (a : α) (s : Stores P K S) : (pure a : Hook P K S α).after s = s := rfl

theorem after_leave [KeyedTable P κ ν] {key : κ} {value : ν} {s : Stores P K S} {pending : P}
    (h : KeyedTable.record s.pending key value = .ok pending) :
    (leave key value).after s = { s with pending } := by
  cases s
  unfold after outcome leave
  simp only [h]

theorem learn_of_record [KeyedTable K κ ν] {key : κ} {value : ν} {s : Stores P K S} {known : K}
    (h : KeyedTable.record s.known key value = .ok known) :
    learn key value s = .ok () { s with known } := by
  cases s
  unfold learn
  simp only [h]

theorem after_learn [KeyedTable K κ ν] {key : κ} {value : ν} {s : Stores P K S} {known : K}
    (h : KeyedTable.record s.known key value = .ok known) :
    (learn key value).after s = { s with known } := by
  unfold after outcome
  rw [learn_of_record h]

theorem after_unlearn [KeyedTable K κ ν] (key : κ) (s : Stores P K S) :
    (unlearn key).after s = { s with known := KeyedTable.remove s.known key } := rfl

theorem after_known?_bind [KeyedTable K κ ν] (key : κ) (f : Option ν → Hook P K S α)
    (s : Stores P K S) : (known? key >>= f).after s =
      (f (KeyedTable.lookup s.known key).1).after
        { s with known := (KeyedTable.lookup s.known key).2 } := rfl

theorem after_finally [KeyedTable P κ ν] (hook : Hook P K S α) (claimed : Claim κ ν)
    (s : Stores P K S) : (tryFinally hook (finish claimed)).after s =
      { hook.after s with pending := KeyedTable.remove (hook.after s).pending claimed.key } := by
  unfold after outcome tryFinally
  simp only [Functor.map, EStateM.map, tryFinally']
  cases hook s <;> rfl

/-- The entry of a thread is gone after its claim, whatever became of the claim. -/
theorem after_claim [KeyedTable P κ ν] (key : κ) (body : ν → Hook P K S Unit) (s : Stores P K S) :
    (claim key body).after s =
      match KeyedTable.lookup s.pending key with
      | (none, pending) => { s with pending }
      | (some value, pending) =>
        let s := (body value).after { s with pending }
        { s with pending := KeyedTable.remove s.pending key } := by
  obtain ⟨pending, known, events, notices⟩ := s
  have htake : (take key : Hook P K S _) ⟨pending, known, events, notices⟩ =
      .ok ((KeyedTable.lookup pending key).1.map (Claim.mk key))
        ⟨(KeyedTable.lookup pending key).2, known, events, notices⟩ := by
    simp only [take, KeyedTable.take_eq]
  unfold claim after outcome
  simp only [bind, EStateM.bind, htake]
  cases KeyedTable.lookup pending key with
  | mk value pending =>
    cases value with
    | none => rfl
    | some value => exact after_finally (body value) ⟨key, value⟩ ⟨pending, known, events, notices⟩

theorem claim_of_none [KeyedTable P κ ν] {key : κ} (body : ν → Hook P K S Unit)
    {s : Stores P K S} (h : (KeyedTable.lookup s.pending key).1 = none) :
    claim key body s = .ok () { s with pending := (KeyedTable.lookup s.pending key).2 } := by
  have htake : (take key : Hook P K S _) s =
      .ok none { s with pending := (KeyedTable.lookup s.pending key).2 } := by
    simp only [take, KeyedTable.take_eq, h, Option.map_none]
  unfold claim
  simp only [bind, EStateM.bind, htake]
  rfl

/-- A claim whose computation succeeds ends well. -/
theorem claim_of_some [KeyedTable P κ ν] {key : κ} {body : ν → Hook P K S Unit} {value : ν}
    {s s' : Stores P K S} (h : (KeyedTable.lookup s.pending key).1 = some value)
    (hbody : body value { s with pending := (KeyedTable.lookup s.pending key).2 } = .ok () s') :
    claim key body s = .ok () { s' with pending := KeyedTable.remove s'.pending key } := by
  have htake : (take key : Hook P K S _) s =
      .ok (some ⟨key, value⟩) { s with pending := (KeyedTable.lookup s.pending key).2 } := by
    simp only [take, KeyedTable.take_eq, h, Option.map_some]
  have hfinally : tryFinally (body value) (finish ⟨key, value⟩)
      { s with pending := (KeyedTable.lookup s.pending key).2 } =
        .ok () { s' with pending := KeyedTable.remove s'.pending key } := by
    unfold tryFinally
    simp only [Functor.map, EStateM.map, tryFinally', hbody]
    rfl
  unfold claim
  simp only [bind, EStateM.bind, htake]
  exact hfinally

/-- What a record's reservation leaves behind, if there is room. -/
theorem after_emit [RecordSink S ρ] {cpu : Nat} {op : String}
    {body : ρ → Hook P K S (Option ρ)} {s : Stores P K S} {slot : Slot ρ} {events : S}
    (h : RecordSink.reserve s.events cpu = some (slot, events)) :
    (emit cpu op body).after s =
      match body slot.record { s with events } with
      | .ok (some record) s =>
        { s with
          events := (RecordSink.commit s.events { slot with record }).1
          notices := s.notices ++ (RecordSink.commit s.events { slot with record }).2 }
      | .ok none s => { s with events := RecordSink.release s.events slot }
      | .error _ s => { s with events := RecordSink.release s.events slot } := by
  unfold after outcome emit
  rw [h]
  simp only
  cases body slot.record { s with events } with
  | ok answer s => cases answer <;> rfl
  | error fault s => rfl

theorem after_emit_of_none [RecordSink S ρ] {cpu : Nat} {op : String}
    {body : ρ → Hook P K S (Option ρ)} {s : Stores P K S}
    (h : RecordSink.reserve s.events cpu = none) :
    (emit cpu op body).after s =
      { s with notices := s.notices ++ RecordSink.refusal s.events } := by
  unfold after outcome emit
  rw [h]

end Hook

namespace Tracer

variable {C P K S : Type} (tracer : Tracer C P K S) (name : String) (hook : C → Hook P K S Unit)

/-- A call leaves what its hook leaves, and an empty log. -/
theorem snd_call :
    (tracer.call name hook).2 =
      ⟨tracer.config, { (hook tracer.config).after tracer.stores with notices := [] }⟩ := by
  unfold call
  simp only [Hook.snd_call]

theorem call_of_ok {stores : Stores P K S} (h : hook tracer.config tracer.stores = .ok () stores) :
    tracer.call name hook =
      ({ notices := stores.notices }, ⟨tracer.config, { stores with notices := [] }⟩) := by
  unfold call
  simp only [Hook.call_of_ok h]

end Tracer

end HookTrace
