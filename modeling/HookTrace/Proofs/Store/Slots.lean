import HookTrace.Proofs.Bindings

/-!
# HookTrace.Proofs.Store.Slots

The life of a slot. Whoever fills in a slot commits it or discards it, or drops it on the way out
after a fault, and the slot's own end may do something to the channel as well. `SlotLife` says what
each of these does, and `Hook.emitWith` reserves room for a record in the form of such a slot.

* `OwnedSlot`: a slot with the record in it, whose end gives the room back if the record is still
  there. A commit takes the record out first.
* `EntrySlot`: a slot around the entry of a ring that has to be submitted or discarded by hand. Its
  end discards the entry, unless the slot was put where no end is run (`Holder.manual`) before.

Both resolve a reservation once (`OwnedSlot.resolves_life`, `EntrySlot.resolves_life`), so that a
hook with such slots is the hook that commits or releases (`Hook.emitWith_eq`).
-/

namespace HookTrace

open Store

variable {P K S ρ σ : Type}

namespace Store

/-- What becomes of the channel at the end of a slot. -/
structure SlotLife (S ρ σ : Type) where
  /-- The slot for room that was reserved, with the record as far as it is filled in. -/
  hold : Slot ρ → σ
  commit : S → σ → S × List Notice
  discard : S → σ → S
  drop : S → σ → S

/-- A commit hands the record over once, and everything else gives the room back once. -/
structure SlotLife.Resolves [RecordSink S ρ] (life : SlotLife S ρ σ) : Prop where
  commit_hold : ∀ sink slot, life.commit sink (life.hold slot) = RecordSink.commit sink slot
  discard_hold : ∀ sink slot, life.discard sink (life.hold slot) = RecordSink.release sink slot
  drop_hold : ∀ sink slot, life.drop sink (life.hold slot) = RecordSink.release sink slot

structure OwnedSlot (ρ : Type) where
  cpu : Nat
  /-- Until it is taken out. -/
  record : Option ρ

namespace OwnedSlot

variable [RecordSink S ρ]

/-- Gives back the room of a record that was not taken out. -/
def drop (sink : S) (slot : OwnedSlot ρ) : S :=
  match slot.record with
  | some record => RecordSink.release sink ⟨slot.cpu, record⟩
  | none => sink

/-- The record is taken out and handed over; then the slot ends. -/
def commit (sink : S) (slot : OwnedSlot ρ) : S × List Notice :=
  match slot.record with
  | some record =>
    let (sink, lost) := RecordSink.commit sink ⟨slot.cpu, record⟩
    (drop sink { slot with record := none }, lost)
  | none => (drop sink slot, [])

/-- A discarded slot just ends. -/
def life : SlotLife S ρ (OwnedSlot ρ) where
  hold slot := ⟨slot.cpu, some slot.record⟩
  commit := commit
  discard := drop
  drop := drop

theorem resolves_life : (life : SlotLife S ρ (OwnedSlot ρ)).Resolves where
  commit_hold _ _ := rfl
  discard_hold _ _ := rfl
  drop_hold _ _ := rfl

end OwnedSlot

structure EntrySlot (ρ : Type) where
  entry : Slot ρ

/-- What a slot is held by. A plain holder ends the slot with its scope, a manual one does not. -/
inductive EntrySlot.Holder (ρ : Type) where
  | plain (slot : EntrySlot ρ)
  | manual (slot : EntrySlot ρ)

namespace EntrySlot

variable [RecordSink S ρ]

/-- The scope of a holder ends. The end of a slot discards its entry. -/
def Holder.leave (sink : S) : Holder ρ → S
  | plain slot => RecordSink.release sink slot.entry
  | manual _ => sink

/-- Moves the entry out of the slot, after the slot was put into a holder of its own. -/
def intoEntry (sink : S) (slot : EntrySlot ρ) : Slot ρ × S :=
  (slot.entry, (Holder.manual slot).leave sink)

def commit (sink : S) (slot : EntrySlot ρ) : S × List Notice :=
  let (entry, sink) := intoEntry sink slot
  RecordSink.commit sink entry

def discard (sink : S) (slot : EntrySlot ρ) : S :=
  let (entry, sink) := intoEntry sink slot
  RecordSink.release sink entry

def life : SlotLife S ρ (EntrySlot ρ) where
  hold slot := ⟨slot⟩
  commit := commit
  discard := discard
  drop sink slot := (Holder.plain slot).leave sink

theorem resolves_life : (life : SlotLife S ρ (EntrySlot ρ)).Resolves where
  commit_hold _ _ := rfl
  discard_hold _ _ := rfl
  drop_hold _ _ := rfl

end EntrySlot

end Store

namespace Hook

variable [RecordSink S ρ]

/-- Reserves room for a record in the form of a slot, lets `body` fill it in, and commits the slot
with what it answers. If it answers `none` the slot is discarded, and if it fails the slot is
dropped. -/
def emitWith (life : SlotLife S ρ σ) (cpu : Nat) (op : String)
    (body : ρ → Hook P K S (Option ρ)) : Hook P K S Unit := fun s =>
  match RecordSink.reserve s.events cpu with
  | none => .error (.outOfSpace op) { s with notices := s.notices ++ RecordSink.refusal s.events }
  | some (slot, events) =>
    match body slot.record { s with events } with
    | .ok (some record) ⟨pending, known, events, notices⟩ =>
      match life.commit events (life.hold { slot with record }) with
      | (events, lost) => .ok () ⟨pending, known, events, notices ++ lost⟩
    | .ok none ⟨pending, known, events, notices⟩ =>
      .ok () ⟨pending, known, life.discard events (life.hold slot), notices⟩
    | .error fault ⟨pending, known, events, notices⟩ =>
      .error fault ⟨pending, known, life.drop events (life.hold slot), notices⟩

theorem emitWith_eq {life : SlotLife S ρ σ} (h : life.Resolves) (cpu : Nat) (op : String)
    (body : ρ → Hook P K S (Option ρ)) : emitWith life cpu op body = emit cpu op body := by
  funext s
  unfold emitWith emit
  cases RecordSink.reserve s.events cpu with
  | none => rfl
  | some reserved =>
    obtain ⟨slot, events⟩ := reserved
    cases hbody : body slot.record { s with events } with
    | ok record? s' => cases record? <;> simp only [hbody, h.commit_hold, h.discard_hold]
    | error fault s' => simp only [hbody, h.drop_hold]

end Hook

end HookTrace
