import HookTrace.Proofs.Store.Journal
import HookTrace.Proofs.Store.Reservations
import HookTrace.Proofs.Unwinding

/-!
# HookTrace.Proofs.Upkeep

The effects of `Proofs.Unwinding` for the stores that tracers own. A `Keeping` says of a store what
holds of it in every state (`Sound`) and what a failing hook leaves as it was (`Same`); an `Upkeep`
has one for each store. A tracer is in any state that calls, and readers of its events between them,
can get it into (`Tracer.Reaches`), and there it is sound (`Tracer.Reaches.sound`).

`Tracer.Reaches.unwinds` says how a call ends from there: with the code of its hook's fault, and
after a fault with stores that are the same.
-/

namespace HookTrace

open Store

variable {T C P K S ι : Type}

/-! ### The stores of the tracers -/

structure Keeping (T : Type) where
  Sound : T → Prop
  Same : T → T → Prop
  refl : ∀ t, Same t t
  trans : ∀ {t u v}, Same t u → Same u v → Same t v

namespace Keeping

def effect (x : Keeping T) : Effect T where
  fails t u := x.Sound t → x.Sound u ∧ x.Same t u
  succeeds t u := x.Sound t → x.Sound u
  refl t ht := ⟨ht, x.refl t⟩
  trans h h' ht := ⟨(h' (h ht).1).1, x.trans (h ht).2 (h' (h ht).1).2⟩
  succeeds_of_fails h ht := (h ht).1
  succeeds_trans h h' ht := h' (h ht)

/-- A failure leaves the store exactly as it was. -/
def exact : Keeping T where
  Sound _ := True
  Same t u := u = t
  refl _ := rfl
  trans h h' := h'.trans h

/-- Anything can happen to the store. -/
def any : Keeping T where
  Sound _ := True
  Same _ _ := True
  refl _ := trivial
  trans _ _ := trivial

end Keeping

namespace Store

section Entries

variable {κ ν : Type} [BEq κ] [Hashable κ]

/-- The same entries, but for some of `own` that are gone. -/
def RecencyTable.Released (own : κ → Prop) (table table' : RecencyTable κ ν) : Prop :=
  ∀ key, table'.peek? key = table.peek? key ∨ own key ∧ table'.peek? key = none

/-- The same entries, whichever was touched last. -/
def RecencyTable.SameEntries (table table' : RecencyTable κ ν) : Prop :=
  ∀ key, table'.peek? key = table.peek? key

end Entries

/-- What a reader of the events makes of an output. -/
inductive PerCpuOutput.Consumes {ρ : Type} (output : PerCpuOutput ρ) : PerCpuOutput ρ → Prop
  | receive {queue : Nat} {record? : Option ρ} {channel : PerCpuQueues ρ} :
    output.channel.receive queue = some (record?, channel) → Consumes output { output with channel }
  | drain : Consumes output (RecordSource.drain output).2

/-- A reader has nothing to do with the staging records. -/
theorem PerCpuOutput.Consumes.staging_eq {ρ : Type} {output output' : PerCpuOutput ρ}
    (h : output.Consumes output') : output'.staging = output.staging := by
  cases h <;> rfl

namespace ByteRing

variable {ρ : Type} [Layout ρ] {ring : ByteRing ρ}

/-- No room is taken but for the records that wait in the ring. -/
def Level (ring : ByteRing ρ) : Prop :=
  ring.used = recordSize ρ * ring.queue.toList.length

/-- What a reader of the events makes of a ring. -/
inductive Consumes (ring : ByteRing ρ) : ByteRing ρ → Prop
  | receive {record : ρ} {rest : ByteRing ρ} :
    ring.receive = some (record, rest) → Consumes ring rest
  | drain : Consumes ring ring.drain.2

theorem reserve_eq_some {held : ByteRing ρ} {cpu : Nat} {slot : Slot ρ}
    (h : ring.reserve cpu = some (slot, held)) :
    slot = ⟨cpu, Layout.zero⟩ ∧ held = { ring with used := ring.used + recordSize ρ } := by
  unfold reserve claim at h
  split at h
  · rename_i claimed hclaim
    split at hclaim
    · cases hclaim
      cases h
      exact ⟨rfl, rfl⟩
    · cases hclaim
  · cases h

theorem Level.push (h : ring.Level) (record : ρ) : Level
    { ring with used := ring.used + recordSize ρ, queue := ring.queue.push record } := by
  have hused : ring.used = recordSize ρ * ring.queue.toList.length := h
  show ring.used + recordSize ρ = recordSize ρ * (ring.queue.push record).toList.length
  rw [Fifo.toList_push, List.length_append, hused, Nat.mul_add, List.length_singleton, Nat.mul_one]

theorem Level.consumes {rest : ByteRing ρ} (h : ring.Level) (hrest : ring.Consumes rest) :
    rest.Level := by
  have hused : ring.used = recordSize ρ * ring.queue.toList.length := h
  cases hrest with
  | @receive record rest hreceive =>
    unfold receive at hreceive
    split at hreceive
    · cases hreceive
    · rename_i record queue hpop
      cases hreceive
      rw [Fifo.toList_of_pop? hpop, List.length_cons, Nat.mul_succ] at hused
      show ring.used - recordSize ρ = recordSize ρ * queue.toList.length
      rw [hused, Nat.add_sub_cancel]
  | drain =>
    rw [drain_eq]
    show ring.used - recordSize ρ * ring.queue.toList.length = recordSize ρ * 0
    rw [hused, Nat.sub_self, Nat.mul_zero]

end ByteRing

end Store

namespace Keeping

section Entries

variable {κ ν : Type} [BEq κ] [LawfulBEq κ] [Hashable κ] [LawfulHashable κ]

def releasing (own : κ → Prop) : Keeping (RecencyTable κ ν) where
  Sound table := table.Coherent
  Same := RecencyTable.Released own
  refl _ _ := .inl rfl
  trans h h' key := by
    rcases h' key with heq | hgone
    · rw [heq]
      exact h key
    · exact .inr hgone

def entries : Keeping (RecencyTable κ ν) where
  Sound table := table.Coherent
  Same := RecencyTable.SameEntries
  refl _ _ := rfl
  trans h h' key := (h' key).trans (h key)

theorem awaits_releasing [DecidableEq κ] (own : κ → Prop) :
    (releasing own : Keeping (RecencyTable κ ν)).effect.Awaits own where
  record _ hrecord ht := by
    cases hrecord
    exact ht.insert _ _
  missed _ key _ ht := ⟨ht.get? key, fun other => .inl (ht.peek?_get? key other)⟩
  finished t key hkey ht := by
    refine ⟨(ht.get? key).erase key, fun other => ?_⟩
    have herase := (ht.get? key).peek?_erase key other
    by_cases heq : other = key
    · exact .inr ⟨heq ▸ hkey, herase.trans (if_pos heq)⟩
    · exact .inl ((herase.trans (if_neg heq)).trans (ht.peek?_get? key other))

theorem remembers_entries : (entries : Keeping (RecencyTable κ ν)).effect.Remembers where
  record hrecord ht := by
    cases hrecord
    exact ht.insert _ _
  lookup _ key ht := ⟨ht.get? key, ht.peek?_get? key⟩
  remove _ key ht := ht.erase key

end Entries

theorem awaits_any {κ ν : Type} [KeyedTable T κ ν] (own : κ → Prop) :
    (any : Keeping T).effect.Awaits own where
  record _ _ _ := trivial
  missed _ _ _ _ := ⟨trivial, trivial⟩
  finished _ _ _ _ := ⟨trivial, trivial⟩

section Channels

variable {ρ : Type}

/-- Whatever was written into a staging record, queues and losses are as they were. -/
def channel : Keeping (PerCpuOutput ρ) where
  Sound _ := True
  Same output output' := output'.channel = output.channel
  refl _ := rfl
  trans h h' := h'.trans h

variable [Layout ρ]

theorem resolves_channel : (channel : Keeping (PerCpuOutput ρ)).effect.Resolves where
  commit _ _ _ := trivial
  release {output held cpu slot} h _ := by
    have hchannel : held.channel = output.channel := PerCpuOutput.channel_reserve h
    exact ⟨trivial, hchannel⟩

/-- Between two calls no staging record is in use. -/
def staging (n : Nat) : Keeping (PerCpuOutput ρ) where
  Sound output := output.staging.Idle n
  Same _ _ := True
  refl _ := trivial
  trans _ _ := trivial

theorem resolves_staging (n : Nat) :
    (staging n : Keeping (PerCpuOutput ρ)).effect.Resolves where
  commit record h hidle := by
    obtain ⟨rfl, hback⟩ := PerCpuOutput.reserve_eq_some hidle h
    exact hback record
  release h hidle := by
    obtain ⟨rfl, hback⟩ := PerCpuOutput.reserve_eq_some hidle h
    exact ⟨hback _, trivial⟩

/-- A failure leaves the ring as it was, and no reservation outlives a call. -/
def ring : Keeping (ByteRing ρ) where
  Sound := ByteRing.Level
  Same ring ring' := ring' = ring
  refl _ := rfl
  trans h h' := h'.trans h

theorem resolves_ring : (ring : Keeping (ByteRing ρ)).effect.Resolves where
  commit record h hlevel := by
    obtain ⟨-, rfl⟩ := ByteRing.reserve_eq_some h
    exact ByteRing.Level.push hlevel record
  release {ring held cpu slot} h hlevel := by
    obtain ⟨-, rfl⟩ := ByteRing.reserve_eq_some h
    have hback : RecordSink.release { ring with used := ring.used + recordSize ρ } slot = ring := by
      show { ring with used := ring.used + recordSize ρ - recordSize ρ } = ring
      rw [Nat.add_sub_cancel]
    rw [hback]
    exact ⟨hlevel, rfl⟩

end Channels

end Keeping

/-- What is kept of the stores of a family of hooks. -/
structure Upkeep (P K S : Type) where
  pending : Keeping P
  known : Keeping K
  events : Keeping S

namespace Upkeep

variable (x : Upkeep P K S)

def effects : Effects P K S :=
  ⟨x.pending.effect, x.known.effect, x.events.effect⟩

def Sound (s : Stores P K S) : Prop :=
  x.pending.Sound s.pending ∧ x.known.Sound s.known ∧ x.events.Sound s.events

structure Same (s s' : Stores P K S) : Prop where
  pending : x.pending.Same s.pending s'.pending
  known : x.known.Same s.known s'.known
  events : x.events.Same s.events s'.events

variable {x} {s s' : Stores P K S}

theorem sound_of_succeeds (h : x.Sound s) (hs : x.effects.Succeeds s s') : x.Sound s' :=
  ⟨hs.pending h.1, hs.known h.2.1, hs.events h.2.2⟩

end Upkeep

/-! ### Calls of a tracer -/

/-- The return code that the answer of a hook becomes. -/
def returnCode : Except Fault Unit → UInt32
  | .ok _ => 0
  | .error fault => fault.code

namespace Tracer

/-- The states that a tracer can get into: any call may come next, and between two calls a reader
may take events. -/
inductive Reaches (step : Tracer C P K S → ι → Outcome × Tracer C P K S) (consumes : S → S → Prop)
    (start : Tracer C P K S) : Tracer C P K S → Prop
  | start : Reaches step consumes start start
  | call {tracer : Tracer C P K S} (call : ι) :
    Reaches step consumes start tracer → Reaches step consumes start (step tracer call).2
  | read {tracer : Tracer C P K S} {events : S} :
    Reaches step consumes start tracer → consumes tracer.stores.events events →
    Reaches step consumes start { tracer with stores := { tracer.stores with events } }

section Call

variable (tracer : Tracer C P K S) (name : String) (hook : C → Hook P K S Unit)

theorem code_call : (tracer.call name hook).1.code =
    returnCode ((hook tracer.config).outcome tracer.stores).1 := by
  obtain ⟨config, stores⟩ := tracer
  unfold call Hook.call Hook.outcome
  simp only
  cases hook config stores <;> rfl

/-- Emptying the log does not matter to the stores. -/
theorem leaves_call {e : Effects P K S} (h : (hook tracer.config).Tidy e) :
    e.Leaves tracer.stores
      (((hook tracer.config).outcome tracer.stores).1, (tracer.call name hook).2.stores) := by
  have hleaves := h tracer.stores
  rw [snd_call]
  unfold Hook.after
  rcases hr : (hook tracer.config).outcome tracer.stores with ⟨answer, s⟩
  rw [hr] at hleaves
  cases answer with
  | ok a => exact ⟨hleaves.pending, hleaves.known, hleaves.events⟩
  | error fault => exact ⟨hleaves.pending, hleaves.known, hleaves.events⟩

end Call

/-- What is sound at first is kept so by every call, and has to be kept so by the readers. -/
theorem Reaches.sound {hook : ι → C → Hook P K S Unit}
    {step : Tracer C P K S → ι → Outcome × Tracer C P K S} {consumes : S → S → Prop}
    {start tracer : Tracer C P K S} {x : ι → Upkeep P K S} {Sound : Stores P K S → Prop}
    (h : Reaches step consumes start tracer) (hstart : Sound start.stores)
    (hsound : ∀ i s, Sound s ↔ (x i).Sound s)
    (hstep : ∀ tracer i, ∃ name, (step tracer i).2 = (tracer.call name (hook i)).2)
    (htidy : ∀ i config, (hook i config).Tidy (x i).effects)
    (hread : ∀ (s : Stores P K S) (events : S), consumes s.events events → Sound s →
      Sound { s with events }) : Sound tracer.stores := by
  induction h with
  | start => exact hstart
  | @call tracer i _ ih =>
    obtain ⟨name, hcall⟩ := hstep tracer i
    have hleaves := leaves_call tracer name (hook i) (htidy i tracer.config)
    rw [hcall]
    exact (hsound i _).2 (Upkeep.sound_of_succeeds ((hsound i _).1 ih) hleaves.succeeds)
  | read _ hconsumes ih => exact hread _ _ hconsumes ih

/-- Calls keep the configuration and leave an empty log. -/
theorem Reaches.settled {hook : ι → C → Hook P K S Unit}
    {step : Tracer C P K S → ι → Outcome × Tracer C P K S} {consumes : S → S → Prop}
    {start tracer : Tracer C P K S} (h : Reaches step consumes start tracer)
    (hstart : start.stores.notices = [])
    (hstep : ∀ tracer i, ∃ name, (step tracer i).2 = (tracer.call name (hook i)).2) :
    tracer.config = start.config ∧ tracer.stores.notices = [] := by
  induction h with
  | start => exact ⟨rfl, hstart⟩
  | @call tracer i _ ih =>
    obtain ⟨name, hcall⟩ := hstep tracer i
    rw [hcall, snd_call]
    exact ⟨ih.1, rfl⟩
  | read _ _ ih => exact ih

/-- Between two calls no staging record is in use. -/
theorem Reaches.idle {ρ : Type} [Layout ρ] {hook : ι → C → Hook P K (PerCpuOutput ρ) Unit}
    {step : Tracer C P K (PerCpuOutput ρ) → ι → Outcome × Tracer C P K (PerCpuOutput ρ)}
    {start tracer : Tracer C P K (PerCpuOutput ρ)} {n : Nat}
    (h : Reaches step PerCpuOutput.Consumes start tracer)
    (hstart : start.stores.events.staging.Idle n)
    (hstep : ∀ tracer i, ∃ name, (step tracer i).2 = (tracer.call name (hook i)).2)
    (htidy : ∀ i config, (hook i config).Tidy (Upkeep.mk .any .any (.staging n)).effects) :
    tracer.stores.events.staging.Idle n := by
  refine (h.sound (x := fun _ => Upkeep.mk .any .any (.staging n)) ⟨trivial, trivial, hstart⟩
    (fun _ _ => Iff.rfl) hstep htidy fun s events hread hs => ⟨trivial, trivial, ?_⟩).2.2
  show events.staging.Idle n
  rw [hread.staging_eq]
  exact hs.2.2

end Tracer

end HookTrace
