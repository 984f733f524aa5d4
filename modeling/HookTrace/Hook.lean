import HookTrace.Tracing

/-!
# HookTrace.Hook

What hooks are written against. A hook runs on stores of which it only knows what the classes
here say, so that one text of a hook serves tables in a process, maps in a kernel and stores that
refuse on purpose.

* `KeyedTable`, `RecordSink`: the two kinds of store.
* `Stores`: all that one family of hooks works on. `Hook` is a computation on it that may fail;
  what was stored before a failure stays.
* `claim`: runs a computation on the entry of a thread and removes the entry afterwards, however
  the computation ends.
* `emit`: reserves room for a record, lets a computation fill it in, and either commits the
  record or gives the room back, however the computation ends.
-/

namespace HookTrace

/-- A bounded store by key. A refused `record` leaves the table as it was; of two records under
one key the later counts; removing an absent key is no error. -/
class KeyedTable (T : Type) (κ ν : outParam Type) where
  record : T → κ → ν → Except Fault T
  lookup : T → κ → Option ν × T
  remove : T → κ → T

/-- An entry claimed from a table, with the value it was found with. -/
structure Claim (κ ν : Type) where
  key : κ
  value : ν
deriving DecidableEq

namespace KeyedTable

variable {T κ ν : Type} [KeyedTable T κ ν]

/-- Claims the entry of a key, if there is one. It stays until the claim ends. -/
def take (table : T) (key : κ) : Option (Claim κ ν) × T :=
  match lookup table key with
  | (some value, table) => (some ⟨key, value⟩, table)
  | (none, table) => (none, table)

theorem take_eq (table : T) (key : κ) :
    take table key = ((lookup table key).1.map (Claim.mk key), (lookup table key).2) := by
  unfold take
  cases lookup table key with
  | mk value table => cases value <;> rfl

/-- Ends a claim. Whatever is stored under its key by then is removed. -/
def finish (table : T) (claim : Claim κ ν) : T :=
  remove table claim.key

end KeyedTable

/-- Room for one record, held on the processor `cpu`. -/
structure Slot (ρ : Type) where
  cpu : Nat
  record : ρ

/-- A channel for records. Every slot that is reserved is either committed or released, once. -/
class RecordSink (S : Type) (ρ : outParam Type) where
  /-- Room for a record, which is all zeros; `none` if the channel has none. -/
  reserve : S → (cpu : Nat) → Option (Slot ρ × S)
  /-- What a refused reservation is noted as. -/
  refusal : S → List Notice
  /-- Hands the record over, and says what went wrong with that. -/
  commit : S → Slot ρ → S × List Notice
  /-- Gives the room back; the record is never seen. -/
  release : S → Slot ρ → S

/-- The other end of a channel: everything in it can be taken out. -/
class RecordSource (S : Type) (ρ : outParam Type) where
  drain : S → List ρ × S

/-- The stores of one family of hooks: the entries that wait for their exit hook, by thread, what
is remembered for longer, and the channel for records. -/
structure Stores (P K S : Type) where
  pending : P
  known : K
  events : S
  notices : List Notice := []

/-- A computation on stores that may fail, keeping what was stored before. -/
abbrev Hook (P K S α : Type) := EStateM Fault (Stores P K S) α

namespace Hook

variable {P K S α κ ν ρ : Type}

def ask (answer : Except Fault α) : Hook P K S α :=
  match answer with
  | .ok a => pure a
  | .error fault => throw fault

instance : MonadLift (Except Fault) (EStateM Fault (Stores P K S)) where
  monadLift := ask

/-- Leaves an entry for the exit hook of a thread. -/
def leave [KeyedTable P κ ν] (key : κ) (value : ν) : Hook P K S Unit := fun s =>
  match s with
  | ⟨pending, known, events, notices⟩ =>
    match KeyedTable.record pending key value with
    | .ok pending => .ok () ⟨pending, known, events, notices⟩
    | .error fault => .error fault ⟨pending, known, events, notices⟩

def take [KeyedTable P κ ν] (key : κ) : Hook P K S (Option (Claim κ ν)) := fun s =>
  match s with
  | ⟨pending, known, events, notices⟩ =>
    match KeyedTable.take pending key with
    | (claimed, pending) => .ok claimed ⟨pending, known, events, notices⟩

def finish [KeyedTable P κ ν] (claimed : Claim κ ν) : Hook P K S Unit := fun s =>
  match s with
  | ⟨pending, known, events, notices⟩ =>
    .ok () ⟨KeyedTable.finish pending claimed, known, events, notices⟩

/-- Remembers a value beyond the call. -/
def learn [KeyedTable K κ ν] (key : κ) (value : ν) : Hook P K S Unit := fun s =>
  match s with
  | ⟨pending, known, events, notices⟩ =>
    match KeyedTable.record known key value with
    | .ok known => .ok () ⟨pending, known, events, notices⟩
    | .error fault => .error fault ⟨pending, known, events, notices⟩

/-- What is remembered under a key. -/
def known? [KeyedTable K κ ν] (key : κ) : Hook P K S (Option ν) := fun s =>
  match s with
  | ⟨pending, known, events, notices⟩ =>
    match KeyedTable.lookup known key with
    | (value, known) => .ok value ⟨pending, known, events, notices⟩

def unlearn [KeyedTable K κ ν] (key : κ) : Hook P K S Unit := fun s =>
  match s with
  | ⟨pending, known, events, notices⟩ =>
    .ok () ⟨pending, KeyedTable.remove known key, events, notices⟩

/-- Runs `body` on the entry of a thread, if it has one, and then removes the entry, whether the
body answers or fails. -/
def claim [KeyedTable P κ ν] (key : κ) (body : ν → Hook P K S Unit) : Hook P K S Unit := do
  match ← take key with
  | none => return
  | some claimed =>
    try body claimed.value
    finally finish claimed

/-- Reserves room for a record, lets `body` fill it in, and commits what it answers. If it answers
`none` or fails, the room is given back. -/
def emit [RecordSink S ρ] (cpu : Nat) (op : String) (body : ρ → Hook P K S (Option ρ)) :
    Hook P K S Unit := fun s =>
  match RecordSink.reserve s.events cpu with
  | none => .error (.outOfSpace op) { s with notices := s.notices ++ RecordSink.refusal s.events }
  | some (slot, events) =>
    match body slot.record { s with events } with
    | .ok (some record) ⟨pending, known, events, notices⟩ =>
      match RecordSink.commit events { slot with record } with
      | (events, lost) => .ok () ⟨pending, known, events, notices ++ lost⟩
    | .ok none ⟨pending, known, events, notices⟩ =>
      .ok () ⟨pending, known, RecordSink.release events slot, notices⟩
    | .error fault ⟨pending, known, events, notices⟩ =>
      .error fault ⟨pending, known, RecordSink.release events slot, notices⟩

/-- Runs a hook: how it ended, and the stores it leaves. -/
def outcome (hook : Hook P K S α) (s : Stores P K S) : Except Fault α × Stores P K S :=
  match hook s with
  | .ok a s => (.ok a, s)
  | .error fault s => (.error fault, s)

end Hook

end HookTrace
