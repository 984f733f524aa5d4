import HookTrace.Cpu.Switch
import HookTrace.File.Access
import HookTrace.Payload.Capture
import HookTrace.Proofs.Bindings
import HookTrace.Proofs.Mysql.Acts
import HookTrace.Poll.Readiness
import HookTrace.Tcp.Connect
import HookTrace.Unlink.Intercept

/-!
# HookTrace.Proofs.Unwinding

What a hook leaves behind when it fails. An `Effect` says of a store what a failing hook may make of
it and what a succeeding one may. A hook is `Tidy` for the effects of its stores if it keeps to
them; what has been done before a failure has to be of the failing kind, so that a hook may change
for good only where nothing after can fail (`Hook.Tidy.bind`, `Hook.Tidy.bind_pure`).

The hooks are tidy for all stores of which `Effect.Awaits`, `Effect.Remembers` and `Effect.Resolves`
hold: whatever they have reserved or claimed is given up on the way out, and what they are to
remember or to force is not touched before the last question has been answered.
-/

namespace HookTrace

open Store

variable {T P K S α β κ ν ρ : Type}

/-- What may become of a store: under a hook that fails, and under one that succeeds. -/
structure Effect (T : Type) where
  fails : T → T → Prop
  succeeds : T → T → Prop
  refl : ∀ t, fails t t
  trans : ∀ {t u v}, fails t u → fails u v → fails t v
  succeeds_of_fails : ∀ {t u}, fails t u → succeeds t u
  succeeds_trans : ∀ {t u v}, succeeds t u → succeeds u v → succeeds t v

namespace Effect

/-- Nothing happens to the store. -/
def none : Effect T where
  fails t u := u = t
  succeeds t u := u = t
  refl _ := rfl
  trans h h' := h'.trans h
  succeeds_of_fails h := h
  succeeds_trans h h' := h'.trans h

/-- A success does to the store what a failure may. -/
def quiet (x : Effect T) : Effect T where
  fails := x.fails
  succeeds := x.fails
  refl := x.refl
  trans := x.trans
  succeeds_of_fails h := h
  succeeds_trans := x.trans

variable {x : Effect T}

theorem succeeds_refl (t : T) : x.succeeds t t :=
  x.succeeds_of_fails (x.refl t)

/-- The table of entries that threads leave, where a claim ends with the entry removed. -/
structure Awaits [KeyedTable T κ ν] (x : Effect T) (own : κ → Prop) : Prop where
  record : ∀ {t u : T} {key : κ} {value : ν}, own key → KeyedTable.record t key value = .ok u →
    x.succeeds t u
  missed : ∀ (t : T) (key : κ), own key → x.fails t (KeyedTable.lookup t key).2
  finished : ∀ (t : T) (key : κ), own key →
    x.fails t (KeyedTable.remove (KeyedTable.lookup t key).2 key)

/-- A table that is kept beyond a call. -/
structure Remembers [KeyedTable T κ ν] (x : Effect T) : Prop where
  record : ∀ {t u : T} {key : κ} {value : ν}, KeyedTable.record t key value = .ok u → x.succeeds t u
  lookup : ∀ (t : T) (key : κ), x.fails t (KeyedTable.lookup t key).2
  remove : ∀ (t : T) (key : κ), x.succeeds t (KeyedTable.remove t key)

/-- A channel on which a reservation can be given back. -/
structure Resolves [RecordSink T ρ] (x : Effect T) : Prop where
  commit : ∀ {t held : T} {cpu : Nat} {slot : Slot ρ} (record : ρ),
    RecordSink.reserve t cpu = some (slot, held) →
    x.succeeds t (RecordSink.commit held { slot with record }).1
  release : ∀ {t held : T} {cpu : Nat} {slot : Slot ρ},
    RecordSink.reserve t cpu = some (slot, held) → x.fails t (RecordSink.release held slot)

end Effect

structure Effects (P K S : Type) where
  pending : Effect P
  known : Effect K
  events : Effect S

namespace Effects

def quiet (e : Effects P K S) : Effects P K S :=
  ⟨e.pending.quiet, e.known.quiet, e.events.quiet⟩

variable (e : Effects P K S)

/-- What a failing hook may make of its stores. -/
structure Fails (s s' : Stores P K S) : Prop where
  pending : e.pending.fails s.pending s'.pending
  known : e.known.fails s.known s'.known
  events : e.events.fails s.events s'.events

structure Succeeds (s s' : Stores P K S) : Prop where
  pending : e.pending.succeeds s.pending s'.pending
  known : e.known.succeeds s.known s'.known
  events : e.events.succeeds s.events s'.events

variable {e} {s t u : Stores P K S}

theorem Fails.refl (s : Stores P K S) : e.Fails s s :=
  ⟨e.pending.refl _, e.known.refl _, e.events.refl _⟩

theorem Fails.trans (h : e.Fails s t) (h' : e.Fails t u) : e.Fails s u :=
  ⟨e.pending.trans h.pending h'.pending, e.known.trans h.known h'.known,
    e.events.trans h.events h'.events⟩

theorem Fails.succeeds (h : e.Fails s t) : e.Succeeds s t :=
  ⟨e.pending.succeeds_of_fails h.pending, e.known.succeeds_of_fails h.known,
    e.events.succeeds_of_fails h.events⟩

theorem Succeeds.trans (h : e.Succeeds s t) (h' : e.Succeeds t u) : e.Succeeds s u :=
  ⟨e.pending.succeeds_trans h.pending h'.pending, e.known.succeeds_trans h.known h'.known,
    e.events.succeeds_trans h.events h'.events⟩

/-- What is left of stores after a hook that ended so. -/
def Leaves (e : Effects P K S) (s : Stores P K S) : Except Fault α × Stores P K S → Prop
  | (.ok _, s') => e.Succeeds s s'
  | (.error _, s') => e.Fails s s'

theorem Leaves.succeeds {r : Except Fault α × Stores P K S} (h : e.Leaves s r) :
    e.Succeeds s r.2 := by
  rcases r with ⟨answer, u⟩
  cases answer with
  | ok a => exact h
  | error fault => exact Fails.succeeds h

theorem Fails.leaves {r : Except Fault α × Stores P K S} (h : e.Fails s t) (hr : e.Leaves t r) :
    e.Leaves s r := by
  rcases r with ⟨answer, u⟩
  cases answer with
  | ok a => exact h.succeeds.trans hr
  | error fault => exact h.trans hr

end Effects

namespace Hook

/-- However the hook ends, it keeps to the effects. -/
def Tidy (e : Effects P K S) (hook : Hook P K S α) : Prop :=
  ∀ s, e.Leaves s (hook.outcome s)

variable {e : Effects P K S}

theorem tidy_pure (a : α) : Tidy e (pure a) :=
  fun s => (Effects.Fails.refl s).succeeds

theorem tidy_liftM (answer : Except Fault α) : Tidy e (liftM answer : Hook P K S α) := by
  intro s
  cases answer with
  | ok a => exact (Effects.Fails.refl s).succeeds
  | error fault => exact Effects.Fails.refl s

/-- What comes first must be undone by a failure of what follows. -/
theorem Tidy.bind {hook : Hook P K S α} {f : α → Hook P K S β} (h : Tidy e.quiet hook)
    (hf : ∀ a, Tidy e (f a)) : Tidy e (hook >>= f) := by
  intro s
  have hs := h s
  rw [outcome_bind]
  rcases hr : hook.outcome s with ⟨answer, t⟩
  rw [hr] at hs
  cases answer with
  | error fault => exact ⟨hs.pending, hs.known, hs.events⟩
  | ok a =>
    have hquiet : e.Fails s t := ⟨hs.pending, hs.known, hs.events⟩
    exact hquiet.leaves (hf a t)

theorem Tidy.ask {answer : Except Fault α} {f : α → Hook P K S β} (hf : ∀ a, Tidy e (f a)) :
    Tidy e ((liftM answer : Hook P K S α) >>= f) :=
  (tidy_liftM answer).bind hf

/-- Nothing can fail after what comes last. -/
theorem Tidy.bind_pure {hook : Hook P K S α} (h : Tidy e hook) (f : α → β) :
    Tidy e (hook >>= fun a => Pure.pure (f a)) := by
  intro s
  have hs := h s
  rw [outcome_bind]
  rcases hr : hook.outcome s with ⟨answer, t⟩
  rw [hr] at hs
  cases answer with
  | ok a => exact hs
  | error fault => exact hs

theorem Tidy.ite {c : Prop} [Decidable c] {hook hook' : Hook P K S α} (h : c → Tidy e hook)
    (h' : ¬ c → Tidy e hook') : Tidy e (if c then hook else hook') := by
  split
  · exact h ‹_›
  · exact h' ‹_›

section Stores

variable {p : Effect P} {k : Effect K} {x : Effect S}

theorem tidy_leave [KeyedTable P κ ν] {own : κ → Prop} (hp : p.Awaits own) {key : κ}
    (hkey : own key) (value : ν) : Tidy ⟨p, k, x⟩ (leave key value) := by
  intro s
  rw [outcome_leave]
  cases hr : KeyedTable.record s.pending key value with
  | ok pending => exact ⟨hp.record hkey hr, k.succeeds_refl _, x.succeeds_refl _⟩
  | error fault => exact Effects.Fails.refl s

theorem Tidy.claim [KeyedTable P κ ν] {own : κ → Prop} (hp : p.Awaits own) {key : κ}
    (hkey : own key) {body : ν → Hook P K S Unit}
    (hbody : ∀ value, Tidy ⟨.none, k, x⟩ (body value)) : Tidy ⟨p, k, x⟩ (claim key body) := by
  intro s
  have hmissed := hp.missed s.pending key hkey
  have hfinished := hp.finished s.pending key hkey
  rw [outcome_claim]
  rcases hl : KeyedTable.lookup s.pending key with ⟨found, pending⟩
  rw [hl] at hmissed hfinished
  cases found with
  | none =>
    exact ⟨p.succeeds_of_fails hmissed, k.succeeds_refl _, x.succeeds_refl _⟩
  | some value =>
    have hs := hbody value { s with pending }
    rcases ho : (body value).outcome { s with pending } with ⟨answer, t⟩
    rw [ho] at hs
    simp only [ho]
    -- the body has left the table alone, so that its end is the claim's
    cases answer with
    | ok a =>
      have heq : t.pending = pending := hs.pending
      exact ⟨heq ▸ p.succeeds_of_fails hfinished, hs.known, hs.events⟩
    | error fault =>
      have heq : t.pending = pending := hs.pending
      exact ⟨heq ▸ hfinished, hs.known, hs.events⟩

section Known

variable [KeyedTable K κ ν] (hk : k.Remembers)

include hk

theorem Tidy.known? (key : κ) {f : Option ν → Hook P K S α}
    (hf : ∀ value?, Tidy ⟨p, k, x⟩ (f value?)) : Tidy ⟨p, k, x⟩ (known? key >>= f) := by
  refine Tidy.bind (fun s => ?_) hf
  exact ⟨p.refl _, hk.lookup s.known key, x.refl _⟩

theorem tidy_learn (key : κ) (value : ν) : Tidy ⟨p, k, x⟩ (learn key value) := by
  intro s
  rw [outcome_learn]
  cases hr : KeyedTable.record s.known key value with
  | ok known => exact ⟨p.succeeds_refl _, hk.record hr, x.succeeds_refl _⟩
  | error fault => exact Effects.Fails.refl s

theorem tidy_unlearn (key : κ) : Tidy ⟨p, k, x⟩ (unlearn key) :=
  fun s => ⟨p.succeeds_refl _, hk.remove s.known key, x.succeeds_refl _⟩

end Known

theorem Tidy.emit [RecordSink S ρ] (hs : x.Resolves) {cpu : Nat} {op : String}
    {body : ρ → Hook P K S (Option ρ)} (hbody : ∀ blank, Tidy ⟨p, k, .none⟩ (body blank)) :
    Tidy ⟨p, k, x⟩ (emit cpu op body) := by
  intro s
  rw [outcome_emit]
  cases hr : RecordSink.reserve s.events cpu with
  | none => exact ⟨p.refl _, k.refl _, x.refl _⟩
  | some reserved =>
    obtain ⟨slot, held⟩ := reserved
    have ht := hbody slot.record { s with events := held }
    rcases ho : (body slot.record).outcome { s with events := held } with ⟨answer, t⟩
    rw [ho] at ht
    simp only [ho]
    cases answer with
    | error fault =>
      have heq : t.events = held := ht.events
      exact ⟨ht.pending, ht.known, heq ▸ hs.release hr⟩
    | ok record? =>
      have heq : t.events = held := ht.events
      cases record? with
      | none => exact ⟨ht.pending, ht.known, heq ▸ x.succeeds_of_fails (hs.release hr)⟩
      | some record => exact ⟨ht.pending, ht.known, heq ▸ hs.commit record hr⟩

end Stores

end Hook

/-! ### The hooks -/

/-- The threads whose entries a hook of a task may have to do with. -/
def CurrentTask.owns (task : CurrentTask) (pid : UInt32) : Prop :=
  task.pid = .ok pid

section Own

variable {p : Effect P} {k : Effect K} {x : Effect S} {task : CurrentTask}
variable [KeyedTable P UInt32 ν]

theorem tidy_leave_own (hp : p.Awaits task.owns) (value : ν) : Hook.Tidy ⟨p, k, x⟩
    ((liftM task.pid : Hook P K S UInt32) >>= fun pid => Hook.leave pid value) := by
  cases hpid : task.pid with
  | ok pid => exact Hook.tidy_leave hp hpid value
  | error fault => exact Hook.tidy_liftM (.error fault)

theorem tidy_claim_own (hp : p.Awaits task.owns) {body : ν → Hook P K S Unit}
    (hbody : ∀ value, Hook.Tidy ⟨.none, k, x⟩ (body value)) : Hook.Tidy ⟨p, k, x⟩
      ((liftM task.pid : Hook P K S UInt32) >>= fun pid => Hook.claim pid body) := by
  cases hpid : task.pid with
  | ok pid => exact Hook.Tidy.claim hp hpid hbody
  | error fault => exact Hook.tidy_liftM (.error fault)

end Own

namespace Tcp.Connect

def Call.task : Call → CurrentTask
  | enter _ task _ => task
  | exit _ task _ _ => task

theorem tidy_hook [KeyedTable P UInt32 UInt64] [RecordSink S ConnectRecord] {p : Effect P}
    {k : Effect K} {x : Effect S} (config : ConnectConfig) (call : Call)
    (hp : p.Awaits call.task.owns) (hs : x.Resolves) : Hook.Tidy ⟨p, k, x⟩ (hook config call) := by
  cases call with
  | enter protocol task socket =>
    exact .ask fun inside => .ite (fun _ => Hook.tidy_pure _) fun _ => tidy_leave_own hp socket
  | exit protocol task reader ret =>
    refine tidy_claim_own hp fun socket => .ite (fun _ => Hook.tidy_pure _) fun _ => ?_
    refine .ask fun destination => .ite (fun _ => Hook.tidy_pure _) fun _ => ?_
    exact .emit hs fun blank => .ask fun record => Hook.tidy_pure _

end Tcp.Connect

namespace Payload

def Plain.Call.task : Plain.Call → CurrentTask
  | enter _ task _ => task
  | exit _ task _ _ => task

theorem Plain.tidy_hook [KeyedTable P UInt32 SyscallArgs] [RecordSink S PayloadRecord]
    {p : Effect P} {k : Effect K} {x : Effect S} (scope : Scope) (call : Plain.Call)
    (hp : p.Awaits call.task.owns) (hs : x.Resolves) :
    Hook.Tidy ⟨p, k, x⟩ (hook scope call) := by
  cases call with
  | enter transfer task args =>
    exact .ask fun inside => .ite (fun _ => Hook.tidy_pure _) fun _ => tidy_leave_own hp args
  | exit transfer task memory ret =>
    refine tidy_claim_own hp fun args => .ite (fun _ => Hook.tidy_pure _) fun _ => ?_
    exact .emit hs fun blank => .ask fun record => Hook.tidy_pure _

def Tls.Call.task : Tls.Call → CurrentTask
  | enter _ task _ => task
  | exit _ task _ _ => task

theorem Tls.tidy_hook [KeyedTable P UInt32 UInt64] [RecordSink S PayloadRecord] {p : Effect P}
    {k : Effect K} {x : Effect S} (scope : Scope) (call : Tls.Call)
    (hp : p.Awaits call.task.owns) (hs : x.Resolves) :
    Hook.Tidy ⟨p, k, x⟩ (hook scope call) := by
  cases call with
  | enter kind task buf =>
    exact .ask fun inside => .ite (fun _ => Hook.tidy_pure _) fun _ => tidy_leave_own hp buf
  | exit kind task memory ret =>
    refine tidy_claim_own hp fun buf => .ite (fun _ => Hook.tidy_pure _) fun _ => ?_
    exact .emit hs fun blank => .ask fun record => Hook.tidy_pure _

end Payload

namespace Poll.Readiness

/-- The threads whose entries a call may have to do with. -/
def Call.owns : Call → UInt32 → Prop
  | connect task _ _ _, pid => task.owns pid
  | enter _ task _ _, pid => task.owns pid
  | exit _ task _, pid => task.owns pid
  | close _, _ => False

theorem tidy_hook [KeyedTable P UInt32 Socket] [KeyedTable K Int32 Socket]
    [RecordSink S PollRecord] {p : Effect P} {k : Effect K} {x : Effect S} (scope : Scope)
    (call : Call) (hp : p.Awaits call.owns) (hk : k.Remembers) (hs : x.Resolves) :
    Hook.Tidy ⟨p, k, x⟩ (hook scope call) := by
  cases call with
  | connect task memory fd uaddr =>
    refine .ask fun inside => .ite (fun _ => Hook.tidy_pure _) fun _ => .ask fun peer? => ?_
    cases peer? with
    | none => exact Hook.tidy_pure _
    | some peer => exact Hook.tidy_learn hk fd _
  | enter variant task memory ufds =>
    refine .ask fun inside => .ite (fun _ => Hook.tidy_pure _) fun _ => .ask fun fd => ?_
    refine .known? hk fd fun socket? => ?_
    cases socket? with
    | none => exact Hook.tidy_pure _
    | some socket => exact tidy_leave_own hp socket
  | exit variant task ret =>
    refine tidy_claim_own hp fun socket => .ite (fun _ => Hook.tidy_pure _) fun _ => ?_
    exact .emit hs fun blank => .ask fun record => Hook.tidy_pure _
  | close fd => exact Hook.tidy_unlearn hk fd

end Poll.Readiness

namespace Mysql

/-- The threads whose entries a call may have to do with. -/
def Act.owns : Act → UInt32 → Prop
  | connect task _ _ _, pid => task.pid = pid
  | enter _ task _, pid => task.pid = pid
  | exit _ task _ _, pid => task.pid = pid
  | close _ _, _ => False

namespace Capture

variable [KeyedTable P UInt32 SyscallArgs] [KeyedTable K Int32 Connection]
variable [RecordSink S MysqlRecord] {p : Effect P} {k : Effect K} {x : Effect S}

omit [KeyedTable P UInt32 SyscallArgs] [RecordSink S MysqlRecord] in
/-- The handshake learns something only after the payload was read, and the task of a system call
can be asked anything. -/
theorem tidy_fill (hk : k.Remembers) (task : Task) (memory : UserSpace) (args : SyscallArgs)
    (conn : Connection) (direction : Direction) (ret : Int64) (blank : MysqlRecord) :
    Hook.Tidy ⟨p, k, x⟩ (fill task.current memory args conn direction ret blank) := by
  have htgid : task.current.tgid = .ok task.tgid := rfl
  have hpid : task.current.pid = .ok task.pid := rfl
  unfold fill
  refine .ask fun captured => ?_
  rcases conn.observe captured.bytes direction with ⟨observation, next⟩
  simp only [htgid, hpid, Hook.ok_bind]
  cases observation with
  | ignore =>
    exact .ite (fun _ => (Hook.tidy_learn hk args.fd next).bind_pure fun _ => none)
      fun _ => Hook.tidy_pure _
  | report sequenceId =>
    exact .ite (fun _ => (Hook.tidy_learn hk args.fd next).bind_pure fun _ => some _)
      fun _ => Hook.tidy_pure _

omit [KeyedTable P UInt32 SyscallArgs] in
theorem tidy_report (hk : k.Remembers) (hs : x.Resolves) (task : Task) (memory : UserSpace)
    (direction : Direction) (ret : Int64) (args : SyscallArgs) :
    Hook.Tidy ⟨p, k, x⟩ (report task.current memory direction ret args) := by
  refine .known? hk args.fd fun conn? => ?_
  cases conn? with
  | none => exact Hook.tidy_pure _
  | some conn =>
    refine .ite (fun _ => Hook.tidy_pure _) fun _ => .emit hs fun blank => ?_
    exact tidy_fill hk task memory args conn direction ret blank

theorem tidy_hook (config : MysqlConfig) (act : Act) (hp : p.Awaits act.owns)
    (hk : k.Remembers) (hs : x.Resolves) : Hook.Tidy ⟨p, k, x⟩ (hook config act.call) := by
  cases act with
  | connect task space fd uaddr =>
    refine .ask fun inside => .ite (fun _ => Hook.tidy_pure _) fun _ => .ask fun peer? => ?_
    cases peer? with
    | none => exact Hook.tidy_pure _
    | some peer => exact .ite (fun _ => Hook.tidy_learn hk fd _) fun _ => Hook.tidy_pure _
  | enter transfer task args =>
    have hown : Act.owns (.enter transfer task args) task.pid := rfl
    refine .ask fun inside => .ite (fun _ => Hook.tidy_pure _) fun _ => ?_
    refine .known? hk args.fd fun conn? => ?_
    cases conn? with
    | none => exact Hook.tidy_pure _
    | some conn => exact Hook.tidy_leave hp hown args
  | exit transfer task space ret =>
    have hown : Act.owns (.exit transfer task space ret) task.pid := rfl
    refine Hook.Tidy.claim hp hown fun args => .ite (fun _ => Hook.tidy_pure _) fun _ => ?_
    refine .ask fun inside => .ite (fun _ => Hook.tidy_pure _) fun _ => ?_
    exact tidy_report hk hs task space.userSpace (.ofTransfer transfer) ret args
  | close task fd => exact Hook.tidy_unlearn hk fd

end Capture

end Mysql

namespace Unlink.Intercept

def Call.task : Call → CurrentTask
  | enter task _ => task
  | enterAt task _ _ => task
  | delete _ task _ => task

variable [KeyedTable P UInt32 UInt64] [RecordSink S UnlinkRecord]

/-- A call on the registers it is given. -/
def onCall (config : UnlinkConfig) : Call → Hook P ForcedReturn S Unit
  | .enter task pathname => onEnter config task pathname
  | .enterAt task pathname flags => onEnterAt config task pathname flags
  | .delete _ task memory => onDelete config task memory

theorem hook_apply (config : UnlinkConfig) (call : Call) (s : Stores P ForcedReturn S) :
    hook config call s = onCall config call { s with known := {} } := by
  cases call <;> rfl

variable {p : Effect P} {k : Effect ForcedReturn} {x : Effect S}

omit [RecordSink S UnlinkRecord] in
theorem tidy_onEnter (config : UnlinkConfig) (task : CurrentTask) (pathname : UInt64)
    (hp : p.Awaits task.owns) : Hook.Tidy ⟨p, k, x⟩ (onEnter config task pathname) :=
  .ask fun _ => .ask fun _ => .ite (fun _ => Hook.tidy_pure _) fun _ => tidy_leave_own hp pathname

/-- A return value is forced when the record is complete. -/
theorem tidy_onCall (config : UnlinkConfig) (call : Call) (hp : p.Awaits call.task.owns)
    (hk : ∀ regs value, k.succeeds regs (regs.override value)) (hs : x.Resolves) :
    Hook.Tidy ⟨p, k, x⟩ (onCall config call) := by
  cases call with
  | enter task pathname => exact tidy_onEnter config task pathname hp
  | enterAt task pathname flags =>
    exact .ite (fun _ => Hook.tidy_pure _) fun _ => tidy_onEnter config task pathname hp
  | delete variant task memory =>
    refine tidy_claim_own hp fun pathname => Hook.Tidy.emit hs fun blank => .ask fun record => ?_
    refine .ite (fun _ => Hook.tidy_pure _) fun _ => Hook.Tidy.bind_pure ?_ fun _ => some record
    exact fun s => ⟨rfl, hk s.known 0, rfl⟩

end Unlink.Intercept

namespace File.Access

theorem tidy_name [KeyedTable K UInt64 PathEntry] {p : Effect P} {k : Effect K} {x : Effect S}
    (hk : k.Remembers) (file : OpenFile) (record : FileRecord) :
    Hook.Tidy ⟨p, k, x⟩ (name file record) := by
  refine .known? hk file.identity fun entry? => ?_
  cases entry? with
  | some entry => exact .ite (fun _ => Hook.tidy_pure _) fun _ => Hook.tidy_pure _
  | none => exact .ask fun basename => Hook.tidy_pure _

theorem tidy_hook [KeyedTable K UInt64 PathEntry] [RecordSink S FileRecord] {p : Effect P}
    {k : Effect K} {x : Effect S} (scope : Scope) (call : Call) (hk : k.Remembers)
    (hs : x.Resolves) : Hook.Tidy ⟨p, k, x⟩ (hook scope call) := by
  cases call with
  | opened file => exact .ask fun path => Hook.tidy_learn hk file.identity _
  | accessed op task file ret =>
    refine .ask fun regular => .ite (fun _ => Hook.tidy_pure _) fun _ => ?_
    refine .ask fun inside => .ite (fun _ => Hook.tidy_pure _) fun _ => ?_
    exact .emit hs fun blank => .ask fun record => tidy_name hk file record

end File.Access

namespace Cpu.Switch

variable {H : Type} [HistogramTable H]

variable {p : Effect (RecencyTable UInt32 UInt64)} {k : Effect H} {x : Effect S}

end Cpu.Switch

end HookTrace
