import HookTrace.Proofs.Hook
import HookTrace.Proofs.Store.Laws
import HookTrace.Mysql.Capture
import HookTrace.Payload.Tracer
import HookTrace.Poll.Readiness
import HookTrace.Tcp.Connect
import HookTrace.Unlink.Intercept

/-!
# HookTrace.Proofs.Release

What the exit hooks leave of the entries they claim. A claim ends with the entry removed, whatever
becomes of the hook in between, and nothing that an exit hook does with a claimed entry stores or
removes another (`Hook.Spares`). So a thread that has left a call has no entry any more, however it
left and whatever could be asked of it on the way; the entries of other threads are as they were;
and a second exit finds nothing to do (`exits_release`).

A task may answer differently whenever it is asked, or fail to. `Asked` has an answer for each of
the times that an exit hook asks.
-/

namespace HookTrace

open Store

namespace Hook

variable {P K S α β κ ν ρ : Type}

/-- The hook leaves the entries of threads alone, however it ends. -/
def Spares (hook : Hook P K S α) : Prop :=
  ∀ s, (hook.after s).pending = s.pending

theorem spares_pure (a : α) : (pure a : Hook P K S α).Spares := fun _ => rfl

theorem spares_liftM (answer : Except Fault α) : (liftM answer : Hook P K S α).Spares := by
  intro s
  cases answer <;> rfl

theorem Spares.bind {hook : Hook P K S α} {f : α → Hook P K S β} (h : hook.Spares)
    (hf : ∀ a, (f a).Spares) : (hook >>= f).Spares := by
  intro s
  have hhook := h s
  unfold after outcome at hhook ⊢
  simp only [Bind.bind, EStateM.bind]
  cases hr : hook s with
  | error fault s' =>
    rw [hr] at hhook
    exact hhook
  | ok a s' =>
    rw [hr] at hhook
    exact (hf a s').trans hhook

theorem Spares.ite {c : Prop} [Decidable c] {hook hook' : Hook P K S α} (h : hook.Spares)
    (h' : hook'.Spares) : (if c then hook else hook').Spares := by
  split
  · exact h
  · exact h'

theorem spares_learn [KeyedTable K κ ν] (key : κ) (value : ν) :
    (learn key value : Hook P K S Unit).Spares := by
  intro s
  unfold after outcome learn
  cases h : KeyedTable.record s.known key value <;> simp only [h]

theorem spares_known? [KeyedTable K κ ν] (key : κ) : (known? key : Hook P K S _).Spares :=
  fun _ => rfl

/-- The room for a record is none of the table's business. -/
theorem Spares.emit [RecordSink S ρ] {cpu : Nat} {op : String}
    {body : ρ → Hook P K S (Option ρ)} (h : ∀ blank, (body blank).Spares) :
    (emit cpu op body).Spares := by
  intro s
  cases hr : RecordSink.reserve s.events cpu with
  | none => rw [after_emit_of_none hr]
  | some reserved =>
    obtain ⟨slot, events⟩ := reserved
    have hbody := h slot.record { s with events }
    rw [after_emit hr]
    unfold after outcome at hbody
    cases hb : body slot.record { s with events } with
    | error fault s' =>
      rw [hb] at hbody
      exact hbody
    | ok answer s' =>
      rw [hb] at hbody
      cases answer <;> exact hbody

end Hook

/-- A task on its way out of a call: as it answers when its entry is claimed, when it is asked
whether it is in scope, and when a record is filled in. None of these asks for one thing twice. -/
structure Asked where
  claiming : CurrentTask
  deciding : CurrentTask
  filling : CurrentTask

/-- A task that answers the same each time. -/
def Asked.steady (task : CurrentTask) : Asked :=
  ⟨task, task, task⟩

section

variable {P K S κ ν ι : Type} [KeyedTable P UInt32 ν]

/-- The exit hooks of the thread `p` that make `body` of its entry. What else they are called with
is an `ι`. -/
def Exits (p : UInt32) (body : ι → Asked → ν → Hook P K S Unit) (exit : Hook P K S Unit) : Prop :=
  ∃ (i : ι) (task : Asked), task.claiming.pid = .ok p ∧
    exit = do Hook.claim (← task.claiming.pid) (body i task)

/-- What exit hooks of the thread `p` come to. -/
structure Releases (laws : MapLaws P) (p : UInt32) (exits : Hook P K S Unit → Prop) : Prop where
  released : ∀ exit, exits exit → ∀ s : Stores P K S, laws.Valid s.pending →
    laws.entry (exit.after s).pending p = none
  others : ∀ exit, exits exit → ∀ s : Stores P K S, laws.Valid s.pending → ∀ q, q ≠ p →
    laws.entry (exit.after s).pending q = laws.entry s.pending q
  /-- An exit without an entry succeeds, and no more than the order of last touches may show it. -/
  idle : ∀ exit, exits exit → ∀ s : Stores P K S, laws.Valid s.pending →
    laws.entry s.pending p = none → ∃ pending, exit.outcome s = (.ok (), { s with pending }) ∧
      ∀ q, laws.entry pending q = laws.entry s.pending q
  again : ∀ first second, exits first → exits second → ∀ s : Stores P K S, laws.Valid s.pending →
    ∃ pending, second.outcome (first.after s) = (.ok (), { first.after s with pending }) ∧
      ∀ q, laws.entry pending q = laws.entry (first.after s).pending q

variable (laws : MapLaws P) {p : UInt32} {body : ν → Hook P K S Unit} {s : Stores P K S}

omit [KeyedTable P UInt32 ν] in
/-- The table after a claim: what was found in it is gone, if there was anything. -/
theorem pending_claim [KeyedTable P κ ν] {p : κ} (hb : ∀ value, (body value).Spares) :
    ((Hook.claim p body).after s).pending = (KeyedTable.lookup s.pending p).2 ∧
        (KeyedTable.lookup s.pending p).1 = none ∨
      ((Hook.claim p body).after s).pending =
        KeyedTable.remove (KeyedTable.lookup s.pending p).2 p := by
  rw [Hook.after_claim]
  cases hl : KeyedTable.lookup s.pending p with
  | mk found pending =>
    cases found with
    | none => exact .inl ⟨rfl, rfl⟩
    | some value => exact .inr (congrArg (KeyedTable.remove · p) (hb value _))

omit [KeyedTable P UInt32 ν] in
theorem pending_claim_eq_claimed {key : UInt32} (s : Stores (RecencyTable UInt32 ν) K S)
    {body : ν → Hook (RecencyTable UInt32 ν) K S Unit} (hb : ∀ value, (body value).Spares) :
    ((Hook.claim key body).after s).pending = s.pending.claimed key := by
  have hl : KeyedTable.lookup s.pending key = s.pending.get? key := rfl
  rw [Hook.after_claim, hl]
  unfold RecencyTable.claimed
  cases s.pending.get? key with
  | mk found pending =>
    cases found with
    | none => rfl
    | some value => exact congrArg (fun table => (table.erase key).2) (hb value _)

theorem valid_claim (hb : ∀ value, (body value).Spares) (hs : laws.Valid s.pending) :
    laws.Valid ((Hook.claim p body).after s).pending := by
  have hlookup := laws.valid_lookup p hs
  rcases pending_claim hb with ⟨h, _⟩ | h
  · rw [h]
    exact hlookup
  · rw [h]
    exact laws.valid_remove p hlookup

theorem entry_claim_self (hb : ∀ value, (body value).Spares) (hs : laws.Valid s.pending) :
    laws.entry ((Hook.claim p body).after s).pending p = none := by
  rcases pending_claim hb with ⟨h, hnone⟩ | h
  · rw [h, laws.entry_lookup p p hs, ← laws.lookup_eq p hs, hnone]
  · rw [h]
    exact laws.entry_remove_self p (laws.valid_lookup p hs)

theorem entry_claim_of_ne (hb : ∀ value, (body value).Spares) (hs : laws.Valid s.pending)
    {q : UInt32} (hq : q ≠ p) :
    laws.entry ((Hook.claim p body).after s).pending q = laws.entry s.pending q := by
  rcases pending_claim hb with ⟨h, _⟩ | h
  · rw [h]
    exact laws.entry_lookup p q hs
  · rw [h, laws.entry_remove_of_ne (laws.valid_lookup p hs) hq]
    exact laws.entry_lookup p q hs

/-- A claim of an entry that is not there does nothing. -/
theorem outcome_claim_of_none (body : ν → Hook P K S Unit) (hs : laws.Valid s.pending)
    (hp : laws.entry s.pending p = none) :
    ∃ pending, (Hook.claim p body).outcome s = (.ok (), { s with pending }) ∧
      ∀ q, laws.entry pending q = laws.entry s.pending q := by
  refine ⟨(KeyedTable.lookup s.pending p).2, ?_, fun q => laws.entry_lookup p q hs⟩
  unfold Hook.outcome
  rw [Hook.claim_of_none body ((laws.lookup_eq p hs).trans hp)]

/-- It is enough that what is made of an entry leaves the table alone. -/
theorem releases_exits (p : UInt32) {body : ι → Asked → ν → Hook P K S Unit}
    (hb : ∀ i task value, (body i task value).Spares) : Releases laws p (Exits p body) := by
  have hclaim : ∀ exit, Exits p body exit →
      ∃ body' : ν → Hook P K S Unit, exit = Hook.claim p body' ∧ ∀ value, (body' value).Spares := by
    rintro _ ⟨i, task, hpid, rfl⟩
    refine ⟨body i task, ?_, hb i task⟩
    rw [hpid, Hook.ok_bind]
  constructor
  · intro exit hexit s hs
    obtain ⟨body, rfl, hb⟩ := hclaim exit hexit
    exact entry_claim_self laws hb hs
  · intro exit hexit s hs q hq
    obtain ⟨body, rfl, hb⟩ := hclaim exit hexit
    exact entry_claim_of_ne laws hb hs hq
  · intro exit hexit s hs hp
    obtain ⟨body, rfl, _⟩ := hclaim exit hexit
    exact outcome_claim_of_none laws body hs hp
  · intro first second hfirst hsecond s hs
    obtain ⟨body, rfl, hb⟩ := hclaim first hfirst
    obtain ⟨body', rfl, _⟩ := hclaim second hsecond
    exact outcome_claim_of_none laws body' (valid_claim laws hb hs) (entry_claim_self laws hb hs)

end

/-! ### What the exit hooks make of an entry -/

section

variable {P K S : Type} (task : CurrentTask)

theorem Tcp.Connect.spares_report [RecordSink S ConnectRecord] (config : ConnectConfig)
    (reader : SocketReader) (protocol : Protocol) (ret : Int64) (socket : UInt64) :
    (report config task reader protocol ret socket : Hook P K S Unit).Spares := by
  unfold report
  refine .ite (Hook.spares_pure _) ?_
  refine (Hook.spares_liftM _).bind fun destination => ?_
  refine .ite (Hook.spares_pure _) ?_
  exact .emit fun blank => (Hook.spares_liftM _).bind fun record => Hook.spares_pure _

theorem Payload.Plain.spares_capture [RecordSink S PayloadRecord] (memory : UserSpace)
    (kind : Kind) (ret : Int64) (args : SyscallArgs) :
    (capture task memory kind ret args : Hook P K S Unit).Spares := by
  unfold capture
  refine .ite (Hook.spares_pure _) ?_
  exact .emit fun blank => (Hook.spares_liftM _).bind fun record => Hook.spares_pure _

theorem Payload.Tls.spares_capture [RecordSink S PayloadRecord] (memory : UserSpace)
    (kind : Kind) (ret : Int64) (buf : UInt64) :
    (capture task memory kind ret buf : Hook P K S Unit).Spares := by
  unfold capture
  refine .ite (Hook.spares_pure _) ?_
  exact .emit fun blank => (Hook.spares_liftM _).bind fun record => Hook.spares_pure _

theorem Poll.Readiness.spares_report [RecordSink S PollRecord] (ret : Int64) (socket : Socket) :
    (report task ret socket : Hook P K S Unit).Spares := by
  unfold report
  refine .ite (Hook.spares_pure _) ?_
  exact .emit fun blank => (Hook.spares_liftM _).bind fun record => Hook.spares_pure _

theorem Unlink.Intercept.spares_intercept [RecordSink S UnlinkRecord] (config : UnlinkConfig)
    (memory : UserSpace) (pathname : UInt64) :
    (intercept config task memory pathname : Hook P ForcedReturn S Unit).Spares := by
  have hforce : (modify fun s => { s with known := s.known.override 0 } :
      Hook P ForcedReturn S Unit).Spares := fun _ => rfl
  unfold intercept fill
  refine .emit fun blank => (Hook.spares_liftM _).bind fun record => ?_
  exact .ite (Hook.spares_pure _) (hforce.bind fun _ => Hook.spares_pure _)

namespace Mysql.Capture

variable [KeyedTable K Int32 Connection]

/-- What the handshake learns is stored with the connections, which are a table of their own. -/
theorem spares_fill (memory : UserSpace) (args : SyscallArgs) (conn : Connection)
    (direction : Direction) (ret : Int64) (blank : MysqlRecord) :
    (fill task memory args conn direction ret blank : Hook P K S _).Spares := by
  unfold fill
  refine (Hook.spares_liftM _).bind fun captured => ?_
  rcases conn.observe captured.bytes direction with ⟨observation, next⟩
  cases observation with
  | ignore =>
    exact .ite ((Hook.spares_learn args.fd next).bind fun _ => Hook.spares_pure _)
      (Hook.spares_pure _)
  | report sequenceId =>
    refine .ite ((Hook.spares_learn args.fd next).bind fun _ => ?_) ?_
    all_goals
      exact (Hook.spares_liftM _).bind fun tgid => (Hook.spares_liftM _).bind fun pid =>
        Hook.spares_pure _

theorem spares_report [RecordSink S MysqlRecord] (memory : UserSpace) (direction : Direction)
    (ret : Int64) (args : SyscallArgs) :
    (report task memory direction ret args : Hook P K S Unit).Spares := by
  unfold report
  refine (Hook.spares_known? args.fd).bind fun found => ?_
  cases found with
  | none => exact Hook.spares_pure _
  | some conn =>
    exact .ite (Hook.spares_pure _) (.emit (spares_fill task memory args conn direction ret))

end Mysql.Capture

end

/-! ### The exit hooks of a task that may answer anew -/

section

variable {P K S : Type}

def Tcp.Connect.leaving [RecordSink S ConnectRecord] (config : ConnectConfig) :
    SocketReader × Protocol × Int64 → Asked → UInt64 → Hook P K S Unit
  | (reader, protocol, ret), task => report config task.filling reader protocol ret

def Payload.Plain.leaving [RecordSink S PayloadRecord] :
    UserSpace × Kind × Int64 → Asked → SyscallArgs → Hook P K S Unit
  | (memory, kind, ret), task => capture task.filling memory kind ret

def Payload.Tls.leaving [RecordSink S PayloadRecord] :
    UserSpace × Kind × Int64 → Asked → UInt64 → Hook P K S Unit
  | (memory, kind, ret), task => capture task.filling memory kind ret

def Mysql.Capture.leaving [KeyedTable K Int32 Connection] [RecordSink S MysqlRecord]
    (config : MysqlConfig) : UserSpace × Direction × Int64 → Asked → SyscallArgs → Hook P K S Unit
  | (memory, direction, ret), task, args => do
    if ret ≤ 0 then
      return
    if !(← task.deciding.inScope config.target) then
      return
    report task.filling memory direction ret args

def Poll.Readiness.leaving [RecordSink S PollRecord] : Int64 → Asked → Socket → Hook P K S Unit
  | ret, task => report task.filling ret

def Unlink.Intercept.leaving [RecordSink S UnlinkRecord] (config : UnlinkConfig) :
    UserSpace → Asked → UInt64 → Hook P ForcedReturn S Unit
  | memory, task => intercept config task.filling memory

theorem Mysql.Capture.spares_leaving [KeyedTable K Int32 Connection] [RecordSink S MysqlRecord]
    (config : MysqlConfig) (memory : UserSpace) (direction : Direction) (ret : Int64)
    (task : Asked) (args : SyscallArgs) :
    (leaving config (memory, direction, ret) task args : Hook P K S Unit).Spares := by
  refine Hook.Spares.ite (Hook.spares_pure _) ?_
  refine (Hook.spares_liftM _).bind fun inside => ?_
  exact .ite (Hook.spares_pure _) (spares_report task.filling memory direction ret args)

end

/-- However a thread leaves a call, its entry is released and no other is touched. What is asked of
a map, of memory, of a socket or of the task may fail, and so may the room for a record. -/
theorem exits_release (p : UInt32) :
    (∀ {P K S : Type} [KeyedTable P UInt32 UInt64] [RecordSink S Tcp.ConnectRecord]
      (laws : MapLaws P) (config : Tcp.ConnectConfig),
      (∀ task reader protocol ret, task.pid = .ok p → Exits p (Tcp.Connect.leaving config)
        (Tcp.Connect.onExit config task reader protocol ret : Hook P K S Unit)) ∧
      Releases (K := K) (S := S) laws p (Exits p (Tcp.Connect.leaving config))) ∧
    (∀ {P K S : Type} [KeyedTable P UInt32 SyscallArgs] [RecordSink S Payload.PayloadRecord]
      (laws : MapLaws P),
      (∀ task memory kind ret, task.pid = .ok p → Exits p Payload.Plain.leaving
        (Payload.Plain.onExit task memory kind ret : Hook P K S Unit)) ∧
      Releases (K := K) (S := S) laws p (Exits p Payload.Plain.leaving)) ∧
    (∀ {P K S : Type} [KeyedTable P UInt32 UInt64] [RecordSink S Payload.PayloadRecord]
      (laws : MapLaws P),
      (∀ task memory kind ret, task.pid = .ok p → Exits p Payload.Tls.leaving
        (Payload.Tls.onExit task memory kind ret : Hook P K S Unit)) ∧
      Releases (K := K) (S := S) laws p (Exits p Payload.Tls.leaving)) ∧
    (∀ {P K S : Type} [KeyedTable P UInt32 SyscallArgs] [KeyedTable K Int32 Mysql.Connection]
      [RecordSink S Mysql.MysqlRecord] (laws : MapLaws P) (config : Mysql.MysqlConfig),
      (∀ task memory direction ret, task.pid = .ok p → Exits p (Mysql.Capture.leaving config)
        (Mysql.Capture.onExit config task memory direction ret : Hook P K S Unit)) ∧
      Releases (K := K) (S := S) laws p (Exits p (Mysql.Capture.leaving config))) ∧
    (∀ {P K S : Type} [KeyedTable P UInt32 Poll.Socket] [RecordSink S Poll.PollRecord]
      (laws : MapLaws P),
      (∀ task ret, task.pid = .ok p → Exits p Poll.Readiness.leaving
        (Poll.Readiness.onExit task ret : Hook P K S Unit)) ∧
      Releases (K := K) (S := S) laws p (Exits p Poll.Readiness.leaving)) ∧
    (∀ {P S : Type} [KeyedTable P UInt32 UInt64] [RecordSink S Unlink.UnlinkRecord]
      (laws : MapLaws P) (config : Unlink.UnlinkConfig),
      (∀ task memory, task.pid = .ok p → Exits p (Unlink.Intercept.leaving config)
        (Unlink.Intercept.onDelete config task memory : Hook P Unlink.ForcedReturn S Unit)) ∧
      Releases (S := S) laws p (Exits p (Unlink.Intercept.leaving config))) := by
  refine ⟨?connect, ?plain, ?tls, ?mysql, ?poll, ?unlink⟩
  case connect =>
    intro P K S _ _ laws config
    refine ⟨?_, releases_exits laws p ?_⟩
    · intro task reader protocol ret hpid
      exact ⟨(reader, protocol, ret), .steady task, hpid, rfl⟩
    · intro (reader, protocol, ret) task socket
      exact Tcp.Connect.spares_report task.filling config reader protocol ret socket
  case plain =>
    intro P K S _ _ laws
    refine ⟨?_, releases_exits laws p ?_⟩
    · intro task memory kind ret hpid
      exact ⟨(memory, kind, ret), .steady task, hpid, rfl⟩
    · intro (memory, kind, ret) task args
      exact Payload.Plain.spares_capture task.filling memory kind ret args
  case tls =>
    intro P K S _ _ laws
    refine ⟨?_, releases_exits laws p ?_⟩
    · intro task memory kind ret hpid
      exact ⟨(memory, kind, ret), .steady task, hpid, rfl⟩
    · intro (memory, kind, ret) task buf
      exact Payload.Tls.spares_capture task.filling memory kind ret buf
  case mysql =>
    intro P K S _ _ _ laws config
    refine ⟨?_, releases_exits laws p ?_⟩
    · intro task memory direction ret hpid
      exact ⟨(memory, direction, ret), .steady task, hpid, rfl⟩
    · intro (memory, direction, ret) task args
      exact Mysql.Capture.spares_leaving config memory direction ret task args
  case poll =>
    intro P K S _ _ laws
    refine ⟨?_, releases_exits laws p ?_⟩
    · intro task ret hpid
      exact ⟨ret, .steady task, hpid, rfl⟩
    · intro ret task socket
      exact Poll.Readiness.spares_report task.filling ret socket
  case unlink =>
    intro P S _ _ laws config
    refine ⟨?_, releases_exits laws p ?_⟩
    · intro task memory hpid
      exact ⟨memory, .steady task, hpid, rfl⟩
    · intro memory task pathname
      exact Unlink.Intercept.spares_intercept task.filling config memory pathname

/-- Two threads are in the library when one leaves it, and its buffer cannot be read. -/
theorem exits_release_unreadable :
    let task := (Task.ofProcess 42).current
    let table : RecencyTable UInt32 UInt64 :=
      ((RecencyTable.empty 8).insert 42 0x1000).insert 43 0x2000
    let s : Stores _ Unit (PerCpuOutput Payload.PayloadRecord) := ⟨table, (), .empty 1 1 4, []⟩
    let exit := Payload.Tls.onExit task AddressSpace.empty.userSpace .request 5
    task.pid = .ok 42 ∧ table.Coherent ∧
    (exit.after s).pending.peek? 42 = none ∧ (exit.after s).pending.peek? 43 = some 0x2000 ∧
    (exit.outcome (exit.after s)).2.events = (exit.after s).events := by
  intro task table s exit
  obtain ⟨hexits, hreleases⟩ := (exits_release 42).2.2.1
    (P := RecencyTable UInt32 UInt64) (K := Unit) (S := PerCpuOutput Payload.PayloadRecord)
    RecencyTable.mapLaws
  have hexit := hexits task AddressSpace.empty.userSpace .request 5 rfl
  have hcoherent : ((RecencyTable.empty 8).insert 42 0x1000 : RecencyTable UInt32 UInt64).Coherent :=
    (RecencyTable.coherent_empty 8).insert 42 0x1000
  have htable : table.Coherent := hcoherent.insert 43 0x2000
  have hother : table.peek? 43 = some 0x2000 := hcoherent.peek?_insert_self 43 0x2000
  refine ⟨rfl, htable, hreleases.released exit hexit s htable, ?_, ?_⟩
  · exact (hreleases.others exit hexit s htable 43 (by decide)).trans hother
  · obtain ⟨pending, hagain, _⟩ := hreleases.again exit exit hexit hexit s htable
    rw [hagain]

end HookTrace
