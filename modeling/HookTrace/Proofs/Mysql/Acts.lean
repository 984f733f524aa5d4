import HookTrace.Mysql.Tracer
import HookTrace.Proofs.Hook
import HookTrace.Proofs.Store.Capacity
import HookTrace.Proofs.Store.Staging

/-!
# HookTrace.Proofs.Mysql.Acts

The hooks of MySQL traffic, called for a task and on a memory of which everything can be asked.
What a call goes by is put in words of the call alone: the port that is connected to
(`MysqlConfig.port?`) and the payload that is captured (`MysqlConfig.payload?`). `after_connect`,
`after_enter`, `after_exit` and `after_close` say all that a call can do to the stores of a
tracer, however full they are.
-/

namespace HookTrace.Mysql

/-- A call of a hook: for which task, and on which memory of its process. -/
inductive Act where
  | connect (task : Task) (space : AddressSpace) (fd : Int32) (uaddr : UInt64)
  | enter (transfer : Transfer) (task : Task) (args : SyscallArgs)
  | exit (transfer : Transfer) (task : Task) (space : AddressSpace) (ret : Int64)
  | close (task : Task) (fd : Int32)

def Act.call : Act → Capture.Call
  | connect task space fd uaddr => .connect task.current space.userSpace fd uaddr
  | enter transfer task args => .enter transfer task.current args
  | exit transfer task space ret => .exit transfer task.current space.userSpace ret
  | close _ fd => .close fd

/-- Whether a task is in the traced process tree. -/
def MysqlConfig.covers (config : MysqlConfig) (task : Task) : Bool :=
  inScope task.tgid task.parentTgid config.target

/-- The tracked port that a task connects to. -/
def MysqlConfig.port? (config : MysqlConfig) (task : Task) (space : AddressSpace)
    (uaddr : UInt64) : Option UInt16 :=
  if config.covers task then
    match InetAddress.read? space.userSpace uaddr with
    | .ok (some peer) => if config.tracksPort peer.port then some peer.port else none
    | _ => none
  else none

/-- The bytes that are captured at `buf` of a transfer that moved `ret` bytes. -/
def MysqlConfig.payload? (config : MysqlConfig) (cpus : Nat) (task : Task) (space : AddressSpace)
    (buf : UInt64) (ret : Int64) : Option Bytes :=
  if 0 < ret ∧ config.covers task ∧ task.cpu < max cpus 1 then
    (space.bytesAt buf (captureLength ret.toNatClampNeg Limits.payload)).map (·.bytes)
  else none

/-- The record of a captured payload. -/
def MysqlRecord.ofPayload (task : Task) (fd : Int32) (payload : Bytes) (direction : Direction)
    (sequenceId : UInt8) : MysqlRecord where
  tgid := task.tgid
  pid := task.pid
  uid := task.uid
  fd := fd
  len := UInt32.ofNat payload.length
  sequenceId := sequenceId.toUInt32
  buf := Field.ofBytes _ payload
  direction := UInt32.ofNat (Coded.code direction)

/-- What is handed over for an observed payload. -/
def Observation.records (task : Task) (fd : Int32) (payload : Bytes) (direction : Direction) :
    Observation → List (Nat × MysqlRecord)
  | .ignore => []
  | .report sequenceId => [(task.cpu, .ofPayload task fd payload direction sequenceId)]

namespace Capture

variable {P K S : Type}
variable [KeyedTable P UInt32 SyscallArgs] [KeyedTable K Int32 Connection]
variable [RecordSink S MysqlRecord] (config : MysqlConfig) (task : Task) (space : AddressSpace)

/-! ### The hooks for a task and a memory -/

omit [KeyedTable P UInt32 SyscallArgs] [RecordSink S MysqlRecord] in
theorem after_onConnect (fd : Int32) (uaddr : UInt64) (s : Stores P K S) :
    (onConnect config task.current space.userSpace fd uaddr).after s =
      match config.port? task space uaddr with
      | none => s
      | some port => (Hook.learn fd (Connection.connecting fd port)).after s := by
  unfold onConnect MysqlConfig.port? MysqlConfig.covers
  rw [inScope_current, Hook.ok_bind]
  cases inScope task.tgid task.parentTgid config.target with
  | false => rfl
  | true =>
    cases InetAddress.read? space.userSpace uaddr with
    | error fault => rfl
    | ok peer =>
      cases peer with
      | none => rfl
      | some peer =>
        rw [Hook.ok_bind]
        cases ht : config.tracksPort peer.port <;> simp [ht, Hook.after_pure]

omit [RecordSink S MysqlRecord] in
theorem after_onEnter (args : SyscallArgs) (s : Stores P K S) :
    (onEnter config task.current args).after s =
      if config.covers task then
        let s' := { s with known := (KeyedTable.lookup s.known args.fd).2 }
        match (KeyedTable.lookup s.known args.fd).1 with
        | none => s'
        | some _ => (Hook.leave task.pid args).after s'
      else s := by
  unfold onEnter MysqlConfig.covers
  rw [inScope_current, Hook.ok_bind]
  cases inScope task.tgid task.parentTgid config.target with
  | false => rfl
  | true =>
    show Hook.after (Hook.known? args.fd >>= _) s = _
    rw [Hook.after_known?_bind]
    cases (KeyedTable.lookup s.known args.fd).1 <;> rfl

omit [KeyedTable P UInt32 SyscallArgs] [RecordSink S MysqlRecord] in
theorem fill_of_unreadable {args : SyscallArgs} {ret : Int64} (conn : Connection)
    (direction : Direction) (record : MysqlRecord) (s : Stores P K S)
    (h : space.bytesAt args.buf (captureLength ret.toNatClampNeg Limits.payload) = none) :
    ∃ fault, fill task.current space.userSpace args conn direction ret record s =
      .error fault s := by
  unfold fill AddressSpace.userSpace
  simp only [h, Hook.error_bind]
  exact ⟨_, rfl⟩

omit [KeyedTable P UInt32 SyscallArgs] [RecordSink S MysqlRecord] in
/-- What the handshake learns is stored before the record is completed. -/
theorem fill_of_readable {args : SyscallArgs} {ret : Int64} (conn : Connection)
    (direction : Direction) {captured : Field (captureLength ret.toNatClampNeg Limits.payload)}
    {s : Stores P K S} (known : K)
    (h : space.bytesAt args.buf (captureLength ret.toNatClampNeg Limits.payload) = some captured)
    (hk : if (conn.observe captured.bytes direction).2 = conn then known = s.known
      else KeyedTable.record s.known args.fd (conn.observe captured.bytes direction).2 =
        .ok known) :
    fill task.current space.userSpace args conn direction ret Layout.zero s =
      .ok (match (conn.observe captured.bytes direction).1 with
        | .ignore => none
        | .report sequenceId =>
          some (.ofPayload task args.fd captured.bytes direction sequenceId))
        { s with known } := by
  have hlen : captured.bytes.length = captureLength ret.toNatClampNeg Limits.payload :=
    captured.length_eq
  unfold fill AddressSpace.userSpace MysqlRecord.ofPayload
  simp only [h, Hook.ok_bind]
  rw [hlen]
  by_cases hne : (conn.observe captured.bytes direction).2 = conn
  · rw [if_pos hne] at hk
    rw [if_neg (fun hn => hn hne), hk]
    cases (conn.observe captured.bytes direction).1 <;> rfl
  · rw [if_neg hne] at hk
    rw [if_pos hne]
    simp only [bind, EStateM.bind, Hook.learn_of_record hk]
    cases (conn.observe captured.bytes direction).1 <;> rfl

theorem onExit_current (direction : Direction) (ret : Int64) :
    (onExit config task.current space.userSpace direction ret : Hook P K S Unit) =
      Hook.claim task.pid (capture config task.current space.userSpace direction ret) := rfl

omit [KeyedTable P UInt32 SyscallArgs] in
theorem after_capture (direction : Direction) (ret : Int64) (args : SyscallArgs)
    (s : Stores P K S) :
    (capture config task.current space.userSpace direction ret args).after s =
      if 0 < ret ∧ config.covers task then
        let s' := { s with known := (KeyedTable.lookup s.known args.fd).2 }
        match (KeyedTable.lookup s.known args.fd).1 with
        | none => s'
        | some conn =>
          if conn.stage = .invalid then s'
          else
            (Hook.emit task.cpu "mysql event"
              (fill task.current space.userSpace args conn direction ret)).after s'
      else s := by
  unfold capture report MysqlConfig.covers
  rw [inScope_current, Hook.ok_bind]
  by_cases hret : ret ≤ 0
  · have hpos : ¬ 0 < ret := Int64.not_lt.2 hret
    rw [if_pos hret, if_neg fun h => hpos h.1]
    rfl
  · have hpos : 0 < ret := Int64.not_le.1 hret
    rw [if_neg hret]
    cases inScope task.tgid task.parentTgid config.target with
    | false => simp [Hook.after_pure]
    | true =>
      simp only [hpos, and_self, if_true, Bool.not_true, Bool.false_eq_true, if_false]
      rw [Hook.after_known?_bind]
      cases (KeyedTable.lookup s.known args.fd).1 with
      | none => rfl
      | some conn =>
        simp only
        split <;> rfl

end Capture

/-! ### What a call can do to the stores of a tracer -/

open Store

abbrev MysqlStores :=
  Stores (RecencyTable UInt32 SyscallArgs) (RecencyTable Int32 Connection)
    (PerCpuOutput MysqlRecord)

namespace MysqlStores

open Capture

variable {s : MysqlStores} (config : MysqlConfig) (task : Task) (space : AddressSpace)

theorem after_connect (fd : Int32) (uaddr : UInt64) :
    (onConnect config task.current space.userSpace fd uaddr).after s =
      match config.port? task space uaddr with
      | none => s
      | some port => { s with known := s.known.insert fd (.connecting fd port) } := by
  rw [after_onConnect]
  cases config.port? task space uaddr with
  | none => rfl
  | some port => exact Hook.after_learn rfl

theorem after_enter (args : SyscallArgs) (h : s.known.Coherent) :
    (onEnter config task.current args).after s =
      if config.covers task then
        { s with
          known := (s.known.get? args.fd).2
          pending := if (s.known.peek? args.fd).isSome then s.pending.insert task.pid args
            else s.pending }
      else s := by
  rw [after_onEnter]
  cases config.covers task with
  | false => rfl
  | true =>
    have hl : (KeyedTable.lookup s.known args.fd).1 = s.known.peek? args.fd := h.fst_get? args.fd
    simp only [hl, if_true]
    cases s.known.peek? args.fd with
    | none => rfl
    | some conn => exact Hook.after_leave rfl

theorem after_exit (direction : Direction) (ret : Int64) (h : s.pending.Coherent) :
    (onExit config task.current space.userSpace direction ret).after s =
      match s.pending.peek? task.pid with
      | none => { s with pending := (s.pending.get? task.pid).2 }
      | some args =>
        let ended := (capture config task.current space.userSpace direction ret args).after
          { s with pending := (s.pending.get? task.pid).2 }
        { ended with pending := (ended.pending.erase task.pid).2 } := by
  have hl : KeyedTable.lookup s.pending task.pid = s.pending.get? task.pid := rfl
  rw [onExit_current, Hook.after_claim, hl, ← h.fst_get? task.pid]
  cases s.pending.get? task.pid with
  | mk args pending => cases args <;> rfl

theorem after_close (fd : Int32) :
    (onClose fd).after s = { s with known := (s.known.erase fd).2 } :=
  Hook.after_unlearn fd s

/-- `s'` differs from `s` in what is known, and in nothing else that a later call could tell. -/
structure Learns (cpus : Nat) (s s' : MysqlStores) (known : RecencyTable Int32 Connection) :
    Prop where
  pending_eq : s'.pending = s.pending
  known_eq : s'.known = known
  idle : s'.events.staging.Idle (max cpus 1)

variable {cpus : Nat} {args : SyscallArgs} {ret : Int64}

variable {config task space} in
theorem learns_emit_of_none (conn : Connection) (direction : Direction)
    (hidle : s.events.staging.Idle (max cpus 1)) (hret : 0 < ret ∧ config.covers task)
    (hp : config.payload? cpus task space args.buf ret = none) :
    Learns cpus s ((Hook.emit task.cpu "mysql event"
      (fill task.current space.userSpace args conn direction ret)).after s) s.known := by
  by_cases hcpu : task.cpu < max cpus 1
  · obtain ⟨staging, hreserve, hback⟩ := PerCpuOutput.reserve_of_lt hidle hcpu
    have hread : space.bytesAt args.buf (captureLength ret.toNatClampNeg Limits.payload) = none := by
      rw [MysqlConfig.payload?, if_pos ⟨hret.1, hret.2, hcpu⟩] at hp
      exact Option.map_eq_none_iff.1 hp
    obtain ⟨fault, hfill⟩ := fill_of_unreadable task space conn direction Layout.zero
      { s with events := { s.events with staging } } hread
    rw [Hook.after_emit hreserve]
    simp only [hfill]
    exact ⟨rfl, rfl, hback _⟩
  · have hreserve := PerCpuOutput.reserve_of_le hidle (Nat.not_lt.1 hcpu)
    rw [Hook.after_emit_of_none hreserve]
    exact ⟨rfl, rfl, hidle⟩

variable {config task space} in
theorem learns_emit_of_some (conn : Connection) (direction : Direction)
    (hidle : s.events.staging.Idle (max cpus 1)) {payload : Bytes}
    (hp : config.payload? cpus task space args.buf ret = some payload) :
    Learns cpus s ((Hook.emit task.cpu "mysql event"
      (fill task.current space.userSpace args conn direction ret)).after s)
      (if (conn.observe payload direction).2 = conn then s.known
        else s.known.insert args.fd (conn.observe payload direction).2) := by
  obtain ⟨hcan, hread⟩ : (0 < ret ∧ config.covers task ∧ task.cpu < max cpus 1) ∧
      ∃ captured, space.bytesAt args.buf (captureLength ret.toNatClampNeg Limits.payload) =
        some captured ∧ captured.bytes = payload := by
    unfold MysqlConfig.payload? at hp
    split at hp
    · rename_i hcan
      exact ⟨hcan, Option.map_eq_some_iff.1 hp⟩
    · cases hp
  obtain ⟨captured, hread, rfl⟩ := hread
  obtain ⟨staging, hreserve, hback⟩ := PerCpuOutput.reserve_of_lt hidle hcan.2.2
  have hfill := fill_of_readable task space conn direction
    (s := { s with events := { s.events with staging } })
    (if (conn.observe captured.bytes direction).2 = conn then s.known
      else s.known.insert args.fd (conn.observe captured.bytes direction).2) hread
    (by split <;> rfl)
  rw [Hook.after_emit hreserve]
  simp only [hfill]
  cases (conn.observe captured.bytes direction).1 with
  | ignore => exact ⟨rfl, rfl, hback _⟩
  | report sequenceId => exact ⟨rfl, rfl, hback _⟩

theorem observe_of_invalid {conn : Connection} {direction : Direction} {payload : Bytes}
    (h : conn.stage = .invalid) :
    conn.observe payload direction = (.ignore, conn) := by
  unfold Connection.observe
  rw [if_pos h]

/-- What a transfer that has ended makes of what is known of its descriptor. -/
theorem learns_capture (args : SyscallArgs) (direction : Direction) (ret : Int64)
    (hk : s.known.Coherent) (hidle : s.events.staging.Idle (max cpus 1)) :
    ∃ touched, s.known.Touches touched ∧
      match s.known.peek? args.fd, config.payload? cpus task space args.buf ret with
      | some conn, some payload =>
        Learns cpus s
          ((capture config task.current space.userSpace direction ret args).after s)
          (if (conn.observe payload direction).2 = conn then touched
            else touched.insert args.fd (conn.observe payload direction).2)
      | _, _ =>
        Learns cpus s
          ((capture config task.current space.userSpace direction ret args).after s) touched := by
  have hl : (KeyedTable.lookup s.known args.fd).1 = s.known.peek? args.fd := hk.fst_get? args.fd
  rw [after_capture]
  by_cases hret : 0 < ret ∧ config.covers task
  · rw [if_pos hret, hl]
    -- the search for the connection touches it, also if nothing comes of the capture
    refine ⟨(s.known.get? args.fd).2, .key args.fd, ?_⟩
    cases s.known.peek? args.fd with
    | none => exact ⟨rfl, rfl, hidle⟩
    | some conn =>
      simp only
      by_cases hstage : conn.stage = .invalid
      · simp only [hstage, if_true]
        cases config.payload? cpus task space args.buf ret with
        | none => exact ⟨rfl, rfl, hidle⟩
        | some payload =>
          simp only [observe_of_invalid hstage, if_true]
          exact ⟨rfl, rfl, hidle⟩
      · simp only [hstage, if_false]
        cases hp : config.payload? cpus task space args.buf ret with
        | none =>
          have h := learns_emit_of_none (s := { s with known := (s.known.get? args.fd).2 })
            conn direction hidle hret hp
          exact ⟨h.pending_eq, h.known_eq, h.idle⟩
        | some payload =>
          have h := learns_emit_of_some (s := { s with known := (s.known.get? args.fd).2 })
            conn direction hidle hp
          exact ⟨h.pending_eq, h.known_eq, h.idle⟩
  · have hp : config.payload? cpus task space args.buf ret = none :=
      if_neg fun h => hret ⟨h.1, h.2.1⟩
    refine ⟨s.known, .none, ?_⟩
    rw [if_neg hret, hp]
    cases s.known.peek? args.fd <;> exact ⟨rfl, rfl, hidle⟩

end MysqlStores

/-! ### Runs -/

namespace MysqlTracer

/-- A tracer after calls, of which the latest is the first in the list. -/
def after (config : MysqlConfig) (cpus : Nat) : (past : List Act) → MysqlTracer
  | [] => .empty config cpus
  | act :: past => ((after config cpus past).step act.call).2

theorem snd_step (tracer : MysqlTracer) (call : Capture.Call) :
    (tracer.step call).2 =
      ⟨tracer.config, { (Capture.hook tracer.config call).after tracer.stores with
        notices := [] }⟩ :=
  tracer.snd_call call.name fun config => Capture.hook config call

variable (config : MysqlConfig) (cpus : Nat)

theorem config_after (past : List Act) : (after config cpus past).config = config := by
  induction past with
  | nil => rfl
  | cons act past ih =>
    rw [after, snd_step]
    exact ih

theorem stores_after_cons (act : Act) (past : List Act) :
    (after config cpus (act :: past)).stores =
      { (Capture.hook config act.call).after (after config cpus past).stores with
        notices := [] } := by
  rw [after, snd_step, config_after]

end MysqlTracer

end HookTrace.Mysql
