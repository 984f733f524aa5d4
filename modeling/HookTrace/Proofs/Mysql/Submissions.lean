import HookTrace.Proofs.Mysql.Bindings
import HookTrace.Proofs.Settlement

/-!
# HookTrace.Proofs.Mysql.Submissions

What the hooks of MySQL traffic hand over. An exit fills in a record by what it finds remembered of
its thread and of the descriptor (`Capture.filling?`, `Capture.settles_onExit`), and no other hook
touches the channel. On a tracer's own stores this is an equation, `MysqlTracer.submits_exit`, however
full the tables are; with it a run is told call by call (`submissions_append`).
-/

namespace HookTrace.Mysql

open Store

variable {P K S : Type}

namespace Capture

section

variable [KeyedTable P UInt32 SyscallArgs] [RecordSink S MysqlRecord]
variable (config : MysqlConfig) (task : CurrentTask) (memory : UserSpace) (direction : Direction)
variable (ret : Int64)

/-- A payload is judged by its connection, and given up if the connection turns out to be none. -/
def judged (args : SyscallArgs) (conn : Connection) : Filling MysqlRecord := fun blank => do
  let length := captureLength ret.toNatClampNeg Limits.payload
  let captured ← memory.read args.buf length
  match (conn.observe captured.bytes direction).1 with
  | .ignore => return none
  | .report sequenceId =>
    return some { blank with
      buf := blank.buf.overwrite captured.bytes
      tgid := ← task.tgid
      pid := ← task.pid
      uid := task.uid
      fd := args.fd
      len := UInt32.ofNat length
      sequenceId := sequenceId.toUInt32
      direction := UInt32.ofNat (Coded.code direction) }

def filling? (waiting? : UInt32 → Option SyscallArgs) (conn? : Int32 → Option Connection) :
    Option (Filling MysqlRecord) :=
  task.pid.toOption.bind fun pid => (waiting? pid).bind fun args =>
    if ret ≤ 0 then none
    else (task.inScope config.target).toOption.bind fun inside =>
      if !inside then none
      else (conn? args.fd).bind fun conn =>
        if conn.stage = .invalid then none
        else some (judged task memory direction ret args conn)

omit [KeyedTable P UInt32 SyscallArgs] [RecordSink S MysqlRecord] in
/-- What the handshake learns is no business of the channel's, and the table never refuses it. -/
theorem answers_fill (args : SyscallArgs) (conn : Connection) (blank : MysqlRecord)
    (s : Stores P (RecencyTable Int32 Connection) S) :
    (fill task memory args conn direction ret blank).Answers s
      (judged task memory direction ret args conn blank) := by
  unfold fill judged
  refine .ask _ fun captured _ => ?_
  rcases conn.observe captured.bytes direction with ⟨observation, next⟩
  have hlearn : ∀ s : Stores P (RecencyTable Int32 Connection) S,
      (Hook.learn args.fd next).Answers s (.ok ()) := fun s => ⟨_, Hook.outcome_learn .., rfl⟩
  cases observation with
  | ignore =>
    exact .ite (fun _ => (hlearn s).bind fun _ => Hook.answers_pure none)
      fun _ => Hook.answers_pure none
  | report sequenceId =>
    refine .ite (fun _ => (hlearn s).bind fun t => ?_) fun _ => ?_
    all_goals exact .ask _ fun tgid _ => .ask _ fun pid _ => Hook.answers_pure _

theorem settles_onExit (s : Stores P (RecencyTable Int32 Connection) S) :
    (onExit config task memory direction ret).Settles s task.cpu
      (filling? config task memory direction ret
        (fun pid => (KeyedTable.lookup s.pending pid).1)
        fun fd => (KeyedTable.lookup s.known fd).1) := by
  unfold onExit
  refine .ask _ fun pid _ => .claim pid fun args => ?_
  unfold capture
  refine .ite (fun _ => Hook.settles_pure _) fun _ => .ask _ fun inside _ => ?_
  refine .ite (fun _ => Hook.settles_pure _) fun _ => ?_
  unfold report
  refine .known? args.fd (·.bind _) fun conn? => ?_
  cases conn? with
  | none => exact Hook.settles_pure _
  | some conn =>
    refine .ite (fun _ => Hook.settles_pure _) fun _ => Hook.settles_emit fun slot held _ => ?_
    exact answers_fill task memory direction ret args conn slot.record _

end

/-! ### A task of which everything is known -/

section

variable (config : MysqlConfig) (task : Task) (space : AddressSpace) (direction : Direction)
variable (ret : Int64)

/-- What is filled in for a task of which everything is known. -/
theorem filling?_current (waiting? : UInt32 → Option SyscallArgs)
    (conn? : Int32 → Option Connection) :
    filling? config task.current space.userSpace direction ret waiting? conn? =
      (waiting? task.pid).bind fun args =>
        if 0 < ret ∧ config.covers task then
          (conn? args.fd).bind fun conn =>
            if conn.stage = .invalid then none
            else some (judged task.current space.userSpace direction ret args conn)
        else none := by
  show (waiting? task.pid).bind _ = _
  refine congrArg (waiting? task.pid).bind (funext fun args => ?_)
  rw [inScope_current]
  by_cases hret : ret ≤ 0
  · rw [if_pos hret, if_neg fun h => Int64.not_lt.2 hret h.1]
  · have hpos : 0 < ret := Int64.not_le.1 hret
    unfold MysqlConfig.covers
    rw [if_neg hret]
    cases inScope task.tgid task.parentTgid config.target with
    | false => simp [Except.toOption]
    | true => simp [Except.toOption, hpos]

variable {ret} in
theorem judged_of_readable (args : SyscallArgs) (conn : Connection)
    {captured : Field (captureLength ret.toNatClampNeg Limits.payload)}
    (h : space.bytesAt args.buf (captureLength ret.toNatClampNeg Limits.payload) = some captured) :
    judged task.current space.userSpace direction ret args conn Layout.zero =
      .ok (match (conn.observe captured.bytes direction).1 with
        | .ignore => none
        | .report sequenceId =>
          some (.ofPayload task args.fd captured.bytes direction sequenceId)) := by
  have hlen : captured.bytes.length = captureLength ret.toNatClampNeg Limits.payload :=
    captured.length_eq
  have hread : space.userSpace.read args.buf (captureLength ret.toNatClampNeg Limits.payload) =
      .ok captured := by
    unfold AddressSpace.userSpace
    simp only [h]
  unfold judged MysqlRecord.ofPayload
  simp only [hread]
  rw [hlen]
  show (match (conn.observe captured.bytes direction).1 with
    | .ignore => _
    | .report sequenceId => _) = _
  cases (conn.observe captured.bytes direction).1 <;> rfl

theorem records_judged (args : SyscallArgs) (conn : Connection) :
    (judged task.current space.userSpace direction ret args conn).record?.toList.map
        (fun record => (task.cpu, record)) =
      match space.bytesAt args.buf (captureLength ret.toNatClampNeg Limits.payload) with
      | none => []
      | some captured => (conn.observe captured.bytes direction).1.records task args.fd
          captured.bytes direction := by
  unfold Filling.record?
  cases hread : space.bytesAt args.buf (captureLength ret.toNatClampNeg Limits.payload) with
  | none =>
    unfold judged AddressSpace.userSpace
    simp only [hread]
    rfl
  | some captured =>
    rw [judged_of_readable task space direction args conn hread]
    simp only
    cases (conn.observe captured.bytes direction).1 <;> rfl

/-- A payload is handed over if it could be captured and its connection has it reported. -/
theorem records_captured (cpus : Nat) (args : SyscallArgs) (conn? : Option Connection) :
    let filling? := if 0 < ret ∧ config.covers task then
        conn?.bind fun conn =>
          if conn.stage = .invalid then none
          else some (judged task.current space.userSpace direction ret args conn)
      else none
    (if task.cpu < max cpus 1 then
        (filling?.bind Filling.record?).toList.map fun record => (task.cpu, record)
      else []) =
      match conn?, config.payload? cpus task space args.buf ret with
      | some conn, some payload =>
        (conn.observe payload direction).1.records task args.fd payload direction
      | _, _ => [] := by
  intro filling?
  by_cases hcan : 0 < ret ∧ config.covers task ∧ task.cpu < max cpus 1
  · obtain ⟨hret, hcovers, hcpu⟩ := hcan
    have hpayload : config.payload? cpus task space args.buf ret =
        (space.bytesAt args.buf (captureLength ret.toNatClampNeg Limits.payload)).map (·.bytes) :=
      if_pos ⟨hret, hcovers, hcpu⟩
    have hfilling : filling? = conn?.bind _ := if_pos ⟨hret, hcovers⟩
    rw [if_pos hcpu, hfilling, hpayload]
    cases conn? with
    | none => rfl
    | some conn =>
      rw [Option.bind_some]
      by_cases hstage : conn.stage = .invalid
      -- nothing is reserved, and nothing would be reported
      · rw [if_pos hstage]
        cases space.bytesAt args.buf (captureLength ret.toNatClampNeg Limits.payload) with
        | none => rfl
        | some captured =>
          simp only [Option.map_some, MysqlStores.observe_of_invalid hstage]
          rfl
      · rw [if_neg hstage, Option.bind_some, records_judged]
        cases space.bytesAt args.buf (captureLength ret.toNatClampNeg Limits.payload) <;> rfl
  · have hpayload : config.payload? cpus task space args.buf ret = none := if_neg hcan
    have hnone : (match conn?, (none : Option Bytes) with
        | some conn, some payload =>
          (conn.observe payload direction).1.records task args.fd payload direction
        | _, _ => []) = [] := by
      cases conn? <;> rfl
    rw [hpayload, hnone]
    by_cases hcpu : task.cpu < max cpus 1
    · have hfilling : filling? = none := if_neg fun h => hcan ⟨h.1, h.2, hcpu⟩
      rw [if_pos hcpu, hfilling]
      rfl
    · exact if_neg hcpu

end

theorem events_of_not_exit [RecordSink S MysqlRecord] (config : MysqlConfig) {act : Act}
    (h : act.call.cpu? = none)
    (s : Stores (RecencyTable UInt32 SyscallArgs) (RecencyTable Int32 Connection) S) :
    ((hook config act.call).after s).events = s.events := by
  cases act with
  | connect task space fd uaddr =>
    show ((onConnect config task.current space.userSpace fd uaddr).after s).events = s.events
    rw [after_onConnect]
    cases config.port? task space uaddr with
    | none => rfl
    | some port =>
      have hlearn : (Hook.learn fd (Connection.connecting fd port)).after s =
          { s with known := s.known.insert fd (.connecting fd port) } := Hook.after_learn rfl
      simp only [hlearn]
  | enter transfer task args =>
    show ((onEnter config task.current args).after s).events = s.events
    rw [after_onEnter]
    cases config.covers task with
    | false => rfl
    | true =>
      simp only [if_true]
      cases (KeyedTable.lookup s.known args.fd).1 with
      | none => rfl
      | some conn =>
        have hleave : (Hook.leave task.pid args).after
              { s with known := (KeyedTable.lookup s.known args.fd).2 } =
            { s with
              known := (KeyedTable.lookup s.known args.fd).2
              pending := s.pending.insert task.pid args } := Hook.after_leave rfl
        simp only [hleave]
  | exit transfer task space ret => cases h
  | close task fd => rfl

end Capture

/-! ### What a call hands over -/

theorem Observation.fd_of_mem_records {task : Task} {fd : Int32} {payload : Bytes}
    {direction : Direction} {observation : Observation} {e : Nat × MysqlRecord}
    (h : e ∈ observation.records task fd payload direction) : e.2.fd = fd := by
  cases observation with
  | ignore => cases h
  | report sequenceId =>
    rw [List.mem_singleton.1 h]
    rfl

namespace MysqlTracer

variable (config : MysqlConfig) {cpus : Nat} {s : MysqlStores}

theorem submits_of_not_exit {act : Act} (h : act.call.cpu? = none) (s : MysqlStores) :
    ((hooks config).journaled act).submits s = [] :=
  Hook.submits_of_events_eq (Capture.events_of_not_exit config h _)

/-- An exit hands over the record of what it captured, if the connection of its descriptor has it
reported. -/
theorem submits_exit (hidle : s.events.staging.Idle (max cpus 1)) (transfer : Transfer)
    (task : Task) (space : AddressSpace) (ret : Int64) :
    ((hooks config).journaled (.exit transfer task space ret)).submits s =
      match s.pending.peek? task.pid with
      | none => []
      | some args =>
        match s.known.peek? args.fd, config.payload? cpus task space args.buf ret with
        | some conn, some payload =>
          (conn.observe payload (.ofTransfer transfer)).1.records task args.fd payload
            (.ofTransfer transfer)
        | _, _ => [] := by
  have hsettles : ((hooks config).journaled (.exit transfer task space ret)).Settles
      ⟨s.pending, s.known, ⟨s.events, []⟩, s.notices⟩ task.cpu
      (Capture.filling? config task.current space.userSpace (.ofTransfer transfer) ret
        s.pending.peek? s.known.peek?) := by
    have hfound := Capture.settles_onExit config task.current space.userSpace
      (.ofTransfer transfer) ret
      (⟨s.pending, s.known, ⟨s.events, []⟩, s.notices⟩ : Stores _ _ (Journal _ MysqlRecord))
    simp only [RecencyTable.fst_lookup] at hfound
    exact hfound
  rw [Hook.submits_of_settles PerCpuOutput.clears hsettles, PerCpuOutput.handed_of_idle hidle,
    Capture.filling?_current]
  cases s.pending.peek? task.pid with
  | none => exact ite_self _
  | some args =>
    exact Capture.records_captured config task space (.ofTransfer transfer) ret cpus args
      (s.known.peek? args.fd)

end MysqlTracer

end HookTrace.Mysql
