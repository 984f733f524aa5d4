import HookTrace.Proofs.Mysql.Handshake
import HookTrace.Proofs.Mysql.Submissions

/-!
# HookTrace.Proofs.Mysql.History

What a tracer of MySQL traffic knows, and what it has handed over, told from the calls alone. A
descriptor is known by its latest connect to a tracked port since it was last closed
(`trackedPort?`), a thread is in the transfer it last entered on a descriptor then known
(`waiting?`), and a connection has observed the payloads captured since it was made (`messages`).

`MysqlTracer.after_history`: that is all there is to a tracer whose tables have room.
-/

namespace HookTrace.Mysql

open Store

/-- The port by which a call makes `fd` known. -/
def Act.tracks? (config : MysqlConfig) (fd : Int32) : Act → Option UInt16
  | .connect task space fd' uaddr => if fd' = fd then config.port? task space uaddr else none
  | _ => none

def Act.closes (fd : Int32) : Act → Bool
  | .close _ fd' => fd' = fd
  | _ => false

/-- The tracked port that `fd` was last connected to, if it was not closed since. Here and below
the latest call comes first. -/
def trackedPort? (config : MysqlConfig) (fd : Int32) (past : List Act) : Option UInt16 :=
  (past.takeWhile fun act => !act.closes fd).findSome? (·.tracks? config fd)

/-- The transfer that a thread is in: the one it last entered on a descriptor then known, if it
has left none since. -/
def waiting? (config : MysqlConfig) (pid : UInt32) : List Act → Option SyscallArgs
  | [] => none
  | .enter _ task args :: past =>
    if task.pid = pid ∧ config.covers task ∧ (trackedPort? config args.fd past).isSome then some args
    else waiting? config pid past
  | .exit _ task _ _ :: past => if task.pid = pid then none else waiting? config pid past
  | _ :: past => waiting? config pid past

/-- What a call captures from `fd`. -/
def Act.message? (config : MysqlConfig) (cpus : Nat) (fd : Int32) (past : List Act) :
    Act → Option Message
  | .exit transfer task space ret =>
    match waiting? config task.pid past with
    | none => none
    | some args =>
      if args.fd = fd then
        (config.payload? cpus task space args.buf ret).map fun payload =>
          (payload, .ofTransfer transfer)
      else none
  | _ => none

/-- What was captured from `fd` since it was last connected to a tracked port, the oldest first. -/
def messages (config : MysqlConfig) (cpus : Nat) (fd : Int32) : List Act → List Message
  | [] => []
  | act :: past =>
    if (act.tracks? config fd).isSome then []
    else messages config cpus fd past ++ (act.message? config cpus fd past).toList

def connection? (config : MysqlConfig) (cpus : Nat) (fd : Int32) (past : List Act) :
    Option Connection :=
  (trackedPort? config fd past).map fun port =>
    (Connection.connecting fd port).observeAll (messages config cpus fd past)

/-- What a call hands to the channel: the record of what it captured, if the connection of that
descriptor has it reported. -/
def Act.handed (config : MysqlConfig) (cpus : Nat) (past : List Act) :
    Act → List (Nat × MysqlRecord)
  | .exit transfer task space ret =>
    match waiting? config task.pid past with
    | none => []
    | some args =>
      match connection? config cpus args.fd past, config.payload? cpus task space args.buf ret with
      | some conn, some payload =>
        (conn.observe payload (.ofTransfer transfer)).1.records task args.fd payload
          (.ofTransfer transfer)
      | _, _ => []
  | _ => []

/-- All that was handed to the channel, the oldest first. -/
def handed (config : MysqlConfig) (cpus : Nat) : List Act → List (Nat × MysqlRecord)
  | [] => []
  | act :: past => handed config cpus past ++ act.handed config cpus past

section

variable (config : MysqlConfig) (cpus : Nat) (fd : Int32) (act : Act) (past : List Act)

theorem trackedPort?_cons : trackedPort? config fd (act :: past) =
    if act.closes fd then none
    else (act.tracks? config fd).or (trackedPort? config fd past) := by
  unfold trackedPort?
  cases hc : act.closes fd with
  | true => simp [hc]
  | false => cases ht : act.tracks? config fd <;> simp [hc, ht]

theorem connection?_cons : connection? config cpus fd (act :: past) =
    if act.closes fd then none
    else
      match act.tracks? config fd with
      | some port => some (.connecting fd port)
      | none => (connection? config cpus fd past).map fun conn =>
          match act.message? config cpus fd past with
          | none => conn
          | some m => (conn.observe m.1 m.2).2 := by
  rw [connection?, trackedPort?_cons]
  cases act.closes fd with
  | true => rfl
  | false =>
    cases ht : act.tracks? config fd with
    | some port =>
      have hm : messages config cpus fd (act :: past) = [] := by simp [messages, ht]
      simp [hm, Connection.observeAll]
    | none =>
      have hm : messages config cpus fd (act :: past) =
          messages config cpus fd past ++ (act.message? config cpus fd past).toList := by
        simp [messages, ht]
      unfold connection?
      rw [hm]
      cases trackedPort? config fd past <;> cases act.message? config cpus fd past <;>
        simp [Connection.observeAll]

end

namespace Ledger

variable (config : MysqlConfig) (cpus : Nat) (past : List Act)

/-- The ledger that the calls tell. -/
def ofHistory : Ledger where
  conns := fun fd => connection? config cpus fd past
  waiting := fun pid => waiting? config pid past

theorem step_connect (task : Task) (space : AddressSpace) (fd : Int32) (uaddr : UInt64) :
    (ofHistory config cpus past).step config cpus (.connect task space fd uaddr) =
      ofHistory config cpus (.connect task space fd uaddr :: past) := by
  rw [step]
  cases hp : config.port? task space uaddr with
  | none =>
    refine Ledger.ext (funext fun other => ?_) rfl
    show connection? config cpus other past = connection? config cpus other _
    rw [connection?_cons]
    simp [Act.closes, Act.tracks?, Act.message?, hp]
  | some port =>
    refine Ledger.ext (funext fun other => ?_) rfl
    show Function.update (fun fd => connection? config cpus fd past) fd _ other =
      connection? config cpus other _
    rw [connection?_cons, Function.update_apply]
    by_cases hfd : other = fd
    · simp [Act.closes, Act.tracks?, hp, hfd]
    · simp [Act.closes, Act.tracks?, Act.message?, hfd, Ne.symm hfd]

theorem step_enter (transfer : Transfer) (task : Task) (args : SyscallArgs) :
    (ofHistory config cpus past).step config cpus (.enter transfer task args) =
      ofHistory config cpus (.enter transfer task args :: past) := by
  have hsome : ((ofHistory config cpus past).conns args.fd).isSome =
      (trackedPort? config args.fd past).isSome := Option.isSome_map
  have hconns : (ofHistory config cpus past).conns =
      (ofHistory config cpus (.enter transfer task args :: past)).conns := by
    funext other
    show connection? config cpus other past = connection? config cpus other _
    rw [connection?_cons]
    simp [Act.closes, Act.tracks?, Act.message?]
  rw [step, hsome]
  split
  · rename_i hcan
    refine Ledger.ext hconns (funext fun pid => ?_)
    show Function.update (fun pid => waiting? config pid past) task.pid _ pid = waiting? config pid _
    rw [waiting?, Function.update_apply]
    by_cases hpid : pid = task.pid
    · rw [if_pos hpid, if_pos ⟨hpid.symm, hcan⟩]
    · rw [if_neg hpid, if_neg fun h => hpid h.1.symm]
  · rename_i hcan
    refine Ledger.ext hconns (funext fun pid => ?_)
    show waiting? config pid past = waiting? config pid _
    rw [waiting?, if_neg fun h => hcan h.2]

theorem waiting_exit (transfer : Transfer) (task : Task) (space : AddressSpace) (ret : Int64) :
    (ofHistory config cpus (.exit transfer task space ret :: past)).waiting =
      Function.update (ofHistory config cpus past).waiting task.pid none := by
  funext pid
  show waiting? config pid _ = Function.update (fun pid => waiting? config pid past) task.pid _ pid
  rw [waiting?, Function.update_apply]
  by_cases hpid : pid = task.pid
  · rw [if_pos hpid, if_pos hpid.symm]
  · rw [if_neg hpid, if_neg (Ne.symm hpid)]

theorem conns_exit (transfer : Transfer) (task : Task) (space : AddressSpace) (ret : Int64)
    (fd : Int32) : (ofHistory config cpus (.exit transfer task space ret :: past)).conns fd =
      (connection? config cpus fd past).map fun conn =>
        match (Act.exit transfer task space ret).message? config cpus fd past with
        | none => conn
        | some m => (conn.observe m.1 m.2).2 := by
  show connection? config cpus fd _ = _
  rw [connection?_cons]
  rfl

theorem step_exit (transfer : Transfer) (task : Task) (space : AddressSpace) (ret : Int64) :
    (ofHistory config cpus past).step config cpus (.exit transfer task space ret) =
      ofHistory config cpus (.exit transfer task space ret :: past) := by
  have hwait : (ofHistory config cpus past).waiting task.pid = waiting? config task.pid past := rfl
  rw [step, hwait]
  cases hw : waiting? config task.pid past with
  | none =>
    refine Ledger.ext (funext fun fd => ?_) ?_
    · rw [conns_exit]
      simp [Act.message?, hw, ofHistory]
    · rw [waiting_exit]
      exact (Function.update_eq_self_iff.2 (hwait.trans hw).symm).symm
  | some args =>
    have hconn : (ofHistory config cpus past).conns args.fd =
        connection? config cpus args.fd past := rfl
    simp only [transferred, hconn]
    refine Ledger.ext (funext fun fd => ?_) ?_
    · rw [conns_exit]
      by_cases hfd : fd = args.fd
      · cases hc : connection? config cpus args.fd past <;>
          cases hp : config.payload? cpus task space args.buf ret <;>
          simp [Act.message?, hw, hp, hfd, hc, ofHistory]
      · have hne : args.fd ≠ fd := Ne.symm hfd
        cases hc : connection? config cpus args.fd past <;>
          cases hp : config.payload? cpus task space args.buf ret <;>
          simp [Act.message?, hw, hne, hfd, ofHistory]
    · rw [waiting_exit]
      cases connection? config cpus args.fd past <;>
        cases config.payload? cpus task space args.buf ret <;> rfl

theorem step_close (task : Task) (fd : Int32) :
    (ofHistory config cpus past).step config cpus (.close task fd) =
      ofHistory config cpus (.close task fd :: past) := by
  refine Ledger.ext (funext fun other => ?_) rfl
  show Function.update (fun fd => connection? config cpus fd past) fd none other =
    connection? config cpus other _
  rw [connection?_cons, Function.update_apply]
  by_cases hfd : other = fd
  · simp [Act.closes, hfd]
  · simp [Act.closes, Act.tracks?, Act.message?, hfd, Ne.symm hfd]

theorem step_ofHistory (act : Act) :
    (ofHistory config cpus past).step config cpus act = ofHistory config cpus (act :: past) := by
  cases act with
  | connect task space fd uaddr => exact step_connect config cpus past task space fd uaddr
  | enter transfer task args => exact step_enter config cpus past transfer task args
  | exit transfer task space ret => exact step_exit config cpus past transfer task space ret
  | close task fd => exact step_close config cpus past task fd

theorem after_eq : after config cpus past = ofHistory config cpus past := by
  induction past with
  | nil => rfl
  | cons act past ih => rw [after, ih, step_ofHistory]

end Ledger

namespace MysqlTracer

variable (config : MysqlConfig) (cpus : Nat)

theorem mem_connected {past : List Act} : ∀ act ∈ past, ∀ fd, act.connected? = some fd →
    fd ∈ (past.filterMap Act.connected?).toFinset :=
  fun act hact _ hfd => List.mem_toFinset.2 (List.mem_filterMap.2 ⟨act, hact, hfd⟩)

theorem mem_entered {past : List Act} : ∀ act ∈ past, ∀ pid, act.entered? = some pid →
    pid ∈ (past.filterMap Act.entered?).toFinset :=
  fun act hact _ hpid => List.mem_toFinset.2 (List.mem_filterMap.2 ⟨act, hact, hpid⟩)

theorem keeps_history (past : List Act)
    (hfds : (past.filterMap Act.connected?).toFinset.card ≤ Limits.entries)
    (hthreads : (past.filterMap Act.entered?).toFinset.card ≤ Limits.entries) :
    Keeps cpus (past.filterMap Act.connected?).toFinset (past.filterMap Act.entered?).toFinset
      (after config cpus past).stores (.ofHistory config cpus past) := by
  rw [← Ledger.after_eq]
  exact keeps_after config cpus hfds hthreads mem_connected mem_entered

variable {config cpus} in
/-- What a call hands over is what the calls before it tell. -/
theorem submits_of_keeps {fds : Finset Int32} {threads : Finset UInt32} {past : List Act}
    {s : MysqlStores} (h : Keeps cpus fds threads s (.ofHistory config cpus past)) (act : Act) :
    ((hooks config).journaled act).submits s = act.handed config cpus past := by
  cases act with
  | exit transfer task space ret =>
    have hconns : s.known.peek? = (connection? config cpus · past) := funext h.conns
    have hwaiting : s.pending.peek? = (waiting? config · past) := funext h.waiting
    rw [submits_exit config h.idle, hconns, hwaiting]
    rfl
  | connect | enter | close => exact submits_of_not_exit config rfl s

theorem submissions_of_room {fds : Finset Int32} {threads : Finset UInt32}
    (hfds : fds.card ≤ Limits.entries) (hthreads : threads.card ≤ Limits.entries) {past : List Act}
    (hfd : ∀ act ∈ past, ∀ fd, act.connected? = some fd → fd ∈ fds)
    (hpid : ∀ act ∈ past, ∀ pid, act.entered? = some pid → pid ∈ threads) :
    submissions config cpus past = handed config cpus past := by
  induction past with
  | nil => rfl
  | cons act past ih =>
    obtain ⟨-, hfd⟩ := List.forall_mem_cons.1 hfd
    obtain ⟨-, hpid⟩ := List.forall_mem_cons.1 hpid
    have hkeeps := keeps_after config cpus hfds hthreads hfd hpid
    rw [Ledger.after_eq] at hkeeps
    rw [submissions_cons, ih hfd hpid, submits_of_keeps hkeeps, handed]

theorem submissions_history (past : List Act)
    (hfds : (past.filterMap Act.connected?).toFinset.card ≤ Limits.entries)
    (hthreads : (past.filterMap Act.entered?).toFinset.card ≤ Limits.entries) :
    submissions config cpus past = handed config cpus past :=
  submissions_of_room config cpus hfds hthreads mem_connected mem_entered

theorem channel_history (past : List Act)
    (hfds : (past.filterMap Act.connected?).toFinset.card ≤ Limits.entries)
    (hthreads : (past.filterMap Act.entered?).toFinset.card ≤ Limits.entries) :
    (after config cpus past).stores.events.channel =
      (PerCpuQueues.empty cpus Limits.queueDepth).outputs (handed config cpus past) := by
  rw [channel_after, submissions_history config cpus past hfds hthreads]

/-- As long as there is room for the descriptors that are connected and for the threads that enter
a transfer, the calls tell what is known of every descriptor and which records were handed over.
What was handed over is what the channel got, in this order. -/
theorem after_history (past : List Act)
    (hfds : (past.filterMap Act.connected?).toFinset.card ≤ Limits.entries)
    (hthreads : (past.filterMap Act.entered?).toFinset.card ≤ Limits.entries) :
    (∀ fd, (after config cpus past).connection fd =
      (trackedPort? config fd past).map fun port =>
        (Connection.connecting fd port).observeAll (messages config cpus fd past)) ∧
    submissions config cpus past = handed config cpus past ∧
    (after config cpus past).stores.events.channel =
      (PerCpuQueues.empty cpus Limits.queueDepth).outputs (handed config cpus past) :=
  ⟨(keeps_history config cpus past hfds hthreads).conns,
    submissions_history config cpus past hfds hthreads,
    channel_history config cpus past hfds hthreads⟩

theorem after_history_greeted :
    let task := Task.ofProcess 42
    let peer : InetAddress := { addr := 0x0100007f, port := 3306 }
    let greeting : Bytes := [11, 0, 0, 0, 0x0a, 56, 46, 48, 46, 51, 54, 0, 8, 0, 0]
    let space := (AddressSpace.empty.map 0x1000 peer.encode).map 0x2000 greeting
    let past : List Act :=
      [.exit .recvfrom task space 15, .enter .recvfrom task { fd := 7, buf := 0x2000, len := 64 },
        .connect task space 7 0x1000]
    (past.filterMap Act.connected?).toFinset.card ≤ Limits.entries ∧
    (past.filterMap Act.entered?).toFinset.card ≤ Limits.entries ∧
    (after {} 1 past).connection 7 = some { fd := 7, port := 3306, stage := .greeted } ∧
    submissions {} 1 past = [(0, .ofPayload task 7 greeting .serverToClient 0)] ∧
    (after {} 1 past).stores.events.channel =
      (PerCpuQueues.empty 1 Limits.queueDepth).outputs
        [(0, .ofPayload task 7 greeting .serverToClient 0)] := by
  refine ⟨by decide, by decide, ?_, ?_, ?_⟩
  · exact ((after_history {} 1 _ (by decide) (by decide)).1 7).trans (by decide +kernel)
  · refine (after_history {} 1 _ (by decide) (by decide)).2.1.trans ?_
    rfl
  · refine (after_history {} 1 _ (by decide) (by decide)).2.2.trans ?_
    rfl

end MysqlTracer

end HookTrace.Mysql
