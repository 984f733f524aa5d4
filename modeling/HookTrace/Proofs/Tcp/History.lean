import HookTrace.Proofs.Fillings
import HookTrace.Proofs.Release
import HookTrace.Proofs.Tcp.AllowList
import HookTrace.Tcp.Tracer

/-!
# HookTrace.Proofs.Tcp.History

Which connects are reported, told from the calls alone. Connects of both address families share the
entries of a thread, so that an exit of either family goes by the thread's latest entry of either
family, and uses it up (`waiting?`).

* `Keeps`: the table of a tracer is this history, as long as it has room. Each call keeps this
  (`Keeps.step`).
* `ConnectTracer.reports_admitted`: which calls hand over a record, which one, and how many connects
  a tracer takes for unfinished.
-/

namespace HookTrace.Tcp

open Store

/-- A call of a hook: for which task and, when the connect ends, with which sockets known. -/
inductive Act where
  | enter (protocol : Protocol) (task : Task) (socket : UInt64)
  | exit (protocol : Protocol) (task : Task) (sockets : Sockets) (ret : Int64)

namespace Act

def call : Act → Connect.Call
  | enter protocol task socket => .enter protocol task.current socket
  | exit protocol task sockets ret => .exit protocol task.current sockets.reader ret

def pid : Act → UInt32
  | enter _ task _ => task.pid
  | exit _ task _ _ => task.pid

def isExit : Act → Bool
  | enter .. => false
  | exit .. => true

/-- The socket that a task in scope enters with. -/
def entered? (target : UInt32) : Act → Option UInt64
  | enter _ task socket => if inScope task.tgid task.parentTgid target then some socket else none
  | exit .. => none

end Act

/-- The socket of a thread's latest entry in scope, since the thread's last exit. The latest call
comes first. -/
def waiting? (target : UInt32) (past : List Act) (pid : UInt32) : Option UInt64 :=
  ((past.filter (·.pid = pid)).takeWhile (!·.isExit)).findSome? (·.entered? target)

theorem waiting?_cons (target : UInt32) (act : Act) (past : List Act) (pid : UInt32) :
    waiting? target (act :: past) pid =
      if act.pid = pid then
        if act.isExit then none else (act.entered? target).or (waiting? target past pid)
      else waiting? target past pid := by
  unfold waiting?
  by_cases hpid : act.pid = pid
  · cases hexit : act.isExit with
    | true => simp [hpid, hexit]
    | false => cases hentered : act.entered? target <;> simp [hpid, hexit, hentered]
  · simp [hpid]

/-- The record of a connect: of the destination's addresses it has that of the protocol. -/
def ConnectRecord.ofDestination (task : Task) (protocol : Protocol) (destination : Destination) :
    ConnectRecord where
  tgid := task.tgid
  pid := task.pid
  uid := task.uid
  v4 := match protocol with
    | .ipv4 => destination.v4
    | .ipv6 => 0
  v6 := match protocol with
    | .ipv4 => Field.zero _
    | .ipv6 => destination.v6
  port := destination.port
  comm := task.comm
  protocol := UInt32.ofNat (Coded.code protocol)

/-! ### The hooks for a task and known sockets -/

namespace Connect

variable {K S : Type} (config : ConnectConfig) (task : Task)
variable (s : Stores (RecencyTable UInt32 UInt64) K S)

theorem after_onEnter (socket : UInt64) : (onEnter config task.current socket).after s =
    if inScope task.tgid task.parentTgid config.target then
      { s with pending := s.pending.insert task.pid socket }
    else s := by
  unfold onEnter
  rw [inScope_current, Hook.ok_bind]
  cases inScope task.tgid task.parentTgid config.target with
  | false => rfl
  | true =>
    have hleave : (Hook.leave task.pid socket).after s =
        { s with pending := s.pending.insert task.pid socket } := Hook.after_leave rfl
    exact hleave

theorem pending_onExit [RecordSink S ConnectRecord] (reader : SocketReader) (protocol : Protocol)
    (ret : Int64) : ((onExit config task.current reader protocol ret).after s).pending =
      s.pending.claimed task.pid :=
  pending_claim_eq_claimed s fun socket => spares_report task.current config reader protocol ret
    socket

/-- What is filled in for a task of which everything is known. -/
theorem record?_filling (sockets : Sockets) (protocol : Protocol) (ret : Int64)
    (waiting? : UInt32 → Option UInt64) :
    (filling? config task.current sockets.reader protocol ret waiting?).bind Filling.record? =
      if ret = 0 then
        (((waiting? task.pid).bind sockets.find?).filter (config.admits protocol)).map
          (.ofDestination task protocol)
      else none := by
  show ((waiting? task.pid).bind _).bind _ = _
  cases waiting? task.pid with
  | none => exact (ite_self _).symm
  | some socket =>
    rw [Option.bind_some, Option.bind_some]
    by_cases hret : ret = 0
    · rw [if_neg (not_not.2 hret), if_pos hret, Sockets.reader]
      cases sockets.find? socket with
      | none => rfl
      | some destination =>
        cases hadmits : config.admits protocol destination with
        | false => simp [Except.toOption, Option.filter, hadmits]
        | true =>
          simp [Except.toOption, Option.filter, hadmits]
          cases protocol <;> rfl
    · rw [if_pos hret, if_neg hret]
      rfl

end Connect

/-! ### What a call does to a table with room -/

abbrev ConnectStores := Stores (RecencyTable UInt32 UInt64) Unit (PerCpuOutput ConnectRecord)

/-- The stores of a tracer after a history, whose table has room. -/
structure Keeps (target : UInt32) (cpus : Nat) (threads : Finset UInt32) (past : List Act)
    (s : ConnectStores) : Prop where
  pending : s.pending.Roomy threads
  waiting : ∀ pid, s.pending.peek? pid = waiting? target past pid
  idle : s.events.staging.Idle (max cpus 1)

namespace Keeps

variable {config : ConnectConfig} {cpus : Nat} {threads : Finset UInt32} {past : List Act}
variable {s : ConnectStores}

theorem empty (config : ConnectConfig) (cpus : Nat) (h : threads.card ≤ Limits.entries) :
    Keeps config.target cpus threads [] (ConnectTracer.empty config cpus).stores where
  pending := .empty h
  waiting := RecencyTable.peek?_empty _
  idle := StagingPool.idle_empty cpus

theorem step (h : Keeps config.target cpus threads past s) {act : Act}
    (hpid : act.pid ∈ threads) :
    Keeps config.target cpus threads (act :: past) ((Connect.hook config act.call).after s) := by
  cases act with
  | enter protocol task socket =>
    show Keeps _ _ _ _ ((Connect.onEnter config task.current socket).after s)
    rw [Connect.after_onEnter]
    by_cases hin : inScope task.tgid task.parentTgid config.target = true
    · have hthread : task.pid ∈ threads := hpid
      rw [if_pos hin]
      refine ⟨h.pending.insert hthread socket, fun pid => ?_, h.idle⟩
      rw [h.pending.peek?_insert hthread, waiting?_cons, h.waiting]
      by_cases hother : pid = task.pid
      · simp [Act.pid, Act.isExit, Act.entered?, hin, hother]
      · simp [Act.pid, hother, Ne.symm hother]
    · rw [if_neg hin]
      refine ⟨h.pending, fun pid => ?_, h.idle⟩
      rw [h.waiting, waiting?_cons]
      simp [Act.isExit, Act.entered?, hin]
  | exit protocol task sockets ret =>
    show Keeps _ _ _ _ ((Connect.onExit config task.current sockets.reader protocol ret).after s)
    refine ⟨?_, fun pid => ?_, ?_⟩
    · rw [Connect.pending_onExit]
      exact h.pending.claimed task.pid
    · rw [Connect.pending_onExit, h.pending.coherent.peek?_claimed, waiting?_cons, h.waiting]
      by_cases hother : pid = task.pid
      · simp [Act.pid, Act.isExit, hother]
      · simp [Act.pid, hother, Ne.symm hother]
    · rw [show _ = _ from Connect.settles_onExit config task.current sockets.reader protocol ret s]
      exact PerCpuOutput.idle_settled h.idle _ _

end Keeps

/-! ### Runs -/

namespace ConnectTracer

variable (config : ConnectConfig) (cpus : Nat)

/-- A tracer after calls, of which the latest is the first in the list. -/
def after : (past : List Act) → ConnectTracer
  | [] => .empty config cpus
  | act :: past => ((after past).step act.call).2

/-- The hooks of a tracer, with and without a journal. -/
def hooks : Twofold Act (RecencyTable UInt32 UInt64) Unit (PerCpuOutput ConnectRecord)
    ConnectRecord where
  plain act := Connect.hook config act.call
  journaled act := Connect.hook config act.call

/-- All that a run hands over, the oldest first. -/
def submissions (past : List Act) : List (Nat × ConnectRecord) :=
  (hooks config).submissions (empty config cpus).stores past

theorem after_eq (past : List Act) :
    after config cpus past = ⟨config, (hooks config).after (empty config cpus).stores past⟩ := by
  induction past with
  | nil => rfl
  | cons act past ih =>
    rw [after, ih]
    exact Tracer.snd_call _ act.call.name fun config => Connect.hook config act.call

theorem settles_enter {K S : Type} [RecordSink S ConnectRecord] (protocol : Protocol) (task : Task)
    (socket : UInt64) (s : Stores (RecencyTable UInt32 UInt64) K S) :
    (Connect.hook config (Act.enter protocol task socket).call).Settles s task.cpu none := by
  show ((Connect.onEnter config task.current socket).after s).events = s.events
  rw [Connect.after_onEnter]
  split <;> rfl

theorem submits_enter (protocol : Protocol) (task : Task) (socket : UInt64) (s : ConnectStores) :
    ((hooks config).journaled (.enter protocol task socket)).submits s = [] :=
  Hook.submits_of_events_eq (settles_enter config protocol task socket _)

theorem settled_hooks : (hooks config).Settled := by
  intro act s
  cases act with
  | enter protocol task socket =>
    exact ⟨task.cpu, none, settles_enter config protocol task socket _,
      settles_enter config protocol task socket s⟩
  | exit protocol task sockets ret =>
    exact ⟨task.cpu, _, Connect.settles_onExit config task.current sockets.reader protocol ret _,
      Connect.settles_onExit config task.current sockets.reader protocol ret s⟩

theorem keeps_after {threads : Finset UInt32} (hcard : threads.card ≤ Limits.entries)
    {past : List Act} (hpid : ∀ act ∈ past, act.pid ∈ threads) :
    Keeps config.target cpus threads past
      ((hooks config).after (empty config cpus).stores past) := by
  induction past with
  | nil => exact .empty config cpus hcard
  | cons act past ih =>
    obtain ⟨hact, hpast⟩ := List.forall_mem_cons.1 hpid
    have h := (ih hpast).step hact
    exact ⟨h.pending, h.waiting, h.idle⟩

theorem submits_exit {threads : Finset UInt32} {past : List Act} {s : ConnectStores}
    (h : Keeps config.target cpus threads past s) (protocol : Protocol) (task : Task)
    (sockets : Sockets) (ret : Int64) :
    ((hooks config).journaled (.exit protocol task sockets ret)).submits s =
      if ret = 0 ∧ task.cpu < max cpus 1 then
        (((waiting? config.target past task.pid).bind sockets.find?).filter
          (config.admits protocol)).toList.map fun destination =>
            (task.cpu, .ofDestination task protocol destination)
      else [] := by
  have hwaiting : (fun pid => (KeyedTable.lookup s.pending pid).1) =
      waiting? config.target past := by
    funext pid
    exact (RecencyTable.fst_lookup s.pending pid).trans (h.waiting pid)
  have hsettles : ((hooks config).journaled (.exit protocol task sockets ret)).Settles
      ⟨s.pending, s.known, ⟨s.events, []⟩, s.notices⟩ task.cpu
      (Connect.filling? config task.current sockets.reader protocol ret
        (waiting? config.target past)) := by
    rw [← hwaiting]
    exact Connect.settles_onExit config task.current sockets.reader protocol ret _
  rw [Hook.submits_of_settles PerCpuOutput.clears hsettles, PerCpuOutput.handed_of_idle h.idle,
    Connect.record?_filling]
  by_cases hcpu : task.cpu < max cpus 1
  · rw [if_pos hcpu]
    by_cases hret : ret = 0
    · rw [if_pos hret, if_pos ⟨hret, hcpu⟩, Option.toList_map, List.map_map]
      rfl
    · rw [if_neg hret, if_neg fun h => hret h.1]
      rfl
  · rw [if_neg hcpu, if_neg fun h => hcpu h.2]

/-- An exit by `task` ends a connect to `destination` that has succeeded, and that is admitted by the
list of its address family. -/
structure Reports (target : UInt32) (v4 : List (Field 4)) (v6 : List AddressV6) (cpus : Nat)
    (past : List Act) (protocol : Protocol) (task : Task) (sockets : Sockets) (ret : Int64)
    (destination : Destination) : Prop where
  succeeded : ret = 0
  cpu_lt : task.cpu < max cpus 1
  known : ∃ socket, waiting? target past task.pid = some socket ∧
    sockets.find? socket = some destination
  admitted : ConnectConfig.Admitted v4 v6 destination protocol

/-- Connects are reported if they succeed and their destination is admitted, whatever lists of up to
32 addresses a tracer is restricted by. An exit hands over one record just if it ends such a connect
of its thread; nothing else hands over a record, and the channel gets what is handed over. Taken for
unfinished are the connects of the threads that have entered in scope since their last exit. -/
theorem reports_admitted (tgid : Option UInt32) {v4 : List (Field 4)} {v6 : List AddressV6}
    (h4 : v4.length ≤ Limits.allowed) (h6 : v6.length ≤ Limits.allowed) :
    ∃ config, ConnectConfig.ofLists tgid v4 v6 = .ok config ∧
      ∀ cpus past, (past.map Act.pid).toFinset.card ≤ Limits.entries →
        (∀ protocol task sockets ret,
          let handed := ((hooks config).journaled (.exit protocol task sockets ret)).submits
            (after config cpus past).stores
          let ReportsTo := Reports (tgid.getD 0) v4 v6 cpus past protocol task sockets ret
          (∀ destination, ReportsTo destination →
            handed = [(task.cpu, .ofDestination task protocol destination)]) ∧
          ((¬ ∃ destination, ReportsTo destination) → handed = [])) ∧
        (∀ protocol task socket, ((hooks config).journaled (.enter protocol task socket)).submits
          (after config cpus past).stores = []) ∧
        (after config cpus past).stores.events.channel =
          (PerCpuQueues.empty cpus Limits.queueDepth).outputs (submissions config cpus past) ∧
        (after config cpus past).pending = ((past.map Act.pid).toFinset.filter fun pid =>
          waiting? (tgid.getD 0) past pid ≠ none).card := by
  obtain ⟨config, hconfig, htarget, hadmits⟩ := ConnectConfig.exists_ofLists tgid h4 h6
  refine ⟨config, hconfig, fun cpus past hcard => ?_⟩
  have hkeeps : Keeps config.target cpus (past.map Act.pid).toFinset past
      (after config cpus past).stores := by
    rw [after_eq]
    exact keeps_after config cpus hcard fun act hact =>
      List.mem_toFinset.2 (List.mem_map_of_mem hact)
  rw [← htarget]
  refine ⟨fun protocol task sockets ret => ⟨?one, ?none⟩, ?enters, ?channel, ?pending⟩
  case one =>
    rintro destination ⟨hret, hcpu, ⟨socket, hwaiting, hfind⟩, hadmitted⟩
    rw [submits_exit config cpus hkeeps, if_pos ⟨hret, hcpu⟩, hwaiting, Option.bind_some, hfind,
      Option.filter, if_pos ((hadmits protocol destination).2 hadmitted)]
    rfl
  case none =>
    intro hnone
    rw [submits_exit config cpus hkeeps]
    split
    · rename_i hends
      cases hfound : ((waiting? config.target past task.pid).bind sockets.find?).filter
          (config.admits protocol) with
      | none => rfl
      | some destination =>
        obtain ⟨hfind, hadmitted⟩ := Option.filter_eq_some_iff.1 hfound
        exact absurd ⟨destination, hends.1, hends.2, Option.bind_eq_some_iff.1 hfind,
          (hadmits protocol destination).1 hadmitted⟩ hnone
    · rfl
  case enters =>
    intro protocol task socket
    exact submits_enter config protocol task socket _
  case channel =>
    rw [after_eq]
    exact (settled_hooks config).channel_after _ past
  case pending =>
    show (after config cpus past).stores.pending.size = _
    rw [hkeeps.pending.size_eq]
    simp only [hkeeps.waiting]

/-- An IPv6 connect to an address that is IPv4 in disguise goes through the IPv4 connect. The inner
exit is reported, and uses up the entries of both. -/
theorem reports_admitted_nested :
    let task := Task.ofProcess 42
    let sockets := Sockets.empty.insert 0x1000 { v4 := 0x0100007f, port := 443 }
    let octets : Field 4 := ⟨[127, 0, 0, 1], rfl⟩
    let entered : List Act := [.enter .ipv4 task 0x1000, .enter .ipv6 task 0x1000]
    let exited := .exit .ipv4 task sockets 0 :: entered
    ∃ config, ConnectConfig.ofLists (some 42) [octets] [] = .ok config ∧
      ((hooks config).journaled (.exit .ipv4 task sockets 0)).submits
          (after config 1 entered).stores =
        [(0, .ofDestination task .ipv4 { v4 := 0x0100007f, port := 443 })] ∧
      ((hooks config).journaled (.exit .ipv6 task sockets 0)).submits
          (after config 1 exited).stores = [] ∧
      (after config 1 exited).pending = 0 := by
  intro task sockets octets entered exited
  obtain ⟨config, hconfig, hruns⟩ := reports_admitted (some 42)
    (show [octets].length ≤ Limits.allowed by decide)
    (show ([] : List AddressV6).length ≤ Limits.allowed by decide)
  have hinner := hruns 1 entered (by decide)
  have houter := hruns 1 exited (by decide)
  refine ⟨config, hconfig, ?_, ?_, ?_⟩
  · exact (hinner.1 .ipv4 task sockets 0).1 _
      ⟨rfl, by decide, ⟨0x1000, by decide, by decide⟩, .inr (by decide)⟩
  · refine (houter.1 .ipv6 task sockets 0).2 ?_
    rintro ⟨destination, hreports⟩
    obtain ⟨socket, hwaiting, -⟩ := hreports.known
    have hnone : waiting? 42 exited task.pid = none := by decide
    cases hnone.symm.trans hwaiting
  · rw [houter.2.2.2]
    decide

end ConnectTracer

end HookTrace.Tcp
