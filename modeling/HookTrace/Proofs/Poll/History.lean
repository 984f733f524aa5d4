import HookTrace.Proofs.Fillings
import HookTrace.Proofs.Poll.Acts
import HookTrace.Proofs.Release

/-!
# HookTrace.Proofs.Poll.History

Which polls are reported, and with which peer, told from the calls alone. An entry to a poll records
the peer that its descriptor has at that time (`recorded?`); what becomes of the descriptor before the
exit does not matter any more (`waiting?`).

* `Keeps`: the tables of a tracer are these two histories, as long as they have room. Each call keeps
  this (`Keeps.step`).
* `PollTracer.reports_peer_at_entry`: which calls hand over a record, and which one.
-/

namespace HookTrace.Poll

open Store

/-! ### Calls told from a history, the latest first -/

/-- The peer of a descriptor that is connected on behalf of a task in scope, if it is an IPv4 address
that can be read. -/
def accepted? (scope : Scope) (task : Task) (space : AddressSpace) (uaddr : UInt64) :
    Option InetAddress :=
  if inScope task.tgid task.parentTgid scope.target then
    (InetAddress.read? space.userSpace uaddr).toOption.join
  else none

/-- The descriptor that a task in scope polls, if its four bytes can be read. -/
def polled? (scope : Scope) (task : Task) (space : AddressSpace) (ufds : UInt64) : Option Int32 :=
  if inScope task.tgid task.parentTgid scope.target then
    (space.bytesAt ufds 4).map fun bytes => (UInt32.ofNat bytes.toNatLE).toInt32
  else none

namespace Act

/-- The peer that a call gives a descriptor. -/
def connects? (scope : Scope) (fd : Int32) : Act → Option InetAddress
  | connect task space other uaddr => if other = fd then accepted? scope task space uaddr else none
  | _ => none

def closes (fd : Int32) : Act → Bool
  | close _ other => other == fd
  | _ => false

def isExit : Act → Bool
  | exit .. => true
  | _ => false

end Act

def Socket.ofPeer (fd : Int32) (peer : InetAddress) : Socket :=
  ⟨fd, peer.addr, peer.port.toUInt32⟩

/-- The peer that a descriptor was connected to last, since it was closed last. -/
def peer? (scope : Scope) (past : List Act) (fd : Int32) : Option InetAddress :=
  (past.takeWhile (!·.closes fd)).findSome? (·.connects? scope fd)

/-- What an entry to a poll records: the descriptor polled, with the peer it has. -/
def recorded? (scope : Scope) (past : List Act) (task : Task) (space : AddressSpace)
    (ufds : UInt64) : Option Socket :=
  (polled? scope task space ufds).bind fun fd => (peer? scope past fd).map (.ofPeer fd)

/-- What a thread's latest entry that recorded anything has recorded, since the thread's last
exit. -/
def waiting? (scope : Scope) : (past : List Act) → UInt32 → Option Socket
  | [], _ => none
  | .enter _ task space ufds :: past, pid =>
    if task.pid = pid then (recorded? scope past task space ufds).or (waiting? scope past pid)
    else waiting? scope past pid
  | .exit _ task _ :: past, pid => if task.pid = pid then none else waiting? scope past pid
  | .connect .. :: past, pid => waiting? scope past pid
  | .close .. :: past, pid => waiting? scope past pid

theorem peer?_cons (scope : Scope) (act : Act) (past : List Act) (fd : Int32) :
    peer? scope (act :: past) fd =
      if act.closes fd then none else (act.connects? scope fd).or (peer? scope past fd) := by
  unfold peer?
  cases hcloses : act.closes fd with
  | true => simp [hcloses]
  | false => cases hconnects : act.connects? scope fd <;> simp [hcloses, hconnects]

/-- The record of a poll that has ended. -/
def PollRecord.ofSocket (task : Task) (socket : Socket) (ret : Int64) : PollRecord where
  tgid := task.tgid
  pid := task.pid
  uid := task.uid
  fd := socket.fd
  addr := socket.addr
  port := socket.port
  ret := ret.toInt32

/-! ### The hooks for a task and a memory -/

namespace Readiness

variable {S : Type} (scope : Scope) (task : Task) (space : AddressSpace)
variable (s : Stores (RecencyTable UInt32 Socket) (RecencyTable Int32 Socket) S)

theorem after_onConnect (fd : Int32) (uaddr : UInt64) :
    (onConnect scope task.current space.userSpace fd uaddr).after s =
      match accepted? scope task space uaddr with
      | none => s
      | some peer => { s with known := s.known.insert fd (.ofPeer fd peer) } := by
  unfold onConnect accepted?
  rw [inScope_current, Hook.ok_bind]
  cases inScope task.tgid task.parentTgid scope.target with
  | false => rfl
  | true =>
    cases InetAddress.read? space.userSpace uaddr with
    | error fault => rfl
    | ok peer? =>
      cases peer? with
      | none => rfl
      | some peer =>
        have hlearn : (Hook.learn fd (Socket.ofPeer fd peer)).after s =
            { s with known := s.known.insert fd (.ofPeer fd peer) } := Hook.after_learn rfl
        exact hlearn

theorem polledFd_userSpace (ufds : UInt64) : (polledFd space.userSpace ufds).toOption =
    (space.bytesAt ufds 4).map fun bytes => (UInt32.ofNat bytes.toNatLE).toInt32 := by
  unfold polledFd AddressSpace.userSpace
  cases h : space.bytesAt ufds 4 <;> simp [h] <;> rfl

theorem after_onEnter (ufds : UInt64) :
    (onEnter scope task.current space.userSpace ufds).after s =
      match polled? scope task space ufds with
      | none => s
      | some fd =>
        match s.known.peek? fd with
        | none => { s with known := (s.known.get? fd).2 }
        | some socket =>
          { s with known := (s.known.get? fd).2, pending := s.pending.insert task.pid socket } := by
  unfold onEnter polled?
  rw [inScope_current, Hook.ok_bind, ← polledFd_userSpace]
  cases inScope task.tgid task.parentTgid scope.target with
  | false => rfl
  | true =>
    cases polledFd space.userSpace ufds with
    | error fault => rfl
    | ok fd =>
      simp only [Bool.not_true, Bool.false_eq_true, if_false, if_true, Hook.ok_bind]
      rw [Hook.after_known?_bind, RecencyTable.fst_lookup]
      simp only [Except.toOption]
      cases s.known.peek? fd with
      | none => rfl
      | some socket =>
        have hleave : (Hook.leave task.pid socket).after
              { s with known := (s.known.get? fd).2 } =
            { s with known := (s.known.get? fd).2, pending := s.pending.insert task.pid socket } :=
          Hook.after_leave rfl
        exact hleave

variable [RecordSink S PollRecord]

theorem events_of_not_exit {act : Act} (h : act.isExit = false) :
    ((hook scope act.call).after s).events = s.events := by
  cases act with
  | connect task space fd uaddr =>
    show ((onConnect scope task.current space.userSpace fd uaddr).after s).events = s.events
    rw [after_onConnect]
    cases accepted? scope task space uaddr <;> rfl
  | enter variant task space ufds =>
    show ((onEnter scope task.current space.userSpace ufds).after s).events = s.events
    rw [after_onEnter]
    cases polled? scope task space ufds with
    | none => rfl
    | some fd =>
      simp only
      cases s.known.peek? fd <;> rfl
  | exit => cases h
  | close => rfl

omit [RecordSink S PollRecord] in
/-- What is filled in for a task of which everything is known. -/
theorem record?_filling (ret : Int64) (waiting? : UInt32 → Option Socket) :
    (filling? task.current ret waiting?).bind Filling.record? =
      if 0 ≤ ret then (waiting? task.pid).map (.ofSocket task · ret) else none := by
  show ((waiting? task.pid).bind fun socket => if ret < 0 then none else some _).bind _ = _
  by_cases hret : 0 ≤ ret
  · rw [if_pos hret]
    cases waiting? task.pid with
    | none => rfl
    | some socket =>
      rw [Option.bind_some, if_neg (Int64.not_lt.2 hret)]
      rfl
  · rw [if_neg hret]
    cases waiting? task.pid with
    | none => rfl
    | some socket =>
      rw [Option.bind_some, if_pos (Int64.not_le.1 hret)]
      rfl

theorem known_report (task : CurrentTask) (ret : Int64) (socket : Socket) :
    ((report task ret socket).after s).known = s.known := by
  unfold report
  by_cases hret : ret < 0
  · rw [if_pos hret]
    rfl
  · rw [if_neg hret]
    cases hreserve : RecordSink.reserve s.events task.cpu with
    | none => rw [Hook.after_emit_of_none hreserve]
    | some reserved =>
      rw [Hook.after_emit hreserve]
      cases reserved.1.record.fill task socket ret <;> rfl

theorem known_onExit (ret : Int64) : ((onExit task.current ret).after s).known = s.known := by
  show ((Hook.claim task.pid (report task.current ret)).after s).known = s.known
  rw [Hook.after_claim]
  cases KeyedTable.lookup s.pending task.pid with
  | mk found pending =>
    cases found with
    | none => rfl
    | some socket => exact known_report { s with pending } task.current ret socket

theorem pending_onExit (ret : Int64) :
    ((onExit task.current ret).after s).pending = s.pending.claimed task.pid :=
  pending_claim_eq_claimed s fun socket => spares_report task.current ret socket

end Readiness

/-! ### What a call does to tables with room -/

abbrev PollStores :=
  Stores (RecencyTable UInt32 Socket) (RecencyTable Int32 Socket) (PerCpuOutput PollRecord)

/-- The stores of a tracer after a history, whose tables have room. -/
structure Keeps (scope : Scope) (cpus : Nat) (fds : Finset Int32) (threads : Finset UInt32)
    (past : List Act) (s : PollStores) : Prop where
  known : s.known.Roomy fds
  pending : s.pending.Roomy threads
  peer : ∀ fd, s.known.peek? fd = (peer? scope past fd).map (.ofPeer fd)
  waiting : ∀ pid, s.pending.peek? pid = waiting? scope past pid
  idle : s.events.staging.Idle (max cpus 1)

namespace Keeps

variable {scope : Scope} {cpus : Nat} {fds : Finset Int32} {threads : Finset UInt32}
variable {past : List Act} {s : PollStores}

theorem empty (scope : Scope) (cpus : Nat) (hfds : fds.card ≤ Limits.entries)
    (hthreads : threads.card ≤ Limits.entries) :
    Keeps scope cpus fds threads [] (PollTracer.empty scope cpus).stores where
  known := .empty hfds
  pending := .empty hthreads
  peer := RecencyTable.peek?_empty _
  waiting := RecencyTable.peek?_empty _
  idle := StagingPool.idle_empty cpus

theorem connect (h : Keeps scope cpus fds threads past s) (task : Task) (space : AddressSpace)
    {fd : Int32} (hfd : fd ∈ fds) (uaddr : UInt64) :
    Keeps scope cpus fds threads (.connect task space fd uaddr :: past)
      ((Readiness.onConnect scope task.current space.userSpace fd uaddr).after s) := by
  have hpeer : ∀ other, peer? scope (.connect task space fd uaddr :: past) other =
      if fd = other then (accepted? scope task space uaddr).or (peer? scope past other)
      else peer? scope past other := by
    intro other
    rw [peer?_cons]
    by_cases hother : fd = other <;> simp [Act.closes, Act.connects?, hother]
  rw [Readiness.after_onConnect]
  cases haccepted : accepted? scope task space uaddr with
  | none =>
    refine ⟨h.known, h.pending, fun other => ?_, h.waiting, h.idle⟩
    rw [hpeer, haccepted, Option.none_or, ite_self]
    exact h.peer other
  | some peer =>
    refine ⟨h.known.insert hfd _, h.pending, fun other => ?_, h.waiting, h.idle⟩
    rw [h.known.peek?_insert hfd, hpeer, haccepted]
    by_cases hother : other = fd
    · rw [if_pos hother, if_pos hother.symm, hother]
      rfl
    · rw [if_neg hother, if_neg (Ne.symm hother)]
      exact h.peer other

theorem enter (h : Keeps scope cpus fds threads past s) (variant : Variant) {task : Task}
    (hpid : task.pid ∈ threads) (space : AddressSpace) (ufds : UInt64) :
    Keeps scope cpus fds threads (.enter variant task space ufds :: past)
      ((Readiness.onEnter scope task.current space.userSpace ufds).after s) := by
  have hpeer : ∀ fd, peer? scope (.enter variant task space ufds :: past) fd =
      peer? scope past fd := fun fd => peer?_cons scope _ past fd
  rw [Readiness.after_onEnter]
  cases hpolled : polled? scope task space ufds with
  | none =>
    refine ⟨h.known, h.pending, fun fd => (h.peer fd).trans (by rw [hpeer]), fun pid => ?_, h.idle⟩
    rw [h.waiting, waiting?, recorded?, hpolled]
    exact (ite_self _).symm
  | some fd =>
    have hfound := h.peer fd
    have hknown : ∀ other, (s.known.get? fd).2.peek? other =
        (peer? scope (.enter variant task space ufds :: past) other).map (.ofPeer other) :=
      fun other => (h.known.coherent.peek?_get? fd other).trans (by rw [h.peer, hpeer])
    have hrecorded : recorded? scope past task space ufds = s.known.peek? fd := by
      rw [recorded?, hpolled, Option.bind_some, hfound]
    simp only
    cases hentry : s.known.peek? fd with
    | none =>
      refine ⟨h.known.get? fd, h.pending, hknown, fun pid => ?_, h.idle⟩
      rw [h.waiting, waiting?, hrecorded, hentry]
      exact (ite_self _).symm
    | some socket =>
      refine ⟨h.known.get? fd, h.pending.insert hpid socket, hknown, fun pid => ?_, h.idle⟩
      rw [h.pending.peek?_insert hpid, waiting?, hrecorded, hentry, h.waiting]
      by_cases hother : pid = task.pid
      · rw [if_pos hother, if_pos hother.symm]
        rfl
      · rw [if_neg hother, if_neg (Ne.symm hother)]

theorem exit (h : Keeps scope cpus fds threads past s) (variant : Variant) (task : Task)
    (ret : Int64) : Keeps scope cpus fds threads (.exit variant task ret :: past)
      ((Readiness.onExit task.current ret).after s) := by
  refine ⟨?_, ?_, fun fd => ?_, fun pid => ?_, ?_⟩
  · rw [Readiness.known_onExit]
    exact h.known
  · rw [Readiness.pending_onExit]
    exact h.pending.claimed task.pid
  · rw [Readiness.known_onExit, h.peer, peer?_cons]
    rfl
  · rw [Readiness.pending_onExit, h.pending.coherent.peek?_claimed, waiting?, h.waiting]
    by_cases hother : pid = task.pid
    · rw [if_pos hother, if_pos hother.symm]
    · rw [if_neg hother, if_neg (Ne.symm hother)]
  · rw [show _ = _ from Readiness.settles_onExit task.current ret s]
    exact PerCpuOutput.idle_settled h.idle _ _

theorem close (h : Keeps scope cpus fds threads past s) (task : Task) (fd : Int32) :
    Keeps scope cpus fds threads (.close task fd :: past) ((Readiness.onClose fd).after s) := by
  refine ⟨h.known.erase fd, h.pending, fun other => ?_, h.waiting, h.idle⟩
  show (s.known.erase fd).2.peek? other = _
  rw [h.known.coherent.peek?_erase, peer?_cons]
  by_cases hother : other = fd
  · simp [Act.closes, hother]
  · simp [Act.closes, Act.connects?, hother, Ne.symm hother, h.peer]

theorem step (h : Keeps scope cpus fds threads past s) {act : Act}
    (hfd : ∀ fd, act.connected? = some fd → fd ∈ fds)
    (hpid : ∀ pid, act.entered? = some pid → pid ∈ threads) :
    Keeps scope cpus fds threads (act :: past) ((Readiness.hook scope act.call).after s) := by
  cases act with
  | connect task space fd uaddr => exact h.connect task space (hfd fd rfl) uaddr
  | enter variant task space ufds => exact h.enter variant (hpid task.pid rfl) space ufds
  | exit variant task ret => exact h.exit variant task ret
  | close task fd => exact h.close task fd

end Keeps

/-! ### Runs -/

namespace PollTracer

variable (scope : Scope) (cpus : Nat)

/-- The tables of a tracer have room for a run. -/
structure Fits (past : List Act) : Prop where
  fds : (past.filterMap Act.connected?).toFinset.card ≤ Limits.entries
  threads : (past.filterMap Act.entered?).toFinset.card ≤ Limits.entries

theorem keeps_after {fds : Finset Int32} {threads : Finset UInt32} (hfds : fds.card ≤ Limits.entries)
    (hthreads : threads.card ≤ Limits.entries) {past : List Act}
    (hfd : ∀ act ∈ past, ∀ fd, act.connected? = some fd → fd ∈ fds)
    (hpid : ∀ act ∈ past, ∀ pid, act.entered? = some pid → pid ∈ threads) :
    Keeps scope cpus fds threads past ((hooks scope).after (empty scope cpus).stores past) := by
  induction past with
  | nil => exact .empty scope cpus hfds hthreads
  | cons act past ih =>
    obtain ⟨hfd, hfds'⟩ := List.forall_mem_cons.1 hfd
    obtain ⟨hpid, hthreads'⟩ := List.forall_mem_cons.1 hpid
    have h := (ih hfds' hthreads').step hfd hpid
    exact ⟨h.known, h.pending, h.peer, h.waiting, h.idle⟩

theorem Fits.keeps {past : List Act} (h : Fits past) :
    ∃ fds threads, Keeps scope cpus fds threads past (after scope cpus past).stores := by
  refine ⟨(past.filterMap Act.connected?).toFinset, (past.filterMap Act.entered?).toFinset, ?_⟩
  rw [after_eq]
  refine keeps_after scope cpus h.fds h.threads ?_ ?_
  · exact fun act hact fd hfd => List.mem_toFinset.2 (List.mem_filterMap.2 ⟨act, hact, hfd⟩)
  · exact fun act hact pid hpid => List.mem_toFinset.2 (List.mem_filterMap.2 ⟨act, hact, hpid⟩)

theorem submits_of_not_exit {act : Act} (h : act.isExit = false) (s : PollStores) :
    ((hooks scope).journaled act).submits s = [] :=
  Hook.submits_of_events_eq (Readiness.events_of_not_exit scope _ h)

theorem submits_exit {past : List Act} (h : Fits past) (variant : Variant) (task : Task)
    (ret : Int64) :
    ((hooks scope).journaled (.exit variant task ret)).submits (after scope cpus past).stores =
      if 0 ≤ ret ∧ task.cpu < max cpus 1 then
        (waiting? scope past task.pid).toList.map fun socket =>
          (task.cpu, .ofSocket task socket ret)
      else [] := by
  obtain ⟨fds, threads, hkeeps⟩ := h.keeps scope cpus
  generalize (after scope cpus past).stores = s at hkeeps ⊢
  have hwaiting : (fun pid => (KeyedTable.lookup s.pending pid).1) = waiting? scope past := by
    funext pid
    exact (RecencyTable.fst_lookup s.pending pid).trans (hkeeps.waiting pid)
  have hsettles : ((hooks scope).journaled (.exit variant task ret)).Settles
      ⟨s.pending, s.known, ⟨s.events, []⟩, s.notices⟩ task.cpu
      (Readiness.filling? task.current ret (waiting? scope past)) := by
    rw [← hwaiting]
    exact Readiness.settles_onExit task.current ret _
  rw [Hook.submits_of_settles PerCpuOutput.clears hsettles,
    PerCpuOutput.handed_of_idle hkeeps.idle, Readiness.record?_filling]
  by_cases hcpu : task.cpu < max cpus 1
  · rw [if_pos hcpu]
    by_cases hret : 0 ≤ ret
    · rw [if_pos hret, if_pos ⟨hret, hcpu⟩]
      cases waiting? scope past task.pid <;> rfl
    · rw [if_neg hret, if_neg fun h => hret h.1]
      rfl
  · rw [if_neg hcpu, if_neg fun h => hcpu h.2]

/-- A poll is reported when it ends, with the peer that its descriptor had when it was entered. An
exit hands over one record just if the poll has not failed, the processor has room for a record, and
the thread has entered a poll since its last exit whose descriptor had a peer. Nothing else hands
over a record, and the channel gets what is handed over. -/
theorem reports_peer_at_entry {past : List Act} (h : Fits past) :
    (∀ variant task ret,
      let handed := ((hooks scope).journaled (.exit variant task ret)).submits
        (after scope cpus past).stores
      (∀ socket, 0 ≤ ret → task.cpu < max cpus 1 → waiting? scope past task.pid = some socket →
        handed = [(task.cpu, .ofSocket task socket ret)]) ∧
      (¬ (0 ≤ ret ∧ task.cpu < max cpus 1 ∧ waiting? scope past task.pid ≠ none) →
        handed = [])) ∧
    (∀ act, act.isExit = false →
      ((hooks scope).journaled act).submits (after scope cpus past).stores = []) ∧
    (after scope cpus past).stores.events.channel =
      (PerCpuQueues.empty cpus Limits.queueDepth).outputs (submissions scope cpus past) := by
  refine ⟨fun variant task ret => ⟨?one, ?none⟩, ?others, channel_after scope cpus past⟩
  case one =>
    intro socket hret hcpu hwaiting
    rw [submits_exit scope cpus h, if_pos ⟨hret, hcpu⟩, hwaiting]
    rfl
  case none =>
    intro hnot
    rw [submits_exit scope cpus h]
    split
    · rename_i hends
      have hnone : waiting? scope past task.pid = none :=
        not_not.1 fun hne => hnot ⟨hends.1, hends.2, hne⟩
      rw [hnone]
      rfl
    · rfl
  case others =>
    intro act hact
    exact submits_of_not_exit scope hact _

/-- The descriptor is closed, and connected to another peer, while the poll goes on. -/
theorem reports_peer_at_entry_reconnected :
    let task := Task.ofProcess 42
    let first : InetAddress := ⟨0x0100007f, 80⟩
    let second : InetAddress := ⟨0x0200007f, 81⟩
    let space := ((AddressSpace.empty.map 0x1000 first.encode).map 0x2000 second.encode).map
      0x3000 [3, 0, 0, 0]
    let past : List Act := [.connect task space 3 0x2000, .close task 3,
      .enter .poll task space 0x3000, .connect task space 3 0x1000]
    Fits past ∧ peer? ⟨42⟩ past 3 = some second ∧
    ((hooks ⟨42⟩).journaled (.exit .poll task 1)).submits (after ⟨42⟩ 1 past).stores =
      [(0, .ofSocket task (.ofPeer 3 first) 1)] := by
  intro task first second space past
  have hfits : Fits past := ⟨by decide, by decide⟩
  have hpeer : peer? ⟨42⟩ past 3 = some second := by decide +kernel
  have hwaiting : waiting? ⟨42⟩ past task.pid = some (.ofPeer 3 first) := by decide +kernel
  refine ⟨hfits, hpeer, ?_⟩
  exact ((reports_peer_at_entry ⟨42⟩ 1 hfits).1 .poll task 1).1 _ (by decide) (by decide) hwaiting

end PollTracer

end HookTrace.Poll
