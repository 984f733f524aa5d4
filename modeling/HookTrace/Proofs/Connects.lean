import HookTrace.Proofs.Mysql.Tracking
import HookTrace.Proofs.Poll.History
import HookTrace.Proofs.SocketAddress

/-!
# HookTrace.Proofs.Connects

What the tracers of polls and of MySQL traffic make of a connect. Both of their hooks read the
socket address in the same way and only differ in what they remember of the peer
(`Hook.learnPeer`), so that both take a layout of a port and four octets for this port and these
octets, and both leave everything as it was if there is no such layout (`connects_read_alike`).
-/

namespace HookTrace

open Store

/-- What the hooks on a connect have in common: the peer that a task in scope connects to is read,
and what is to be known of it, if anything, is remembered. -/
def Hook.learnPeer {P K S κ ν : Type} [KeyedTable K κ ν] (task : CurrentTask) (target : UInt32)
    (memory : UserSpace) (uaddr : UInt64) (key : κ) (value? : InetAddress → Option ν) :
    Hook P K S Unit := do
  if !(← task.inScope target) then
    return
  match ← InetAddress.read? memory uaddr with
  | none => return
  | some peer =>
    match value? peer with
    | none => return
    | some value => learn key value

theorem Poll.Readiness.onConnect_eq {P K S : Type} [KeyedTable K Int32 Socket] (scope : Scope)
    (task : CurrentTask) (memory : UserSpace) (fd : Int32) (uaddr : UInt64) :
    (onConnect scope task memory fd uaddr : Hook P K S Unit) =
      .learnPeer task scope.target memory uaddr fd fun peer => some (Socket.ofPeer fd peer) := rfl

theorem Mysql.Capture.onConnect_eq {P K S : Type} [KeyedTable K Int32 Connection]
    (config : MysqlConfig) (task : CurrentTask) (memory : UserSpace) (fd : Int32)
    (uaddr : UInt64) :
    (onConnect config task memory fd uaddr : Hook P K S Unit) =
      .learnPeer task config.target memory uaddr fd fun peer =>
        if config.tracksPort peer.port then some (Connection.connecting fd peer.port)
        else none := by
  refine congrArg (liftM (task.inScope config.target) >>= ·) (funext fun inside => ?_)
  cases inside with
  | false => rfl
  | true =>
    refine congrArg (liftM (InetAddress.read? memory uaddr) >>= ·) (funext fun peer? => ?_)
    cases peer? with
    | none => rfl
    | some peer => by_cases hport : config.tracksPort peer.port = true <;> simp [hport]

section Connect

variable {C P S κ ν : Type} [BEq κ] [Hashable κ] {task : Task} (memory : UserSpace) (fd : Int32)
  (uaddr : UInt64)

/-- A tracer that knows one thing more. -/
def Tracer.learning (tracer : Tracer C P (RecencyTable κ ν) S) (key : κ) (value : ν) :
    Tracer C P (RecencyTable κ ν) S :=
  { tracer with stores := { tracer.stores with known := tracer.stores.known.insert key value } }

/-- How such a call ends for a task in scope is told from what is read. -/
theorem Tracer.call_learnPeer {tracer : Tracer C P (RecencyTable κ ν) S}
    {hook : C → Hook P (RecencyTable κ ν) S Unit} {target : UInt32} {key : κ}
    {value? : InetAddress → Option ν}
    (hhook : hook tracer.config = .learnPeer task.current target memory uaddr key value?)
    (hscope : inScope task.tgid task.parentTgid target = true)
    (hnotices : tracer.stores.notices = []) (name : String) :
    tracer.call name hook =
      match InetAddress.read? memory uaddr with
      | .ok peer? => ({}, (peer?.bind value?).elim tracer (tracer.learning key))
      | .error fault =>
        ({ code := fault.code, notices := [.hookFailed name fault] }, tracer) := by
  obtain ⟨config, pending, known, events, notices⟩ := tracer
  cases hnotices
  unfold call
  simp only [hhook]
  unfold Hook.learnPeer
  rw [inScope_current, Hook.ok_bind, hscope]
  cases InetAddress.read? memory uaddr with
  | error fault => rfl
  | ok peer? =>
    cases peer? with
    | none => rfl
    | some peer =>
      simp only [Hook.ok_bind, Option.bind_some]
      cases value? peer <;> rfl

theorem Poll.PollTracer.step_connect {tracer : PollTracer}
    (hscope : inScope task.tgid task.parentTgid tracer.config.target = true)
    (hnotices : tracer.stores.notices = []) :
    tracer.step (.connect task.current memory fd uaddr) =
      match InetAddress.read? memory uaddr with
      | .ok peer? =>
        ({}, (peer?.bind fun peer => some (.ofPeer fd peer)).elim tracer (tracer.learning fd))
      | .error fault =>
        ({ code := fault.code, notices := [.hookFailed "sys_enter_connect" fault] }, tracer) := by
  have hhook := @Readiness.onConnect_eq (RecencyTable UInt32 Socket) (RecencyTable Int32 Socket)
    (PerCpuOutput PollRecord) _ tracer.config task.current memory fd uaddr
  exact Tracer.call_learnPeer memory uaddr hhook hscope hnotices "sys_enter_connect"

theorem Mysql.MysqlTracer.step_connect {tracer : MysqlTracer}
    (hscope : tracer.config.covers task = true) (hnotices : tracer.stores.notices = []) :
    tracer.step (.connect task.current memory fd uaddr) =
      match InetAddress.read? memory uaddr with
      | .ok peer? =>
        ({}, (peer?.bind fun peer => if tracer.config.tracksPort peer.port then
          some (.connecting fd peer.port) else none).elim tracer (tracer.learning fd))
      | .error fault =>
        ({ code := fault.code, notices := [.hookFailed "sys_enter_connect" fault] }, tracer) := by
  have hhook := @Capture.onConnect_eq (RecencyTable UInt32 SyscallArgs)
    (RecencyTable Int32 Connection) (PerCpuOutput MysqlRecord) _ tracer.config task.current
    memory fd uaddr
  -- a connect notes nothing of its own
  show tracer.call "sys_enter_connect" (Capture.onConnect · task.current memory fd uaddr) = _
  exact Tracer.call_learnPeer memory uaddr hhook hscope hnotices "sys_enter_connect"

end Connect

/-! ### Reached tracers -/

theorem Poll.PollTracer.Reached.settled {scope : Scope} {cpus : Nat} {tracer : PollTracer}
    (h : Reached scope cpus tracer) : tracer.config = scope ∧ tracer.stores.notices = [] := by
  have hstep : ∀ (tracer : PollTracer) (call : Readiness.Call), ∃ name, (tracer.step call).2 =
      (tracer.call name (Readiness.hook · call)).2 := fun _ call => ⟨call.name, rfl⟩
  exact Tracer.Reaches.settled h rfl hstep

theorem Poll.PollTracer.Reached.coherent {scope : Scope} {cpus : Nat} {tracer : PollTracer}
    (h : Reached scope cpus tracer) : tracer.stores.known.Coherent := by
  have hsound : (upkeep (.close 0)).Sound tracer.stores :=
    h.sound (x := upkeep) ⟨RecencyTable.coherent_empty _, RecencyTable.coherent_empty _, trivial⟩
      (fun _ _ => Iff.rfl) (fun _ call => ⟨call.name, rfl⟩)
      (fun call scope => tidy_hook scope call) fun _ _ _ hs => ⟨hs.1, hs.2.1, trivial⟩
  exact hsound.2.1

/-- A memory that cannot be read says so with one code. -/
theorem AddressSpace.code_of_unreadable {space : AddressSpace} {uaddr : UInt64} {fault : Fault}
    (h : InetAddress.Unreadable space.userSpace uaddr fault) : fault.code = 3 := by
  have hread : ∀ address length, space.userSpace.read address length = .error fault →
      fault.code = 3 := by
    intro address length hfault
    unfold userSpace at hfault
    simp only at hfault
    split at hfault
    · cases hfault
    · cases hfault
      rfl
  rcases h with hfamily | ⟨family, -, -, hrest⟩
  · exact hread _ _ hfamily
  · exact hread _ _ hrest

/-- A task in scope of both tracers connects. If there is the layout of a port and four octets where
its address points to, the one tracer knows this peer by the descriptor, and the other one knows a
connection to this port if the port is tracked. Otherwise both are as they were, and fail only if
memory does. No two pairs of a port and octets are known as the same peer. -/
theorem connects_read_alike {scope : Scope} {config : Mysql.MysqlConfig} {cpus cpus' : Nat}
    {poll : Poll.PollTracer} {mysql : Mysql.MysqlTracer}
    (hpoll : Poll.PollTracer.Reached scope cpus poll)
    (hmysql : Mysql.MysqlTracer.Reached config cpus' mysql) {task : Task}
    (hscope : inScope task.tgid task.parentTgid scope.target = true)
    (hcovers : config.covers task = true) (space : AddressSpace) (fd : Int32) (uaddr : UInt64) :
    let memory := space.userSpace
    let polled := poll.step (.connect task.current memory fd uaddr)
    let captured := mysql.step (.connect task.current memory fd uaddr)
    (∀ port octets, InetAddress.Encodes memory uaddr port octets →
      let addr := UInt32.ofNat octets.toNatLE
      Bytes.ofNatLE 4 addr.toNat = octets.bytes ∧
      (InetAddress.mk addr port).encode = InetAddress.layout port octets ∧
      polled = ({}, poll.learning fd ⟨fd, addr, port.toUInt32⟩) ∧
      polled.2.socket fd = some ⟨fd, addr, port.toUInt32⟩ ∧
      captured = ({}, if port = 3306 ∨ config.port ≠ 0 ∧ port = config.port then
        mysql.learning fd (.connecting fd port) else mysql) ∧
      (captured.2.connection fd = some (.connecting fd port) ↔
        port = 3306 ∨ config.port ≠ 0 ∧ port = config.port) ∧
      InetAddress.reads memory uaddr = [(uaddr, 2), (uaddr + 2, 6)]) ∧
    (∀ family, memory.read uaddr 2 = .ok family → family.toNatLE ≠ Limits.inet.toNat →
      polled = ({}, poll) ∧ captured = ({}, mysql) ∧
      InetAddress.reads memory uaddr = [(uaddr, 2)]) ∧
    (∀ fault, InetAddress.Unreadable memory uaddr fault →
      polled.1.code = 3 ∧ polled.2 = poll ∧ captured.1.code = 3 ∧ captured.2 = mysql) ∧
    (∀ (port : UInt16) (octets : Field 4) (port' : UInt16) (octets' : Field 4),
      (⟨fd, UInt32.ofNat octets.toNatLE, port.toUInt32⟩ : Poll.Socket) =
        ⟨fd, UInt32.ofNat octets'.toNatLE, port'.toUInt32⟩ → port = port' ∧ octets = octets') := by
  intro memory polled captured
  obtain ⟨rfl, hpollnotices⟩ := hpoll.settled
  obtain ⟨hconfig, hmysqlnotices⟩ := hmysql.settled
  have hpolled := Poll.PollTracer.step_connect memory fd uaddr hscope hpollnotices
  have hcaptured := Mysql.MysqlTracer.step_connect memory fd uaddr (hconfig ▸ hcovers) hmysqlnotices
  refine ⟨fun port octets h => ?encoded, fun family hfamily hother => ?other,
    fun fault h => ?failed, fun port octets port' octets' h => ?distinct⟩
  case encoded =>
    intro addr
    have htracks := config.tracksPort_iff port
    rw [InetAddress.read?_of_encodes h] at hpolled hcaptured
    rw [hconfig] at hcaptured
    have hsocket : polled.2.socket fd = some ⟨fd, addr, port.toUInt32⟩ := by
      simp only [polled, hpolled]
      exact hpoll.coherent.peek?_insert_self fd _
    have hconn : captured = ({}, if port = 3306 ∨ config.port ≠ 0 ∧ port = config.port then
        mysql.learning fd (.connecting fd port) else mysql) := by
      simp only [← htracks]
      refine hcaptured.trans (congrArg (Prod.mk _) ?_)
      show (if config.tracksPort port then some (Mysql.Connection.connecting fd port)
        else none).elim mysql (mysql.learning fd) = _
      split <;> rfl
    refine ⟨InetAddress.ofNatLE_octets octets, InetAddress.encode_ofOctets port octets, hpolled,
      hsocket, hconn, ?_, InetAddress.reads_of_encodes h⟩
    rw [hconn]
    by_cases hport : port = 3306 ∨ config.port ≠ 0 ∧ port = config.port
    · rw [if_pos hport]
      exact iff_of_true (hmysql.tracked.orderly.known.peek?_insert_self fd _) hport
    · -- nothing was stored, and what was known before goes to a tracked port
      rw [if_neg hport]
      refine iff_of_false (fun hknown => hport ?_) hport
      exact htracks.1 (hmysql.tracked.tracks fd _ hknown)
  case other =>
    have hread := InetAddress.read?_of_family_ne hfamily hother
    rw [hread] at hpolled hcaptured
    exact ⟨hpolled, hcaptured, InetAddress.reads_of_family_ne hfamily hother⟩
  case failed =>
    have hcode := space.code_of_unreadable h
    rw [InetAddress.read?_of_unreadable h] at hpolled hcaptured
    simp only [polled, captured, hpolled, hcaptured]
    exact ⟨hcode, trivial, hcode, trivial⟩
  case distinct =>
    apply InetAddress.eq_of_ofOctets_eq
    obtain ⟨-, haddr, hport⟩ := Poll.Socket.mk.inj h
    rw [InetAddress.ofOctets, InetAddress.ofOctets, haddr, UInt16.toUInt32_inj.1 hport]

/-- The family ends one mapping, and what is behind it begins another one. -/
theorem connects_read_alike_across :
    let task := Task.ofProcess 42
    let space := (AddressSpace.empty.map 0x1000 [2, 0]).map 0x1002 [0x0c, 0xea, 127, 0, 0, 1]
    let poll := Poll.PollTracer.empty ⟨42⟩ 1
    let mysql := Mysql.MysqlTracer.empty ⟨42, 3307⟩ 1
    inScope task.tgid task.parentTgid 42 = true ∧
    (poll.step (.connect task.current space.userSpace 7 0x1000)).2.socket 7 =
      some ⟨7, 0x0100007f, 3306⟩ ∧
    (mysql.step (.connect task.current space.userSpace 7 0x1000)).2.connection 7 =
      some (.connecting 7 3306) := by
  intro task space poll mysql
  have hscope : inScope task.tgid task.parentTgid 42 = true := by decide
  have hencodes : InetAddress.Encodes space.userSpace 0x1000 3306 ⟨[127, 0, 0, 1], rfl⟩ :=
    ⟨⟨[2, 0], rfl⟩, ⟨[0x0c, 0xea, 127, 0, 0, 1], rfl⟩, by decide, by decide, by decide⟩
  obtain ⟨-, -, -, hsocket, -, hconn, -⟩ := (connects_read_alike
    (.start : Poll.PollTracer.Reached ⟨42⟩ 1 poll)
    (.start : Mysql.MysqlTracer.Reached ⟨42, 3307⟩ 1 mysql) hscope hscope space 7 0x1000).1 _ _
      hencodes
  exact ⟨hscope, hsocket, hconn.2 (.inl rfl)⟩

end HookTrace
