import HookTrace.Proofs.Failure
import HookTrace.Proofs.Mysql.Progress
import HookTrace.Proofs.Mysql.Reconnect

/-!
# HookTrace.Proofs.Mysql.Tracking

All that a tracer knows are connections to tracked ports: a connect stores no other one, and what a
transfer makes of a connection is still a connection to the same port. Each call keeps this
(`Tracked.step`), so it holds in every state a tracer gets into (`MysqlTracer.Reached.tracked`).
-/

namespace HookTrace.Mysql

open Store

/-- An orderly state, in which only connections to tracked ports are known. -/
structure Tracked (config : MysqlConfig) (cpus : Nat) (s : MysqlStores) : Prop where
  orderly : Orderly cpus s
  tracks : ∀ fd conn, s.known.peek? fd = some conn → config.tracksPort conn.port = true

theorem Observed.port_eq {conn : Connection} {id : UInt8} {observed : Observation × Connection}
    (h : Observed conn id observed) : observed.2.port = conn.port := by
  cases h <;> rfl

theorem MysqlConfig.tracksPort_iff (config : MysqlConfig) (port : UInt16) :
    config.tracksPort port = true ↔ port = 3306 ∨ config.port ≠ 0 ∧ port = config.port := by
  simp [tracksPort, Limits.mysqlPort]

theorem MysqlConfig.tracksPort_of_port? {config : MysqlConfig} {task : Task}
    {space : AddressSpace} {uaddr : UInt64} {port : UInt16}
    (h : config.port? task space uaddr = some port) : config.tracksPort port = true := by
  unfold port? at h
  split at h
  · split at h
    · split at h
      · rename_i htracks
        cases h
        exact htracks
      · cases h
    · cases h
  · cases h

namespace Tracked

variable {config : MysqlConfig} {cpus : Nat} {s s' : MysqlStores}

theorem tracks_insert (h : Tracked config cpus s) {fd : Int32} {conn : Connection}
    (hconn : config.tracksPort conn.port = true) (other : Int32) (found : Connection)
    (hfound : (s.known.insert fd conn).peek? other = some found) :
    config.tracksPort found.port = true := by
  by_cases hfd : other = fd
  · rw [hfd, h.orderly.known.peek?_insert_self] at hfound
    cases hfound
    exact hconn
  · exact h.tracks other found (h.orderly.known.peek?_of_insert hfd hfound)

theorem touch (h : Tracked config cpus s) {known : RecencyTable Int32 Connection}
    (ht : s.known.Touches known) : Tracked config cpus { s with known } where
  orderly := ⟨ht.coherent h.orderly.known, h.orderly.pending, h.orderly.idle⟩
  tracks fd conn hconn := h.tracks fd conn ((ht.peek?_eq h.orderly.known fd).symm.trans hconn)

theorem tracks_capture (h : Tracked config cpus s) (task : Task) (space : AddressSpace)
    (args : SyscallArgs) (direction : Direction) (ret : Int64) (fd : Int32) (found : Connection)
    (hfound : ((Capture.capture config task.current space.userSpace direction ret args).after
      s).known.peek? fd = some found) : config.tracksPort found.port = true := by
  obtain ⟨touched, ht, hl⟩ := MysqlStores.learns_capture config task space args direction ret
    h.orderly.known h.orderly.idle
  have htouched := h.touch ht
  cases hc : s.known.peek? args.fd with
  | none =>
    rw [hc] at hl
    rw [hl.known_eq] at hfound
    exact htouched.tracks fd found hfound
  | some conn =>
    rw [hc] at hl
    cases hp : config.payload? cpus task space args.buf ret with
    | none =>
      rw [hp] at hl
      rw [hl.known_eq] at hfound
      exact htouched.tracks fd found hfound
    | some payload =>
      rw [hp] at hl
      rw [hl.known_eq] at hfound
      split at hfound
      · exact htouched.tracks fd found hfound
      · refine htouched.tracks_insert ?_ fd found hfound
        rw [(conn.observed (payload, direction)).port_eq]
        exact h.tracks args.fd conn hc

theorem step (h : Tracked config cpus s) (act : Act) :
    Tracked config cpus ((Capture.hook config act.call).after s) where
  orderly := (h.orderly.moves config act).orderly
  tracks := by
    intro fd found hfound
    cases act with
    | connect task space fd' uaddr =>
      replace hfound : ((Capture.onConnect config task.current space.userSpace fd' uaddr).after
        s).known.peek? fd = some found := hfound
      rw [MysqlStores.after_connect] at hfound
      cases hport : config.port? task space uaddr with
      | none =>
        rw [hport] at hfound
        exact h.tracks fd found hfound
      | some port =>
        rw [hport] at hfound
        exact h.tracks_insert (MysqlConfig.tracksPort_of_port? hport) fd found hfound
    | enter transfer task args =>
      replace hfound : ((Capture.onEnter config task.current args).after s).known.peek? fd =
        some found := hfound
      rw [MysqlStores.after_enter config task args h.orderly.known] at hfound
      split at hfound
      · exact (h.touch (.key args.fd)).tracks fd found hfound
      · exact h.tracks fd found hfound
    | exit transfer task space ret =>
      replace hfound : ((Capture.onExit config task.current space.userSpace (.ofTransfer transfer)
        ret).after s).known.peek? fd = some found := hfound
      rw [MysqlStores.after_exit config task space _ ret h.orderly.pending] at hfound
      cases hwaiting : s.pending.peek? task.pid with
      | none =>
        rw [hwaiting] at hfound
        exact h.tracks fd found hfound
      | some args =>
        rw [hwaiting] at hfound
        have hclaimed : Tracked config cpus { s with pending := (s.pending.get? task.pid).2 } :=
          ⟨⟨h.orderly.known, h.orderly.pending.get? task.pid, h.orderly.idle⟩, h.tracks⟩
        exact hclaimed.tracks_capture task space args (.ofTransfer transfer) ret fd found hfound
    | close task fd' =>
      replace hfound : (s.known.erase fd').2.peek? fd = some found := hfound
      rw [h.orderly.known.peek?_erase] at hfound
      split at hfound
      · cases hfound
      · exact h.tracks fd found hfound

end Tracked

namespace MysqlTracer

variable {config : MysqlConfig} {cpus : Nat} {tracer : MysqlTracer}

theorem Reached.settled (h : Reached config cpus tracer) :
    tracer.config = config ∧ tracer.stores.notices = [] := by
  have hstep : ∀ (tracer : MysqlTracer) (act : Act), ∃ name, (tracer.step act.call).2 =
      (tracer.call name (Capture.hook · act.call)).2 := fun _ act => ⟨act.call.name, rfl⟩
  exact Tracer.Reaches.settled h rfl hstep

theorem Reached.tracked (h : Reached config cpus tracer) :
    Tracked config cpus tracer.stores := by
  induction h with
  | start =>
    have hunknown := @RecencyTable.peek?_empty Int32 Connection _ _ Limits.entries
    refine ⟨orderly_after config cpus [], fun fd conn hconn => ?_⟩
    cases (hunknown fd).symm.trans hconn
  | @call tracer act h ih =>
    have hstep := ih.step act
    rw [snd_step, (Reached.settled h).1]
    exact ⟨⟨hstep.orderly.known, hstep.orderly.pending, hstep.orderly.idle⟩, hstep.tracks⟩
  | @read tracer events h hread ih =>
    refine ⟨⟨ih.orderly.known, ih.orderly.pending, ?_⟩, ih.tracks⟩
    rw [hread.staging_eq]
    exact ih.orderly.idle

end MysqlTracer

end HookTrace.Mysql
