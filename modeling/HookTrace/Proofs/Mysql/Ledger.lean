import HookTrace.Proofs.Mysql.Acts
import Mathlib.Logic.Function.Basic

/-!
# HookTrace.Proofs.Mysql.Ledger

The tracer of MySQL traffic without tables. A ledger knows for every descriptor what is known of
it, and for every thread the transfer it is in; it never has to make room. As long as the tables
have room too, those of a tracer are such a ledger (`MysqlTracer.keeps_after`).
-/

namespace HookTrace.Mysql

open Store

@[ext]
structure Ledger where
  conns : Int32 → Option Connection := fun _ => none
  waiting : UInt32 → Option SyscallArgs := fun _ => none

namespace Ledger

/-- A transfer ends that moved bytes. -/
def transferred (ledger : Ledger) (config : MysqlConfig) (cpus : Nat) (transfer : Transfer)
    (task : Task) (space : AddressSpace) (args : SyscallArgs) (ret : Int64) : Ledger :=
  match ledger.conns args.fd, config.payload? cpus task space args.buf ret with
  | some conn, some payload =>
    let next := (conn.observe payload (.ofTransfer transfer)).2
    { ledger with conns := Function.update ledger.conns args.fd (some next) }
  | _, _ => ledger

def step (config : MysqlConfig) (cpus : Nat) (ledger : Ledger) : Act → Ledger
  | .connect task space fd uaddr =>
    match config.port? task space uaddr with
    | none => ledger
    | some port =>
      { ledger with conns := Function.update ledger.conns fd (some (.connecting fd port)) }
  | .enter _ task args =>
    if config.covers task ∧ (ledger.conns args.fd).isSome then
      { ledger with waiting := Function.update ledger.waiting task.pid (some args) }
    else ledger
  | .exit transfer task space ret =>
    match ledger.waiting task.pid with
    | none => ledger
    | some args =>
      let ended := ledger.transferred config cpus transfer task space args ret
      { ended with waiting := Function.update ended.waiting task.pid none }
  | .close _ fd => { ledger with conns := Function.update ledger.conns fd none }

/-- The ledger after calls, of which the latest is the first in the list. -/
def after (config : MysqlConfig) (cpus : Nat) : (past : List Act) → Ledger
  | [] => {}
  | act :: past => (after config cpus past).step config cpus act

end Ledger

/-- The descriptor that a call can make known. -/
def Act.connected? : Act → Option Int32
  | .connect _ _ fd _ => some fd
  | _ => none

/-- The thread that a call can set waiting. -/
def Act.entered? : Act → Option UInt32
  | .enter _ task _ => some task.pid
  | _ => none

/-- The tables of a tracer have room, and are the ledger. -/
structure Keeps (cpus : Nat) (fds : Finset Int32) (threads : Finset UInt32) (s : MysqlStores)
    (ledger : Ledger) : Prop where
  known : s.known.Roomy fds
  pending : s.pending.Roomy threads
  conns : ∀ fd, s.known.peek? fd = ledger.conns fd
  waiting : ∀ pid, s.pending.peek? pid = ledger.waiting pid
  idle : s.events.staging.Idle (max cpus 1)

namespace Keeps

variable {config : MysqlConfig} {cpus : Nat} {fds : Finset Int32} {threads : Finset UInt32}
variable {s s' : MysqlStores} {ledger : Ledger}

theorem empty (config : MysqlConfig) (hfds : fds.card ≤ Limits.entries)
    (hthreads : threads.card ≤ Limits.entries) :
    Keeps cpus fds threads (MysqlTracer.empty config cpus).stores {} where
  known := .empty hfds
  pending := .empty hthreads
  conns := RecencyTable.peek?_empty _
  waiting := RecencyTable.peek?_empty _
  idle := StagingPool.idle_empty cpus

theorem notices (h : Keeps cpus fds threads s ledger) (notices : List Notice) :
    Keeps cpus fds threads { s with notices } ledger :=
  ⟨h.known, h.pending, h.conns, h.waiting, h.idle⟩

theorem touch_known (h : Keeps cpus fds threads s ledger)
    {known : RecencyTable Int32 Connection} (ht : s.known.Touches known) :
    Keeps cpus fds threads { s with known } ledger where
  known := h.known.touches ht
  pending := h.pending
  conns := fun fd => (ht.peek?_eq h.known.coherent fd).trans (h.conns fd)
  waiting := h.waiting
  idle := h.idle

theorem touch_pending (h : Keeps cpus fds threads s ledger)
    {pending : RecencyTable UInt32 SyscallArgs} (ht : s.pending.Touches pending) :
    Keeps cpus fds threads { s with pending } ledger where
  known := h.known
  pending := h.pending.touches ht
  conns := h.conns
  waiting := fun pid => (ht.peek?_eq h.pending.coherent pid).trans (h.waiting pid)
  idle := h.idle

theorem learn (h : Keeps cpus fds threads s ledger) {fd : Int32} (hfd : fd ∈ fds)
    (conn : Connection) :
    Keeps cpus fds threads { s with known := s.known.insert fd conn }
      { ledger with conns := Function.update ledger.conns fd (some conn) } where
  known := h.known.insert hfd conn
  pending := h.pending
  conns := by
    intro other
    simp only [h.known.peek?_insert hfd, Function.update_apply, h.conns]
  waiting := h.waiting
  idle := h.idle

theorem unlearn (h : Keeps cpus fds threads s ledger) (fd : Int32) :
    Keeps cpus fds threads { s with known := (s.known.erase fd).2 }
      { ledger with conns := Function.update ledger.conns fd none } where
  known := h.known.erase fd
  pending := h.pending
  conns := by
    intro other
    simp only [h.known.coherent.peek?_erase, Function.update_apply, h.conns]
  waiting := h.waiting
  idle := h.idle

theorem leave (h : Keeps cpus fds threads s ledger) {pid : UInt32} (hpid : pid ∈ threads)
    (args : SyscallArgs) :
    Keeps cpus fds threads { s with pending := s.pending.insert pid args }
      { ledger with waiting := Function.update ledger.waiting pid (some args) } where
  known := h.known
  pending := h.pending.insert hpid args
  conns := h.conns
  waiting := by
    intro other
    simp only [h.pending.peek?_insert hpid, Function.update_apply, h.waiting]
  idle := h.idle

theorem finish (h : Keeps cpus fds threads s ledger) (pid : UInt32) :
    Keeps cpus fds threads { s with pending := (s.pending.erase pid).2 }
      { ledger with waiting := Function.update ledger.waiting pid none } where
  known := h.known
  pending := h.pending.erase pid
  conns := h.conns
  waiting := by
    intro other
    simp only [h.pending.coherent.peek?_erase, Function.update_apply, h.waiting]
  idle := h.idle

theorem learns (h : Keeps cpus fds threads s ledger) {known : RecencyTable Int32 Connection}
    (hl : s.Learns cpus s' known) {conns : Int32 → Option Connection} (hknown : known.Roomy fds)
    (hconns : ∀ fd, known.peek? fd = conns fd) :
    Keeps cpus fds threads s' { ledger with conns } where
  known := hl.known_eq ▸ hknown
  pending := hl.pending_eq ▸ h.pending
  conns := hl.known_eq ▸ hconns
  waiting := hl.pending_eq ▸ h.waiting
  idle := hl.idle

theorem quiet (h : Keeps cpus fds threads s ledger) {known : RecencyTable Int32 Connection}
    (ht : s.known.Touches known) (hl : s.Learns cpus s' known) :
    Keeps cpus fds threads s' ledger :=
  h.learns hl (h.known.touches ht) (h.touch_known ht).conns

/-- What an observed payload makes of a connection is stored, unless it makes nothing of it. -/
theorem observe (h : Keeps cpus fds threads s ledger) {fd : Int32} {conn next : Connection}
    (hc : ledger.conns fd = some conn)
    (hl : s.Learns cpus s' (if next = conn then s.known else s.known.insert fd next)) :
    Keeps cpus fds threads s'
      { ledger with conns := Function.update ledger.conns fd (some next) } := by
  by_cases hne : next = conn
  -- the table is left alone, and so is the ledger, which stores what it has
  · rw [if_pos hne] at hl
    have hconns : Function.update ledger.conns fd (some next) = ledger.conns := by
      rw [hne, ← hc, Function.update_eq_self]
    rw [hconns]
    exact h.learns hl h.known h.conns
  · rw [if_neg hne] at hl
    have hfd : fd ∈ fds := h.known.mem fd conn ((h.conns fd).trans hc)
    have hlearned := h.learn hfd next
    exact h.learns hl hlearned.known hlearned.conns

theorem capture (h : Keeps cpus fds threads s ledger) (transfer : Transfer) (task : Task)
    (space : AddressSpace) (args : SyscallArgs) (ret : Int64) :
    Keeps cpus fds threads
      ((Capture.capture config task.current space.userSpace (.ofTransfer transfer) ret args).after
        s) (ledger.transferred config cpus transfer task space args ret) := by
  obtain ⟨touched, ht, hl⟩ := MysqlStores.learns_capture config task space args
    (.ofTransfer transfer) ret h.known.coherent h.idle
  rw [h.conns] at hl
  unfold Ledger.transferred
  cases hc : ledger.conns args.fd with
  | none =>
    rw [hc] at hl
    exact h.quiet ht hl
  | some conn =>
    rw [hc] at hl
    cases hp : config.payload? cpus task space args.buf ret with
    | none =>
      rw [hp] at hl
      exact h.quiet ht hl
    | some payload =>
      rw [hp] at hl
      have htouched := h.touch_known ht
      exact htouched.observe hc ⟨hl.pending_eq, hl.known_eq, hl.idle⟩

theorem step (h : Keeps cpus fds threads s ledger) {act : Act}
    (hfd : ∀ fd, act.connected? = some fd → fd ∈ fds)
    (hpid : ∀ pid, act.entered? = some pid → pid ∈ threads) :
    Keeps cpus fds threads ((Capture.hook config act.call).after s)
      (ledger.step config cpus act) := by
  cases act with
  | connect task space fd uaddr =>
    show Keeps cpus fds threads
      ((Capture.onConnect config task.current space.userSpace fd uaddr).after s) _
    rw [MysqlStores.after_connect, Ledger.step]
    cases config.port? task space uaddr with
    | none => exact h
    | some port => exact h.learn (hfd fd rfl) (.connecting fd port)
  | enter transfer task args =>
    show Keeps cpus fds threads ((Capture.onEnter config task.current args).after s) _
    rw [MysqlStores.after_enter config task args h.known.coherent, Ledger.step, h.conns]
    have htouched := h.touch_known (.key args.fd)
    cases config.covers task with
    | false => simpa using h
    | true =>
      cases ledger.conns args.fd with
      | none => simpa using htouched
      | some conn => simpa using htouched.leave (hpid task.pid rfl) args
  | exit transfer task space ret =>
    show Keeps cpus fds threads
      ((Capture.onExit config task.current space.userSpace (.ofTransfer transfer) ret).after s) _
    rw [MysqlStores.after_exit config task space _ ret h.pending.coherent, Ledger.step, h.waiting]
    have htouched := h.touch_pending (.key task.pid)
    cases ledger.waiting task.pid with
    | none => exact htouched
    | some args => exact (htouched.capture transfer task space args ret).finish task.pid
  | close task fd => exact h.unlearn fd

end Keeps

/-- As long as the tables have room for all descriptors that are connected and for all threads
that enter a transfer, they are a ledger. -/
theorem MysqlTracer.keeps_after (config : MysqlConfig) (cpus : Nat) {fds : Finset Int32}
    {threads : Finset UInt32} (hfds : fds.card ≤ Limits.entries)
    (hthreads : threads.card ≤ Limits.entries) {past : List Act}
    (hfd : ∀ act ∈ past, ∀ fd, act.connected? = some fd → fd ∈ fds)
    (hpid : ∀ act ∈ past, ∀ pid, act.entered? = some pid → pid ∈ threads) :
    Keeps cpus fds threads (after config cpus past).stores (Ledger.after config cpus past) := by
  induction past with
  | nil => exact .empty config hfds hthreads
  | cons act past ih =>
    obtain ⟨hfd, hfds'⟩ := List.forall_mem_cons.1 hfd
    obtain ⟨hpid, hthreads'⟩ := List.forall_mem_cons.1 hpid
    rw [stores_after_cons]
    exact ((ih hfds' hthreads').step hfd hpid).notices []

end HookTrace.Mysql
