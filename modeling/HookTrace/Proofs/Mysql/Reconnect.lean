import HookTrace.Proofs.Mysql.History

/-!
# HookTrace.Proofs.Mysql.Reconnect

Descriptors that are connected elsewhere. A connect to a port that is not tracked is none of the
tracer's business: it leaves everything as it was, also what was known of its descriptor before.
A descriptor that was not known then stays silent until it is connected to a tracked port, and one
that was known does so once it is closed (`after_untracked_connect`); as long as nobody closes it,
it goes on being reported (`reconnected_elsewhere_reports`).

Nothing here asks for room in the tables: an entry that is given up only makes a descriptor
unknown.
-/

namespace HookTrace.Mysql

open Store

/-- What holds between two calls, however full the tables are. -/
structure Orderly (cpus : Nat) (s : MysqlStores) : Prop where
  known : s.known.Coherent
  pending : s.pending.Coherent
  idle : s.events.staging.Idle (max cpus 1)

/-- No descriptor becomes known. -/
structure Silent (cpus : Nat) (s s' : MysqlStores) : Prop where
  orderly : Orderly cpus s'
  unknown : ∀ fd, s.known.peek? fd = none → s'.known.peek? fd = none

/-- What a call does to the descriptors that are not known, or that it closes: they become known
by a connect to a tracked port only. -/
structure Moves (config : MysqlConfig) (cpus : Nat) (act : Act) (s s' : MysqlStores) : Prop where
  orderly : Orderly cpus s'
  unknown : ∀ fd, s.known.peek? fd = none ∨ act.closes fd = true → act.tracks? config fd = none →
    s'.known.peek? fd = none

theorem Silent.moves {config : MysqlConfig} {cpus : Nat} {act : Act} {s s' : MysqlStores}
    (h : Silent cpus s s') (hopen : ∀ fd, act.closes fd = false) : Moves config cpus act s s' where
  orderly := h.orderly
  unknown := by
    intro fd hfd _
    rcases hfd with hfd | hfd
    · exact h.unknown fd hfd
    · rw [hopen fd] at hfd
      cases hfd

namespace Orderly

variable (config : MysqlConfig) {cpus : Nat} {s s' : MysqlStores}

theorem moves_connect (h : Orderly cpus s) (task : Task) (space : AddressSpace) (fd : Int32)
    (uaddr : UInt64) : Moves config cpus (.connect task space fd uaddr) s
      ((Capture.onConnect config task.current space.userSpace fd uaddr).after s) := by
  rw [MysqlStores.after_connect]
  cases hp : config.port? task space uaddr with
  | none => exact Silent.moves ⟨h, fun _ hfd => hfd⟩ fun _ => rfl
  | some port =>
    refine ⟨⟨h.known.insert fd _, h.pending, h.idle⟩, ?_⟩
    intro other hother ht
    have hne : other ≠ fd := by
      rintro rfl
      simp [Act.tracks?, hp] at ht
    have hother : s.known.peek? other = none := by simpa [Act.closes] using hother
    exact h.known.peek?_insert_of_none hne hother

theorem moves_enter (h : Orderly cpus s) (transfer : Transfer) (task : Task) (args : SyscallArgs) :
    Moves config cpus (.enter transfer task args) s
      ((Capture.onEnter config task.current args).after s) := by
  rw [MysqlStores.after_enter config task args h.known]
  cases config.covers task with
  | false => exact Silent.moves ⟨h, fun _ hfd => hfd⟩ fun _ => rfl
  | true =>
    refine Silent.moves ⟨⟨h.known.get? args.fd, ?_, h.idle⟩, ?_⟩ ?_
    · simp only [if_true]
      split
      · exact h.pending.insert task.pid args
      · exact h.pending
    · intro fd hfd
      exact (h.known.peek?_get? args.fd fd).trans hfd
    · exact fun _ => rfl

/-- Capturing a transfer stores nothing but what became of a known connection. -/
theorem silent_capture (h : Orderly cpus s) (task : Task) (space : AddressSpace)
    (args : SyscallArgs) (direction : Direction) (ret : Int64) :
    Silent cpus s
      ((Capture.capture config task.current space.userSpace direction ret args).after s) := by
  obtain ⟨touched, ht, hl⟩ :=
    MysqlStores.learns_capture config task space args direction ret h.known h.idle
  have htouched := ht.coherent h.known
  have hsame : ∀ fd, s.known.peek? fd = none → touched.peek? fd = none :=
    fun fd hfd => (ht.peek?_eq h.known fd).trans hfd
  have hquiet : ∀ s', s.Learns cpus s' touched → Silent cpus s s' := fun s' hl =>
    ⟨⟨hl.known_eq ▸ htouched, hl.pending_eq ▸ h.pending, hl.idle⟩, hl.known_eq ▸ hsame⟩
  cases hc : s.known.peek? args.fd with
  | none =>
    rw [hc] at hl
    exact hquiet _ hl
  | some conn =>
    rw [hc] at hl
    cases hp : config.payload? cpus task space args.buf ret with
    | none =>
      rw [hp] at hl
      exact hquiet _ hl
    | some payload =>
      rw [hp] at hl
      refine ⟨⟨?_, hl.pending_eq ▸ h.pending, hl.idle⟩, fun fd hfd => ?_⟩
      · rw [hl.known_eq]
        split
        · exact htouched
        · exact htouched.insert args.fd _
      · have hne : fd ≠ args.fd := by
          rintro rfl
          rw [hc] at hfd
          cases hfd
        rw [hl.known_eq]
        split
        · exact hsame fd hfd
        · exact htouched.peek?_insert_of_none hne (hsame fd hfd)

theorem moves_exit (h : Orderly cpus s) (transfer : Transfer) (task : Task) (space : AddressSpace)
    (ret : Int64) : Moves config cpus (.exit transfer task space ret) s
      ((Capture.onExit config task.current space.userSpace (.ofTransfer transfer) ret).after s) := by
  rw [MysqlStores.after_exit config task space _ ret h.pending]
  have hget : Orderly cpus { s with pending := (s.pending.get? task.pid).2 } :=
    ⟨h.known, h.pending.get? task.pid, h.idle⟩
  cases s.pending.peek? task.pid with
  | none =>
    exact Silent.moves ⟨hget, fun _ hfd => hfd⟩ fun _ => rfl
  | some args =>
    have hended := hget.silent_capture config task space args (.ofTransfer transfer) ret
    refine Silent.moves ⟨?_, hended.unknown⟩ ?_
    · exact ⟨hended.orderly.known, hended.orderly.pending.erase task.pid, hended.orderly.idle⟩
    · exact fun _ => rfl

theorem moves_close (h : Orderly cpus s) (task : Task) (fd : Int32) :
    Moves config cpus (.close task fd) s (Hook.after (Capture.onClose fd) s) := by
  rw [MysqlStores.after_close]
  refine ⟨⟨h.known.erase fd, h.pending, h.idle⟩, ?_⟩
  intro other hother _
  rw [h.known.peek?_erase]
  by_cases hfd : other = fd
  · rw [if_pos hfd]
  · rw [if_neg hfd]
    simpa [Act.closes, Ne.symm hfd] using hother

theorem moves (h : Orderly cpus s) (act : Act) :
    Moves config cpus act s ((Capture.hook config act.call).after s) := by
  cases act with
  | connect task space fd uaddr => exact h.moves_connect config task space fd uaddr
  | enter transfer task args => exact h.moves_enter config transfer task args
  | exit transfer task space ret => exact h.moves_exit config transfer task space ret
  | close task fd => exact h.moves_close config task fd

/-- What is handed over is for descriptors that are known. -/
theorem known_of_submits (h : Orderly cpus s) (act : Act) {e : Nat × MysqlRecord}
    (he : e ∈ ((MysqlTracer.hooks config).journaled act).submits s) :
    s.known.peek? e.2.fd ≠ none := by
  cases act with
  | exit transfer task space ret =>
    rw [MysqlTracer.submits_exit config h.idle] at he
    cases hwaiting : s.pending.peek? task.pid with
    | none =>
      rw [hwaiting] at he
      cases he
    | some args =>
      simp only [hwaiting] at he
      split at he
      · rename_i conn payload hconn _
        rw [Observation.fd_of_mem_records he, hconn]
        exact Option.some_ne_none conn
      · cases he
  | connect | enter | close =>
    rw [MysqlTracer.submits_of_not_exit config rfl] at he
    cases he

end Orderly

theorem Act.tracks?_of_closes (config : MysqlConfig) {fd : Int32} {act : Act}
    (h : act.closes fd = true) : act.tracks? config fd = none := by
  cases act with
  | connect task space fd' uaddr => cases h
  | enter transfer task args => rfl
  | exit transfer task space ret => rfl
  | close task fd' => rfl

theorem trackedPort?_append {config : MysqlConfig} {fd : Int32} {later earlier : List Act}
    (h : trackedPort? config fd earlier = none ∨ ∃ act ∈ later, act.closes fd = true)
    (hlater : ∀ act ∈ later, act.tracks? config fd = none) :
    trackedPort? config fd (later ++ earlier) = none := by
  induction later with
  | nil => exact h.resolve_right fun ⟨_, hact, _⟩ => List.not_mem_nil hact
  | cons act later ih =>
    obtain ⟨hact, hrest⟩ := List.forall_mem_cons.1 hlater
    rw [List.cons_append, trackedPort?_cons]
    cases hcloses : act.closes fd with
    | true => rfl
    | false =>
      have hfound : trackedPort? config fd earlier = none ∨ ∃ act ∈ later, act.closes fd = true := by
        simpa [hcloses] using h
      rw [hact, ih hfound hrest]
      rfl

namespace MysqlTracer

variable (config : MysqlConfig) (cpus : Nat)

theorem orderly_after (past : List Act) : Orderly cpus (after config cpus past).stores := by
  induction past with
  | nil =>
    exact ⟨RecencyTable.coherent_empty _, RecencyTable.coherent_empty _,
      StagingPool.idle_empty cpus⟩
  | cons act past ih =>
    have hmoves := (ih.moves config act).orderly
    rw [stores_after_cons]
    exact ⟨hmoves.known, hmoves.pending, hmoves.idle⟩

theorem moves_after (act : Act) (past : List Act) :
    Moves config cpus act (after config cpus past).stores
      (after config cpus (act :: past)).stores := by
  have hmoves := (orderly_after config cpus past).moves config act
  rw [stores_after_cons]
  exact ⟨⟨hmoves.orderly.known, hmoves.orderly.pending, hmoves.orderly.idle⟩, hmoves.unknown⟩

variable {config cpus} {fd : Int32} {past later earlier : List Act}

/-- However full the tables are, a descriptor is known by a connect to a tracked port only. -/
theorem connection_of_untracked (h : trackedPort? config fd past = none) :
    (after config cpus past).connection fd = none := by
  induction past with
  | nil => exact RecencyTable.peek?_empty _ fd
  | cons act past ih =>
    have hmoves := moves_after config cpus act past
    rw [trackedPort?_cons] at h
    cases hc : act.closes fd with
    | true => exact hmoves.unknown fd (.inr hc) (Act.tracks?_of_closes config hc)
    | false =>
      rw [hc, if_neg Bool.false_ne_true, Option.or_eq_none_iff] at h
      exact hmoves.unknown fd (.inl (ih h.2)) h.1

theorem fd_ne_of_untracked (h : trackedPort? config fd earlier = none)
    (hlater : ∀ act ∈ later, act.tracks? config fd = none) {e : Nat × MysqlRecord}
    (he : e ∈ (hooks config).submissions (after config cpus earlier).stores later) :
    e.2.fd ≠ fd := by
  induction later with
  | nil => cases he
  | cons act later ih =>
    obtain ⟨-, hrest⟩ := List.forall_mem_cons.1 hlater
    rcases List.mem_append.1 he with he | he
    · exact ih hrest he
    -- what the last call hands over is for descriptors that were known before it
    · rw [← stores_after_append] at he
      rintro rfl
      exact (orderly_after config cpus (later ++ earlier)).known_of_submits config act he
        (connection_of_untracked (trackedPort?_append (.inl h) hrest))

theorem notices_after (past : List Act) : (after config cpus past).stores.notices = [] := by
  cases past with
  | nil => rfl
  | cons act past => rw [stores_after_cons]

/-- A connect that names no tracked port changes nothing. -/
theorem after_connect_of_none {task : Task} {space : AddressSpace} {uaddr : UInt64}
    (h : config.port? task space uaddr = none) (fd : Int32) :
    after config cpus (.connect task space fd uaddr :: past) = after config cpus past := by
  have hstores : (after config cpus (.connect task space fd uaddr :: past)).stores =
      (after config cpus past).stores := by
    rw [stores_after_cons]
    show { (Capture.onConnect config task.current space.userSpace fd uaddr).after
      (after config cpus past).stores with notices := [] } = _
    rw [MysqlStores.after_connect, h]
    show { (after config cpus past).stores with notices := [] } = _
    rw [← notices_after past]
  have hconfig := (config_after config cpus (.connect task space fd uaddr :: past)).trans
    (config_after config cpus past).symm
  cases hl : after config cpus (.connect task space fd uaddr :: past)
  cases hr : after config cpus past
  rw [hl, hr] at hstores hconfig
  cases hstores
  cases hconfig
  rfl

/-- A connect to a port that is not tracked changes nothing and hands nothing over. A descriptor
that was not known before it, or that was closed since, is silent until it is connected to a tracked
port. -/
theorem after_untracked_connect (config : MysqlConfig) (cpus : Nat) (task : Task) (fd : Int32)
    {space : AddressSpace} {uaddr : UInt64} {peer : InetAddress} (earlier : List Act)
    (hread : InetAddress.read? space.userSpace uaddr = .ok (some peer))
    (hport : config.tracksPort peer.port = false) :
    let connect := Act.connect task space fd uaddr
    after config cpus (connect :: earlier) = after config cpus earlier ∧
    submissions config cpus (connect :: earlier) = submissions config cpus earlier ∧
    ∀ before later,
      trackedPort? config fd earlier = none ∨ (∃ act ∈ before, act.closes fd = true) →
      (∀ act ∈ later ++ before, act.tracks? config fd = none) →
      let past := before ++ connect :: earlier
      let since := (hooks config).submissions (after config cpus past).stores later
      (after config cpus (later ++ past)).connection fd = none ∧
      submissions config cpus (later ++ past) = submissions config cpus past ++ since ∧
      (∀ e ∈ since, e.2.fd ≠ fd) ∧
      (after config cpus (later ++ past)).stores.events.channel =
        (after config cpus past).stores.events.channel.outputs since := by
  intro connect
  have hnone : config.port? task space uaddr = none := by
    unfold MysqlConfig.port?
    simp [hread, hport]
  refine ⟨after_connect_of_none hnone fd, ?_, ?_⟩
  · rw [submissions_cons, submits_of_not_exit config rfl, List.append_nil]
  · intro before later hunknown hsilent past since
    obtain ⟨hlater, hbefore⟩ := List.forall_mem_append.1 hsilent
    have hconnect : trackedPort? config fd (connect :: earlier) = trackedPort? config fd earlier := by
      rw [trackedPort?_cons]
      simp [connect, Act.closes, Act.tracks?, hnone]
    have huntracked : trackedPort? config fd past = none :=
      trackedPort?_append (hconnect.symm ▸ hunknown) hbefore
    refine ⟨connection_of_untracked (trackedPort?_append (.inl huntracked) hlater),
      submissions_append config cpus later past, fun e => fd_ne_of_untracked huntracked hlater, ?_⟩
    rw [stores_after_append]
    exact Twofold.channel_after (transparent_hooks config) _ later

/-- A descriptor that is connected to another server for the first time and then used, and one that
is used after it was closed. -/
theorem after_untracked_connect_used :
    let task := Task.ofProcess 42
    let mysql : InetAddress := { addr := 0x0100007f, port := 3306 }
    let peer : InetAddress := { addr := 0x0100007f, port := 5432 }
    let space := ((AddressSpace.empty.map 0x1000 peer.encode).map 0x1100 mysql.encode).map
      0x2000 [1, 0, 0, 0, 3]
    let connect := Act.connect task space 7 0x1000
    let earlier : List Act := [.connect task space 7 0x1100]
    let later : List Act :=
      [.exit .sendto task space 5, .enter .sendto task { fd := 7, buf := 0x2000, len := 5 }]
    InetAddress.read? space.userSpace 0x1000 = .ok (some peer) ∧
    MysqlConfig.tracksPort {} peer.port = false ∧
    (∀ act ∈ later ++ [Act.close task 7], act.tracks? {} 7 = none) ∧
    (trackedPort? {} 7 [] = none ∧ (after {} 1 (later ++ [connect])).connection 7 = none) ∧
    (trackedPort? {} 7 earlier = some 3306 ∧
      (after {} 1 (later ++ .close task 7 :: connect :: earlier)).connection 7 = none) := by
  intro task mysql peer space connect earlier later
  have hread : InetAddress.read? space.userSpace 0x1000 = .ok (some peer) := by decide
  have hport : MysqlConfig.tracksPort {} peer.port = false := by decide
  have hsilent : ∀ act ∈ later ++ [Act.close task 7], act.tracks? {} 7 = none := by
    simp [later, Act.tracks?]
  have hfresh := (after_untracked_connect {} 1 task 7 [] hread hport).2.2 [] later (.inl rfl)
    fun act hact => hsilent act (List.mem_append_left _ (by simpa using hact))
  have hclosed := (after_untracked_connect {} 1 task 7 earlier hread hport).2.2 [.close task 7]
    later (.inr ⟨_, List.mem_singleton_self _, rfl⟩) hsilent
  exact ⟨hread, hport, hsilent, ⟨rfl, hfresh.1⟩, ⟨by decide, hclosed.1⟩⟩

/-- A descriptor that was connected to the tracked port, and is connected to another server before
anybody closed it, is still taken for a connection to the tracked port. -/
theorem reconnected_elsewhere_reports :
    let task := Task.ofProcess 42
    let mysql : InetAddress := { addr := 0x0100007f, port := 3306 }
    let other : InetAddress := { addr := 0x0100007f, port := 5432 }
    let space := ((AddressSpace.empty.map 0x1000 mysql.encode).map 0x1100 other.encode).map
      0x2000 [1, 0, 0, 0, 3]
    let connected : List Act := [.connect task space 7 0x1100, .connect task space 7 0x1000]
    let past : List Act := .exit .sendto task space 5 ::
      .enter .sendto task { fd := 7, buf := 0x2000, len := 5 } :: connected
    MysqlConfig.covers {} task = true ∧
    InetAddress.read? space.userSpace 0x1100 = .ok (some other) ∧
    MysqlConfig.tracksPort {} other.port = false ∧
    (after {} 1 connected).connection 7 = some (.connecting 7 3306) ∧
    (after {} 1 past).connection 7 = some (.connecting 7 3306) ∧
    (after {} 1 connected).stores.events.channel = PerCpuQueues.empty 1 Limits.queueDepth ∧
    (after {} 1 past).stores.events.channel =
      (PerCpuQueues.empty 1 Limits.queueDepth).outputs
        [(0, .ofPayload task 7 [1, 0, 0, 0, 3] .clientToServer 0)] := by
  refine ⟨by decide, by decide, by decide, ?_, ?_, ?_, ?_⟩
  · exact ((keeps_history {} 1 _ (by decide) (by decide)).conns 7).trans (by decide +kernel)
  · exact ((keeps_history {} 1 _ (by decide) (by decide)).conns 7).trans (by decide +kernel)
  · exact channel_history {} 1 _ (by decide) (by decide)
  · exact channel_history {} 1 _ (by decide) (by decide)

end MysqlTracer

end HookTrace.Mysql
