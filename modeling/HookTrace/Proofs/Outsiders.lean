import HookTrace.Proofs.Mysql.Bindings
import HookTrace.Proofs.Mysql.History
import HookTrace.Proofs.Poll.Acts

/-!
# HookTrace.Proofs.Outsiders

What tasks outside the traced process tree can do to the tracers that know descriptors. Such a task
is let in nowhere but where a hook does not ask for a task: its exits find no entry, unless a task
in scope has the same thread id, and its closes forget a descriptor like anybody's.

A run is compared with what is left of it when calls of outsiders are taken out (`sift`). Two
tracers that go through the two runs have the same entries all along (`Twins`); a call that both
take hands the same over (`Twins.step`), and one that only the first takes leaves no trace
(`Twins.skip`).

* `outsiders_only_forget`: taking out the calls of outsiders changes nothing, as long as the closes
  of descriptors that are known by then stay.
* `Mysql.outsider_forgets_insider`: the connection of a task in scope is forgotten when an outsider
  closes a descriptor of its own.
-/

namespace HookTrace

open Store

variable {A ν μ ρ : Type}

/-- The calls of a run that `keep` holds of, each judged with those before it. -/
def sift (keep : A → (past : List A) → Bool) : (past : List A) → List A
  | [] => []
  | a :: past => if keep a past then a :: sift keep past else sift keep past

abbrev DescriptorStores (ν μ S : Type) :=
  Stores (RecencyTable UInt32 ν) (RecencyTable Int32 μ) S

/-- Two sets of stores with room for the same descriptors and threads and with the same entries,
and with all staging records at hand. -/
structure Twins (fds : Finset Int32) (threads : Finset UInt32) (n : Nat)
    (s s' : DescriptorStores ν μ (PerCpuOutput ρ)) : Prop where
  pending : (RecencyTable.roomLaws threads).Alike (RecencyTable.roomLaws threads) s.pending
    s'.pending
  known : (RecencyTable.roomLaws fds).Alike (RecencyTable.roomLaws fds) s.known s'.known
  idle : s.events.staging.Idle n
  idle' : s'.events.staging.Idle n

namespace Twins

variable {fds : Finset Int32} {threads : Finset UInt32} {n : Nat}
variable {hooks : Twofold A (RecencyTable UInt32 ν) (RecencyTable Int32 μ) (PerCpuOutput ρ) ρ}
variable {s s' : DescriptorStores ν μ (PerCpuOutput ρ)} {a : A}

/-- What matches along two runs: the entries, and what the journals of a call have down. -/
def matching (fds : Finset Int32) (threads : Finset UInt32) (n : Nat) :
    Matching (RecencyTable UInt32 ν) (RecencyTable Int32 μ) (Journal (PerCpuOutput ρ) ρ)
      (RecencyTable UInt32 ν) (RecencyTable Int32 μ) (Journal (PerCpuOutput ρ) ρ) where
  pending := (RecencyTable.roomLaws threads).Alike (RecencyTable.roomLaws threads)
  known := (RecencyTable.roomLaws fds).Alike (RecencyTable.roomLaws fds)
  events journal journal' :=
    journal.sink.staging.Idle n ∧ journal'.sink.staging.Idle n ∧ journal.deeds = journal'.deeds

variable [Layout ρ]

theorem empty {cpus : Nat} (hfds : fds.card ≤ Limits.entries)
    (hthreads : threads.card ≤ Limits.entries) :
    let start : DescriptorStores ν μ (PerCpuOutput ρ) :=
      ⟨.empty Limits.entries, .empty Limits.entries, .empty cpus cpus Limits.queueDepth, []⟩
    Twins fds threads (max cpus 1) start start where
  pending := ⟨.empty hthreads, .empty hthreads, fun _ => rfl⟩
  known := ⟨.empty hfds, .empty hfds, fun _ => rfl⟩
  idle := StagingPool.idle_empty cpus
  idle' := StagingPool.idle_empty cpus

/-- A call that both runs take. -/
theorem step (h : Twins fds threads n s s') (htransparent : hooks.Transparent)
    (hagree : Hook.Agree (matching fds threads n) (hooks.journaled a) (hooks.journaled a)) :
    Twins fds threads n { (hooks.plain a).after s with notices := [] }
      { (hooks.plain a).after s' with notices := [] } ∧
    (hooks.journaled a).submits s = (hooks.journaled a).submits s' := by
  obtain ⟨hp, hk, he, -⟩ := htransparent.after_journaled a s
  obtain ⟨hp', hk', he', -⟩ := htransparent.after_journaled a s'
  obtain ⟨hpending, hknown, hidle, hidle', hdeeds⟩ :=
    (hagree ⟨s.pending, s.known, ⟨s.events, []⟩, s.notices⟩
      ⟨s'.pending, s'.known, ⟨s'.events, []⟩, s'.notices⟩
      ⟨h.pending, h.known, h.idle, h.idle', rfl⟩).2
  refine ⟨⟨?_, ?_, ?_, ?_⟩, ?_⟩
  · rwa [hp, hp'] at hpending
  · rwa [hk, hk'] at hknown
  · rwa [he] at hidle
  · rwa [he'] at hidle'
  · exact congrArg (List.filterMap Deed.submission?) hdeeds

/-- A call leaves no trace but the order in which entries of threads were last touched. -/
def Traceless (hook : Hook (RecencyTable UInt32 ν) (RecencyTable Int32 μ)
    (Journal (PerCpuOutput ρ) ρ) Unit) (s : DescriptorStores ν μ (PerCpuOutput ρ)) : Prop :=
  ∃ pending, s.pending.Touches pending ∧
    hook.after ⟨s.pending, s.known, ⟨s.events, []⟩, s.notices⟩ =
      ⟨pending, s.known, ⟨s.events, []⟩, s.notices⟩

/-- A call that only the first run takes. -/
theorem skip (h : Twins fds threads n s s') (htransparent : hooks.Transparent)
    (htraceless : Traceless (hooks.journaled a) s) :
    Twins fds threads n { (hooks.plain a).after s with notices := [] } s' ∧
    (hooks.journaled a).submits s = [] := by
  obtain ⟨pending, htouches, hafter⟩ := htraceless
  obtain ⟨hp, hk, he, -⟩ := htransparent.after_journaled a s
  simp only [hafter] at hp hk he
  refine ⟨⟨?_, ?_, ?_, h.idle'⟩, ?_⟩
  · have hroomy : s.pending.Roomy threads := h.pending.valid
    refine ⟨hp ▸ hroomy.touches htouches, h.pending.valid', fun key => ?_⟩
    rw [← h.pending.entry_eq key, ← hp]
    exact htouches.peek?_eq hroomy.coherent key
  · exact hk ▸ h.known
  · exact he ▸ h.idle
  · exact Hook.submits_of_events_eq (congrArg Stores.events hafter)

/-- The two runs have the same entries in the end, and have handed over the same. -/
theorem of_sift {start : DescriptorStores ν μ (PerCpuOutput ρ)}
    (hstart : Twins fds threads n start start) (htransparent : hooks.Transparent)
    {keep : A → List A → Bool} {whole : List A}
    (hkeep : ∀ a past, a :: past <:+ whole → keep a past = true →
      Hook.Agree (matching fds threads n) (hooks.journaled a) (hooks.journaled a))
    (hdrop : ∀ a past, a :: past <:+ whole → keep a past = false →
      (hooks.after start past).pending.Roomy threads → Traceless (hooks.journaled a)
        (hooks.after start past)) :
    Twins fds threads n (hooks.after start whole) (hooks.after start (sift keep whole)) ∧
      hooks.submissions start whole = hooks.submissions start (sift keep whole) := by
  induction whole with
  | nil => exact ⟨hstart, rfl⟩
  | cons a past ih =>
    obtain ⟨htwins, hsubmissions⟩ := ih
      (fun b past' hsuffix => hkeep b past' (hsuffix.trans (List.suffix_cons a past)))
      (fun b past' hsuffix => hdrop b past' (hsuffix.trans (List.suffix_cons a past)))
    rw [sift]
    cases hk : keep a past with
    | true =>
      obtain ⟨hstep, hsubmits⟩ := htwins.step htransparent (hkeep a past List.suffix_rfl hk)
      exact ⟨hstep, by
        rw [if_pos rfl, Twofold.submissions, Twofold.submissions, hsubmissions, hsubmits]⟩
    | false =>
      obtain ⟨hskip, hsubmits⟩ := htwins.skip htransparent
        (hdrop a past List.suffix_rfl hk htwins.pending.valid)
      refine ⟨hskip, ?_⟩
      rw [if_neg Bool.false_ne_true, Twofold.submissions, hsubmits, List.append_nil, hsubmissions]

end Twins

/-! ### Calls of outsiders -/

section

variable (inside : A → Bool) (pid : A → UInt32) (forgets : A → (past : List A) → Bool)

/-- The threads of tasks in scope. -/
def insiders (whole : List A) : List UInt32 :=
  (whole.filter inside).map pid

/-- A run without the calls of outsiders, unless they share a thread id with a task in scope or
forget something. -/
def withoutOutsiders (whole : List A) : List A :=
  sift (fun a past => inside a || (insiders inside pid whole).contains (pid a) || forgets a past)
    whole

variable {inside pid forgets}
variable {hooks : Twofold A (RecencyTable UInt32 ν) (RecencyTable Int32 μ) (PerCpuOutput ρ) ρ}
variable {start : DescriptorStores ν μ (PerCpuOutput ρ)}
variable {entered? : A → Option UInt32} {n : Nat}

variable (inside) in
/-- With room for all descriptors and threads, an outsider leaves no trace if its calls do not where
they find no entry of their thread and forget nothing. -/
theorem twins_withoutOutsiders [Layout ρ] (connected? : A → Option Int32)
    (htransparent : hooks.Transparent) {whole : List A}
    (hstart : ∀ threads : Finset UInt32,
      threads.card ≤ (whole.filterMap entered?).toFinset.card →
      Twins (whole.filterMap connected?).toFinset threads n start start)
    (hagree : ∀ (fds : Finset Int32) (threads : Finset UInt32) (a : A),
      (∀ fd, connected? a = some fd → fd ∈ fds) → (∀ p, entered? a = some p → p ∈ threads) →
      Hook.Agree (Twins.matching fds threads n) (hooks.journaled a) (hooks.journaled a))
    (hentered : ∀ a past p, entered? a = some p → p = pid a ∧ forgets a past = false)
    (houtside : ∀ a past, inside a = false → forgets a past = false →
      (hooks.after start past).pending.Coherent →
      (hooks.after start past).pending.peek? (pid a) = none →
      Twins.Traceless (hooks.journaled a) (hooks.after start past)) :
    ∃ threads, Twins (whole.filterMap connected?).toFinset threads n (hooks.after start whole)
      (hooks.after start (withoutOutsiders inside pid forgets whole)) ∧
    hooks.submissions start whole =
      hooks.submissions start (withoutOutsiders inside pid forgets whole) := by
  -- entries are of threads of tasks in scope
  let threads : Finset UInt32 :=
    (whole.filterMap entered?).toFinset.filter (· ∈ insiders inside pid whole)
  refine ⟨threads, Twins.of_sift (hstart threads (Finset.card_filter_le _ _)) htransparent ?_ ?_⟩
  · intro a past hsuffix hkeep
    have ha : a ∈ whole := hsuffix.subset (List.mem_cons_self)
    refine hagree _ threads a ?_ ?_
    · intro fd hfd
      exact List.mem_toFinset.2 (List.mem_filterMap.2 ⟨a, ha, hfd⟩)
    · intro p hp
      obtain ⟨rfl, hforgets⟩ := hentered a past p hp
      refine Finset.mem_filter.2 ⟨List.mem_toFinset.2 (List.mem_filterMap.2 ⟨a, ha, hp⟩), ?_⟩
      simp only [hforgets, Bool.or_false, Bool.or_eq_true, List.contains_iff_mem] at hkeep
      rcases hkeep with hin | hmem
      · exact List.mem_map.2 ⟨a, List.mem_filter.2 ⟨ha, hin⟩, rfl⟩
      · exact hmem
  · intro a past _ hdrop hroomy
    simp only [Bool.or_eq_false_iff, List.contains_eq_mem, decide_eq_false_iff_not] at hdrop
    obtain ⟨⟨hout, hpid⟩, hforgets⟩ := hdrop
    refine houtside a past hout hforgets hroomy.coherent ?_
    cases hp : (hooks.after start past).pending.peek? (pid a) with
    | none => rfl
    | some value => exact absurd (Finset.mem_filter.1 (hroomy.mem _ _ hp)).2 hpid

end

/-- A claim that finds no entry. -/
theorem Twins.traceless_claim {s : DescriptorStores ν μ (PerCpuOutput ρ)} {pid : UInt32}
    (body : ν → Hook (RecencyTable UInt32 ν) (RecencyTable Int32 μ) (Journal (PerCpuOutput ρ) ρ)
      Unit)
    (hcoherent : s.pending.Coherent) (hnone : s.pending.peek? pid = none) :
    Traceless (Hook.claim pid body) s := by
  refine ⟨(s.pending.get? pid).2, .key pid, ?_⟩
  have hlookup : (KeyedTable.lookup s.pending pid).1 = none :=
    (hcoherent.fst_get? pid).trans hnone
  unfold Hook.after Hook.outcome
  rw [Hook.claim_of_none body hlookup]
  rfl

/-! ### MySQL traffic -/

namespace Mysql

/-- Whether a call forgets what is known of a descriptor. -/
def Act.forgets (config : MysqlConfig) (cpus : Nat) : Act → (past : List Act) → Bool
  | .close _ fd, past => ((MysqlTracer.after config cpus past).connection fd).isSome
  | _, _ => false

namespace MysqlTracer

/-- A run without the calls of outsiders that neither share a thread id with a task in scope nor
close a descriptor known by then. -/
def withoutOutsiders (config : MysqlConfig) (cpus : Nat) (whole : List Act) : List Act :=
  HookTrace.withoutOutsiders (config.covers ·.task) (·.task.pid) (Act.forgets config cpus) whole

variable (config : MysqlConfig) (cpus : Nat)

theorem traceless_of_outsider {act : Act} {past : List Act} (hout : config.covers act.task = false)
    (hforgets : act.forgets config cpus past = false)
    (hcoherent : ((hooks config).after (empty config cpus).stores past).pending.Coherent)
    (hnone : ((hooks config).after (empty config cpus).stores past).pending.peek? act.task.pid =
      none) :
    Twins.Traceless ((hooks config).journaled act)
      ((hooks config).after (empty config cpus).stores past) := by
  cases act with
  | connect task space fd uaddr =>
    have hport : config.port? task space uaddr = none := by
      unfold MysqlConfig.port?
      rw [show config.covers task = false from hout, if_neg Bool.false_ne_true]
    refine ⟨_, .none, (Capture.after_onConnect config task space fd uaddr _).trans ?_⟩
    rw [hport]
  | enter transfer task args =>
    refine ⟨_, .none, (Capture.after_onEnter config task args _).trans ?_⟩
    rw [show config.covers task = false from hout, if_neg Bool.false_ne_true]
  | exit transfer task space ret => exact Twins.traceless_claim _ hcoherent hnone
  | close task fd =>
    have hunknown :
        ((hooks config).after (empty config cpus).stores past).known.peek? fd = none := by
      rw [Act.forgets, after_eq] at hforgets
      exact Option.isNone_iff_eq_none.1 (Option.isSome_eq_false_iff.1 hforgets)
    refine ⟨_, .none, (Hook.after_unlearn fd _).trans ?_⟩
    show (⟨_, (RecencyTable.erase _ fd).2, _, _⟩ : Stores _ _ _) = _
    rw [RecencyTable.erase_of_none hunknown]

theorem of_entered {act : Act} (past : List Act) {pid : UInt32} (h : act.entered? = some pid) :
    pid = act.task.pid ∧ act.forgets config cpus past = false := by
  cases act with
  | enter transfer task args =>
    cases h
    exact ⟨rfl, rfl⟩
  | connect | exit | close => cases h

theorem same_without_outsiders {whole : List Act}
    (hfds : (whole.filterMap Act.connected?).toFinset.card ≤ Limits.entries)
    (hthreads : (whole.filterMap Act.entered?).toFinset.card ≤ Limits.entries) :
    (∀ fd, (after config cpus (withoutOutsiders config cpus whole)).connection fd =
      (after config cpus whole).connection fd) ∧
    submissions config cpus (withoutOutsiders config cpus whole) =
      submissions config cpus whole := by
  obtain ⟨threads, htwins, hsubmissions⟩ :=
    twins_withoutOutsiders (config.covers ·.task) Act.connected? (transparent_hooks config)
      (fun threads hcard => Twins.empty hfds (hcard.trans hthreads))
      (fun fds threads act hfd hpid =>
        Capture.agree_hook config (RoomLaws.tablesMatch _ _) (RoomLaws.tablesMatch _ _)
          (Act.within_call hfd hpid) fun cpu _ => PerCpuOutput.sinksMatch_idle _ cpu)
      (fun act past pid => of_entered config cpus past)
      (fun act past => traceless_of_outsider config cpus)
  refine ⟨fun fd => ?_, hsubmissions.symm⟩
  rw [after_eq, after_eq]
  exact (htwins.known.entry_eq fd).symm

end MysqlTracer

end Mysql

/-! ### Polls -/

/-- Whether a task is in the traced process tree. -/
def Scope.covers (scope : Scope) (task : Task) : Bool :=
  inScope task.tgid task.parentTgid scope.target

namespace Poll

/-- Whether a call forgets what is known of a descriptor. -/
def Act.forgets (scope : Scope) (cpus : Nat) : Act → (past : List Act) → Bool
  | .close _ fd, past => ((PollTracer.after scope cpus past).socket fd).isSome
  | _, _ => false

namespace PollTracer

/-- A run without the calls of outsiders that neither share a thread id with a task in scope nor
close a descriptor known by then. -/
def withoutOutsiders (scope : Scope) (cpus : Nat) (whole : List Act) : List Act :=
  HookTrace.withoutOutsiders (scope.covers ·.task) (·.task.pid) (Act.forgets scope cpus) whole

variable (scope : Scope) (cpus : Nat)

theorem traceless_of_outsider {act : Act} {past : List Act} (hout : scope.covers act.task = false)
    (hforgets : act.forgets scope cpus past = false)
    (hcoherent : ((hooks scope).after (empty scope cpus).stores past).pending.Coherent)
    (hnone : ((hooks scope).after (empty scope cpus).stores past).pending.peek? act.task.pid =
      none) :
    Twins.Traceless ((hooks scope).journaled act)
      ((hooks scope).after (empty scope cpus).stores past) := by
  cases act with
  | connect task space fd uaddr =>
    have hscope : inScope task.tgid task.parentTgid scope.target = false := hout
    have hhook : ((hooks scope).journaled (.connect task space fd uaddr)) = pure () := by
      show Readiness.onConnect scope task.current space.userSpace fd uaddr = pure ()
      unfold Readiness.onConnect
      rw [inScope_current, Hook.ok_bind, hscope]
      rfl
    rw [hhook]
    exact ⟨_, .none, rfl⟩
  | enter variant task space ufds =>
    have hscope : inScope task.tgid task.parentTgid scope.target = false := hout
    have hhook : ((hooks scope).journaled (.enter variant task space ufds)) = pure () := by
      show Readiness.onEnter scope task.current space.userSpace ufds = pure ()
      unfold Readiness.onEnter
      rw [inScope_current, Hook.ok_bind, hscope]
      rfl
    rw [hhook]
    exact ⟨_, .none, rfl⟩
  | exit variant task ret => exact Twins.traceless_claim _ hcoherent hnone
  | close task fd =>
    have hunknown : ((hooks scope).after (empty scope cpus).stores past).known.peek? fd = none := by
      rw [Act.forgets, after_eq] at hforgets
      exact Option.isNone_iff_eq_none.1 (Option.isSome_eq_false_iff.1 hforgets)
    refine ⟨_, .none, (Hook.after_unlearn fd _).trans ?_⟩
    show (⟨_, (RecencyTable.erase _ fd).2, _, _⟩ : Stores _ _ _) = _
    rw [RecencyTable.erase_of_none hunknown]

theorem of_entered {act : Act} (past : List Act) {pid : UInt32} (h : act.entered? = some pid) :
    pid = act.task.pid ∧ act.forgets scope cpus past = false := by
  cases act with
  | enter variant task space ufds =>
    cases h
    exact ⟨rfl, rfl⟩
  | connect | exit | close => cases h

theorem same_without_outsiders {whole : List Act}
    (hfds : (whole.filterMap Act.connected?).toFinset.card ≤ Limits.entries)
    (hthreads : (whole.filterMap Act.entered?).toFinset.card ≤ Limits.entries) :
    (∀ fd, (after scope cpus (withoutOutsiders scope cpus whole)).socket fd =
      (after scope cpus whole).socket fd) ∧
    submissions scope cpus (withoutOutsiders scope cpus whole) =
      submissions scope cpus whole := by
  obtain ⟨threads, htwins, hsubmissions⟩ :=
    twins_withoutOutsiders (scope.covers ·.task) Act.connected? (transparent_hooks scope)
      (fun threads hcard => Twins.empty hfds (hcard.trans hthreads))
      (fun fds threads act hfd hpid =>
        Readiness.agree_hook scope (RoomLaws.tablesMatch _ _) (RoomLaws.tablesMatch _ _)
          (Act.within_call hfd hpid) fun cpu _ => PerCpuOutput.sinksMatch_idle _ cpu)
      (fun act past pid => of_entered scope cpus past)
      (fun act past => traceless_of_outsider scope cpus)
  refine ⟨fun fd => ?_, hsubmissions.symm⟩
  rw [after_eq, after_eq]
  exact (htwins.known.entry_eq fd).symm

end PollTracer

end Poll

/-! ### What outsiders can do -/

/-- As long as there is room for the descriptors that are connected and the threads that enter a
call, outsiders can forget what is known of a descriptor and nothing else. Taking all their other
calls out of a run leaves everything handed over and everything known at the end as it was; and what
was handed over is what the channel got. -/
theorem outsiders_only_forget (config : Mysql.MysqlConfig) (scope : Scope) (cpus : Nat) :
    (∀ whole : List Mysql.Act,
      (whole.filterMap Mysql.Act.connected?).toFinset.card ≤ Limits.entries →
      (whole.filterMap Mysql.Act.entered?).toFinset.card ≤ Limits.entries →
      let rest := Mysql.MysqlTracer.withoutOutsiders config cpus whole
      (∀ fd, (Mysql.MysqlTracer.after config cpus rest).connection fd =
        (Mysql.MysqlTracer.after config cpus whole).connection fd) ∧
      Mysql.MysqlTracer.submissions config cpus rest =
        Mysql.MysqlTracer.submissions config cpus whole) ∧
    (∀ whole : List Poll.Act,
      (whole.filterMap Poll.Act.connected?).toFinset.card ≤ Limits.entries →
      (whole.filterMap Poll.Act.entered?).toFinset.card ≤ Limits.entries →
      let rest := Poll.PollTracer.withoutOutsiders scope cpus whole
      (∀ fd, (Poll.PollTracer.after scope cpus rest).socket fd =
        (Poll.PollTracer.after scope cpus whole).socket fd) ∧
      Poll.PollTracer.submissions scope cpus rest = Poll.PollTracer.submissions scope cpus whole) ∧
    (∀ past : List Mysql.Act,
      (Mysql.MysqlTracer.after config cpus past).stores.events.channel =
        (PerCpuQueues.empty cpus Limits.queueDepth).outputs
          (Mysql.MysqlTracer.submissions config cpus past)) ∧
    ∀ past : List Poll.Act,
      (Poll.PollTracer.after scope cpus past).stores.events.channel =
        (PerCpuQueues.empty cpus Limits.queueDepth).outputs
          (Poll.PollTracer.submissions scope cpus past) := by
  refine ⟨?mysql, ?poll, ?mysqlChannel, ?pollChannel⟩
  case mysql =>
    intro whole hfds hthreads
    exact Mysql.MysqlTracer.same_without_outsiders config cpus hfds hthreads
  case poll =>
    intro whole hfds hthreads
    exact Poll.PollTracer.same_without_outsiders scope cpus hfds hthreads
  case mysqlChannel => exact Mysql.MysqlTracer.channel_after config cpus
  case pollChannel => exact Poll.PollTracer.channel_after scope cpus

/-- An outsider connects the descriptor number of a task in scope elsewhere, and receives on it. -/
theorem outsiders_only_forget_shared :
    let insider := Task.ofProcess 42
    let outsider := Task.ofProcess 9
    let peer : InetAddress := { addr := 0x0100007f, port := 3306 }
    let space := AddressSpace.empty.map 0x1000 peer.encode
    let args : SyscallArgs := { fd := 7, buf := 0x2000, len := 64 }
    let own : List Mysql.Act :=
      [.exit .recvfrom insider space 5, .enter .recvfrom insider args,
        .connect insider space 7 0x1000]
    let whole : List Mysql.Act :=
      [.exit .recvfrom insider space 5, .exit .recvfrom outsider space 5,
        .enter .recvfrom outsider args, .enter .recvfrom insider args,
        .connect outsider space 7 0x1000, .connect insider space 7 0x1000]
    (whole.filterMap Mysql.Act.connected?).toFinset.card ≤ Limits.entries ∧
    (whole.filterMap Mysql.Act.entered?).toFinset.card ≤ Limits.entries ∧
    Mysql.MysqlTracer.withoutOutsiders { target := 42 } 1 whole = own ∧
    (Mysql.MysqlTracer.after { target := 42 } 1 own).connection 7 =
      (Mysql.MysqlTracer.after { target := 42 } 1 whole).connection 7 ∧
    Mysql.MysqlTracer.submissions { target := 42 } 1 own =
      Mysql.MysqlTracer.submissions { target := 42 } 1 whole := by
  intro insider outsider peer space args own whole
  have hfds : (whole.filterMap Mysql.Act.connected?).toFinset.card ≤ Limits.entries := by decide
  have hthreads : (whole.filterMap Mysql.Act.entered?).toFinset.card ≤ Limits.entries := by decide
  have hrest : Mysql.MysqlTracer.withoutOutsiders { target := 42 } 1 whole = own := rfl
  obtain ⟨hconnection, hsubmissions⟩ :=
    (outsiders_only_forget { target := 42 } {} 1).1 whole hfds hthreads
  rw [hrest] at hconnection hsubmissions
  exact ⟨hfds, hthreads, hrest, hconnection 7, hsubmissions⟩

/-- The connection of a task in scope is forgotten when an outsider closes its own descriptor of the
same number. -/
theorem Mysql.outsider_forgets_insider :
    let insider := Task.ofProcess 42
    let outsider := Task.ofProcess 9
    let peer : InetAddress := { addr := 0x0100007f, port := 3306 }
    let space := AddressSpace.empty.map 0x1000 peer.encode
    let config : MysqlConfig := { target := 42 }
    let whole : List Act := [.close outsider 7, .connect insider space 7 0x1000]
    config.covers insider = true ∧ config.covers outsider = false ∧ outsider.pid ≠ insider.pid ∧
    (MysqlTracer.after config 1 (whole.filter (config.covers ·.task))).connection 7 =
      some (.connecting 7 3306) ∧
    (MysqlTracer.after config 1 whole).connection 7 = none := by
  intro insider outsider peer space config whole
  have hown : whole.filter (config.covers ·.task) = [.connect insider space 7 0x1000] := rfl
  refine ⟨by decide, by decide, by decide, ?_, ?_⟩
  · rw [hown]
    exact ((MysqlTracer.keeps_history config 1 _ (by decide) (by decide)).conns 7).trans
      (by decide +kernel)
  · exact ((MysqlTracer.keeps_history config 1 _ (by decide) (by decide)).conns 7).trans
      (by decide +kernel)

end HookTrace
