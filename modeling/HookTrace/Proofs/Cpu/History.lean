import HookTrace.Cpu.Tracer
import HookTrace.Proofs.Cpu.Counting
import HookTrace.Proofs.Hook
import HookTrace.Proofs.Store.Requests

/-!
# HookTrace.Proofs.Cpu.History

What the tracer of time on processors has counted after any run of switches. Its table holds the
start of every slice that a thread is in (`Keeps.runs`), and its histograms hold the tally of the
slices that have ended (`Keeps.tallied`); each switch keeps both (`Keeps.step`).

`CpuTracer.tallies_slices`: the histograms are the tally of all slices, and no call fails, as long
as there is room for all threads and all processes.
-/

namespace HookTrace.Cpu

open Store

abbrev CpuStores := Stores (RecencyTable UInt32 UInt64) Histograms Unit

/-! ### One switch -/

namespace ContextSwitch

/-- What a switch does to the starts. -/
def starts (scope : Scope) (s : ContextSwitch) (table : RecencyTable UInt32 UInt64) :
    RecencyTable UInt32 UInt64 :=
  if s.Begins scope s.next.pid then table.insert s.next.pid s.now else table

def claims (scope : Scope) (s : ContextSwitch) (table : RecencyTable UInt32 UInt64) :
    RecencyTable UInt32 UInt64 :=
  if s.Ends scope s.prev.pid then table.claimed s.prev.pid else table

/-- The start of the slice that a switch ends, if it has one that is earlier. -/
def ended? (scope : Scope) (s : ContextSwitch) (table : RecencyTable UInt32 UInt64) :
    Option UInt64 :=
  if s.Ends scope s.prev.pid then
    ((s.starts scope table).peek? s.prev.pid).filter (· < s.now)
  else none

/-- What a switch counts, for a slice that began at `start`. -/
def counted (s : ContextSwitch) (known : Histograms) (start : UInt64) : Histograms :=
  known.insert s.prev.tgid (((known.get? s.prev.tgid).getD (.fresh s.prev.comm)).bump
    (log2Slot ((s.now - start) / Switch.nanosecondsPerMillisecond)))

end ContextSwitch

namespace Switch

variable (scope : Scope) (s : ContextSwitch) (stores : CpuStores)

theorem begins_next_iff : s.Begins scope s.next.pid ↔
    inScope s.next.tgid s.next.parentTgid scope.target = true :=
  and_iff_left rfl

theorem ends_prev_iff : s.Ends scope s.prev.pid ↔
    inScope s.prev.tgid s.prev.parentTgid scope.target = true :=
  and_iff_left rfl

theorem start_current : start scope s.next.current stores =
    .ok none { stores with pending := s.starts scope stores.pending } := by
  obtain ⟨pending, known, events, notices⟩ := stores
  unfold start ContextSwitch.starts
  rw [inScope_current, Hook.ok_bind]
  by_cases h : inScope s.next.tgid s.next.parentTgid scope.target = true
  · rw [if_pos ((begins_next_iff scope s).2 h), h]
    rfl
  · rw [if_neg (mt (begins_next_iff scope s).1 h), Bool.eq_false_of_not_eq_true h]
    rfl

variable {stores} {tgids : Finset UInt32}

theorem count_roomy (h : stores.known.Roomy tgids) (ht : s.prev.tgid ∈ tgids) (start : UInt64) :
    count s.prev.tgid (log2Slot ((s.now - start) / nanosecondsPerMillisecond)) (.ok s.prev.comm)
        stores = .ok () { stores with known := s.counted stores.known start } := by
  obtain ⟨pending, known, events, notices⟩ := stores
  have hincrement := h.increment ht (log2Slot ((s.now - start) / nanosecondsPerMillisecond))
    s.prev.comm
  unfold count
  simp only [HistogramTable.increment, hincrement]
  rfl

/-- A claim whose computation leaves the starts alone and does not fail. -/
theorem claim_counting {key : UInt32}
    {body : UInt64 → Hook (RecencyTable UInt32 UInt64) Histograms Unit Unit}
    (next : UInt64 → Histograms) (hp : stores.pending.Coherent)
    (hbody : ∀ start pending,
      body start { stores with pending } = .ok () { stores with pending, known := next start }) :
    Hook.claim key body stores = .ok () { stores with
      pending := stores.pending.claimed key
      known := ((stores.pending.peek? key).map next).getD stores.known } := by
  rw [← hp.fst_get? key]
  unfold RecencyTable.claimed
  cases hget : stores.pending.get? key with
  | mk found table =>
    have hlookup : KeyedTable.lookup stores.pending key = (found, table) := hget
    cases found with
    | none =>
      rw [Hook.claim_of_none body (congrArg Prod.fst hlookup), hlookup]
      rfl
    | some start =>
      have hstart := hbody start table
      rw [show table = (KeyedTable.lookup stores.pending key).2 from (congrArg Prod.snd hget).symm]
        at hstart
      rw [Hook.claim_of_some (congrArg Prod.fst hlookup) hstart, hlookup]
      rfl

/-- A switch ends the slice of its outgoing task, which it may have begun itself. -/
theorem account_current (hp : (s.starts scope stores.pending).Coherent)
    (hk : stores.known.Roomy tgids) (ht : s.prev.tgid ∈ tgids) :
    account scope s.prev.current.toTaskInfo s.now
        { stores with pending := s.starts scope stores.pending } =
      .ok () { stores with
        pending := s.claims scope (s.starts scope stores.pending)
        known := ((s.ended? scope stores.pending).map (s.counted stores.known)).getD
          stores.known } := by
  unfold account ContextSwitch.claims ContextSwitch.ended?
  rw [inScope_current, Hook.ok_bind]
  by_cases h : inScope s.prev.tgid s.prev.parentTgid scope.target = true
  case neg =>
    rw [if_neg (mt (ends_prev_iff scope s).1 h), if_neg (mt (ends_prev_iff scope s).1 h),
      Bool.eq_false_of_not_eq_true h]
    rfl
  case pos =>
    have hpid : s.prev.current.pid = .ok s.prev.pid := rfl
    rw [if_pos ((ends_prev_iff scope s).2 h), if_pos ((ends_prev_iff scope s).2 h), h,
      if_neg (by decide), hpid, Hook.ok_bind]
    refine (claim_counting
      (fun start => if start < s.now then s.counted stores.known start else stores.known)
      hp ?_).trans ?_
    · intro start pending
      by_cases hlt : start < s.now
      · rw [if_neg (UInt64.not_le.2 hlt), if_pos hlt]
        exact @count_roomy s { stores with pending } tgids hk ht start
      · rw [if_pos (UInt64.not_lt.1 hlt), if_neg hlt]
        rfl
    · cases hpeek : (s.starts scope stores.pending).peek? s.prev.pid with
      | none => rfl
      | some start =>
        rw [Option.filter_some]
        by_cases hlt : start < s.now
        · simp only [hlt, decide_true, if_true, Option.map_some, Option.getD_some]
        · simp only [hlt, decide_false, if_false, Option.map_some, Option.getD_some,
            Bool.false_eq_true, Option.map_none, Option.getD_none]

theorem onSwitch_current (hp : (s.starts scope stores.pending).Coherent)
    (hk : stores.known.Roomy tgids) (ht : s.prev.tgid ∈ tgids) :
    onSwitch scope s.next.current s.prev.current.toTaskInfo stores =
      .ok () { stores with
        pending := s.claims scope (s.starts scope stores.pending)
        known := ((s.ended? scope stores.pending).map (s.counted stores.known)).getD
          stores.known } := by
  have haccount := account_current scope s hp hk ht
  exact (Hook.bind_of_ok (start_current scope s stores) _).trans (Hook.bind_of_ok haccount _)

end Switch

/-! ### Runs of a tracer -/

namespace ContextSwitch

variable (scope : Scope) {s : ContextSwitch} {table : RecencyTable UInt32 UInt64}
variable {threads : Finset UInt32}

theorem roomy_starts (h : table.Roomy threads) (hpid : s.next.pid ∈ threads) :
    (s.starts scope table).Roomy threads := by
  unfold starts
  split
  · exact h.insert hpid s.now
  · exact h

theorem roomy_claims (h : table.Roomy threads) : (s.claims scope table).Roomy threads := by
  unfold claims
  split
  · exact h.claimed s.prev.pid
  · exact h

theorem peek?_starts (h : table.Roomy threads) (hpid : s.next.pid ∈ threads) (pid : UInt32) :
    (s.starts scope table).peek? pid =
      if s.Begins scope pid then some s.now else table.peek? pid := by
  unfold starts Begins
  by_cases hin : inScope s.next.tgid s.next.parentTgid scope.target = true
  · simp only [hin, true_and, if_true]
    rw [h.peek?_insert hpid]
    by_cases heq : pid = s.next.pid
    · rw [if_pos heq, if_pos heq.symm]
    · rw [if_neg heq, if_neg (Ne.symm heq)]
  · simp [hin]

theorem peek?_claims (h : table.Coherent) (pid : UInt32) :
    (s.claims scope table).peek? pid = if s.Ends scope pid then none else table.peek? pid := by
  unfold claims Ends
  by_cases hin : inScope s.prev.tgid s.prev.parentTgid scope.target = true
  · simp only [hin, true_and, if_true]
    rw [h.peek?_claimed]
    by_cases heq : pid = s.prev.pid
    · rw [if_pos heq, if_pos heq.symm]
    · rw [if_neg heq, if_neg (Ne.symm heq)]
  · simp [hin]

end ContextSwitch

/-- The stores of a tracer with room for `threads` and `tgids`, after some switches. -/
structure Keeps (scope : Scope) (threads tgids : Finset UInt32) (switches : List ContextSwitch)
    (stores : CpuStores) : Prop where
  pending : stores.pending.Roomy threads
  runs : ∀ pid start, stores.pending.peek? pid = some start ↔
    ∃ j began, Runs scope switches pid j began ∧ began.now = start
  known : stores.known.Roomy tgids
  tallied : ∀ tgid, Tallied scope switches tgid (stores.known.get? tgid)

namespace Keeps

variable {scope : Scope} {threads tgids : Finset UInt32} {switches : List ContextSwitch}
variable {stores : CpuStores} {s : ContextSwitch}

theorem empty (scope : Scope) (hthreads : threads.card ≤ Limits.cpuEntries)
    (htgids : tgids.card ≤ Limits.cpuEntries) :
    Keeps scope threads tgids [] (CpuTracer.empty scope).stores where
  pending := .empty hthreads
  runs pid start := by
    constructor
    · intro hpeek
      rw [CpuTracer.empty, RecencyTable.peek?_empty] at hpeek
      cases hpeek
    · rintro ⟨j, began, hruns, -⟩
      exact absurd hruns not_runs_nil
  known := .empty htgids
  tallied tgid := by
    rw [CpuTracer.empty, Histograms.get?_empty]
    intro slot i hc
    exact absurd (lt_of_counts hc) (Nat.not_lt_zero i)

theorem runs_concat (h : Keeps scope threads tgids switches stores) (hpid : s.next.pid ∈ threads)
    (pid : UInt32) (start : UInt64) :
    (s.claims scope (s.starts scope stores.pending)).peek? pid = some start ↔
      ∃ j began, Runs scope (switches ++ [s]) pid j began ∧ began.now = start := by
  have hroomy := ContextSwitch.roomy_starts scope h.pending hpid
  rw [ContextSwitch.peek?_claims scope hroomy.coherent,
    ContextSwitch.peek?_starts scope h.pending hpid]
  simp only [runs_concat_iff]
  by_cases hends : s.Ends scope pid
  · simp [hends]
  by_cases hbegins : s.Begins scope pid
  · rw [if_neg hends, if_pos hbegins]
    constructor
    · rintro ⟨⟩
      exact ⟨_, s, ⟨hends, .inl ⟨hbegins, rfl, rfl⟩⟩, rfl⟩
    · rintro ⟨j, began, ⟨-, ⟨-, -, rfl⟩ | ⟨hnot, -⟩⟩, rfl⟩
      · rfl
      · exact absurd hbegins hnot
  · rw [if_neg hends, if_neg hbegins, h.runs]
    constructor
    · rintro ⟨j, began, hruns, rfl⟩
      exact ⟨j, began, ⟨hends, .inr ⟨hbegins, hruns⟩⟩, rfl⟩
    · rintro ⟨j, began, ⟨-, ⟨hyes, -⟩ | ⟨-, hruns⟩⟩, rfl⟩
      · exact absurd hyes hbegins
      · exact ⟨j, began, hruns, rfl⟩

/-- A switch finds the start of the slice that it ends. -/
theorem ended?_eq_some_iff (h : Keeps scope threads tgids switches stores)
    (hpid : s.next.pid ∈ threads) {start : UInt64} :
    s.ended? scope stores.pending = some start ↔
      ∃ j began, Slice scope (switches ++ [s]) j switches.length began s ∧ began.now = start := by
  simp only [slice_concat_iff, true_and]
  unfold ContextSwitch.ended?
  rw [ContextSwitch.peek?_starts scope h.pending hpid]
  by_cases hends : s.Ends scope s.prev.pid
  case neg => simp [hends]
  by_cases hbegins : s.Begins scope s.prev.pid
  · simp only [hends, hbegins, if_true, Option.filter_some, UInt64.lt_irrefl]
    simp
  · rw [if_pos hends, if_neg hbegins, Option.filter_eq_some_iff, h.runs]
    constructor
    · rintro ⟨⟨j, began, hruns, rfl⟩, hlt⟩
      exact ⟨j, began, ⟨hends, hbegins, hruns, of_decide_eq_true hlt⟩, rfl⟩
    · rintro ⟨j, began, ⟨-, -, hruns, hlt⟩, rfl⟩
      exact ⟨⟨j, began, hruns, rfl⟩, decide_eq_true hlt⟩

/-- What a switch does to the histograms keeps their tally. -/
theorem tallied_concat (h : Keeps scope threads tgids switches stores)
    (hpid : s.next.pid ∈ threads) (tgid : UInt32) :
    Tallied scope (switches ++ [s]) tgid ((((s.ended? scope stores.pending).map
      (s.counted stores.known)).getD stores.known).get? tgid) := by
  cases hended : s.ended? scope stores.pending with
  | none =>
    refine tallied_of_not_counts (h.tallied tgid) ?_
    rintro slot ⟨j, began, ended, hslice, -⟩
    obtain rfl := (slice_concat_iff.1 hslice).1
    have hsome := (h.ended?_eq_some_iff hpid).2 ⟨j, began, hslice, rfl⟩
    rw [hended] at hsome
    cases hsome
  | some start =>
    obtain ⟨j, began, hslice, rfl⟩ := (h.ended?_eq_some_iff hpid).1 hended
    rw [Option.map_some, Option.getD_some, ContextSwitch.counted, log2Slot_between hslice.lt,
      Histograms.get?_insert]
    by_cases htgid : tgid = s.prev.tgid
    · rw [if_pos htgid, htgid]
      exact tallied_of_slice (h.tallied s.prev.tgid) hslice
    · rw [if_neg htgid]
      refine tallied_of_not_counts (h.tallied tgid) fun slot hc => ?_
      exact htgid (hslice.counts_iff.1 hc).1.symm

theorem step (h : Keeps scope threads tgids switches stores) (hpid : s.next.pid ∈ threads)
    (htgid : s.prev.tgid ∈ tgids) : ∃ stores',
    Switch.onSwitch scope s.next.current s.prev.current.toTaskInfo stores = .ok () stores' ∧
      Keeps scope threads tgids (switches ++ [s]) stores' := by
  have hroomy := ContextSwitch.roomy_starts scope h.pending hpid
  refine ⟨_, Switch.onSwitch_current scope s hroomy.coherent h.known htgid, ?_⟩
  refine ⟨ContextSwitch.roomy_claims scope hroomy, h.runs_concat hpid, ?_, h.tallied_concat hpid⟩
  cases s.ended? scope stores.pending with
  | none => exact h.known
  | some start => exact h.known.insert htgid _

end Keeps

namespace CpuTracer

/-- Takes one switch. -/
def switch (tracer : CpuTracer) (s : ContextSwitch) : Outcome × CpuTracer :=
  tracer.step s.next.current s.prev.current.toTaskInfo

theorem switch_of_ok {tracer : CpuTracer} {scope : Scope} {s : ContextSwitch} {stores : CpuStores}
    (hconfig : tracer.config = scope)
    (h : Switch.onSwitch scope s.next.current s.prev.current.toTaskInfo tracer.stores =
      .ok () stores) :
    tracer.switch s = ({ notices := stores.notices }, ⟨scope, { stores with notices := [] }⟩) := by
  subst hconfig
  exact tracer.call_of_ok "finish_task_switch"
    (fun scope => Switch.onSwitch scope s.next.current s.prev.current.toTaskInfo) h

/-- A new tracer takes switches, the earliest first: how each of its calls ended, and what it is
then. -/
def run (scope : Scope) (switches : List ContextSwitch) :
    List (ContextSwitch × Outcome) × CpuTracer :=
  transcript switch (.empty scope) switches

/-- A tracer with room for all threads and processes of a run takes every switch of it. -/
theorem keeps_run (scope : Scope) {threads tgids : Finset UInt32}
    (hthreads : threads.card ≤ Limits.cpuEntries) (htgids : tgids.card ≤ Limits.cpuEntries)
    {switches : List ContextSwitch} (hpid : ∀ s ∈ switches, s.next.pid ∈ threads)
    (htgid : ∀ s ∈ switches, s.prev.tgid ∈ tgids) :
    (run scope switches).2.config = scope ∧
      Keeps scope threads tgids switches (run scope switches).2.stores ∧
      ∀ e ∈ (run scope switches).1, e.2.code = 0 := by
  induction switches using List.reverseRecOn with
  | nil => exact ⟨rfl, .empty scope hthreads htgids, fun e he => by cases he⟩
  | append_singleton switches s ih =>
    obtain ⟨hconfig, hkeeps, hcodes⟩ := ih
      (fun t ht => hpid t (List.mem_append_left _ ht))
      (fun t ht => htgid t (List.mem_append_left _ ht))
    have hmem : s ∈ switches ++ [s] := List.mem_append_right _ (List.mem_singleton_self s)
    obtain ⟨stores, honswitch, hstep⟩ := hkeeps.step (hpid s hmem) (htgid s hmem)
    have hswitch : (run scope switches).2.switch s =
        ({ notices := stores.notices }, ⟨scope, { stores with notices := [] }⟩) :=
      switch_of_ok hconfig honswitch
    have hrun : run scope (switches ++ [s]) =
        ((run scope switches).1 ++ [(s, { notices := stores.notices })],
          ⟨scope, { stores with notices := [] }⟩) := by
      unfold run at hswitch ⊢
      rw [transcript_append]
      simp only [transcript, hswitch]
    rw [hrun]
    refine ⟨rfl, ⟨hstep.pending, hstep.runs, hstep.known, hstep.tallied⟩, fun e he => ?_⟩
    rcases List.mem_append.1 he with he | he
    · exact hcodes e he
    · rw [List.mem_singleton.1 he]

/-- Of a run with no more threads switched in and no more processes switched out than there is room
for: a process has a histogram if a slice of it has ended, each of its counts is how many of its
slices fell into that slot, and its name is that of the first one; and no call fails. -/
theorem tallies_slices (scope : Scope) {switches : List ContextSwitch}
    (hthreads : (switches.map (·.next.pid)).toFinset.card ≤ Limits.cpuEntries)
    (htgids : (switches.map (·.prev.tgid)).toFinset.card ≤ Limits.cpuEntries) :
    let log := (run scope switches).1
    let tracer := (run scope switches).2
    (∀ tgid, (tracer.histogram tgid).isSome ↔ ∃ slot i, Counts scope switches tgid slot i) ∧
    (∀ tgid histogram, tracer.histogram tgid = some histogram →
      (∀ slot : Fin Limits.slots,
        histogram.counts[slot].toNat = tally scope switches tgid slot % UInt32.size) ∧
      ∃ j i began ended, Slice scope switches j i began ended ∧ ended.prev.tgid = tgid ∧
        histogram.comm = ended.prev.comm ∧ ∀ k < i, ∀ slot, ¬ Counts scope switches tgid slot k) ∧
    ∀ e ∈ log, e.2.code = 0 := by
  obtain ⟨-, hkeeps, hcodes⟩ := keeps_run scope hthreads htgids
    (fun s hs => List.mem_toFinset.2 (List.mem_map_of_mem hs))
    (fun s hs => List.mem_toFinset.2 (List.mem_map_of_mem hs))
  intro log tracer
  refine ⟨fun tgid => ?_, fun tgid histogram hsome => ?_, hcodes⟩
  · have htallied := hkeeps.tallied tgid
    show ((run scope switches).2.stores.known.get? tgid).isSome = true ↔ _
    cases hget : (run scope switches).2.stores.known.get? tgid with
    | none =>
      rw [hget] at htallied
      exact iff_of_false Bool.false_ne_true fun ⟨slot, i, hc⟩ => htallied slot i hc
    | some histogram =>
      rw [hget] at htallied
      obtain ⟨-, j, i, began, ended, hslice, htgid, -⟩ := htallied
      exact iff_of_true rfl ⟨_, i, hslice.counts_iff.2 ⟨htgid, rfl⟩⟩
  · have htallied := hkeeps.tallied tgid
    rw [show (run scope switches).2.stores.known.get? tgid = some histogram from hsome] at htallied
    refine ⟨fun slot => ?_, htallied.2⟩
    rw [htallied.1 slot]
    exact UInt32.toNat_ofNat

/-- Two threads of a process are on two processors at the same time. Then the clock of one of them
runs backwards, which ends a slice all the same. -/
theorem tallies_slices_interleaved :
    let idle := { Task.ofProcess 0 with parentTgid := 0 }
    let first := (Task.ofProcess 42).withName [119]
    let second := { first with pid := 43 }
    let after (milliseconds : UInt64) (task : Task) := { task with now := milliseconds * 1000000 }
    let switches : List ContextSwitch :=
      [⟨after 10 first, idle⟩, ⟨after 12 second, idle⟩, ⟨after 15 idle, first⟩,
        ⟨after 1036 idle, second⟩, ⟨after 50 first, idle⟩, ⟨after 40 idle, first⟩,
        ⟨after 60 idle, first⟩]
    (switches.map (·.next.pid)).toFinset.card ≤ Limits.cpuEntries ∧
    (switches.map (·.prev.tgid)).toFinset.card ≤ Limits.cpuEntries ∧
    ∃ histogram, (run ⟨42⟩ switches).2.histogram 42 = some histogram ∧
      histogram.counts[0].toNat = 0 ∧ histogram.counts[2].toNat = 1 ∧
      histogram.counts[10].toNat = 1 ∧ histogram.comm = first.comm := by
  intro idle first second after switches
  have hthreads : (switches.map (·.next.pid)).toFinset.card ≤ Limits.cpuEntries := by
    decide +kernel
  have htgids : (switches.map (·.prev.tgid)).toFinset.card ≤ Limits.cpuEntries := by
    decide +kernel
  obtain ⟨hsome, hcounts, -⟩ := tallies_slices ⟨42⟩ hthreads htgids
  have hslice : Counts ⟨42⟩ switches 42 2 2 := by decide +kernel
  obtain ⟨histogram, hget⟩ := Option.isSome_iff_exists.1 ((hsome 42).2 ⟨2, 2, hslice⟩)
  obtain ⟨hslots, j, i, began, ended, hfirst, htgid, hcomm, -⟩ := hcounts 42 histogram hget
  have hnone : tally ⟨42⟩ switches 42 0 % UInt32.size = 0 := by decide +kernel
  have hshort : tally ⟨42⟩ switches 42 2 % UInt32.size = 1 := by decide +kernel
  have hlong : tally ⟨42⟩ switches 42 10 % UInt32.size = 1 := by decide +kernel
  have hnames : ∀ s ∈ switches, s.prev.tgid = 42 → s.prev.comm = first.comm := by
    decide +kernel
  refine ⟨hthreads, htgids, histogram, hget, (hslots ⟨0, by decide⟩).trans hnone,
    (hslots ⟨2, by decide⟩).trans hshort, (hslots ⟨10, by decide⟩).trans hlong, ?_⟩
  exact hcomm.trans (hnames ended (List.mem_of_getElem? hfirst.ended_eq) htgid)

end CpuTracer

end HookTrace.Cpu
