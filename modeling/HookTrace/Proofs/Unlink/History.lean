import HookTrace.Proofs.Store.Queues
import HookTrace.Proofs.Unlink.Acts

/-!
# HookTrace.Proofs.Unlink.History

Which deletions are answered, told from the calls alone. The hook on a deletion goes by what the
thread's entry hooks took note of since its last deletion (`awaited?`); if entries and deletions
come in pairs, that is its latest call (`Paired.awaited?_eq`).

`UnlinkTracer.after_paired`: which deletions are answered, with what, and that as many return
values were forced as records were handed over.
-/

namespace HookTrace.Unlink

open Store

/-- The address that the next deletion by a thread goes by: the latest that was taken note of since
its last deletion. Here and below the latest call comes first. -/
def awaited? (this : UInt32) (past : List Act) (pid : UInt32) : Option UInt64 :=
  ((past.filter (·.pid = pid)).takeWhile (!·.isDeletion)).findSome? (·.considered? this)

/-- What is awaited after a call, where `awaited` was before it. -/
def Act.awaits (this : UInt32) (awaited : UInt32 → Option UInt64) (act : Act) (pid : UInt32) :
    Option UInt64 :=
  if act.pid = pid then
    if act.isDeletion then none else (act.considered? this).or (awaited pid)
  else awaited pid

theorem awaited?_cons (this : UInt32) (act : Act) (past : List Act) :
    awaited? this (act :: past) = act.awaits this (awaited? this past) := by
  funext pid
  unfold awaited? Act.awaits
  by_cases hpid : act.pid = pid
  · cases hd : act.isDeletion with
    | true => simp [hpid, hd]
    | false => cases hc : act.considered? this <;> simp [hpid, hd, hc]
  · simp [hpid]

/-- The latest call for a thread. -/
def latest? (past : List Act) (pid : UInt32) : Option Act :=
  past.find? (·.pid = pid)

theorem latest?_cons (act : Act) (past : List Act) (pid : UInt32) :
    latest? (act :: past) pid = if act.pid = pid then some act else latest? past pid := by
  unfold latest?
  by_cases hpid : act.pid = pid <;> simp [hpid]

/-- Whether a call may come next in pairs of entries and deletions. -/
def Act.follows : Act → Option Act → Bool
  | .enter .., none => true
  | .enter .., some (.delete ..) => true
  | .enterAt .., none => true
  | .enterAt .., some (.delete ..) => true
  | .delete .unlink .., some (.enter ..) => true
  | .delete .unlinkat .., some (.enterAt ..) => true
  | _, _ => false

/-- The calls for each thread come in pairs, each an entry and the deletion it is for. The last
pairs need not be complete. -/
def Paired : List Act → Prop
  | [] => True
  | act :: past => act.follows (latest? past act.pid) ∧ Paired past

theorem Paired.of_append {later earlier : List Act} (h : Paired (later ++ earlier)) :
    Paired earlier := by
  induction later with
  | nil => exact h
  | cons act later ih => exact ih h.2

theorem Act.considered?_of_isDeletion {act : Act} (h : act.isDeletion = true) (this : UInt32) :
    act.considered? this = none := by
  cases act with
  | enter => cases h
  | enterAt => cases h
  | delete => rfl

/-- An entry is the first call for its thread, or follows a deletion. -/
theorem Act.isDeletion_of_follows {act last : Act} (h : act.isDeletion = false)
    (hf : act.follows (some last) = true) : last.isDeletion = true := by
  cases act with
  | delete => cases h
  | enter => cases last <;> first | rfl | cases hf
  | enterAt => cases last <;> first | rfl | cases hf

/-- In pairs a deletion goes by the thread's latest call. -/
theorem Paired.awaited?_eq (this : UInt32) {past : List Act} (h : Paired past) (pid : UInt32) :
    awaited? this past pid = (latest? past pid).bind (·.considered? this) := by
  induction past with
  | nil => rfl
  | cons act past ih =>
    obtain ⟨hfollows, hpast⟩ := h
    rw [awaited?_cons, Act.awaits, ih hpast, latest?_cons]
    by_cases hpid : act.pid = pid
    · subst hpid
      rw [if_pos rfl, if_pos rfl, Option.bind_some]
      cases hd : act.isDeletion with
      | true => exact (Act.considered?_of_isDeletion hd this).symm
      | false =>
        have hnone : (latest? past act.pid).bind (·.considered? this) = none := by
          cases hl : latest? past act.pid with
          | none => rfl
          | some last =>
            rw [hl] at hfollows
            exact Act.considered?_of_isDeletion (Act.isDeletion_of_follows hd hfollows) this
        rw [hnone, Option.or_none]
        rfl
    · rw [if_neg hpid, if_neg hpid]

/-! ### The entries of a tracer -/

namespace Act

variable {this : UInt32} {table : RecencyTable UInt32 UInt64} {threads : Finset UInt32}

theorem roomy_entries (h : table.Roomy threads) {act : Act} (hpid : act.pid ∈ threads) :
    (act.entries this table).Roomy threads :=
  act.entries_cases (motive := fun table => table.Roomy threads) this h (h.claimed act.pid)
    fun pathname => h.insert hpid pathname

theorem peek?_entries (h : table.Roomy threads) {act : Act} (hpid : act.pid ∈ threads) :
    (act.entries this table).peek? = act.awaits this table.peek? := by
  funext pid
  unfold entries awaits
  cases hd : act.isDeletion with
  | true =>
    rw [if_pos rfl, h.coherent.peek?_claimed]
    by_cases hother : pid = act.pid
    · rw [if_pos hother, if_pos hother.symm]
      rfl
    · rw [if_neg hother, if_neg (Ne.symm hother)]
  | false =>
    rw [if_neg Bool.false_ne_true]
    cases act.considered? this with
    | none => simp
    | some address =>
      show (table.insert act.pid address).peek? pid = _
      rw [h.peek?_insert hpid]
      by_cases hother : pid = act.pid
      · rw [if_pos hother, if_pos hother.symm]
        rfl
      · rw [if_neg hother, if_neg (Ne.symm hother)]

end Act

/-- The stores of a tracer whose table has room for all `threads`. -/
structure Keeps (cpus : Nat) (threads : Finset UInt32) (s : UnlinkStores)
    (awaited : UInt32 → Option UInt64) : Prop where
  pending : s.pending.Roomy threads
  entries : s.pending.peek? = awaited
  idle : s.events.staging.Idle (max cpus 1)

namespace Keeps

variable (config : UnlinkConfig) {cpus : Nat} {threads : Finset UInt32} {s : UnlinkStores}
variable {awaited : UInt32 → Option UInt64}

/-- A call decides by what is awaited. -/
theorem decides (h : Keeps cpus threads s awaited) (act : Act) :
    UnlinkStores.Decides cpus act.task (act.answered? config.directory.text cpus awaited)
      (act.entries config.this s.pending) { s with known := {} }
      ((Intercept.hook config act.call).after s) := by
  have hd := UnlinkStores.decides_hook config act h.pending.coherent h.idle
  rw [h.entries] at hd
  exact hd

theorem step (h : Keeps cpus threads s awaited) {act : Act} (hpid : act.pid ∈ threads) :
    Keeps cpus threads ((Intercept.hook config act.call).after s)
      (act.awaits config.this awaited) := by
  have hd := h.decides config act
  constructor
  · exact hd.pending_eq ▸ Act.roomy_entries h.pending hpid
  · rw [← h.entries]
    exact hd.pending_eq ▸ Act.peek?_entries h.pending hpid
  · exact hd.idle

end Keeps

/-- Everything that the hook on a deletion by `task` goes by: its latest call was an entry that was
not refused, and the pathname that can be read there now lies in the directory. -/
structure Intercepts (this : UInt32) (directory : Bytes) (cpus : Nat) (past : List Act)
    (task : Task) (space : AddressSpace) (text : Bytes) : Prop where
  entered : ∃ entry address bytes, latest? past task.pid = some entry ∧
    entry.considered? this = some address ∧
    space.stringAt address Limits.pathname = some bytes ∧ bytes.text = text
  cpu_lt : task.cpu < max cpus 1
  inside : directory <+: text

/-- The pathname of a call that is intercepted. -/
def Act.intercepted? (this : UInt32) (directory : Bytes) (cpus : Nat) (past : List Act) :
    Act → Option Bytes :=
  answered? directory cpus fun pid => (latest? past pid).bind (·.considered? this)

theorem intercepts_iff {this : UInt32} {directory : Bytes} {cpus : Nat} {past : List Act}
    {task : Task} {space : AddressSpace} {text : Bytes} :
    Intercepts this directory cpus past task space text ↔
      ((latest? past task.pid).bind (·.considered? this)).bind
        (deletion? directory cpus task space) = some text := by
  simp only [Option.bind_eq_some_iff, deletion?_eq_some_iff]
  constructor
  · rintro ⟨⟨entry, address, bytes, hlatest, hconsidered, hread⟩, hcpu, hin⟩
    exact ⟨address, ⟨entry, hlatest, hconsidered⟩, hcpu, hin, bytes, hread⟩
  · rintro ⟨address, ⟨entry, hlatest, hconsidered⟩, hcpu, hin, bytes, hread⟩
    exact ⟨⟨entry, address, bytes, hlatest, hconsidered, hread⟩, hcpu, hin⟩

/-- What is handed to the channel, the oldest first. -/
def handed (this : UInt32) (directory : Bytes) (cpus : Nat) : List Act → List (Nat × UnlinkRecord)
  | [] => []
  | act :: past => handed this directory cpus past ++
      records act.task (act.intercepted? this directory cpus past)

namespace UnlinkTracer

/-- The return values that calls forced, the oldest first. -/
def forcedReturns (config : UnlinkConfig) (cpus : Nat) : List Act → List UInt64
  | [] => []
  | act :: past =>
    forcedReturns config cpus past ++ (after config cpus (act :: past)).forced.toList

section

variable (config : UnlinkConfig) (cpus : Nat) {threads : Finset UInt32} {past : List Act}

theorem keeps_after (hthreads : threads.card ≤ Limits.entries)
    (hpid : ∀ act ∈ past, act.pid ∈ threads) :
    Keeps cpus threads (after config cpus past).stores (awaited? config.this past) := by
  induction past with
  | nil =>
    exact ⟨.empty hthreads, funext fun pid => RecencyTable.peek?_empty _ pid,
      StagingPool.idle_empty cpus⟩
  | cons act past ih =>
    obtain ⟨hact, hrest⟩ := List.forall_mem_cons.1 hpid
    have h := (ih hrest).step config hact
    rw [stores_after_cons, awaited?_cons]
    exact ⟨h.pending, h.entries, h.idle⟩

/-- Whatever the order of the calls, a call decides by what is awaited, as long as there is room
for all threads. -/
theorem after_cons (act : Act) (hthreads : threads.card ≤ Limits.entries)
    (hpid : ∀ act ∈ past, act.pid ∈ threads) :
    let text? := act.answered? config.directory.text cpus (awaited? config.this past)
    (after config cpus (act :: past)).forced = text?.map (fun _ => 0) ∧
      (after config cpus (act :: past)).stores.events.channel =
        (after config cpus past).stores.events.channel.outputs (records act.task text?) := by
  intro text?
  have hd := (keeps_after config cpus hthreads hpid).decides config act
  rw [forced, stores_after_cons]
  refine ⟨?_, hd.channel_eq⟩
  rw [← ForcedReturn.value_answer]
  exact congrArg ForcedReturn.value hd.known_eq

/-- What is answered of calls in pairs. -/
theorem answers_after (hthreads : threads.card ≤ Limits.entries)
    (hpid : ∀ act ∈ past, act.pid ∈ threads) (hpaired : Paired past) :
    let records := handed config.this config.directory.text cpus past
    (after config cpus past).stores.events.channel =
        (PerCpuQueues.empty cpus Limits.queueDepth).outputs records ∧
      forcedReturns config cpus past = List.replicate records.length 0 := by
  induction past with
  | nil => exact ⟨rfl, rfl⟩
  | cons act past ih =>
    obtain ⟨_, hrest⟩ := List.forall_mem_cons.1 hpid
    obtain ⟨hchannel, hforced⟩ := ih hrest hpaired.2
    obtain ⟨hact, hout⟩ := after_cons config cpus act hthreads hrest
    rw [funext (hpaired.2.awaited?_eq config.this)] at hact hout
    refine ⟨?_, ?_⟩
    · rw [hout, hchannel, ← PerCpuQueues.outputs_append]
      rfl
    · rw [forcedReturns, hact, hforced, handed, List.length_append, List.replicate_add]
      refine congrArg (_ ++ ·) ?_
      unfold Act.intercepted? records
      cases act.answered? config.directory.text cpus _ <;> rfl

end

/-- Deletions are intercepted exactly. Whatever a hook on a deletion finds in its registers, it
forces zero and hands over one record, which names the pathname and the task, or it does nothing.
Over all calls, as many return values are forced as records can be taken out of the channel or
were lost. -/
theorem after_paired {this : UInt32} {directory : Bytes} {config : UnlinkConfig}
    (h : UnlinkConfig.ofDirectory this directory = .ok config) (cpus : Nat) {past : List Act}
    (hpaired : Paired past) (hthreads : (past.map Act.pid).toFinset.card ≤ Limits.entries) :
    (∀ later variant task space earlier, past = later ++ .delete variant task space :: earlier →
      ∀ regs : ForcedReturn,
        let before := (after config cpus earlier).stores
        let ended := (Intercept.onDelete config task.current space.userSpace).after
          { before with known := regs }
        (∀ text, Intercepts this directory cpus earlier task space text →
          ended.known = regs.override 0 ∧
          (UnlinkRecord.ofText task text).pathname.text = text ∧
          ended.events.channel = (before.events.channel.output task.cpu (.ofText task text)).1) ∧
        ((∀ text, ¬ Intercepts this directory cpus earlier task space text) →
          ended.known = regs ∧ ended.events.channel = before.events.channel)) ∧
    let channel := (after config cpus past).stores.events.channel
    channel = (PerCpuQueues.empty cpus Limits.queueDepth).outputs
      (handed this directory cpus past) ∧
    forcedReturns config cpus past = List.replicate (handed this directory cpus past).length 0 ∧
    (forcedReturns config cpus past).length = channel.drain.1.length + channel.lost := by
  obtain ⟨rfl, rfl⟩ := UnlinkConfig.fields_of_ofDirectory h
  have hpid : ∀ act ∈ past, act.pid ∈ (past.map Act.pid).toFinset := by
    intro act hact
    exact List.mem_toFinset.2 (List.mem_map_of_mem hact)
  refine ⟨?calls, ?run⟩
  case calls =>
    rintro later variant task space earlier rfl regs before ended
    have hearlier : Paired earlier := hpaired.of_append.2
    have hkeeps := keeps_after config cpus hthreads fun act hact =>
      hpid act (List.mem_append_right _ (List.mem_cons_of_mem _ hact))
    have hd := UnlinkStores.decides_delete (s := { before with known := regs }) config task space
      hkeeps.pending.coherent hkeeps.idle
    simp only [before, hkeeps.entries, hearlier.awaited?_eq] at hd
    constructor
    · intro text htext
      have hsome := intercepts_iff.1 htext
      obtain ⟨address, _, hdel⟩ := Option.bind_eq_some_iff.1 hsome
      rw [hsome] at hd
      exact ⟨hd.known_eq, text_of_deletion hdel, hd.channel_eq⟩
    · intro hnot
      have hnone := Option.eq_none_iff_forall_ne_some.2 fun text => mt intercepts_iff.2 (hnot text)
      rw [hnone] at hd
      exact ⟨hd.known_eq, hd.channel_eq⟩
  case run =>
    intro channel
    obtain ⟨hchannel, hforced⟩ := answers_after config cpus hthreads hpid hpaired
    refine ⟨hchannel, hforced, ?_⟩
    have haccounted := PerCpuQueues.accounted_outputs_empty cpus Limits.queueDepth
      (handed config.this config.directory.text cpus past)
    rw [← hchannel] at haccounted
    rw [hforced, List.length_replicate, ← haccounted]
    rfl

/-- Two threads are in a deletion at the same time, and one of them removes a directory. -/
theorem after_paired_interleaved :
    let first := Task.ofProcess 42
    let second := Task.ofProcess 43
    let directory : Bytes := [47, 100, 97, 116, 97, 47]
    let text : Bytes := directory ++ [97]
    let space := AddressSpace.empty.map 0x1000 (text ++ [0])
    let config : UnlinkConfig := { this := 77, directory := Field.ofBytes _ directory }
    let past : List Act :=
      [.delete .unlinkat second space, .delete .unlink first space,
        .enterAt second 0x1000 Limits.removeDirectory, .enter first 0x1000]
    UnlinkConfig.ofDirectory 77 directory = .ok config ∧ Paired past ∧
    (past.map Act.pid).toFinset.card ≤ Limits.entries ∧
    forcedReturns config 1 past = [0] ∧
    (after config 1 past).stores.events.channel =
      (PerCpuQueues.empty 1 Limits.queueDepth).outputs [(0, .ofText first text)] := by
  intro first second directory text space config past
  have hpaired : Paired past := ⟨by decide, by decide, by decide, by decide, trivial⟩
  have hthreads : (past.map Act.pid).toFinset.card ≤ Limits.entries := by decide
  have hdirectory : UnlinkConfig.ofDirectory 77 directory = .ok config := rfl
  have hfirst : (Act.delete .unlink first space).intercepted? 77 directory 1
      [.enterAt second 0x1000 Limits.removeDirectory, .enter first 0x1000] = some text := by
    decide +kernel
  have hsecond : (Act.delete .unlinkat second space).intercepted? 77 directory 1
      [.delete .unlink first space, .enterAt second 0x1000 Limits.removeDirectory,
        .enter first 0x1000] = none := by
    decide +kernel
  have hhanded : handed 77 directory 1 past = [(0, .ofText first text)] := by
    simp only [past, handed, hfirst, hsecond]
    rfl
  obtain ⟨_, hchannel, hforced, _⟩ := after_paired hdirectory 1 hpaired hthreads
  rw [hhanded] at hchannel hforced
  exact ⟨hdirectory, hpaired, hthreads, hforced, hchannel⟩

end UnlinkTracer

end HookTrace.Unlink
