import HookTrace.Kernel.Map
import HookTrace.Proofs.Kernel.Context
import HookTrace.Proofs.Kernel.Memory
import HookTrace.Proofs.Kernel.Output
import HookTrace.Proofs.Mysql.Bindings
import HookTrace.Proofs.Mysql.History
import HookTrace.Proofs.Store.Queues

/-!
# HookTrace.Proofs.Kernel.Mysql

The programs of MySQL traffic, next to a tracer of it. A `Firing` is one run of a program: for
which task, on which memory of its process, and with which bytes as its context. If the context has
all the words that the program reads, they spell a call of the tracer (`Firing.act?`).

* `Firing.toOption_call`: the program calls its hook as the words say, or no hook if one is missing.
* `holds_step`: a call keeps stores on whatever maps a kernel has abreast of those of a tracer, and
  the buffer is handed what the tracer hands over.
* `Machine.mysql_fire_of_some`: a run of a program does to the stores what the call does.
* `Machine.follows_tracer`: programs and tracer know the same of every descriptor, wait for the same
  transfers and hand over the same records, from the first run to the last.
-/

namespace HookTrace.Mysql

open Kernel Store

inductive Tracepoint where
  | connect
  | enter (transfer : Transfer)
  | exit (transfer : Transfer)
  | close

namespace Tracepoint

def program : Tracepoint → Program
  | connect => .mysqlConnect
  | enter transfer => .mysqlEntry transfer
  | exit transfer => .mysqlReturn transfer
  | close => .mysqlClose

/-- How many words of its context the program reads. -/
def words : Tracepoint → Nat
  | connect => 2
  | enter _ => 3
  | exit _ => 1
  | close => 1

end Tracepoint

structure Firing where
  tracepoint : Tracepoint
  context : Bytes
  task : Task
  user : AddressSpace

namespace Firing

def word? (firing : Firing) (index : Nat) : Option UInt64 :=
  Context.readWord firing.context (Context.offset index)

/-- The call that the words of the context spell: a descriptor is the low half of its word, and a
returned value is signed. -/
def act? (firing : Firing) : Option Act :=
  match firing.tracepoint with
  | .connect => do
    let fd ← firing.word? 0
    let uaddr ← firing.word? 1
    return .connect firing.task firing.user fd.toUInt32.toInt32 uaddr
  | .enter transfer => do
    let fd ← firing.word? 0
    let buf ← firing.word? 1
    let len ← firing.word? 2
    return .enter transfer firing.task ⟨fd.toUInt32.toInt32, buf, len⟩
  | .exit transfer => do
    let ret ← firing.word? 0
    return .exit transfer firing.task firing.user ret.toInt64
  | .close => do
    let fd ← firing.word? 0
    return .close firing.task fd.toUInt32.toInt32

/-- The call of a hook that the program comes to. -/
def call (firing : Firing) (task : CurrentTask) : Except Fault Capture.Call :=
  let context := Context.ofBytes firing.context
  let user := firing.user.userSpace
  match firing.tracepoint with
  | .connect => do
    let (fd, uaddr) ← context.connectArgs
    return .connect task user fd uaddr
  | .enter transfer => do return .enter transfer task (← context.transferArgs transfer)
  | .exit transfer => do return .exit transfer task user (← context.returned transfer.name)
  | .close => do return .close (← context.closeArgs)

def run (firing : Firing) : Run where
  program := firing.tracepoint.program
  context := .ofBytes firing.context
  task := firing.task

variable {firing : Firing} {act : Act}

theorem word?_eq_none_iff {index : Nat} :
    firing.word? index = none ↔ firing.context.length < Context.offset (index + 1) := by
  have hnext : Context.offset (index + 1) = Context.offset index + 8 := by
    unfold Context.offset
    omega
  rw [hnext]
  exact Context.readWord_eq_none_iff

/-- A context that has a word has all the words in front of it. -/
theorem exists_word?_of_le {first last : Nat} {word : UInt64} (hle : first ≤ last)
    (h : firing.word? last = some word) : ∃ word, firing.word? first = some word := by
  refine Option.ne_none_iff_exists'.1 fun hnone => ?_
  have hshort : firing.word? last = none := by
    rw [word?_eq_none_iff] at hnone ⊢
    unfold Context.offset at hnone ⊢
    omega
  cases h.symm.trans hshort

/-- A context is too short if it lacks the last word that is needed. -/
theorem act?_eq_none_iff :
    firing.act? = none ↔ firing.context.length < Context.offset firing.tracepoint.words := by
  have hlast : firing.act? = none ↔ firing.word? (firing.tracepoint.words - 1) = none := by
    obtain ⟨tracepoint, context, task, user⟩ := firing
    cases tracepoint with
    | connect =>
      show act? _ = none ↔ word? _ 1 = none
      cases huaddr : word? ⟨.connect, context, task, user⟩ 1 with
      | none => simp [act?, huaddr]
      | some uaddr =>
        obtain ⟨fd, hfd⟩ := exists_word?_of_le (show 0 ≤ 1 by decide) huaddr
        simp [act?, hfd, huaddr]
    | enter transfer =>
      show act? _ = none ↔ word? _ 2 = none
      cases hlen : word? ⟨.enter transfer, context, task, user⟩ 2 with
      | none => simp [act?, hlen]
      | some len =>
        obtain ⟨fd, hfd⟩ := exists_word?_of_le (show 0 ≤ 2 by decide) hlen
        obtain ⟨buf, hbuf⟩ := exists_word?_of_le (show 1 ≤ 2 by decide) hlen
        simp [act?, hfd, hbuf, hlen]
    | exit transfer =>
      show act? _ = none ↔ word? _ 0 = none
      cases hret : word? ⟨.exit transfer, context, task, user⟩ 0 <;> simp [act?, hret]
    | close =>
      show act? _ = none ↔ word? _ 0 = none
      cases hfd : word? ⟨.close, context, task, user⟩ 0 <;> simp [act?, hfd]
  have hwords : firing.tracepoint.words - 1 + 1 = firing.tracepoint.words := by
    cases firing.tracepoint <;> rfl
  rw [hlast, word?_eq_none_iff, hwords]

theorem toOption_bind {ε α β : Type} (answer : Except ε α) (f : α → Except ε β) :
    (answer >>= f).toOption = answer.toOption.bind fun a => (f a).toOption := by
  cases answer <;> rfl

theorem toOption_argument (firing : Firing) (op : String) (index : Nat) :
    ((Context.ofBytes firing.context).argument op index).toOption = firing.word? index := by
  rw [Context.argument_ofBytes, word?]
  cases Context.readWord firing.context (Context.offset index) <;> rfl

/-- The program calls its hook as the words say, and calls none if a word is missing. -/
theorem toOption_call (firing : Firing) :
    (firing.call firing.task.current).toOption = firing.act?.map Act.call := by
  have hargument := toOption_argument firing
  obtain ⟨tracepoint, context, task, user⟩ := firing
  cases tracepoint with
  | connect =>
    simp only [call, Context.connectArgs, toOption_bind, hargument, act?]
    cases word? _ 0 <;> cases word? _ 1 <;> rfl
  | enter transfer =>
    simp only [call, Context.transferArgs, toOption_bind, hargument, act?]
    cases word? _ 0 <;> cases word? _ 1 <;> cases word? _ 2 <;> rfl
  | exit transfer =>
    simp only [call, Context.returned, toOption_bind, hargument, act?]
    cases word? _ 0 <;> rfl
  | close =>
    simp only [call, Context.closeArgs, toOption_bind, hargument, act?]
    cases word? _ 0 <;> rfl

theorem task_of_some (h : firing.act? = some act) : act.task = firing.task := by
  obtain ⟨tracepoint, context, task, user⟩ := firing
  cases tracepoint with
  | connect =>
    obtain ⟨fd, -, uaddr, -, rfl⟩ := by simpa [act?, Option.bind_eq_some_iff] using h
    rfl
  | enter transfer =>
    obtain ⟨fd, -, buf, -, len, -, rfl⟩ := by simpa [act?, Option.bind_eq_some_iff] using h
    rfl
  | exit transfer =>
    obtain ⟨ret, -, rfl⟩ := by simpa [act?, Option.bind_eq_some_iff] using h
    rfl
  | close =>
    obtain ⟨fd, -, rfl⟩ := by simpa [act?, Option.bind_eq_some_iff] using h
    rfl

theorem call_of_some (h : firing.act? = some act) :
    firing.call firing.task.current = .ok act.call := by
  have hcall := toOption_call firing
  rw [h] at hcall
  cases he : firing.call firing.task.current with
  | ok call =>
    rw [he] at hcall
    cases hcall
    rfl
  | error fault =>
    rw [he] at hcall
    cases hcall

theorem call_of_none (h : firing.act? = none) :
    ∃ fault, firing.call firing.task.current = .error fault := by
  have hcall := toOption_call firing
  rw [h] at hcall
  cases he : firing.call firing.task.current with
  | ok call =>
    rw [he] at hcall
    cases hcall
  | error fault => exact ⟨fault, rfl⟩

end Firing

/-! ### Stores next to those of a tracer -/

section

variable {P K : Type} [KeyedTable P UInt32 SyscallArgs] [KeyedTable K Int32 Connection]
variable {fds : Finset Int32} {threads : Finset UInt32}

/-- Stores of a kernel, on whatever maps it has, next to those of a tracer: the same entries, and a
buffer that holds what `target` holds. -/
def abreast (threadMap : RoomLaws P threads) (fdMap : RoomLaws K fds) (cpus : Nat)
    (target : PerfOutput MysqlRecord) :
    Matching (RecencyTable UInt32 SyscallArgs) (RecencyTable Int32 Connection)
      (PerCpuOutput MysqlRecord) P K (PerfOutput MysqlRecord) where
  pending := (RecencyTable.roomLaws threads).Alike threadMap
  known := (RecencyTable.roomLaws fds).Alike fdMap
  events := PerfOutput.Settled cpus target

variable {threadMap : RoomLaws P threads} {fdMap : RoomLaws K fds} {cpus : Nat}
variable {start : PerfOutput MysqlRecord} {handed : List (Nat × MysqlRecord)}

/-- A call keeps the stores abreast, and the buffer is handed what the tracer hands over. -/
theorem holds_step (config : MysqlConfig) {s : MysqlStores}
    {k : Stores P K (PerfOutput MysqlRecord)}
    (h : (abreast threadMap fdMap cpus (start.outputs handed)).Holds s k) {act : Act}
    (hfd : ∀ fd, act.connected? = some fd → fd ∈ fds)
    (hpid : ∀ pid, act.entered? = some pid → pid ∈ threads) (hcpu : act.task.cpu < cpus) :
    (abreast threadMap fdMap cpus
      (start.outputs (handed ++ ((MysqlTracer.hooks config).journaled act).submits s))).Holds
      { ((MysqlTracer.hooks config).plain act).after s with notices := [] }
      ((Capture.hook config act.call).after k) := by
  have hwithin : act.call.Within fds threads := Act.within_call hfd hpid
  have hsink (cpu : Nat) (h : act.call.cpu? = some cpu) : cpu < cpus := by
    cases act with
    | exit transfer task space ret =>
      cases h
      exact hcpu
    | connect | enter | close => cases h
  let journaled : Matching _ _ (Journal (PerCpuOutput MysqlRecord) MysqlRecord) P K _ :=
    { abreast threadMap fdMap cpus start with
      events := fun journal buffer =>
        PerfOutput.Settled cpus ((start.outputs handed).outputs journal.submissions) journal.sink
          buffer }
  have hagree : Hook.Agree journaled (Capture.hook config act.call)
      (Capture.hook config act.call) :=
    Capture.agree_hook config (RoomLaws.tablesMatch _ _) (RoomLaws.tablesMatch _ _) hwithin
      fun cpu hc => PerfOutput.sinksMatch_settled (hsink cpu hc) (start.outputs handed)
  obtain ⟨hpending, hknown, hevents⟩ := (hagree ⟨s.pending, s.known, ⟨s.events, []⟩, s.notices⟩ k
    ⟨h.pending, h.known, h.events⟩).2
  -- the tracer does the same without a journal
  obtain ⟨hp, hk, he, -⟩ := (MysqlTracer.transparent_hooks config).after_journaled act s
  refine ⟨?_, ?_, ?_⟩
  · exact hp ▸ hpending
  · exact hk ▸ hknown
  · show PerfOutput.Settled cpus _ (((MysqlTracer.hooks config).plain act).after s).events _
    rw [← he, PerfOutput.outputs_append]
    exact hevents

end

end HookTrace.Mysql

namespace HookTrace.Kernel

open Mysql Store

theorem Machine.snd_perform {P K S : Type} [Scarce P] [Scarce K] [Scarce S] (run : Run)
    (hook : Hook P K S Unit) (s : Stores P K S) :
    (Machine.perform run hook s).2 = Scarce.under {} (hook.after (Scarce.under run.short s)) := by
  unfold perform Scarcity.during Hook.after
  rcases hook.outcome (Scarce.under run.short s) with ⟨answer, s'⟩
  cases answer <;> rfl

namespace Machine

variable {machine : Machine} {firing : Firing} {act : Act}

/-- A program runs on the memory of the process that it runs for. -/
def fire (machine : Machine) (firing : Firing) : Report × Machine :=
  ({ machine with user := firing.user } : Machine).run firing.run

theorem fire_eq (machine : Machine) (firing : Firing) : machine.fire firing =
    (({ machine with user := firing.user } : Machine).place firing.run).runMysql firing.run
      firing.call := by
  obtain ⟨tracepoint, context, task, user⟩ := firing
  cases tracepoint <;> rfl

/-- A program finds its task as it is, and runs its hook on the stores of its family. -/
theorem fire_eq_performPerf (machine : Machine) (firing : Firing) :
    ∃ memory, machine.fire firing =
      let result := performPerf firing.run .mysql (do
        Capture.hook machine.settings.mysql (← firing.call firing.task.current)) machine.mysql
      (result.1, { machine with user := firing.user, memory, mysql := result.2 }) := by
  refine ⟨(({ machine with user := firing.user } : Machine).place firing.run).memory, ?_⟩
  rw [fire_eq]
  unfold runMysql
  rw [current_place _ rfl rfl]
  rfl

theorem settings_fire (machine : Machine) (firing : Firing) :
    (machine.fire firing).2.settings = machine.settings := by
  obtain ⟨memory, heq⟩ := fire_eq_performPerf machine firing
  rw [heq]

/-- What a program does to the stores is what the call does that the words spell. -/
theorem mysql_fire_of_some (h : firing.act? = some act) : (machine.fire firing).2.mysql =
    Scarce.under {} ((Capture.hook machine.settings.mysql act.call).after
      (Scarce.under {} machine.mysql)) := by
  obtain ⟨memory, heq⟩ := fire_eq_performPerf machine firing
  rw [heq, Firing.call_of_some h]
  exact snd_perform firing.run _ machine.mysql

/-- A program that lacks a word only ends whatever the stores were short of. -/
theorem mysql_fire_of_none (h : firing.act? = none) :
    (machine.fire firing).2.mysql = Scarce.under {} machine.mysql := by
  obtain ⟨memory, heq⟩ := fire_eq_performPerf machine firing
  obtain ⟨fault, hcall⟩ := Firing.call_of_none h
  rw [heq, hcall]
  exact snd_perform firing.run (throw fault) machine.mysql

/-- No map and no buffer notices a program that lacks a word. -/
theorem fire_of_none (h : firing.act? = none) : (machine.fire firing).1.events = [] ∧
    (machine.fire firing).2.contents = machine.contents ∧
    (machine.fire firing).2.mysql.events.records = machine.mysql.events.records := by
  have hmysql : (machine.fire firing).2.mysql = Scarce.under {} machine.mysql :=
    mysql_fire_of_none h
  obtain ⟨memory, heq⟩ := fire_eq_performPerf machine firing
  have hrecords : (machine.fire firing).2.mysql.events.records = machine.mysql.events.records := by
    rw [hmysql]
    rfl
  have hevents : (machine.fire firing).1.events = fresh .mysql machine.mysql.events.records.size
      (machine.fire firing).2.mysql.events.records := by
    rw [heq]
    rfl
  refine ⟨?_, ?_, hrecords⟩
  · rw [hevents, hrecords]
    simp [fresh]
  · have hcontents : (machine.fire firing).2.contents =
        { machine with mysql := (machine.fire firing).2.mysql }.contents := by
      rw [heq]
      rfl
    rw [hcontents, hmysql]
    rfl

/-- A machine after programs have run, of which the latest is the first in the list. -/
def afterFirings (settings : Settings) (limit : Option Nat) : (past : List Firing) → Machine
  | [] => .empty settings [] limit
  | firing :: past => ((afterFirings settings limit past).fire firing).2

theorem settings_afterFirings (settings : Settings) (limit : Option Nat) (past : List Firing) :
    (afterFirings settings limit past).settings = settings := by
  induction past with
  | nil => rfl
  | cons firing past ih => exact (settings_fire _ firing).trans ih

/-- Stores of a machine next to those of a tracer. Its tables are maps as long as they are refused
no memory. -/
def abreast (fds : Finset Int32) (threads : Finset UInt32) (cpus : Nat)
    (target : PerfOutput MysqlRecord) :
    Matching (RecencyTable UInt32 SyscallArgs) (RecencyTable Int32 Connection)
      (PerCpuOutput MysqlRecord) (LruMap UInt32 SyscallArgs) (LruMap Int32 Connection)
      (PerfOutput MysqlRecord) :=
  Mysql.abreast (Refusing.roomLaws (RecencyTable.roomLaws threads))
    (Refusing.roomLaws (RecencyTable.roomLaws fds)) cpus target

variable {fds : Finset Int32} {threads : Finset UInt32} {cpus : Nat}

/-- Stores that are abreast of those of a tracer are short of nothing. -/
theorem under_of_holds {target : PerfOutput MysqlRecord} {s : MysqlStores}
    {k : Stores (LruMap UInt32 SyscallArgs) (LruMap Int32 Connection) (PerfOutput MysqlRecord)}
    (h : (abreast fds threads cpus target).Holds s k) : Scarce.under {} k = k := by
  have hpending : k.pending.refuses = false := h.pending.valid'.1
  have hknown : k.known.refuses = false := h.known.valid'.1
  have hevents : k.events.available = true := h.events.available
  clear h
  obtain ⟨⟨pending, label, refuses⟩, ⟨known, label', refuses'⟩, ⟨_, available, _, _, _⟩, _⟩ := k
  cases hpending
  cases hknown
  cases hevents
  rfl

theorem alike_empty {κ ν : Type} [BEq κ] [LawfulBEq κ] [DecidableEq κ] [Hashable κ]
    {keys : Finset κ} {capacity : Nat} (h : keys.card ≤ capacity) (label : String) :
    ((RecencyTable.roomLaws keys : RoomLaws (RecencyTable κ ν) keys).Alike
      (Refusing.roomLaws (RecencyTable.roomLaws keys))) (.empty capacity)
      ⟨.empty capacity, label, false⟩ where
  valid := .empty h
  valid' := ⟨rfl, .empty h⟩
  entry_eq _ := rfl

/-- The maps are declared with the room that the tables of a tracer have. -/
theorem mysql_empty (settings : Settings) (limit : Option Nat) :
    (Machine.empty settings [] limit).mysql =
      ⟨⟨.empty Limits.entries, "mysql args", false⟩,
        ⟨.empty Limits.entries, "mysql connections", false⟩, { limit }, []⟩ := by
  have hargs : MapSpec.roomOf [] "MYSQL_ARGS" = Limits.entries := by decide +kernel
  have hconnections : MapSpec.roomOf [] "MYSQL_CONNECTIONS" = Limits.entries := by decide +kernel
  unfold Machine.empty
  simp only [hargs, hconnections]

theorem holds_empty (settings : Settings) (limit : Option Nat) (hfds : fds.card ≤ Limits.entries)
    (hthreads : threads.card ≤ Limits.entries) :
    (abreast fds threads (max cpus 1) { limit }).Holds
      (MysqlTracer.empty settings.mysql cpus).stores (Machine.empty settings [] limit).mysql := by
  rw [mysql_empty]
  exact ⟨alike_empty hthreads "mysql args", alike_empty hfds "mysql connections",
    StagingPool.idle_empty cpus, rfl, rfl⟩

/-- Programs keep the stores of a machine abreast of those of a tracer. -/
theorem holds_afterFirings (settings : Settings) (limit : Option Nat)
    (hfds : fds.card ≤ Limits.entries) (hthreads : threads.card ≤ Limits.entries)
    {past : List Firing} (hcpu : ∀ firing ∈ past, firing.task.cpu < max cpus 1)
    (hfd : ∀ act ∈ past.filterMap Firing.act?, ∀ fd, act.connected? = some fd → fd ∈ fds)
    (hpid : ∀ act ∈ past.filterMap Firing.act?, ∀ pid, act.entered? = some pid → pid ∈ threads) :
    (abreast fds threads (max cpus 1) (({ limit } : PerfOutput MysqlRecord).outputs
      (MysqlTracer.submissions settings.mysql cpus (past.filterMap Firing.act?)))).Holds
      (MysqlTracer.after settings.mysql cpus (past.filterMap Firing.act?)).stores
      (afterFirings settings limit past).mysql := by
  rw [MysqlTracer.after_eq]
  induction past with
  | nil => exact holds_empty settings limit hfds hthreads
  | cons firing past ih =>
    obtain ⟨hcpu, hcpus⟩ := List.forall_mem_cons.1 hcpu
    cases hact : firing.act? with
    | none =>
      rw [List.filterMap_cons_none hact] at hfd hpid ⊢
      have hbefore := ih hcpus hfd hpid
      rw [afterFirings, mysql_fire_of_none hact, under_of_holds hbefore]
      exact hbefore
    | some act =>
      rw [List.filterMap_cons_some hact] at hfd hpid ⊢
      obtain ⟨hfd, hfds'⟩ := List.forall_mem_cons.1 hfd
      obtain ⟨hpid, hthreads'⟩ := List.forall_mem_cons.1 hpid
      have hbefore := ih hcpus hfds' hthreads'
      have htask : act.task = firing.task := Firing.task_of_some hact
      have hafter := holds_step settings.mysql hbefore hfd hpid (htask ▸ hcpu)
      rw [afterFirings, mysql_fire_of_some hact, under_of_holds hbefore, settings_afterFirings]
      exact (under_of_holds hafter).symm ▸ hafter

/-- Whatever tasks do, programs and tracer know the same of every descriptor, wait for the same
transfers and hand over the same records, as long as there is room for the descriptors that are
connected and for the threads that enter a transfer. A context that is too short for a word the
program reads changes no map, and no record comes of it. -/
theorem follows_tracer (settings : Settings) (limit : Option Nat) (cpus : Nat) (past : List Firing)
    (hcpu : ∀ firing ∈ past, firing.task.cpu < max cpus 1)
    (hfds : ((past.filterMap Firing.act?).filterMap Act.connected?).toFinset.card ≤ Limits.entries)
    (hthreads :
      ((past.filterMap Firing.act?).filterMap Act.entered?).toFinset.card ≤ Limits.entries) :
    let machine := afterFirings settings limit past
    let acts := past.filterMap Firing.act?
    let tracer := MysqlTracer.after settings.mysql cpus acts
    let handed := MysqlTracer.submissions settings.mysql cpus acts
    (∀ fd, machine.mysql.known.table.peek? fd = tracer.connection fd) ∧
    (∀ pid, machine.mysql.pending.table.peek? pid = tracer.stores.pending.peek? pid) ∧
    machine.mysql.events.records = (({ limit } : PerfOutput MysqlRecord).outputs handed).records ∧
    (limit = none → machine.mysql.events.records.toList = handed) ∧
    tracer.stores.events.channel = (PerCpuQueues.empty cpus Limits.queueDepth).outputs handed ∧
    ∀ firing : Firing, firing.context.length < Context.offset firing.tracepoint.words →
      (machine.fire firing).1.events = [] ∧ (machine.fire firing).2.contents = machine.contents ∧
      (machine.fire firing).2.mysql.events.records = machine.mysql.events.records := by
  intro machine acts tracer handed
  have hholds : (abreast (acts.filterMap Act.connected?).toFinset
      (acts.filterMap Act.entered?).toFinset (max cpus 1)
      (({ limit } : PerfOutput MysqlRecord).outputs handed)).Holds tracer.stores machine.mysql := by
    refine holds_afterFirings settings limit hfds hthreads hcpu ?_ ?_
    · intro act hact fd hfd
      exact List.mem_toFinset.2 (List.mem_filterMap.2 ⟨act, hact, hfd⟩)
    · intro act hact pid hpid
      exact List.mem_toFinset.2 (List.mem_filterMap.2 ⟨act, hact, hpid⟩)
  have hcleared := congrArg PerfOutput.records hholds.events.cleared_eq
  have hrecords : machine.mysql.events.records =
      (({ limit } : PerfOutput MysqlRecord).outputs handed).records := hcleared
  refine ⟨?connections, ?waiting, hrecords, ?unlimited, ?queues, ?short⟩
  case connections => exact fun fd => (hholds.known.entry_eq fd).symm
  case waiting => exact fun pid => (hholds.pending.entry_eq pid).symm
  case unlimited =>
    intro hlimit
    rw [hrecords, PerfOutput.records_outputs_of_unlimited hlimit]
    rfl
  case queues => exact MysqlTracer.channel_after settings.mysql cpus acts
  case short =>
    intro firing hshort
    exact fire_of_none (Firing.act?_eq_none_iff.2 hshort)

/-- A server greets, while another close fails to be read. Only the low half of a descriptor's word
counts. -/
theorem follows_tracer_greeted :
    let task := Task.ofProcess 42
    let peer : InetAddress := { addr := 0x0100007f, port := 3306 }
    let greeting : Bytes := [11, 0, 0, 0, 0x0a, 56, 46, 48, 46, 51, 54, 0, 8, 0, 0]
    let user := (AddressSpace.empty.map 0x1000 peer.encode).map 0x2000 greeting
    let context (words : List Nat) : Bytes :=
      List.replicate 16 0xff ++ words.flatMap (Bytes.ofNatLE 8)
    let past : List Firing :=
      [⟨.exit .recvfrom, context [15], task, user⟩,
        ⟨.close, List.replicate 23 7, task, user⟩,
        ⟨.enter .recvfrom, context [0xdeadbeef00000007, 0x2000, 64], task, user⟩,
        ⟨.connect, context [7, 0x1000], task, user⟩]
    (∀ firing ∈ past, firing.task.cpu < max 1 1) ∧
    ((past.filterMap Firing.act?).filterMap Act.connected?).toFinset.card ≤ Limits.entries ∧
    ((past.filterMap Firing.act?).filterMap Act.entered?).toFinset.card ≤ Limits.entries ∧
    (afterFirings {} none past).mysql.known.table.peek? 7 =
      some { fd := 7, port := 3306, stage := .greeted } ∧
    (afterFirings {} none past).mysql.pending.table.peek? 42 = none ∧
    (afterFirings {} none past).mysql.events.records.toList.length = 1 := by
  intro task peer greeting user context past
  have hcpu : ∀ firing ∈ past, firing.task.cpu < max 1 1 := by decide +kernel
  have hfds : ((past.filterMap Firing.act?).filterMap Act.connected?).toFinset.card ≤
      Limits.entries := by decide +kernel
  have hthreads : ((past.filterMap Firing.act?).filterMap Act.entered?).toFinset.card ≤
      Limits.entries := by decide +kernel
  have hconn : connection? {} 1 7 (past.filterMap Firing.act?) =
      some { fd := 7, port := 3306, stage := .greeted } := by decide +kernel
  have hwaiting : waiting? {} 42 (past.filterMap Firing.act?) = none := by decide +kernel
  have hsent : (handed {} 1 (past.filterMap Firing.act?)).length = 1 := by decide +kernel
  clear_value past
  obtain ⟨hknown, hpending, -, hunlimited, hchannel, -⟩ :=
    follows_tracer {} none 1 past hcpu hfds hthreads
  have hkeeps := MysqlTracer.keeps_history {} 1 (past.filterMap Firing.act?) hfds hthreads
  refine ⟨hcpu, hfds, hthreads, ?_, ?_, ?_⟩
  · exact (hknown 7).trans ((hkeeps.conns 7).trans hconn)
  · exact (hpending 42).trans ((hkeeps.waiting 42).trans hwaiting)
  · rw [hunlimited rfl, ← PerCpuQueues.accounted_outputs_empty 1 Limits.queueDepth, ← hchannel]
    exact (congrArg _ (MysqlTracer.channel_history {} 1 _ hfds hthreads)).trans
      ((PerCpuQueues.accounted_outputs_empty 1 _ _).trans hsent)

end Machine

end HookTrace.Kernel
