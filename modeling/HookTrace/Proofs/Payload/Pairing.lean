import HookTrace.Proofs.Payload.Acts
import HookTrace.Proofs.Store.Eviction

/-!
# HookTrace.Proofs.Payload.Pairing

Entries and exits of the system calls that carry payloads, by many threads in any order. The hook on
an exit goes by what its thread entered with last (`awaited?`), unless the table has given that up
for entries of other threads since (`entrants`).

* `Remembers`: what the table holds is awaited, and what is awaited is in it behind entrants only.
  Each call keeps this (`Remembers.step`).
* `HttpTracer.pairs_entry_with_exit`: which exits hand over a record, and with which payload; and
  that every thread gets the same records however the threads are interleaved.
-/

namespace HookTrace.Store

theorem Crowded.le_card {κ : Type} [DecidableEq κ] {capacity : Nat} {keys : List κ} {key : κ}
    (h : Crowded capacity keys key) : capacity ≤ keys.toFinset.card := by
  obtain ⟨others, hnodup, rfl, hothers⟩ := h
  exact length_le_card hnodup fun other hm => List.mem_toFinset.2 (hothers other hm).2

end HookTrace.Store

namespace HookTrace.Payload

open Store

/-! ### Calls told from a history, the latest first -/

namespace Act

/-- An entry in scope; an entry out of scope leaves nothing behind. -/
def enters (scope : Scope) : Act → Bool
  | enter _ task _ => inScope task.tgid task.parentTgid scope.target
  | exit .. => false

def isExit : Act → Bool
  | enter .. => false
  | exit .. => true

/-- The calls that count for a thread: its entries in scope, and all its exits. -/
def concerns (scope : Scope) (pid : UInt32) (act : Act) : Bool :=
  act.pid == pid && (act.enters scope || act.isExit)

def args? : Act → Option SyscallArgs
  | enter _ _ args => some args
  | exit .. => none

end Act

section Histories

variable (scope : Scope)

/-- The last call that counts for a thread. -/
def last? (past : List Act) (pid : UInt32) : Option Act :=
  past.find? (·.concerns scope pid)

/-- The arguments that the next exit of a thread goes by. -/
def awaited? (past : List Act) (pid : UInt32) : Option SyscallArgs :=
  (last? scope past pid).bind Act.args?

/-- The threads that have entered since the last call that counts for `pid`. -/
def entrants (past : List Act) (pid : UInt32) : List UInt32 :=
  ((past.takeWhile (!·.concerns scope pid)).filter (·.enters scope)).map Act.pid

/-- Before no exit have so many other threads entered since its thread did that the table may have
made room for them. -/
def Uncrowded : List Act → Prop
  | [] => True
  | act :: past =>
    (act.isExit = true → awaited? scope past act.pid ≠ none →
      (entrants scope past act.pid).toFinset.card < Limits.entries) ∧ Uncrowded past

variable {scope} {act : Act} {past : List Act} {pid : UInt32}

theorem awaited?_cons : awaited? scope (act :: past) pid =
    if act.concerns scope pid then act.args? else awaited? scope past pid := by
  unfold awaited? last?
  cases h : act.concerns scope pid <;> simp [h]

theorem entrants_cons : entrants scope (act :: past) pid =
    if act.concerns scope pid then []
    else (if act.enters scope then [act.pid] else []) ++ entrants scope past pid := by
  unfold entrants
  cases h : act.concerns scope pid with
  | true => simp [h]
  | false => cases he : act.enters scope <;> simp [h, he]

theorem Act.concerns_enter {transfer : Transfer} {task : Task} {args : SyscallArgs} :
    (Act.enter transfer task args).concerns scope pid = true ↔
      task.pid = pid ∧ inScope task.tgid task.parentTgid scope.target = true := by
  simp [concerns, Act.pid, Act.task, enters, isExit]

theorem Act.concerns_exit {transfer : Transfer} {task : Task} {space : AddressSpace} {ret : Int64} :
    (Act.exit transfer task space ret).concerns scope pid = true ↔ task.pid = pid := by
  simp [concerns, Act.pid, Act.task, isExit]

theorem Act.not_concerns_of_ne (h : act.pid ≠ pid) : act.concerns scope pid = false := by
  simp [concerns, h]

/-- What is awaited of a thread is told from its own calls. -/
theorem awaited?_filter (past : List Act) (pid : UInt32) :
    awaited? scope (past.filter (·.pid = pid)) pid = awaited? scope past pid := by
  induction past with
  | nil => rfl
  | cons act past ih =>
    by_cases hpid : act.pid = pid
    · rw [List.filter_cons_of_pos (by simpa using hpid), awaited?_cons, awaited?_cons, ih]
    · rw [List.filter_cons_of_neg (by simpa using hpid), ih, awaited?_cons,
        Act.not_concerns_of_ne hpid, if_neg Bool.false_ne_true]

end Histories

/-! ### The entries of a tracer -/

/-- An entry in scope and an exit decide what the table has of their thread; for another thread it
may only lose what it has. -/
theorem Act.peek?_of_entries {scope : Scope} {table : RecencyTable UInt32 SyscallArgs}
    (h : table.Coherent) (act : Act) {pid : UInt32} {args : SyscallArgs}
    (hp : (act.entries scope table).peek? pid = some args) :
    if act.concerns scope pid then act.args? = some args else table.peek? pid = some args := by
  cases act with
  | enter transfer task entered =>
    by_cases hin : inScope task.tgid task.parentTgid scope.target = true
    · rw [entries, if_pos hin] at hp
      by_cases hpid : task.pid = pid
      · rw [← hpid, h.peek?_insert_self] at hp
        rw [if_pos (concerns_enter.2 ⟨hpid, hin⟩)]
        exact hp
      · rw [if_neg fun hc => hpid (concerns_enter.1 hc).1]
        exact h.peek?_of_insert (Ne.symm hpid) hp
    · rw [entries, if_neg hin] at hp
      rw [if_neg fun hc => hin (concerns_enter.1 hc).2]
      exact hp
  | exit transfer task space ret =>
    rw [entries, h.peek?_claimed] at hp
    by_cases hpid : pid = task.pid
    · rw [if_pos hpid] at hp
      cases hp
    · rw [if_neg hpid] at hp
      rw [if_neg fun hc => hpid (concerns_exit.1 hc).symm]
      exact hp

/-- What a call does to the order of the entries. -/
def Act.rank (scope : Scope) (r : Ranking UInt32 SyscallArgs) : Act → Ranking UInt32 SyscallArgs
  | .enter _ task args =>
    if inScope task.tgid task.parentTgid scope.target then r.insert task.pid args else r
  | .exit _ task _ _ => (r.erase task.pid).2

section Ranks

variable {scope : Scope} {table : RecencyTable UInt32 SyscallArgs}
variable {r : Ranking UInt32 SyscallArgs}

theorem Act.ranks_entries (h : table.Ranks r) (act : Act) :
    (act.entries scope table).Ranks (act.rank scope r) := by
  cases act with
  | enter transfer task args =>
    rw [entries, rank]
    split
    · exact h.insert task.pid args
    · exact h
  | exit transfer task space ret => exact h.claimed task.pid

theorem Act.capacity_rank (act : Act) : (act.rank scope r).capacity = r.capacity := by
  cases act with
  | enter transfer task args =>
    rw [rank]
    split <;> rfl
  | exit transfer task space ret => rfl

/-- What is awaited of a thread is in the table behind entrants only, or these are too many. -/
def Holds (scope : Scope) (past : List Act) (r : Ranking UInt32 SyscallArgs)
    (pid : UInt32) : Prop :=
  r.Behind (entrants scope past pid) pid ∨ Crowded r.capacity (entrants scope past pid) pid

theorem holds_cons {past : List Act} {pid : UInt32} (act : Act)
    (h : awaited? scope past pid ≠ none → Holds scope past r pid)
    (hawaited : awaited? scope (act :: past) pid ≠ none) :
    Holds scope (act :: past) (act.rank scope r) pid := by
  rw [awaited?_cons] at hawaited
  unfold Holds
  rw [act.capacity_rank, entrants_cons]
  cases act with
  | enter transfer task args =>
    by_cases hin : inScope task.tgid task.parentTgid scope.target = true
    · have henters : (Act.enter transfer task args).enters scope = true := hin
      rw [Act.rank, if_pos hin, if_pos henters]
      by_cases hpid : task.pid = pid
      · subst hpid
        exact .inl (Ranking.behind_insert_self r _ task.pid args)
      · rw [if_neg fun hc => hpid (Act.concerns_enter.1 hc).1] at hawaited ⊢
        have hsub : ∀ k ∈ entrants scope past pid ++ [task.pid],
            k ∈ [task.pid] ++ entrants scope past pid := by
          intro k hk
          exact List.mem_append.2 (List.mem_append.1 hk).symm
        rcases h hawaited with hbehind | hcrowded
        · exact (Ranking.behind_insert hbehind task.pid args).imp (·.mono hsub) (·.mono hsub)
        · exact .inr (hcrowded.mono fun k hk => List.mem_append_right _ hk)
    · have henters : ¬ (Act.enter transfer task args).enters scope = true := hin
      rw [if_neg fun hc => hin (Act.concerns_enter.1 hc).2] at hawaited ⊢
      rw [Act.rank, if_neg hin, if_neg henters]
      exact h hawaited
  | exit transfer task space ret =>
    by_cases hpid : task.pid = pid
    · rw [if_pos (Act.concerns_exit.2 hpid)] at hawaited
      exact absurd rfl hawaited
    · rw [if_neg fun hc => hpid (Act.concerns_exit.1 hc)] at hawaited ⊢
      exact (h hawaited).imp (Ranking.behind_erase · hpid) id

end Ranks

/-- The stores of a tracer after a history. -/
structure Remembers (scope : Scope) (cpus : Nat) (past : List Act) (s : HttpStores) : Prop where
  sound : ∀ pid args, s.pending.peek? pid = some args → awaited? scope past pid = some args
  ranked : ∃ r, s.pending.Ranks r ∧ r.capacity = Limits.entries ∧
    ∀ pid, awaited? scope past pid ≠ none → Holds scope past r pid
  idle : s.events.staging.Idle (max cpus 1)

namespace Remembers

variable {scope : Scope} {cpus : Nat} {past : List Act} {s : HttpStores}

theorem empty (scope : Scope) (cpus : Nat) :
    Remembers scope cpus [] (HttpTracer.empty scope cpus).stores where
  sound pid args hp := by
    rw [HttpTracer.empty, RecencyTable.peek?_empty] at hp
    cases hp
  ranked := ⟨_, .empty Limits.entries, rfl, fun _ h => absurd rfl h⟩
  idle := StagingPool.idle_empty cpus

theorem coherent (h : Remembers scope cpus past s) : s.pending.Coherent :=
  let ⟨r, hr, _⟩ := h.ranked
  ⟨r, hr⟩

theorem step (h : Remembers scope cpus past s) (act : Act) :
    Remembers scope cpus (act :: past) ((Plain.hook scope act.call).after s) := by
  have hd := HttpStores.hands_hook scope act h.coherent h.idle
  obtain ⟨r, hr, hcapacity, hholds⟩ := h.ranked
  refine ⟨fun pid args hp => ?_, ⟨act.rank scope r, ?_, ?_, ?_⟩, hd.idle⟩
  · rw [hd.pending_eq] at hp
    have hentries := act.peek?_of_entries h.coherent hp
    rw [awaited?_cons]
    split
    · rename_i hc
      rwa [if_pos hc] at hentries
    · rename_i hc
      rw [if_neg hc] at hentries
      exact h.sound pid args hentries
  · rw [hd.pending_eq]
    exact act.ranks_entries hr
  · rw [act.capacity_rank, hcapacity]
  · exact fun pid => holds_cons act (hholds pid)

/-- What is awaited of a thread is found, unless too many others have entered since. -/
theorem peek?_eq (h : Remembers scope cpus past s) {pid : UInt32}
    (hfew : awaited? scope past pid ≠ none →
      (entrants scope past pid).toFinset.card < Limits.entries) :
    s.pending.peek? pid = awaited? scope past pid := by
  cases hpeek : s.pending.peek? pid with
  | some args => exact (h.sound pid args hpeek).symm
  | none =>
    by_contra hne
    have hawaited : awaited? scope past pid ≠ none := Ne.symm hne
    obtain ⟨r, hr, hcapacity, hholds⟩ := h.ranked
    rcases hholds pid hawaited with hbehind | hcrowded
    · exact hbehind.peek?_ne_none ((hr.peek?_eq pid).symm.trans hpeek)
    · have hcard := hcrowded.le_card
      rw [hcapacity] at hcard
      exact absurd (hfew hawaited) (Nat.not_lt.2 hcard)

end Remembers

/-! ### Exits and their records -/

/-- An exit by `task` ends a transfer that has moved bytes. The last call of its thread is the entry
it belongs to, and `payload` is what can be read in its buffer now. -/
structure Ends (scope : Scope) (cpus : Nat) (past : List Act) (task : Task) (space : AddressSpace)
    (ret : Int64) (payload : Bytes) : Prop where
  moved : 0 < ret
  cpu_lt : task.cpu < max cpus 1
  read : ∃ transfer entered args captured,
    last? scope past task.pid = some (.enter transfer entered args) ∧
    space.bytesAt args.buf (min ret.toNatClampNeg Limits.payload) = some captured ∧
    captured.bytes = payload

/-- The record of a payload in every member. -/
structure PayloadRecord.Describes (record : PayloadRecord) (transfer : Transfer) (task : Task)
    (ret : Int64) (payload : Bytes) : Prop where
  tgid_eq : record.tgid = task.tgid
  pid_eq : record.pid = task.pid
  uid_eq : record.uid = task.uid
  len_eq : record.len.toNat = min ret.toNatClampNeg Limits.payload
  payload_eq : record.payload = payload
  kind_eq : record.kind? = some (.ofTransfer transfer)

theorem PayloadRecord.describes_ofPayload (transfer : Transfer) (task : Task) {ret : Int64}
    {payload : Bytes} (h : payload.length = min ret.toNatClampNeg Limits.payload) :
    (ofPayload transfer task payload).Describes transfer task ret payload := by
  have hle : payload.length ≤ Limits.payload := h ▸ Nat.min_le_right _ _
  have hlen : (UInt32.ofNat payload.length).toNat = payload.length := by
    refine UInt32.toNat_ofNat_of_lt (Nat.lt_of_le_of_lt hle ?_)
    decide
  refine ⟨rfl, rfl, rfl, hlen.trans h, ?_, ?_⟩
  · show (Field.ofBytes Limits.payload payload).bytes.take (UInt32.ofNat payload.length).toNat = _
    rw [hlen, Field.bytes_ofBytes hle, List.take_left]
  · cases transfer <;> rfl

theorem awaited?_eq_some_iff {scope : Scope} {past : List Act} {pid : UInt32}
    {args : SyscallArgs} : awaited? scope past pid = some args ↔
      ∃ transfer entered, last? scope past pid = some (.enter transfer entered args) := by
  unfold awaited?
  cases last? scope past pid with
  | none => simp
  | some act => cases act <;> simp [Act.args?]

theorem record?_exit_eq_some_iff {scope : Scope} {cpus : Nat} {past : List Act}
    {transfer : Transfer} {task : Task} {space : AddressSpace} {ret : Int64}
    {record : PayloadRecord} :
    (Act.exit transfer task space ret).record? cpus (awaited? scope past) = some record ↔
      ∃ payload, Ends scope cpus past task space ret payload ∧
        record = .ofPayload transfer task payload := by
  simp only [Act.record?, Option.bind_eq_some_iff, awaited?_eq_some_iff, captured?,
    Option.ite_none_right_eq_some, Option.map_eq_some_iff]
  constructor
  · rintro ⟨args, ⟨transfer', entered, hlast⟩, ⟨hmoved, hcpu⟩, captured, hread, rfl⟩
    exact ⟨_, ⟨hmoved, hcpu, transfer', entered, args, captured, hlast, hread, rfl⟩, rfl⟩
  · rintro ⟨_, ⟨hmoved, hcpu, transfer', entered, args, captured, hlast, hread, rfl⟩, rfl⟩
    exact ⟨args, ⟨transfer', entered, hlast⟩, ⟨hmoved, hcpu⟩, captured, hread, rfl⟩

/-! ### Runs -/

namespace HttpTracer

/-- The records that calls of a thread have handed over, the oldest first. -/
def records (scope : Scope) (cpus : Nat) (pid : UInt32) : List Act → List PayloadRecord
  | [] => []
  | act :: past =>
    records scope cpus pid past ++ if act.pid = pid then (after scope cpus past).handed act else []

/-- The records that calls are awaited to hand over, the oldest first. -/
def awaitedRecords (scope : Scope) (cpus : Nat) : List Act → List PayloadRecord
  | [] => []
  | act :: past =>
    awaitedRecords scope cpus past ++ (act.record? cpus (awaited? scope past)).toList

variable (scope : Scope) (cpus : Nat)

theorem remembers_after (past : List Act) :
    Remembers scope cpus past (after scope cpus past).stores := by
  induction past with
  | nil => exact .empty scope cpus
  | cons act past ih =>
    have h := ih.step act
    rw [stores_after_cons]
    exact ⟨h.sound, h.ranked, h.idle⟩

theorem handed_after (past : List Act) (act : Act) : (after scope cpus past).handed act =
    (act.record? cpus (after scope cpus past).stores.pending.peek?).toList :=
  have h := remembers_after scope cpus past
  handed_eq act h.coherent h.idle

/-- A record is handed over only for what is awaited. -/
theorem record?_of_handed {past : List Act} {act : Act} {record : PayloadRecord}
    (h : record ∈ (after scope cpus past).handed act) :
    act.record? cpus (awaited? scope past) = some record := by
  have hremembers := remembers_after scope cpus past
  rw [handed_after, Option.mem_toList] at h
  cases act with
  | enter transfer task args => cases h
  | exit transfer task space ret =>
    obtain ⟨args, hpeek, hcaptured⟩ := Option.bind_eq_some_iff.1 h
    exact Option.bind_eq_some_iff.2 ⟨args, hremembers.sound task.pid args hpeek, hcaptured⟩

/-- What is awaited is handed over, unless too many other threads have entered since. -/
theorem handed_of_few {past : List Act} {act : Act}
    (hfew : act.isExit = true → awaited? scope past act.pid ≠ none →
      (entrants scope past act.pid).toFinset.card < Limits.entries) :
    (after scope cpus past).handed act = (act.record? cpus (awaited? scope past)).toList := by
  rw [handed_after]
  cases act with
  | enter transfer task args => rfl
  | exit transfer task space ret =>
    have hpeek := (remembers_after scope cpus past).peek?_eq (hfew rfl)
    exact congrArg (fun args? => Option.toList (args?.bind fun args =>
      captured? cpus transfer task space ret args.buf)) hpeek

/-- In an uncrowded run the records of a thread are told from its own calls. -/
theorem records_eq {past : List Act} (h : Uncrowded scope past) (pid : UInt32) :
    records scope cpus pid past = awaitedRecords scope cpus (past.filter (·.pid = pid)) := by
  induction past with
  | nil => rfl
  | cons act past ih =>
    obtain ⟨hfew, hpast⟩ := h
    rw [records, ih hpast]
    by_cases hpid : act.pid = pid
    · have hrecord : act.record? cpus (awaited? scope past) =
          act.record? cpus (awaited? scope (past.filter (·.pid = pid))) := by
        cases act with
        | enter transfer task args => rfl
        | exit transfer task space ret =>
          obtain rfl : task.pid = pid := hpid
          simp only [Act.record?, awaited?_filter]
      rw [if_pos hpid, handed_of_few scope cpus hfew, hrecord,
        List.filter_cons_of_pos (by simpa using hpid)]
      rfl
    · rw [if_neg hpid, List.append_nil, List.filter_cons_of_neg (by simpa using hpid)]

/-- Entries and exits are paired by thread, in every run. An exit hands a record over only if it
ends the transfer that its thread entered last, has moved bytes, runs on a processor with room for
a record, and finds them in the buffer now. It then does hand over one record, which holds those
bytes and names the exiting task, if fewer other threads have entered since than the table has
entries. So as long as no exit meets more, the records of each thread are the same however the calls
of the threads are interleaved. -/
theorem pairs_entry_with_exit :
    (∀ past act, (after scope cpus (act :: past)).stores.events.channel =
      (after scope cpus past).stores.events.channel.outputs
        (((after scope cpus past).handed act).map fun record => (act.task.cpu, record))) ∧
    (∀ past transfer task args,
      (after scope cpus past).handed (.enter transfer task args) = []) ∧
    (∀ past transfer task space ret,
      let handed := (after scope cpus past).handed (.exit transfer task space ret)
      (handed ≠ [] → ∃ payload, Ends scope cpus past task space ret payload) ∧
      ∀ payload, Ends scope cpus past task space ret payload →
        (entrants scope past task.pid).toFinset.card < Limits.entries →
        ∃ record, handed = [record] ∧ record.Describes transfer task ret payload) ∧
    ∀ past past', Uncrowded scope past → Uncrowded scope past' →
      (∀ pid, past.filter (·.pid = pid) = past'.filter (·.pid = pid)) →
      ∀ pid, records scope cpus pid past = records scope cpus pid past' := by
  refine ⟨?channel, ?entry, ?exit, ?interleaved⟩
  case channel =>
    intro past act
    have h := remembers_after scope cpus past
    exact channel_step act h.coherent h.idle
  case entry =>
    intro past transfer task args
    rw [handed_after]
    rfl
  case exit =>
    intro past transfer task space ret handed
    constructor
    · intro hhanded
      obtain ⟨record, hmem⟩ := List.exists_mem_of_ne_nil _ hhanded
      obtain ⟨payload, hends, -⟩ := record?_exit_eq_some_iff.1 (record?_of_handed scope cpus hmem)
      exact ⟨payload, hends⟩
    · intro payload hends hfew
      have hrecord : (Act.exit transfer task space ret).record? cpus (awaited? scope past) =
          some (.ofPayload transfer task payload) :=
        record?_exit_eq_some_iff.2 ⟨payload, hends, rfl⟩
      obtain ⟨_, _, _, captured, -, -, hpayload⟩ := hends.read
      refine ⟨.ofPayload transfer task payload, ?_, ?_⟩
      · rw [show handed = _ from handed_of_few scope cpus fun _ _ => hfew, hrecord]
        rfl
      · exact PayloadRecord.describes_ofPayload transfer task (hpayload ▸ captured.length_eq)
  case interleaved =>
    intro past past' h h' hcalls pid
    rw [records_eq scope cpus h, records_eq scope cpus h', hcalls pid]

/-- Two threads are in a transfer at the same time, or one after the other. -/
theorem pairs_entry_with_exit_interleaved :
    let first := Task.ofProcess 42
    let second := { Task.ofProcess 42 with pid := 43 }
    let space := (AddressSpace.empty.map 0x1000 [71, 69, 84]).map 0x2000 [79, 75]
    let enter : Act := .enter .sendto first ⟨3, 0x1000, 3⟩
    let exit : Act := .exit .sendto first space 3
    let enter' : Act := .enter .recvfrom second ⟨4, 0x2000, 64⟩
    let exit' : Act := .exit .recvfrom second space 2
    let past := [exit, exit', enter', enter]
    let past' := [exit', enter', exit, enter]
    Ends ⟨42⟩ 1 [exit', enter', enter] first space 3 [71, 69, 84] ∧
    Uncrowded ⟨42⟩ past ∧ Uncrowded ⟨42⟩ past' ∧
    (∃ record, (after ⟨42⟩ 1 [exit', enter', enter]).handed exit = [record] ∧
      record.payload = [71, 69, 84]) ∧
    ∀ pid, records ⟨42⟩ 1 pid past = records ⟨42⟩ 1 pid past' := by
  intro first second space enter exit enter' exit' past past'
  have hends : Ends ⟨42⟩ 1 [exit', enter', enter] first space 3 [71, 69, 84] :=
    ⟨by decide, by decide, .sendto, first, ⟨3, 0x1000, 3⟩, ⟨[71, 69, 84], rfl⟩, rfl, rfl, rfl⟩
  have huncrowded : Uncrowded ⟨42⟩ past :=
    ⟨fun _ _ => by decide, fun _ _ => by decide, fun _ _ => by decide, fun _ _ => by decide,
      trivial⟩
  have huncrowded' : Uncrowded ⟨42⟩ past' :=
    ⟨fun _ _ => by decide, fun _ _ => by decide, fun _ _ => by decide, fun _ _ => by decide,
      trivial⟩
  have hcalls : ∀ pid, past.filter (·.pid = pid) = past'.filter (·.pid = pid) := by
    intro pid
    by_cases hfirst : (42 : UInt32) = pid
    · subst hfirst
      rfl
    · by_cases hsecond : (43 : UInt32) = pid
      · subst hsecond
        rfl
      · simp [past, past', enter, exit, enter', exit', first, second, Act.pid, Act.task,
          Task.ofProcess, hfirst, hsecond]
  obtain ⟨-, -, hexit, hinterleaved⟩ := pairs_entry_with_exit ⟨42⟩ 1
  have hfew : (entrants ⟨42⟩ [exit', enter', enter] first.pid).toFinset.card < Limits.entries := by
    decide
  obtain ⟨record, hhanded, hdescribes⟩ :=
    (hexit [exit', enter', enter] .sendto first space 3).2 _ hends hfew
  exact ⟨hends, huncrowded, huncrowded', ⟨record, hhanded, hdescribes.payload_eq⟩,
    hinterleaved past past' huncrowded huncrowded' hcalls⟩

end HttpTracer

end HookTrace.Payload
