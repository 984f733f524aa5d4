import HookTrace.Proofs.Store.Queues
import Mathlib.Algebra.GroupWithZero.Nat

/-!
# HookTrace.Proofs.Store.Delivery

A channel of queues, one per processor, in use: producers hand records over directly or out of
staging, consumers take from one queue or from all. A record goes to the queue of its processor if
that has room, and is lost otherwise.

* `PerCpuOutput.Conserves`: what a part of a run does to the queues and to the count of losses.
  Uses conserve one by one (`conserves_use`), and parts of a run one after the other
  (`Conserves.trans`).
* `PerCpuOutput.delivers_in_order`: each queue gives out what it let in, in that order, and every
  record that was handed over was given out, is still queued, or was counted as lost.
-/

namespace HookTrace.Store

variable {ρ : Type}

namespace PerCpuQueues

/-- The records in a queue, the oldest first. -/
def contents (channel : PerCpuQueues ρ) (q : Nat) : List ρ :=
  match channel.queues[q]? with
  | some queue => queue.toList
  | none => []

theorem contents_empty (cpus depth q : Nat) :
    (empty cpus depth : PerCpuQueues ρ).contents q = [] := by
  unfold contents empty
  rw [Array.getElem?_replicate]
  by_cases hq : q < max cpus 1
  · rw [if_pos hq]
    rfl
  · rw [if_neg hq]

variable {channel : PerCpuQueues ρ}

theorem exists_queue {q : Nat} (h : q < channel.cpus) :
    ∃ queue, channel.queues[q]? = some queue ∧ channel.contents q = queue.toList := by
  have hqueue := Array.getElem?_eq_getElem h
  exact ⟨_, hqueue, by rw [contents, hqueue]⟩

theorem contents_set {i : Nat} (hi : i < channel.cpus) (queue : Fifo ρ) (q : Nat) :
    ({ channel with queues := channel.queues.setIfInBounds i queue } : PerCpuQueues ρ).contents q =
      if i = q then queue.toList else channel.contents q := by
  have hi : i < channel.queues.size := hi
  unfold contents
  rw [Array.getElem?_setIfInBounds]
  by_cases hq : i = q
  · rw [if_pos hq, if_pos hi, if_pos hq]
  · rw [if_neg hq, if_neg hq]

/-- A queue that has room takes a record in; one that has none counts a loss. -/
theorem contents_output (hn : 0 < channel.cpus) (cpu : Nat) (record : ρ) (q : Nat) :
    (channel.output cpu record).1.contents q = channel.contents q ++
      if cpu % channel.cpus = q ∧ (channel.contents q).length < channel.depth then [record]
      else [] := by
  have hi : cpu % channel.cpus < channel.cpus := Nat.mod_lt _ hn
  obtain ⟨queue, hqueue, hcontents⟩ := exists_queue hi
  have hfound : channel.queues[cpu % channel.queues.size]? = some queue := hqueue
  simp only [output, hfound, Fifo.size_eq_length_toList, ← hcontents]
  by_cases hq : cpu % channel.cpus = q
  · subst hq
    by_cases hroom : (channel.contents (cpu % channel.cpus)).length < channel.depth
    · rw [if_pos hroom, if_pos ⟨rfl, hroom⟩]
      exact (contents_set hi _ _).trans (by rw [if_pos rfl, Fifo.toList_push, ← hcontents])
    · simp only [hroom, if_false, and_false, List.append_nil]
      rfl
  · simp only [hq, false_and, if_false, List.append_nil]
    split
    · exact (contents_set hi _ _).trans (if_neg hq)
    · rfl

theorem lost_output (hn : 0 < channel.cpus) (cpu : Nat) (record : ρ) :
    (channel.output cpu record).1.lost = channel.lost +
      if (channel.contents (cpu % channel.cpus)).length < channel.depth then 0 else 1 := by
  obtain ⟨queue, hqueue, hcontents⟩ := exists_queue (Nat.mod_lt cpu hn)
  have hfound : channel.queues[cpu % channel.queues.size]? = some queue := hqueue
  simp only [output, hfound, Fifo.size_eq_length_toList, ← hcontents]
  split <;> rfl

theorem depth_output (cpu : Nat) (record : ρ) :
    (channel.output cpu record).1.depth = channel.depth := by
  simp only [output]
  split
  · rfl
  · split <;> rfl

theorem receive_of_le {q : Nat} (hq : channel.cpus ≤ q) : channel.receive q = none := by
  rw [receive, Array.getElem?_eq_none hq]

/-- The oldest record leaves the queue that is asked, and all else stays. -/
theorem receive_of_lt {q : Nat} (hq : q < channel.cpus) : ∃ rest,
    channel.receive q = some ((channel.contents q).head?, rest) ∧
      rest.cpus = channel.cpus ∧ rest.depth = channel.depth ∧ rest.lost = channel.lost ∧
      rest.drain.1.length + (channel.contents q).head?.toList.length = channel.drain.1.length ∧
      ∀ other, rest.contents other =
        if q = other then (channel.contents q).tail else channel.contents other := by
  obtain ⟨queue, hqueue, hcontents⟩ := exists_queue hq
  rw [receive, hqueue, hcontents]
  cases hp : queue.pop? with
  | none =>
    have hnone := (Fifo.pop?_eq_none_iff queue).1 hp
    refine ⟨channel, by simp only [hp, hnone, List.head?_nil], rfl, rfl, rfl, by simp [hnone],
      fun other => ?_⟩
    split
    · rename_i hother
      rw [← hother, hcontents, hnone, List.tail_nil]
    · rfl
  | some popped =>
    obtain ⟨record, rest⟩ := popped
    have hsome := Fifo.toList_of_pop? hp
    refine ⟨{ channel with queues := channel.queues.setIfInBounds q rest },
      by simp only [hp, hsome, List.head?_cons], Array.size_setIfInBounds, rfl, rfl, ?_, ?_⟩
    · have hlength := length_drain_set hqueue rest
      rw [hsome, List.length_cons] at hlength
      simp only [hsome, List.head?_cons, Option.toList_some, List.length_singleton]
      omega
    · intro other
      rw [contents_set hq, hsome, List.tail_cons]

theorem fst_drain (channel : PerCpuQueues ρ) :
    channel.drain.1 = (List.range channel.cpus).flatMap channel.contents := by
  have hqueues : channel.queues.toList.map Fifo.toList =
      (List.range channel.cpus).map channel.contents := by
    refine List.ext_getElem (by simp [cpus]) fun q h _ => ?_
    have hq : q < channel.cpus := by simpa [cpus] using h
    obtain ⟨queue, hqueue, hcontents⟩ := exists_queue hq
    obtain ⟨_, rfl⟩ := Array.getElem?_eq_some_iff.1 hqueue
    simp [hcontents]
  rw [drain, List.flatMap_def, List.flatMap_def, hqueues]

theorem contents_drain (channel : PerCpuQueues ρ) (q : Nat) : channel.drain.2.contents q = [] := by
  simp only [contents, drain, Array.getElem?_map]
  cases channel.queues[q]? <;> rfl

theorem cpus_drain (channel : PerCpuQueues ρ) : channel.drain.2.cpus = channel.cpus :=
  Array.size_map

theorem accounted_drain (channel : PerCpuQueues ρ) :
    channel.drain.2.accounted + channel.drain.1.length = channel.accounted := by
  have hnone : channel.drain.2.drain.1 = [] := by
    rw [fst_drain]
    exact List.flatMap_eq_nil_iff.2 fun q _ => contents_drain channel q
  have hlost : channel.drain.2.lost = channel.lost := rfl
  rw [accounted, accounted, hnone, hlost, List.length_nil]
  omega

theorem sum_queued (channel : PerCpuQueues ρ) :
    channel.queued.sum = channel.drain.1.length := by
  rw [drain, List.length_flatMap, queued]
  exact congrArg List.sum (List.map_congr_left fun queue _ => queue.size_eq_length_toList)

end PerCpuQueues

namespace PerCpuOutput

/-- What is asked of an output. A commit names the slot as its holder left it. -/
inductive Use (ρ : Type) where
  | output (cpu : Nat) (record : ρ)
  | reserve (cpu : Nat)
  | commit (slot : Slot ρ)
  | release (slot : Slot ρ)
  | receive (queue : Nat)
  | drain

inductive Reply (ρ : Type) where
  | handedOver (notices : List Notice)
  | reserved (slot : Option (Slot ρ))
  | released
  /-- No queue of that number: `none`. -/
  | received (record : Option (Option ρ))
  | drained (records : List ρ)

/-- A record that is handed over, with its processor. -/
def Use.handed? : Use ρ → Option (Nat × ρ)
  | .output cpu record => some (cpu, record)
  | .commit slot => some (slot.cpu, slot.record)
  | _ => none

variable [Layout ρ]

def serve (s : PerCpuOutput ρ) : Use ρ → Reply ρ × PerCpuOutput ρ
  | .output cpu record =>
    let (channel, notices) := s.channel.output cpu record
    (.handedOver notices, { s with channel })
  | .reserve cpu =>
    match s.reserve cpu with
    | none => (.reserved none, s)
    | some (slot, s) => (.reserved (some slot), s)
  | .commit slot =>
    let (s, notices) := s.commit slot
    (.handedOver notices, s)
  | .release slot => (.released, s.release slot)
  | .receive queue =>
    match s.channel.receive queue with
    | none => (.received none, s)
    | some (record, channel) => (.received (some record), { s with channel })
  | .drain =>
    let (records, s) := RecordSource.drain s
    (.drained records, s)

def after (s : PerCpuOutput ρ) (uses : List (Use ρ)) : PerCpuOutput ρ :=
  uses.foldl (fun s use => (s.serve use).2) s

/-- A use, and what it was asked of. -/
structure Moment (ρ : Type) where
  state : PerCpuOutput ρ
  use : Use ρ

/-- The moments of a run, the first one first. -/
def moments (s : PerCpuOutput ρ) : List (Use ρ) → List (Moment ρ)
  | [] => []
  | use :: rest => ⟨s, use⟩ :: moments (s.serve use).2 rest

namespace Moment

/-- The record that goes into a queue, one of `n`, if that holds fewer than `depth`. -/
def admitted (n depth q : Nat) (m : Moment ρ) : List ρ :=
  match m.use.handed? with
  | some (cpu, record) =>
    if cpu % n = q ∧ (m.state.channel.contents q).length < depth then [record] else []
  | none => []

/-- A record is handed over, and its queue holds `depth` already. -/
def turnedDown (n depth : Nat) (m : Moment ρ) : Bool :=
  match m.use.handed? with
  | some (cpu, _) => depth ≤ (m.state.channel.contents (cpu % n)).length
  | none => false

/-- The records that are given out. -/
def delivered (m : Moment ρ) : List ρ :=
  match (m.state.serve m.use).1 with
  | .received (some (some record)) => [record]
  | .drained records => records
  | _ => []

/-- Those of them that come out of one queue. A drain gives out what every queue holds. -/
def taken (q : Nat) (m : Moment ρ) : List ρ :=
  match m.use with
  | .receive queue => if queue = q then m.delivered else []
  | .drain => m.state.channel.contents q
  | _ => []

end Moment

/-- There are `n` queues, and none holds more than `depth`. -/
structure Fits (n depth : Nat) (s : PerCpuOutput ρ) : Prop where
  cpus_eq : s.channel.cpus = n
  depth_eq : s.channel.depth = depth
  length_le : ∀ q, (s.channel.contents q).length ≤ depth

theorem fits_empty (workers cpus depth : Nat) :
    (empty workers cpus depth : PerCpuOutput ρ).Fits (max cpus 1) depth where
  cpus_eq := Array.size_replicate
  depth_eq := rfl
  length_le q := by
    rw [empty, PerCpuQueues.contents_empty]
    exact Nat.zero_le _

/-- The moments of a part of a run explain what the part leaves. -/
structure Conserves (n depth : Nat) (s s' : PerCpuOutput ρ) (log : List (Moment ρ)) : Prop where
  fits : s'.Fits n depth
  contents_eq : ∀ q, s.channel.contents q ++ log.flatMap (Moment.admitted n depth q) =
    log.flatMap (Moment.taken q) ++ s'.channel.contents q
  lost_eq : s'.channel.lost = s.channel.lost + log.countP (Moment.turnedDown n depth)
  accounted_eq : s'.channel.accounted + (log.flatMap Moment.delivered).length =
    s.channel.accounted + log.countP (·.use.handed?.isSome)

variable {n depth : Nat} {s s' s'' : PerCpuOutput ρ}

namespace Conserves

theorem refl (h : s.Fits n depth) : Conserves n depth s s [] where
  fits := h
  contents_eq _ := List.append_nil _
  lost_eq := rfl
  accounted_eq := rfl

theorem trans {first second : List (Moment ρ)} (h : Conserves n depth s s' first)
    (h' : Conserves n depth s' s'' second) : Conserves n depth s s'' (first ++ second) where
  fits := h'.fits
  contents_eq q := by
    rw [List.flatMap_append, List.flatMap_append, ← List.append_assoc, h.contents_eq q,
      List.append_assoc, h'.contents_eq q, List.append_assoc]
  lost_eq := by
    rw [List.countP_append, h'.lost_eq, h.lost_eq, Nat.add_assoc]
  accounted_eq := by
    have hfirst := h.accounted_eq
    have hsecond := h'.accounted_eq
    rw [List.flatMap_append, List.length_append, List.countP_append]
    omega

end Conserves

section Step

/-- The law for a single use, with the sums of its one moment written out. -/
theorem conserves_one {use : Use ρ} (hfits : (s.serve use).2.Fits n depth)
    (hcontents : ∀ q, s.channel.contents q ++ Moment.admitted n depth q ⟨s, use⟩ =
      Moment.taken q ⟨s, use⟩ ++ (s.serve use).2.channel.contents q)
    (hlost : (s.serve use).2.channel.lost =
      s.channel.lost + if Moment.turnedDown n depth ⟨s, use⟩ then 1 else 0)
    (haccounted : (s.serve use).2.channel.accounted + (Moment.delivered ⟨s, use⟩).length =
      s.channel.accounted + if use.handed?.isSome then 1 else 0) :
    Conserves n depth s (s.serve use).2 [⟨s, use⟩] where
  fits := hfits
  contents_eq q := by
    simpa only [List.flatMap_cons, List.flatMap_nil, List.append_nil] using hcontents q
  lost_eq := by simpa only [List.countP_singleton] using hlost
  accounted_eq := by
    simpa only [List.flatMap_cons, List.flatMap_nil, List.append_nil, List.countP_singleton]
      using haccounted

/-- Handing a record over, out of staging or not. -/
theorem conserves_hand (hn : 0 < n) (h : s.Fits n depth) {use : Use ρ} {cpu : Nat} {record : ρ}
    (hhanded : use.handed? = some (cpu, record))
    (hchannel : (s.serve use).2.channel = (s.channel.output cpu record).1)
    (htaken : ∀ q, Moment.taken q ⟨s, use⟩ = []) (hdelivered : Moment.delivered ⟨s, use⟩ = []) :
    Conserves n depth s (s.serve use).2 [⟨s, use⟩] := by
  have hcpus : 0 < s.channel.cpus := by rwa [h.cpus_eq]
  have hadmitted : ∀ q, Moment.admitted n depth q ⟨s, use⟩ =
      if cpu % n = q ∧ (s.channel.contents q).length < depth then [record] else [] := by
    intro q
    simp only [Moment.admitted, hhanded]
  have hcontents : ∀ q, (s.serve use).2.channel.contents q =
      s.channel.contents q ++ Moment.admitted n depth q ⟨s, use⟩ := by
    intro q
    rw [hchannel, PerCpuQueues.contents_output hcpus, h.cpus_eq, h.depth_eq, hadmitted]
  refine conserves_one ⟨?_, ?_, ?_⟩ ?_ ?_ ?_
  · rw [hchannel, PerCpuQueues.cpus_output, h.cpus_eq]
  · rw [hchannel, PerCpuQueues.depth_output, h.depth_eq]
  · intro q
    rw [hcontents, hadmitted, List.length_append]
    split
    · rename_i hroom
      exact hroom.2
    · exact h.length_le q
  · intro q
    rw [htaken, hcontents, List.nil_append]
  · rw [hchannel, PerCpuQueues.lost_output hcpus, h.cpus_eq, h.depth_eq]
    simp only [Moment.turnedDown, hhanded, decide_eq_true_eq, ← Nat.not_lt, ite_not]
  · rw [hchannel, PerCpuQueues.accounted_output hcpus, hdelivered, hhanded]
    rfl

/-- What only touches the staging records. -/
theorem conserves_stage (h : s.Fits n depth) {use : Use ρ} (hhanded : use.handed? = none)
    (hchannel : (s.serve use).2.channel = s.channel)
    (htaken : ∀ q, Moment.taken q ⟨s, use⟩ = []) (hdelivered : Moment.delivered ⟨s, use⟩ = []) :
    Conserves n depth s (s.serve use).2 [⟨s, use⟩] := by
  refine conserves_one ⟨?_, ?_, ?_⟩ ?_ ?_ ?_
  · rw [hchannel, h.cpus_eq]
  · rw [hchannel, h.depth_eq]
  · rw [hchannel]
    exact h.length_le
  · intro q
    simp only [htaken, hchannel, Moment.admitted, hhanded, List.append_nil, List.nil_append]
  · simp only [hchannel, Moment.turnedDown, hhanded, Bool.false_eq_true, if_false, Nat.add_zero]
  · rw [hchannel, hdelivered, hhanded]
    rfl

theorem serve_receive (h : s.Fits n depth) (q : Nat) :
    (s.serve (.receive q)).1 =
      .received (if q < n then some (s.channel.contents q).head? else none) := by
  by_cases hq : q < n
  · obtain ⟨rest, hreceive, -⟩ := PerCpuQueues.receive_of_lt (h.cpus_eq ▸ hq)
    rw [if_pos hq, serve, hreceive]
  · rw [if_neg hq, serve, PerCpuQueues.receive_of_le (h.cpus_eq ▸ Nat.le_of_not_lt hq)]

theorem conserves_receive (h : s.Fits n depth) (q : Nat) :
    Conserves n depth s (s.serve (.receive q)).2 [⟨s, .receive q⟩] := by
  have hreply := serve_receive h q
  by_cases hq : q < n
  · obtain ⟨rest, hreceive, hcpus, hdepth, hlost, hlength, hcontents⟩ :=
      PerCpuQueues.receive_of_lt (h.cpus_eq ▸ hq)
    have hchannel : (s.serve (.receive q)).2.channel = rest := by
      rw [serve, hreceive]
    have hdelivered : Moment.delivered ⟨s, .receive q⟩ = (s.channel.contents q).head?.toList := by
      rw [Moment.delivered, hreply, if_pos hq]
      cases (s.channel.contents q).head? <;> rfl
    refine conserves_one ⟨?_, ?_, ?_⟩ ?_ ?_ ?_
    · rw [hchannel, hcpus, h.cpus_eq]
    · rw [hchannel, hdepth, h.depth_eq]
    · intro other
      rw [hchannel, hcontents]
      split
      · rw [List.length_tail]
        exact Nat.le_trans (Nat.sub_le _ _) (h.length_le q)
      · exact h.length_le other
    · intro other
      show s.channel.contents other ++ [] =
        (if q = other then Moment.delivered ⟨s, .receive q⟩ else []) ++ _
      rw [hchannel, hcontents, hdelivered, List.append_nil]
      by_cases hother : q = other
      · rw [if_pos hother, if_pos hother, ← hother]
        cases s.channel.contents q <;> rfl
      · rw [if_neg hother, if_neg hother, List.nil_append]
    · rw [hchannel, hlost]
      rfl
    · rw [hchannel, hdelivered, PerCpuQueues.accounted, PerCpuQueues.accounted, hlost]
      show _ = _ + 0
      omega
  · have hdelivered : Moment.delivered ⟨s, .receive q⟩ = [] := by
      rw [Moment.delivered, hreply, if_neg hq]
    refine conserves_stage h rfl ?_ ?_ hdelivered
    · rw [serve, PerCpuQueues.receive_of_le (h.cpus_eq ▸ Nat.le_of_not_lt hq)]
    · intro other
      rw [Moment.taken, hdelivered]
      exact ite_self _

theorem conserves_drain (h : s.Fits n depth) :
    Conserves n depth s (s.serve .drain).2 [⟨s, .drain⟩] := by
  have hnone : ∀ q, (s.serve .drain).2.channel.contents q = [] :=
    PerCpuQueues.contents_drain s.channel
  refine conserves_one ⟨?_, h.depth_eq, ?_⟩ ?_ rfl (PerCpuQueues.accounted_drain s.channel)
  · exact (PerCpuQueues.cpus_drain s.channel).trans h.cpus_eq
  · intro q
    rw [hnone]
    exact Nat.zero_le _
  · intro q
    rw [hnone]
    rfl

theorem conserves_use (hn : 0 < n) (h : s.Fits n depth) (use : Use ρ) :
    Conserves n depth s (s.serve use).2 [⟨s, use⟩] := by
  cases use with
  | output cpu record => exact conserves_hand hn h rfl rfl (fun _ => rfl) rfl
  | commit slot => exact conserves_hand hn h rfl rfl (fun _ => rfl) rfl
  | release slot => exact conserves_stage h rfl rfl (fun _ => rfl) rfl
  | receive q => exact conserves_receive h q
  | drain => exact conserves_drain h
  | reserve cpu =>
    have hserve : (∃ slot, (s.serve (.reserve cpu)).1 = .reserved slot) ∧
        (s.serve (.reserve cpu)).2.channel = s.channel := by
      simp only [serve, reserve]
      cases s.staging.acquire cpu <;> exact ⟨⟨_, rfl⟩, rfl⟩
    obtain ⟨⟨slot, hreply⟩, hchannel⟩ := hserve
    exact conserves_stage h rfl hchannel (fun _ => rfl) (by rw [Moment.delivered, hreply])

end Step

/-- Every run conserves, by induction on its uses. -/
theorem conserves_after (hn : 0 < n) (h : s.Fits n depth) (uses : List (Use ρ)) :
    Conserves n depth s (s.after uses) (s.moments uses) := by
  induction uses generalizing s with
  | nil => exact .refl h
  | cons use rest ih =>
    have hone := conserves_use hn h use
    exact hone.trans (ih hone.fits)

/-- Of a channel for `cpus` processors that was used for a while: no queue is over its depth; what
a queue gave out and what it still holds is what it let in, in that order; the records that met a
full queue are the lost ones; and the next to be given out is the oldest one of the queue asked,
or everything, queue after queue. -/
theorem delivers_in_order (workers cpus depth : Nat) (uses : List (Use ρ)) :
    let n := max cpus 1
    let s := (empty workers cpus depth).after uses
    let log := (empty workers cpus depth).moments uses
    (∀ q, (s.channel.contents q).length ≤ depth) ∧
    (∀ q, log.flatMap (Moment.taken q) ++ s.channel.contents q =
      log.flatMap (Moment.admitted n depth q)) ∧
    s.channel.lost = log.countP (Moment.turnedDown n depth) ∧
    log.countP (·.use.handed?.isSome) =
      (log.flatMap Moment.delivered).length + s.channel.queued.sum + s.channel.lost ∧
    (∀ q, (s.serve (.receive q)).1 =
      .received (if q < n then some (s.channel.contents q).head? else none)) ∧
    (s.serve .drain).1 = .drained ((List.range n).flatMap s.channel.contents) ∧
    ∀ q, (s.serve .drain).2.channel.contents q = [] := by
  intro n s log
  have hrun : Conserves n depth (empty workers cpus depth) s log :=
    conserves_after (Nat.le_max_right _ _) (fits_empty workers cpus depth) uses
  have hempty : ∀ q, (empty workers cpus depth : PerCpuOutput ρ).channel.contents q = [] :=
    PerCpuQueues.contents_empty cpus depth
  have haccounted : (empty workers cpus depth : PerCpuOutput ρ).channel.accounted = 0 :=
    PerCpuQueues.accounted_empty cpus depth
  refine ⟨hrun.fits.length_le, ?_, ?_, ?_, serve_receive hrun.fits, ?_,
    PerCpuQueues.contents_drain s.channel⟩
  · intro q
    rw [← hrun.contents_eq q, hempty, List.nil_append]
  · exact hrun.lost_eq.trans (Nat.zero_add _)
  · have htotal := hrun.accounted_eq
    rw [haccounted, PerCpuQueues.accounted, ← PerCpuQueues.sum_queued] at htotal
    omega
  · show Reply.drained s.channel.drain.1 = _
    rw [PerCpuQueues.fst_drain, hrun.fits.cpus_eq]

end PerCpuOutput

end HookTrace.Store
