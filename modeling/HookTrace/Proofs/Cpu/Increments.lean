import HookTrace.Proofs.Cpu.Counting
import HookTrace.Proofs.Store.Requests

/-!
# HookTrace.Proofs.Cpu.Increments

Sets of histograms in use: increments one after the other, whose names may turn out not to be known,
and a log of what came of each. The log alone tells what there is (`counted`, `countedGroups`) and
what is answered next (`answerTo`): a group that was counted before is counted again and not named,
any other one is named first and refused if there are as many groups as the capacity allows.

`Faithful`: a set of histograms goes by its log. It is kept by every increment (`Faithful.step`).
-/

namespace HookTrace.Cpu

/-- A slice to count: of which group, in which slot, and what asking for the group's name comes
to. -/
structure Increment where
  tgid : UInt32
  slot : Nat
  name : Except Fault Comm

/-- What came of an increment, and how often it asked for the name. -/
structure Answer where
  result : Except Fault Unit
  asked : Nat

/-- Answers with the name, and counts that it was asked for. -/
def Increment.ask (i : Increment) : StateM Nat (Except Fault Comm) := fun asked =>
  (i.name, asked + 1)

/-- What came of an increment of a table, and the table that is there afterwards. -/
def outcome {H : Type} (table : H) : Except Fault H × Nat → Answer × H
  | (.ok next, asked) => (⟨.ok (), asked⟩, next)
  | (.error fault, asked) => (⟨.error fault, asked⟩, table)

/-- Puts an increment to a table. -/
def serve {H : Type} [HistogramTable H] (table : H) (i : Increment) : Answer × H :=
  outcome table
    ((HistogramTable.increment table i.tgid i.slot i.ask : StateM Nat (Except Fault H)) 0)

/-- The increment, if it succeeded. -/
def success? : Increment × Answer → Option Increment
  | (i, ⟨.ok (), _⟩) => some i
  | (_, ⟨.error _, _⟩) => none

variable {capacity : Nat} {log : List (Increment × Answer)} {i : Increment} {a : Answer}
  {tgid : UInt32} {is : List Increment}

/-- What was counted for a group. -/
def counted (log : List (Increment × Answer)) (tgid : UInt32) : List Increment :=
  (log.filterMap success?).filter (·.tgid = tgid)

/-- The groups for which something was counted. -/
def countedGroups (log : List (Increment × Answer)) : Finset UInt32 :=
  ((log.filterMap success?).map (·.tgid)).toFinset

/-- What an increment is answered after others. -/
def answerTo (capacity : Nat) (log : List (Increment × Answer)) (i : Increment) : Answer :=
  if i.tgid ∈ countedGroups log then ⟨.ok (), 0⟩
  else
    match i.name with
    | .error fault => ⟨.error fault, 1⟩
    | .ok _ =>
      if (countedGroups log).card < capacity then ⟨.ok (), 1⟩ else ⟨.error histogramsFull, 1⟩

theorem mem_countedGroups_iff : tgid ∈ countedGroups log ↔ counted log tgid ≠ [] := by
  rw [countedGroups, List.mem_toFinset, List.mem_map, counted, Ne, List.filter_eq_nil_iff]
  push Not
  simp only [decide_eq_true_eq]

theorem counted_concat_of_error {fault : Fault} (h : a.result = .error fault) (tgid : UInt32) :
    counted (log ++ [(i, a)]) tgid = counted log tgid := by
  obtain ⟨result, asked⟩ := a
  cases h
  simp [counted, success?]

theorem counted_concat_of_ok (h : a.result = .ok ()) (tgid : UInt32) :
    counted (log ++ [(i, a)]) tgid =
      counted log tgid ++ if i.tgid = tgid then [i] else [] := by
  obtain ⟨result, asked⟩ := a
  cases h
  by_cases ht : i.tgid = tgid <;> simp [counted, success?, ht]

theorem countedGroups_concat_of_error {fault : Fault} (h : a.result = .error fault) :
    countedGroups (log ++ [(i, a)]) = countedGroups log := by
  ext tgid
  rw [mem_countedGroups_iff, mem_countedGroups_iff, counted_concat_of_error h]

theorem countedGroups_concat_of_ok (h : a.result = .ok ()) :
    countedGroups (log ++ [(i, a)]) = insert i.tgid (countedGroups log) := by
  ext tgid
  rw [Finset.mem_insert, mem_countedGroups_iff, mem_countedGroups_iff, counted_concat_of_ok h]
  by_cases ht : i.tgid = tgid
  · simp [ht]
  · simp [ht, Ne.symm ht]

/-! ### What a histogram holds -/

/-- A group has a histogram if something was counted for it. Each slot holds how often it was
counted in, the last slot all that is beyond, and the name is that of the first time. -/
def Recorded (is : List Increment) : Option Histogram → Prop
  | none => is = []
  | some histogram =>
    (∀ slot : Fin Limits.slots, histogram.counts.get slot =
      UInt32.ofNat (is.countP fun i => min i.slot (Limits.slots - 1) = slot)) ∧
    ∃ first, is.head? = some first ∧ first.name = .ok histogram.comm

theorem Recorded.eq_nil_iff {histogram : Option Histogram} (h : Recorded is histogram) :
    is = [] ↔ histogram = none := by
  cases histogram with
  | none => exact iff_of_true h rfl
  | some histogram =>
    obtain ⟨-, first, hfirst, -⟩ := h
    refine iff_of_false ?_ (Option.some_ne_none histogram)
    rintro rfl
    cases hfirst

theorem counts_bump_of_count {histogram : Histogram} {slot : Fin Limits.slots}
    (h : histogram.counts.get slot =
      UInt32.ofNat (is.countP fun i => min i.slot (Limits.slots - 1) = slot)) (i : Increment) :
    (histogram.bump i.slot).counts.get slot =
      UInt32.ofNat ((is ++ [i]).countP fun i => min i.slot (Limits.slots - 1) = slot) := by
  have hbump : (histogram.bump i.slot).counts.get slot = histogram.counts.get slot + _ :=
    Histogram.counts_bump histogram i.slot slot
  rw [hbump, h, List.countP_append, List.countP_singleton, UInt32.ofNat_add]
  by_cases hslot : min i.slot (Limits.slots - 1) = slot <;> simp [hslot]

theorem Recorded.bump {histogram : Histogram} (h : Recorded is (some histogram)) (i : Increment) :
    Recorded (is ++ [i]) (some (histogram.bump i.slot)) := by
  obtain ⟨hcounts, first, hfirst, hname⟩ := h
  refine ⟨fun slot => counts_bump_of_count (hcounts slot) i, first, ?_, hname⟩
  rw [List.head?_append, hfirst]
  rfl

theorem recorded_fresh {comm : Comm} (h : i.name = .ok comm) :
    Recorded [i] (some ((Histogram.fresh comm).bump i.slot)) :=
  ⟨fun slot => @counts_bump_of_count [] _ slot (Histogram.counts_fresh comm slot) i, i, rfl, h⟩

/-! ### One increment -/

section Serve

variable {H : Type} [HistogramTable H] {table : H}

theorem serve_of_pure {next : H}
    (h : (HistogramTable.increment table i.tgid i.slot i.ask : StateM Nat _) = pure (.ok next)) :
    serve table i = (⟨.ok (), 0⟩, next) := by
  unfold serve
  rw [h]
  rfl

theorem serve_of_error {fault : Fault} (h : (serve table i).1.result = .error fault) :
    (serve table i).2 = table := by
  unfold serve outcome at h ⊢
  split
  · rename_i heq
    rw [heq] at h
    cases h
  · rfl

/-- A table that asks for the name first is left as it is when there is none. -/
theorem serve_of_asked {place : Comm → Except Fault H}
    (h : (HistogramTable.increment table i.tgid i.slot i.ask : StateM Nat _) = do
      match ← i.ask with
      | .error fault => return .error fault
      | .ok comm => return place comm) :
    serve table i = outcome table (i.name.bind place, 1) := by
  unfold serve
  rw [h]
  show outcome table ((match i.name with
    | .error fault => (return .error fault : StateM Nat (Except Fault H))
    | .ok comm => return place comm) 1) = _
  cases i.name <;> rfl

end Serve

namespace Histograms

variable {histograms : Histograms}

theorem serve_of_some {histogram : Histogram} (h : histograms.get? i.tgid = some histogram) :
    serve histograms i =
      (⟨.ok (), 0⟩, histograms.insert i.tgid (histogram.bump i.slot)) := by
  apply serve_of_pure
  simp only [HistogramTable.increment, Histograms.increment, h]

theorem serve_of_none (h : histograms.get? i.tgid = none) :
    serve histograms i = outcome histograms (i.name.bind fun comm =>
      if histograms.size < histograms.capacity then
        .ok (histograms.insert i.tgid ((Histogram.fresh comm).bump i.slot))
      else .error histogramsFull, 1) := by
  apply serve_of_asked
  simp only [HistogramTable.increment, Histograms.increment, h]
  refine congrArg (i.ask >>= ·) (funext fun answer => ?_)
  cases answer with
  | error fault => rfl
  | ok comm =>
    simp only [ge_iff_le, ← Nat.not_lt, ite_not]
    split <;> rfl

/-- A set of histograms goes by what was asked of it and how that was answered. -/
structure Faithful (capacity : Nat) (log : List (Increment × Answer)) (histograms : Histograms) :
    Prop where
  capacity_eq : histograms.capacity = capacity
  recorded : ∀ tgid, Recorded (counted log tgid) (histograms.get? tgid)
  answered : ∀ {earlier i a later},
    log = earlier ++ (i, a) :: later → a = answerTo capacity earlier i
  card_le : (countedGroups log).card ≤ capacity

namespace Faithful

theorem empty (capacity : Nat) : (empty capacity).Faithful capacity [] where
  capacity_eq := rfl
  recorded := by
    intro tgid
    rw [get?_empty]
    rfl
  answered := by
    intro earlier i a later h
    cases earlier <;> cases h
  card_le := Nat.zero_le _

theorem mem_countedGroups_iff (h : histograms.Faithful capacity log) :
    tgid ∈ countedGroups log ↔ histograms.get? tgid ≠ none :=
  Cpu.mem_countedGroups_iff.trans (not_congr (h.recorded tgid).eq_nil_iff)

theorem mem_tgids_iff (h : histograms.Faithful capacity log) :
    tgid ∈ histograms.tgids ↔ tgid ∈ countedGroups log := by
  rw [h.mem_countedGroups_iff, tgids, Std.TreeMap.mem_keys, Std.TreeMap.mem_iff_isSome_getElem?,
    ← Option.isSome_iff_ne_none, get?]

theorem size_eq (h : histograms.Faithful capacity log) :
    histograms.size = (countedGroups log).card := by
  have hkeys : histograms.tgids.toFinset = countedGroups log := by
    ext tgid
    rw [List.mem_toFinset, h.mem_tgids_iff]
  rw [← hkeys, tgids, List.toFinset_card_of_nodup Std.TreeMap.nodup_keys, Std.TreeMap.length_keys]
  rfl

/-- What the last increment was answered is the only answer that is new. -/
theorem answered_concat (h : histograms.Faithful capacity log) (ha : a = answerTo capacity log i)
    {earlier later : List (Increment × Answer)} {j : Increment} {b : Answer}
    (hsplit : log ++ [(i, a)] = earlier ++ (j, b) :: later) : b = answerTo capacity earlier j := by
  rcases List.eq_nil_or_concat later with rfl | ⟨later, last, rfl⟩
  · obtain ⟨rfl, hlast⟩ := List.append_inj' hsplit rfl
    cases hlast
    exact ha
  · rw [List.concat_eq_append, ← List.cons_append, ← List.append_assoc] at hsplit
    exact h.answered (List.append_inj' hsplit rfl).1

/-- An increment that fails changes nothing. -/
theorem refused (h : histograms.Faithful capacity log) {fault : Fault}
    (hfault : a.result = .error fault) (ha : a = answerTo capacity log i) :
    histograms.Faithful capacity (log ++ [(i, a)]) where
  capacity_eq := h.capacity_eq
  recorded tgid := by
    rw [counted_concat_of_error hfault]
    exact h.recorded tgid
  answered := h.answered_concat ha
  card_le := by
    rw [countedGroups_concat_of_error hfault]
    exact h.card_le

theorem accepted (h : histograms.Faithful capacity log) (hok : a.result = .ok ())
    (ha : a = answerTo capacity log i) {histogram : Histogram}
    (hrecorded : Recorded (counted log i.tgid ++ [i]) (some histogram))
    (hroom : (countedGroups (log ++ [(i, a)])).card ≤ capacity) :
    (histograms.insert i.tgid histogram).Faithful capacity (log ++ [(i, a)]) where
  capacity_eq := h.capacity_eq
  recorded tgid := by
    rw [counted_concat_of_ok hok, get?_insert]
    by_cases ht : tgid = i.tgid
    · rw [if_pos ht, if_pos ht.symm, ht]
      exact hrecorded
    · rw [if_neg ht, if_neg (Ne.symm ht), List.append_nil]
      exact h.recorded tgid
  answered := h.answered_concat ha
  card_le := hroom

theorem step (h : histograms.Faithful capacity log) (i : Increment) :
    (serve histograms i).2.Faithful capacity (log ++ [(i, (serve histograms i).1)]) := by
  have hrecorded := h.recorded i.tgid
  cases hget : histograms.get? i.tgid with
  | some histogram =>
    rw [hget] at hrecorded
    have hmem : i.tgid ∈ countedGroups log :=
      h.mem_countedGroups_iff.2 (hget ▸ Option.some_ne_none histogram)
    rw [serve_of_some hget]
    refine h.accepted rfl ?_ (hrecorded.bump i) ?_
    · rw [answerTo, if_pos hmem]
    · rw [countedGroups_concat_of_ok rfl, Finset.insert_eq_of_mem hmem]
      exact h.card_le
  | none =>
    rw [hget] at hrecorded
    have hmem : i.tgid ∉ countedGroups log := fun hm => h.mem_countedGroups_iff.1 hm hget
    rw [serve_of_none hget, h.size_eq, h.capacity_eq]
    cases hname : i.name with
    | error fault => exact h.refused rfl (by simp only [answerTo, if_neg hmem, hname]; rfl)
    | ok comm =>
      by_cases hroom : (countedGroups log).card < capacity
      · simp only [Except.bind, if_pos hroom]
        refine h.accepted rfl ?_ ?_ ?_
        · simp only [answerTo, if_neg hmem, hname, if_pos hroom]
          rfl
        · rw [show counted log i.tgid = [] from hrecorded]
          exact recorded_fresh hname
        · rw [countedGroups_concat_of_ok rfl, Finset.card_insert_of_notMem hmem]
          exact hroom
      · simp only [Except.bind, if_neg hroom]
        exact h.refused rfl (by simp only [answerTo, if_neg hmem, hname, if_neg hroom]; rfl)

theorem run (capacity : Nat) (increments : List Increment) :
    (Store.transcript serve (Histograms.empty capacity) increments).2.Faithful capacity
      (Store.transcript serve (Histograms.empty capacity) increments).1 :=
  Store.transcript_keeps (fun i h => h.step i) (Faithful.empty capacity) increments

end Faithful

theorem tgids_ascending (histograms : Histograms) : histograms.tgids.Pairwise (· < ·) :=
  Std.TreeMap.ordered_keys.imp fun h => Std.compare_eq_lt.1 h

end Histograms

end HookTrace.Cpu
