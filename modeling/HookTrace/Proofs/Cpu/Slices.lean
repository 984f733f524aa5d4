import HookTrace.Cpu.Switch

/-!
# HookTrace.Proofs.Cpu.Slices

The slices that threads get on a processor, told from the context switches alone. Switches are
numbered from zero, the earliest first.

* `Slice`: one switch ends the slice that an earlier one began.
* `Runs`: a thread is still in the slice that a switch began.
* `Counts`, `tally`: the switches that end a slice of a process which falls into a slot, and how
  many they are.

Each comes with what one more switch does to it (`runs_concat_iff`, `slice_concat_iff`,
`tally_concat`), so that a run is followed switch by switch.
-/

namespace HookTrace.Cpu

/-- A switch from the task `prev` to the task `next`, at the time that `next` has. -/
structure ContextSwitch where
  next : Task
  prev : Task
deriving DecidableEq

namespace ContextSwitch

def now (s : ContextSwitch) : UInt64 :=
  s.next.now

/-- A slice of the thread `pid` begins, and is to be counted. -/
def Begins (scope : Scope) (pid : UInt32) (s : ContextSwitch) : Prop :=
  inScope s.next.tgid s.next.parentTgid scope.target = true ∧ s.next.pid = pid

def Ends (scope : Scope) (pid : UInt32) (s : ContextSwitch) : Prop :=
  inScope s.prev.tgid s.prev.parentTgid scope.target = true ∧ s.prev.pid = pid

instance (scope : Scope) (pid : UInt32) (s : ContextSwitch) : Decidable (s.Begins scope pid) :=
  inferInstanceAs (Decidable (_ ∧ _))

instance (scope : Scope) (pid : UInt32) (s : ContextSwitch) : Decidable (s.Ends scope pid) :=
  inferInstanceAs (Decidable (_ ∧ _))

end ContextSwitch

/-- Switch `i` ends the slice that its outgoing task began with switch `j`. -/
structure Slice (scope : Scope) (switches : List ContextSwitch) (j i : Nat)
    (began ended : ContextSwitch) : Prop where
  le : j ≤ i
  began_eq : switches[j]? = some began
  ended_eq : switches[i]? = some ended
  begins : began.Begins scope ended.prev.pid
  ends : ended.Ends scope ended.prev.pid
  /-- It is the latest slice of the thread. -/
  latest : ∀ k s, j < k → k ≤ i → switches[k]? = some s → ¬ s.Begins scope ended.prev.pid
  /-- It has not ended before. -/
  unended : ∀ k s, j ≤ k → k < i → switches[k]? = some s → ¬ s.Ends scope ended.prev.pid
  lt : began.now < ended.now

/-- The slot of the slice between two switches: the binary logarithm of its milliseconds, rounded
down, or the last slot. -/
def slotBetween (began ended : ContextSwitch) : Nat :=
  min (Limits.slots - 1) (Nat.log2 (max 1 ((ended.now.toNat - began.now.toNat) / 1000000)))

/-- Switch `i` ends a slice of the process `tgid` that falls into `slot`. -/
def Counts (scope : Scope) (switches : List ContextSwitch) (tgid : UInt32) (slot i : Nat) : Prop :=
  ∃ j began ended, Slice scope switches j i began ended ∧
    ended.prev.tgid = tgid ∧ slotBetween began ended = slot

section Decidable

variable {scope : Scope} {switches : List ContextSwitch} {j i : Nat} {began ended : ContextSwitch}

theorem slice_iff : Slice scope switches j i began ended ↔
    (j ≤ i ∧ switches[j]? = some began ∧ switches[i]? = some ended ∧
      began.Begins scope ended.prev.pid ∧ ended.Ends scope ended.prev.pid ∧
      began.now < ended.now) ∧
    (∀ k < i + 1, j < k → ∀ s ∈ switches[k]?, ¬ s.Begins scope ended.prev.pid) ∧
    ∀ k < i, j ≤ k → ∀ s ∈ switches[k]?, ¬ s.Ends scope ended.prev.pid := by
  constructor
  · intro h
    exact ⟨⟨h.le, h.began_eq, h.ended_eq, h.begins, h.ends, h.lt⟩,
      fun k hk hj s hs => h.latest k s hj (Nat.le_of_lt_succ hk) hs,
      fun k hk hj s hs => h.unended k s hj hk hs⟩
  · rintro ⟨⟨hle, hbegan, hended, hbegins, hends, hlt⟩, hlatest, hunended⟩
    exact ⟨hle, hbegan, hended, hbegins, hends,
      fun k s hj hk hs => hlatest k (Nat.lt_succ_of_le hk) hj s hs,
      fun k s hj hk hs => hunended k hk hj s hs, hlt⟩

instance : Decidable (Slice scope switches j i began ended) :=
  decidable_of_iff _ slice_iff.symm

instance (tgid : UInt32) (slot : Nat) : Decidable (Counts scope switches tgid slot i) :=
  decidable_of_iff (∃ j < i + 1, ∃ began ∈ switches, ∃ ended ∈ switches,
      Slice scope switches j i began ended ∧ ended.prev.tgid = tgid ∧
        slotBetween began ended = slot) <| by
    constructor
    · rintro ⟨j, -, began, -, ended, -, h⟩
      exact ⟨j, began, ended, h⟩
    · rintro ⟨j, began, ended, h⟩
      exact ⟨j, Nat.lt_succ_of_le h.1.le, began, List.mem_of_getElem? h.1.began_eq,
        ended, List.mem_of_getElem? h.1.ended_eq, h⟩

end Decidable

section Unique

variable {scope : Scope} {switches : List ContextSwitch} {tgid : UInt32}

theorem Slice.unique {j j' i : Nat} {began began' ended ended' : ContextSwitch}
    (h : Slice scope switches j i began ended) (h' : Slice scope switches j' i began' ended') :
    began = began' ∧ ended = ended' := by
  obtain rfl : ended = ended' := Option.some.inj (h.ended_eq.symm.trans h'.ended_eq)
  have hj : j = j' := by
    rcases Nat.lt_trichotomy j j' with hlt | heq | hgt
    · exact absurd h'.begins (h.latest j' began' hlt h'.le h'.began_eq)
    · exact heq
    · exact absurd h.begins (h'.latest j began hgt h.le h.began_eq)
  subst hj
  exact ⟨Option.some.inj (h.began_eq.symm.trans h'.began_eq), rfl⟩

/-- A slice is counted in one slot, for one process. -/
theorem Slice.counts_iff {j i slot : Nat} {began ended : ContextSwitch}
    (h : Slice scope switches j i began ended) :
    Counts scope switches tgid slot i ↔
      ended.prev.tgid = tgid ∧ slotBetween began ended = slot := by
  constructor
  · rintro ⟨j', began', ended', h', htgid, hslot⟩
    obtain ⟨rfl, rfl⟩ := h.unique h'
    exact ⟨htgid, hslot⟩
  · rintro ⟨htgid, hslot⟩
    exact ⟨j, began, ended, h, htgid, hslot⟩

end Unique

/-- How many switches end a slice of the process `tgid` that falls into `slot`. -/
def tally (scope : Scope) (switches : List ContextSwitch) (tgid : UInt32) (slot : Nat) : Nat :=
  (List.range switches.length).countP fun i => Counts scope switches tgid slot i

/-- After all switches, the thread `pid` is in the slice that switch `j` began. -/
structure Runs (scope : Scope) (switches : List ContextSwitch) (pid : UInt32) (j : Nat)
    (began : ContextSwitch) : Prop where
  began_eq : switches[j]? = some began
  begins : began.Begins scope pid
  latest : ∀ k s, j < k → switches[k]? = some s → ¬ s.Begins scope pid
  unended : ∀ k s, j ≤ k → switches[k]? = some s → ¬ s.Ends scope pid

section Concat

variable {scope : Scope} {switches : List ContextSwitch} {s : ContextSwitch} {pid : UInt32}
variable {j i : Nat} {began ended : ContextSwitch} {tgid : UInt32}

theorem lt_of_getElem? {α : Type} {xs : List α} {k : Nat} {a : α} (h : xs[k]? = some a) :
    k < xs.length :=
  (List.getElem?_eq_some_iff.1 h).1

/-- The switches of a longer run: those before, and the last one. -/
theorem getElem?_concat_iff {α : Type} {xs : List α} {x a : α} {k : Nat} :
    (xs ++ [x])[k]? = some a ↔ xs[k]? = some a ∨ k = xs.length ∧ x = a := by
  rcases Nat.lt_or_ge k xs.length with hlt | hge
  · rw [List.getElem?_append_left hlt]
    constructor
    · exact Or.inl
    · rintro (h | ⟨rfl, -⟩)
      · exact h
      · exact absurd hlt (Nat.lt_irrefl _)
  · rw [List.getElem?_append_right hge, List.getElem?_eq_none hge, List.getElem?_singleton]
    by_cases hk : k = xs.length
    · simp [hk]
    · rw [if_neg (by omega)]
      simp [hk]

theorem not_runs_nil : ¬ Runs scope [] pid j began := fun h => by
  cases h.began_eq

/-- A thread runs after one more switch if that did not end its slice, and began a slice of it or
left it running. -/
theorem runs_concat_iff : Runs scope (switches ++ [s]) pid j began ↔
    ¬ s.Ends scope pid ∧ (s.Begins scope pid ∧ j = switches.length ∧ began = s ∨
      ¬ s.Begins scope pid ∧ Runs scope switches pid j began) := by
  have hlast : (switches ++ [s])[switches.length]? = some s := List.getElem?_concat_length
  constructor
  · intro h
    have hj : j ≤ switches.length := by
      have hlt := lt_of_getElem? h.began_eq
      rw [List.length_append, List.length_singleton] at hlt
      omega
    refine ⟨h.unended _ s hj hlast, ?_⟩
    rcases getElem?_concat_iff.1 h.began_eq with hbegan | ⟨rfl, rfl⟩
    · refine .inr ⟨h.latest _ s (lt_of_getElem? hbegan) hlast, hbegan, h.begins, ?_, ?_⟩
      · exact fun k s hk hs => h.latest k s hk (getElem?_concat_iff.2 (.inl hs))
      · exact fun k s hk hs => h.unended k s hk (getElem?_concat_iff.2 (.inl hs))
    · exact .inl ⟨h.begins, rfl, rfl⟩
  · rintro ⟨hends, ⟨hbegins, rfl, rfl⟩ | ⟨hbegins, h⟩⟩
    · refine ⟨hlast, hbegins, ?_, ?_⟩
      · intro k s hk hs
        rcases getElem?_concat_iff.1 hs with hs | ⟨rfl, -⟩
        · exact absurd (lt_of_getElem? hs) (Nat.lt_asymm hk)
        · exact absurd hk (Nat.lt_irrefl _)
      · intro k s hk hs
        rcases getElem?_concat_iff.1 hs with hs | ⟨-, rfl⟩
        · exact absurd (lt_of_getElem? hs) (Nat.not_lt.2 hk)
        · exact hends
    · refine ⟨getElem?_concat_iff.2 (.inl h.began_eq), h.begins, ?_, ?_⟩
      · intro k s hk hs
        rcases getElem?_concat_iff.1 hs with hs | ⟨-, rfl⟩
        · exact h.latest k s hk hs
        · exact hbegins
      · intro k s hk hs
        rcases getElem?_concat_iff.1 hs with hs | ⟨-, rfl⟩
        · exact h.unended k s hk hs
        · exact hends

/-- Which slices have ended does not change any more. -/
theorem slice_concat_iff_of_lt (hi : i < switches.length) :
    Slice scope (switches ++ [s]) j i began ended ↔ Slice scope switches j i began ended := by
  have heq : ∀ k ≤ i, (switches ++ [s])[k]? = switches[k]? := fun k hk =>
    List.getElem?_append_left (Nat.lt_of_le_of_lt hk hi)
  constructor
  · intro h
    exact ⟨h.le, heq j h.le ▸ h.began_eq, heq i (Nat.le_refl i) ▸ h.ended_eq, h.begins, h.ends,
      fun k s hj hk hs => h.latest k s hj hk ((heq k hk).trans hs),
      fun k s hj hk hs => h.unended k s hj hk ((heq k (Nat.le_of_lt hk)).trans hs), h.lt⟩
  · intro h
    exact ⟨h.le, (heq j h.le).trans h.began_eq, (heq i (Nat.le_refl i)).trans h.ended_eq,
      h.begins, h.ends,
      fun k s hj hk hs => h.latest k s hj hk ((heq k hk).symm.trans hs),
      fun k s hj hk hs => h.unended k s hj hk ((heq k (Nat.le_of_lt hk)).symm.trans hs), h.lt⟩

/-- The last switch ends the slice that its outgoing task was in. A slice it has begun itself takes
no time. -/
theorem slice_concat_iff : Slice scope (switches ++ [s]) j switches.length began ended ↔
    ended = s ∧ s.Ends scope s.prev.pid ∧ ¬ s.Begins scope s.prev.pid ∧
      Runs scope switches s.prev.pid j began ∧ began.now < s.now := by
  have hlast : (switches ++ [s])[switches.length]? = some s := List.getElem?_concat_length
  constructor
  · intro h
    obtain rfl : s = ended := Option.some.inj (hlast.symm.trans h.ended_eq)
    rcases getElem?_concat_iff.1 h.began_eq with hbegan | ⟨-, rfl⟩
    · have hj := lt_of_getElem? hbegan
      refine ⟨rfl, h.ends, h.latest _ s hj (Nat.le_refl _) hlast, ⟨hbegan, h.begins, ?_, ?_⟩, h.lt⟩
      · exact fun k s hk hs => h.latest k s hk (Nat.le_of_lt (lt_of_getElem? hs))
          (getElem?_concat_iff.2 (.inl hs))
      · exact fun k s hk hs => h.unended k s hk (lt_of_getElem? hs)
          (getElem?_concat_iff.2 (.inl hs))
    · exact absurd h.lt (UInt64.lt_irrefl _)
  · rintro ⟨rfl, hends, hbegins, h, hlt⟩
    have hj := lt_of_getElem? h.began_eq
    refine ⟨Nat.le_of_lt hj, getElem?_concat_iff.2 (.inl h.began_eq), hlast, h.begins, hends,
      ?_, ?_, hlt⟩
    · intro k s hk _ hs
      rcases getElem?_concat_iff.1 hs with hs | ⟨-, rfl⟩
      · exact h.latest k s hk hs
      · exact hbegins
    · intro k s hj hk hs
      rcases getElem?_concat_iff.1 hs with hs | ⟨rfl, -⟩
      · exact h.unended k s hj hs
      · exact absurd hk (Nat.lt_irrefl _)

theorem counts_concat_iff_of_lt {slot : Nat} (hi : i < switches.length) :
    Counts scope (switches ++ [s]) tgid slot i ↔ Counts scope switches tgid slot i := by
  simp only [Counts, slice_concat_iff_of_lt hi]

theorem lt_of_counts {slot i : Nat} (h : Counts scope switches tgid slot i) :
    i < switches.length := by
  obtain ⟨_, _, _, h, -⟩ := h
  exact lt_of_getElem? h.ended_eq

/-- Which switches of a longer run are counted: those before, and perhaps the last. -/
theorem counts_concat_iff {slot i : Nat} : Counts scope (switches ++ [s]) tgid slot i ↔
    Counts scope switches tgid slot i ∨
      i = switches.length ∧ Counts scope (switches ++ [s]) tgid slot i := by
  constructor
  · intro h
    have hi := lt_of_counts h
    rw [List.length_append, List.length_singleton] at hi
    rcases Nat.lt_or_eq_of_le (Nat.le_of_lt_succ hi) with hlt | heq
    · exact .inl ((counts_concat_iff_of_lt hlt).1 h)
    · exact .inr ⟨heq, h⟩
  · rintro (h | ⟨-, h⟩)
    · exact (counts_concat_iff_of_lt (lt_of_counts h)).2 h
    · exact h

theorem first_concat {j i : Nat} {began ended : ContextSwitch}
    (h : Slice scope switches j i began ended)
    (hfirst : ∀ k < i, ∀ slot, ¬ Counts scope switches tgid slot k) :
    Slice scope (switches ++ [s]) j i began ended ∧
      ∀ k < i, ∀ slot, ¬ Counts scope (switches ++ [s]) tgid slot k := by
  have hi := lt_of_getElem? h.ended_eq
  refine ⟨(slice_concat_iff_of_lt hi).2 h, fun k hk slot hc => hfirst k hk slot ?_⟩
  exact (counts_concat_iff_of_lt (Nat.lt_trans hk hi)).1 hc

theorem tally_concat (tgid : UInt32) (slot : Nat) :
    tally scope (switches ++ [s]) tgid slot = tally scope switches tgid slot +
      if Counts scope (switches ++ [s]) tgid slot switches.length then 1 else 0 := by
  unfold tally
  rw [List.length_append, List.length_singleton, List.range_succ, List.countP_append,
    List.countP_singleton]
  congr 1
  · refine List.countP_congr fun i hi => ?_
    simp only [decide_eq_true_eq, counts_concat_iff_of_lt (List.mem_range.1 hi)]
  · simp only [decide_eq_true_eq]

end Concat

end HookTrace.Cpu
