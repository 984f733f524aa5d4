import HookTrace.Proofs.Settlement
import HookTrace.Proofs.Store.Requests
import Mathlib.Data.List.Perm.Basic

/-!
# HookTrace.Proofs.Store.Holding

A channel whose slots are held for a while. Whoever uses it reserves slots, writes into those that
are held, and ends them in any order, each by a commit, by discarding it or by dropping it.
Reservations are numbered, and a log keeps every use with its reply.

`Accounts`: the log accounts for the slots. Every reservation has a number of its own, its slot is
held or has ended once, on the processor that it was made for, and its record is what was written
into it, over zeros. Every use keeps the account, of any channel that clears its records
(`Accounts.of_served`); when a slot can be had is the channel's own business.
-/

namespace HookTrace.Store

variable {S ρ : Type}

/-- A channel and the slots of it that are held, with the numbers of their reservations. -/
structure Holding (S ρ : Type) where
  sink : S
  held : List (Nat × Slot ρ) := []
  /-- How many reservations were made. -/
  made : Nat := 0

namespace Holding

/-- What is asked of a channel. A slot goes by the number of its reservation, counted from zero. -/
inductive Use (ρ : Type) where
  | reserve (cpu : Nat)
  | write (id : Nat) (change : ρ → ρ)
  | commit (id : Nat)
  | discard (id : Nat)
  /-- The holder of a slot leaves without having ended it. -/
  | drop (id : Nat)

inductive Reply (ρ : Type) where
  | refused
  | reserved (id : Nat) (slot : Slot ρ)
  | written
  | committed (slot : Slot ρ)
  | released (slot : Slot ρ)
  /-- No slot of that number is held. -/
  | absent

def slot? (u : Holding S ρ) (id : Nat) : Option (Slot ρ) :=
  u.held.lookup id

/-- The processors of the slots that are held. -/
def cpus (u : Holding S ρ) : List Nat :=
  u.held.map (·.2.cpu)

def without (u : Holding S ρ) (id : Nat) : List (Nat × Slot ρ) :=
  u.held.filter (·.1 ≠ id)

def rewrite (id : Nat) (change : ρ → ρ) (e : Nat × Slot ρ) : Nat × Slot ρ :=
  if e.1 = id then (e.1, { e.2 with record := change e.2.record }) else e

theorem cpus_rewrite (u : Holding S ρ) (id : Nat) (change : ρ → ρ) :
    ({ u with held := u.held.map (rewrite id change) } : Holding S ρ).cpus = u.cpus := by
  unfold cpus
  rw [List.map_map]
  refine List.map_congr_left fun e _ => ?_
  simp only [Function.comp_apply, rewrite]
  split <;> rfl

abbrev Log (ρ : Type) := List (Use ρ × Reply ρ)

section Serve

variable [RecordSink S ρ]

def serve (u : Holding S ρ) : Use ρ → Reply ρ × Holding S ρ
  | .reserve cpu =>
    match RecordSink.reserve u.sink cpu with
    | none => (.refused, u)
    | some (slot, sink) => (.reserved u.made slot, ⟨sink, u.held ++ [(u.made, slot)], u.made + 1⟩)
  | .write id change =>
    match u.slot? id with
    | none => (.absent, u)
    | some _ => (.written, { u with held := u.held.map (rewrite id change) })
  | .commit id =>
    match u.slot? id with
    | none => (.absent, u)
    | some slot =>
      (.committed slot, { u with
        sink := (RecordSink.commit u.sink slot).1
        held := u.without id })
  | .discard id | .drop id =>
    match u.slot? id with
    | none => (.absent, u)
    | some slot =>
      (.released slot, { u with
        sink := RecordSink.release u.sink slot
        held := u.without id })

/-- All uses of a channel none of whose slots is held yet, with their replies, and what they
leave. -/
def run (sink : S) (uses : List (Use ρ)) : Log ρ × Holding S ρ :=
  transcript serve ⟨sink, [], 0⟩ uses

/-- What may come of a use. -/
inductive Served (u : Holding S ρ) : Use ρ → Reply ρ × Holding S ρ → Prop where
  | turned_down (use : Use ρ) {reply : Reply ρ} (hreply : reply = .refused ∨ reply = .absent) :
    Served u use (reply, u)
  | reserved {cpu : Nat} {slot : Slot ρ} {sink : S}
    (hreserve : RecordSink.reserve u.sink cpu = some (slot, sink)) :
    Served u (.reserve cpu)
      (.reserved u.made slot, ⟨sink, u.held ++ [(u.made, slot)], u.made + 1⟩)
  | written {e : Nat × Slot ρ} (he : e ∈ u.held) (change : ρ → ρ) :
    Served u (.write e.1 change) (.written, { u with held := u.held.map (rewrite e.1 change) })
  | committed {e : Nat × Slot ρ} (he : e ∈ u.held) :
    Served u (.commit e.1) (.committed e.2, { u with
      sink := (RecordSink.commit u.sink e.2).1
      held := u.without e.1 })
  | released {e : Nat × Slot ρ} (he : e ∈ u.held) {use : Use ρ}
    (huse : use = .discard e.1 ∨ use = .drop e.1) :
    Served u use (.released e.2, { u with
      sink := RecordSink.release u.sink e.2
      held := u.without e.1 })

omit [RecordSink S ρ] in
/-- A slot that is found by its number is one of those held. -/
theorem mem_of_slot? {u : Holding S ρ} {id : Nat} {slot : Slot ρ} (hslot : u.slot? id = some slot) :
    (id, slot) ∈ u.held := by
  obtain ⟨before, after, hheld, -⟩ := List.lookup_eq_some_iff.1 hslot
  exact hheld ▸ List.mem_append_right _ List.mem_cons_self

theorem served (u : Holding S ρ) (use : Use ρ) : Served u use (u.serve use) := by
  cases use with
  | reserve cpu =>
    simp only [serve]
    cases hreserve : RecordSink.reserve u.sink cpu with
    | none => exact .turned_down _ (.inl rfl)
    | some reserved => exact .reserved hreserve
  | write id change =>
    simp only [serve]
    cases hslot : u.slot? id with
    | none => exact .turned_down _ (.inr rfl)
    | some slot => exact .written (mem_of_slot? hslot) change
  | commit id =>
    simp only [serve]
    cases hslot : u.slot? id with
    | none => exact .turned_down _ (.inr rfl)
    | some slot => exact .committed (mem_of_slot? hslot)
  | discard id =>
    simp only [serve]
    cases hslot : u.slot? id with
    | none => exact .turned_down _ (.inr rfl)
    | some slot => exact .released (mem_of_slot? hslot) (.inl rfl)
  | drop id =>
    simp only [serve]
    cases hslot : u.slot? id with
    | none => exact .turned_down _ (.inr rfl)
    | some slot => exact .released (mem_of_slot? hslot) (.inr rfl)

end Serve

/-! ### What a log tells -/

def reservation? : Use ρ × Reply ρ → Option (Nat × Slot ρ)
  | (.reserve _, .reserved id slot) => some (id, slot)
  | _ => none

def commitment? : Use ρ × Reply ρ → Option (Nat × Slot ρ)
  | (.commit id, .committed slot) => some (id, slot)
  | _ => none

def release? : Use ρ × Reply ρ → Option (Nat × Slot ρ)
  | (.discard id, .released slot) | (.drop id, .released slot) => some (id, slot)
  | _ => none

def change? (id : Nat) : Use ρ × Reply ρ → Option (ρ → ρ)
  | (.write id' change, .written) => if id' = id then some change else none
  | _ => none

theorem commitment?_of_turned_down (use : Use ρ) {reply : Reply ρ}
    (hreply : reply = .refused ∨ reply = .absent) : commitment? (use, reply) = none := by
  rcases hreply with rfl | rfl <;> cases use <;> rfl

theorem commitment?_of_released {use : Use ρ} {e : Nat × Slot ρ}
    (huse : use = .discard e.1 ∨ use = .drop e.1) : commitment? (use, .released e.2) = none := by
  rcases huse with rfl | rfl <;> rfl

namespace Log

/-- The slots that were reserved, the oldest first. -/
def reserved (log : Log ρ) : List (Nat × Slot ρ) :=
  log.filterMap reservation?

/-- The slots that were committed, as they were then, the oldest first. -/
def committed (log : Log ρ) : List (Nat × Slot ρ) :=
  log.filterMap commitment?

/-- The slots that were discarded or dropped. -/
def released (log : Log ρ) : List (Nat × Slot ρ) :=
  log.filterMap release?

/-- What was written into the slot of a number, over zeros. -/
def content [Layout ρ] (log : Log ρ) (id : Nat) : ρ :=
  (log.filterMap (change? id)).foldl (fun record change => change record) Layout.zero

variable (log : Log ρ) (e : Use ρ × Reply ρ)

theorem reserved_concat : reserved (log ++ [e]) = log.reserved ++ (reservation? e).toList := by
  simp [reserved, List.filterMap_eq_flatMap_toList]

theorem committed_concat : committed (log ++ [e]) = log.committed ++ (commitment? e).toList := by
  simp [committed, List.filterMap_eq_flatMap_toList]

theorem released_concat : released (log ++ [e]) = log.released ++ (release? e).toList := by
  simp [released, List.filterMap_eq_flatMap_toList]

theorem content_concat [Layout ρ] (id : Nat) : content (log ++ [e]) id =
    ((change? id e).getD fun record => record) (log.content id) := by
  unfold content
  rw [List.filterMap_append, List.foldl_append]
  cases hc : change? id e <;> simp [hc]

end Log

/-- The number of a slot and its processor, which stay the same until it ends. -/
def place (e : Nat × Slot ρ) : Nat × Nat :=
  (e.1, e.2.cpu)

/-- `u` is what the uses in `log` have left of a channel. -/
structure Accounts [Layout ρ] (log : Log ρ) (u : Holding S ρ) : Prop where
  numbered : log.reserved.map Prod.fst = List.range u.made
  ended : (log.reserved.map place).Perm ((log.committed ++ log.released ++ u.held).map place)
  content_eq : ∀ e ∈ log.committed ++ u.held, e.2.record = log.content e.1
  unwritten : ∀ id, u.made ≤ id → log.content id = Layout.zero

namespace Accounts

variable [Layout ρ] {log : Log ρ} {u : Holding S ρ}

theorem empty (sink : S) : Accounts [] (⟨sink, [], 0⟩ : Holding S ρ) where
  numbered := rfl
  ended := .refl _
  content_eq := by simp [Log.committed]
  unwritten := by simp [Log.content]

/-- The number of a slot that is held was never that of another, or of one that has ended. -/
theorem nodup (h : Accounts log u) :
    ((log.committed ++ log.released ++ u.held).map Prod.fst).Nodup := by
  have hperm := h.ended.map Prod.fst
  simp only [List.map_map, place, Function.comp_def] at hperm
  exact hperm.nodup_iff.1 (h.numbered ▸ List.nodup_range)

theorem nodup_held (h : Accounts log u) : (u.held.map Prod.fst).Nodup := by
  have hall := h.nodup
  rw [List.map_append] at hall
  exact (List.nodup_append.1 hall).2.1

theorem lt_made (h : Accounts log u) {e : Nat × Slot ρ} (he : e ∈ u.held) : e.1 < u.made := by
  have hmem : place e ∈ log.reserved.map place :=
    h.ended.mem_iff.2 (List.mem_map_of_mem (List.mem_append_right _ he))
  obtain ⟨reserved, hreserved, hplace⟩ := List.mem_map.1 hmem
  have hid : reserved.1 = e.1 := (Prod.ext_iff.1 hplace).1
  have hrange := List.mem_map_of_mem (f := Prod.fst) hreserved
  rw [h.numbered, hid] at hrange
  exact List.mem_range.1 hrange

theorem ne_of_committed (h : Accounts log u) {e sent : Nat × Slot ρ} (he : e ∈ u.held)
    (hsent : sent ∈ log.committed) : sent.1 ≠ e.1 := by
  have hall := h.nodup
  rw [List.map_append] at hall
  exact (List.nodup_append.1 hall).2.2 sent.1
    (List.mem_map_of_mem (List.mem_append_left _ hsent)) e.1 (List.mem_map_of_mem he)

/-- A slot that ends leaves the others. -/
theorem split_of_mem (h : Accounts log u) {e : Nat × Slot ρ} (he : e ∈ u.held) :
    ∃ before after, u.held = before ++ e :: after ∧ u.without e.1 = before ++ after := by
  obtain ⟨before, after, hheld⟩ := List.append_of_mem he
  have hids := h.nodup_held
  rw [hheld, List.map_append, List.map_cons, List.nodup_append] at hids
  obtain ⟨-, hafter, hbefore⟩ := hids
  refine ⟨before, after, hheld, ?_⟩
  have hkeep : ∀ part : List (Nat × Slot ρ), (∀ other ∈ part, other.1 ≠ e.1) →
      part.filter (·.1 ≠ e.1) = part := fun part hpart =>
    List.filter_eq_self.2 fun other hother => by simpa using hpart other hother
  unfold without
  rw [hheld, List.filter_append, List.filter_cons_of_neg (by simp), hkeep before, hkeep after]
  · intro other hother heq
    have hmem : other.1 ∈ after.map Prod.fst := List.mem_map_of_mem hother
    exact (List.nodup_cons.1 hafter).1 (heq ▸ hmem)
  · intro other hother
    exact hbefore other.1 (List.mem_map_of_mem hother) e.1 List.mem_cons_self

/-- A slot that is held is found by its number. -/
theorem slot?_of_mem (h : Accounts log u) {e : Nat × Slot ρ} (he : e ∈ u.held) :
    u.slot? e.1 = some e.2 := by
  cases hslot : u.slot? e.1 with
  | none =>
    have hnone := List.lookup_eq_none_iff.1 hslot e he
    simp at hnone
  | some slot =>
    have heq : e = (e.1, slot) := List.inj_on_of_nodup_map h.nodup_held he (mem_of_slot? hslot) rfl
    rw [heq]

/-- One more entry in the log: the slots that it ends or leaves are those held before, and the one it
reserves. -/
theorem concat (h : Accounts log u) {e : Use ρ × Reply ρ} {u' : Holding S ρ}
    (hnumbered : List.range u.made ++ (reservation? e).toList.map Prod.fst = List.range u'.made)
    (hended : ((u.held ++ (reservation? e).toList).map place).Perm
      (((commitment? e).toList ++ (release? e).toList ++ u'.held).map place))
    (hchange : ∀ sent ∈ log.committed, change? sent.1 e = none)
    (hcontent : ∀ f ∈ (commitment? e).toList ++ u'.held,
      f.2.record = Log.content (log ++ [e]) f.1)
    (hunwritten : ∀ id, u'.made ≤ id → u.made ≤ id ∧ change? id e = none) :
    Accounts (log ++ [e]) u' where
  numbered := by rw [Log.reserved_concat, List.map_append, h.numbered, hnumbered]
  ended := by
    have hbefore := List.perm_iff_count.1 h.ended
    have hnow := List.perm_iff_count.1 hended
    refine List.perm_iff_count.2 fun a => ?_
    have hbefore := hbefore a
    have hnow := hnow a
    rw [Log.reserved_concat, Log.committed_concat, Log.released_concat]
    simp only [List.map_append, List.count_append] at hbefore hnow ⊢
    omega
  content_eq := by
    intro f hf
    rw [Log.committed_concat, List.append_assoc] at hf
    rcases List.mem_append.1 hf with hsent | hf
    · rw [Log.content_concat, hchange f hsent]
      exact h.content_eq f (List.mem_append_left _ hsent)
    · exact hcontent f hf
  unwritten := by
    intro id hid
    obtain ⟨hmade, hnone⟩ := hunwritten id hid
    rw [Log.content_concat, hnone]
    exact h.unwritten id hmade

/-- A use that is turned down leaves everything as it is. -/
theorem turned_down (h : Accounts log u) (use : Use ρ) {reply : Reply ρ}
    (hreply : reply = .refused ∨ reply = .absent) : Accounts (log ++ [(use, reply)]) u := by
  have hreservation : reservation? (use, reply) = none := by
    rcases hreply with rfl | rfl <;> cases use <;> rfl
  have hcommitment := commitment?_of_turned_down use hreply
  have hrelease : release? (use, reply) = none := by
    rcases hreply with rfl | rfl <;> cases use <;> rfl
  have hchange : ∀ id, change? id (use, reply) = none := by
    intro id
    rcases hreply with rfl | rfl <;> cases use <;> rfl
  refine h.concat ?_ ?_ (fun sent _ => hchange sent.1) ?_ fun id hid => ⟨hid, hchange id⟩
  · simp [hreservation]
  · simp [hreservation, hcommitment, hrelease]
  · intro f hf
    rw [hcommitment] at hf
    rw [Log.content_concat, hchange f.1]
    exact h.content_eq f (List.mem_append_right _ hf)

theorem reserved (h : Accounts log u) (cpu : Nat) {slot : Slot ρ} (hblank : slot.record = Layout.zero)
    (sink : S) : Accounts (log ++ [(.reserve cpu, .reserved u.made slot)])
      (⟨sink, u.held ++ [(u.made, slot)], u.made + 1⟩ : Holding S ρ) := by
  refine h.concat List.range_succ.symm (.refl _) (fun _ _ => rfl) ?_
    fun id hid => ⟨Nat.le_of_succ_le hid, rfl⟩
  intro f hf
  rw [Log.content_concat]
  have hf : f ∈ u.held ++ [(u.made, slot)] := hf
  rcases List.mem_append.1 hf with hf | hf
  · exact h.content_eq f (List.mem_append_right _ hf)
  · cases List.mem_singleton.1 hf
    exact hblank.trans (h.unwritten u.made (Nat.le_refl _)).symm

theorem written (h : Accounts log u) {e : Nat × Slot ρ} (he : e ∈ u.held) (change : ρ → ρ) :
    Accounts (log ++ [(.write e.1 change, .written)])
      { u with held := u.held.map (rewrite e.1 change) } := by
  have hchange : ∀ id, change? id (.write e.1 change, .written) =
      if e.1 = id then some change else none := fun _ => rfl
  have hplace : ∀ f : Nat × Slot ρ, place (rewrite e.1 change f) = place f := by
    intro f
    unfold rewrite place
    split <;> rfl
  refine h.concat (by simp [reservation?]) ?_ ?_ ?_ ?_
  · simp [reservation?, commitment?, release?, Function.comp_def, hplace]
  · intro sent hsent
    rw [hchange, if_neg (Ne.symm (h.ne_of_committed he hsent))]
  · intro f hf
    obtain ⟨g, hg, rfl⟩ := List.mem_map.1 hf
    have hcontent := h.content_eq g (List.mem_append_right _ hg)
    have hid : (rewrite e.1 change g).1 = g.1 := (Prod.ext_iff.1 (hplace g)).1
    rw [Log.content_concat, hid, hchange]
    unfold rewrite
    by_cases hsame : g.1 = e.1
    · simp [hsame, hcontent]
    · simp [hsame, Ne.symm hsame, hcontent]
  · intro id hid
    have hlt := h.lt_made he
    exact ⟨hid, by rw [hchange, if_neg (Nat.ne_of_lt (Nat.lt_of_lt_of_le hlt hid))]⟩

/-- A slot ends, by a commit of what was written into it or by being given up. -/
theorem ended_one (h : Accounts log u) {e : Nat × Slot ρ} (he : e ∈ u.held) (sink : S)
    {entry : Use ρ × Reply ρ} (hentry : entry = (.commit e.1, .committed e.2) ∨
      entry = (.discard e.1, .released e.2) ∨ entry = (.drop e.1, .released e.2)) :
    Accounts (log ++ [entry]) { u with sink, held := u.without e.1 } := by
  obtain ⟨before, after, hheld, hwithout⟩ := h.split_of_mem he
  have hreservation : reservation? entry = none := by
    rcases hentry with rfl | rfl | rfl <;> rfl
  have hended : (commitment? entry).toList ++ (release? entry).toList = [e] := by
    rcases hentry with rfl | rfl | rfl <;> rfl
  have hchange : ∀ id, change? id entry = none := by
    intro id
    rcases hentry with rfl | rfl | rfl <;> rfl
  refine h.concat ?_ ?_ (fun sent _ => hchange sent.1) ?_ fun id hid => ⟨hid, hchange id⟩
  · simp [hreservation]
  · rw [hreservation, hended, hheld, hwithout]
    simp only [Option.toList_none, List.append_nil]
    exact List.perm_middle.map place
  · intro f hf
    rw [Log.content_concat, hchange f.1]
    refine h.content_eq f (List.mem_append_right _ ?_)
    rcases List.mem_append.1 hf with hf | hf
    · have hmem : f ∈ [e] := hended ▸ List.mem_append_left _ hf
      exact List.mem_singleton.1 hmem ▸ he
    · exact (List.mem_filter.1 hf).1

section Serve

variable [RecordSink S ρ]

/-- What is asked of a slot that is held is done. -/
theorem serve_of_mem (h : Accounts log u) {e : Nat × Slot ρ} (he : e ∈ u.held) :
    (∀ change, u.serve (.write e.1 change) =
      (.written, { u with held := u.held.map (rewrite e.1 change) })) ∧
    u.serve (.commit e.1) = (.committed e.2, { u with
      sink := (RecordSink.commit u.sink e.2).1
      held := u.without e.1 }) ∧
    ∀ use, use = .discard e.1 ∨ use = .drop e.1 → u.serve use = (.released e.2, { u with
      sink := RecordSink.release u.sink e.2
      held := u.without e.1 }) := by
  have hslot := h.slot?_of_mem he
  refine ⟨fun change => ?_, ?_, ?_⟩
  · simp only [Holding.serve, hslot]
  · simp only [Holding.serve, hslot]
  · rintro use (rfl | rfl) <;> simp only [Holding.serve, hslot]

theorem of_served (hclears : RecordSink.Clears S) (h : Accounts log u) {use : Use ρ}
    {result : Reply ρ × Holding S ρ} (hserved : Served u use result) :
    Accounts (log ++ [(use, result.1)]) result.2 := by
  cases hserved with
  | turned_down use hreply => exact h.turned_down use hreply
  | reserved hreserve =>
    exact h.reserved _ (congrArg Slot.record (hclears _ _ _ _ hreserve)) _
  | written he change => exact h.written he change
  | committed he => exact h.ended_one he _ (.inl rfl)
  | released he huse =>
    refine h.ended_one he _ (.inr ?_)
    rcases huse with rfl | rfl
    · exact .inl rfl
    · exact .inr rfl

end Serve

end Accounts

end Holding

end HookTrace.Store
