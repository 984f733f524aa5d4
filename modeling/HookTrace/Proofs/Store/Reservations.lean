import HookTrace.Proofs.Store.Requests
import HookTrace.Store.ByteRing
import Mathlib.Data.List.Perm.Basic

/-!
# HookTrace.Proofs.Store.Reservations

A ring in use. Producers hold as many slots as there is room for, fill them in, and end them in any
order, each by a commit or by giving it up; a consumer takes out what was committed. Reservations
are numbered, and a log keeps every use with its reply.

`use_accounted`: the room taken is that of the slots held and of the records not yet received,
every reservation ends at most once, and what is received is what was committed, in that order.
-/

namespace HookTrace.Store.ByteRing

variable {ρ : Type}

/-- What is asked of a ring. A slot goes by the number of its reservation, counted from zero. -/
inductive Use (ρ : Type) where
  | reserve (cpu : Nat)
  | write (id : Nat) (change : ρ → ρ)
  | commit (id : Nat)
  | discard (id : Nat)
  /-- The holder of a slot leaves without having ended it. -/
  | drop (id : Nat)
  | receive
  | drain

inductive Reply (ρ : Type) where
  /-- There is no room for a slot. -/
  | refused
  | reserved (id : Nat) (record : ρ)
  | written
  | committed (record : ρ)
  | released
  /-- No slot of that number is held. -/
  | absent
  | received (records : List ρ)

/-- A ring and the slots that are held, with the numbers of their reservations. -/
structure InUse (ρ : Type) where
  ring : ByteRing ρ
  held : List (Nat × Slot ρ) := []
  /-- How many reservations were made. -/
  made : Nat := 0

namespace InUse

def slot? (u : InUse ρ) (id : Nat) : Option (Nat × Slot ρ) :=
  u.held.find? (·.1 == id)

def without (u : InUse ρ) (id : Nat) : List (Nat × Slot ρ) :=
  u.held.eraseP (·.1 == id)

def rewrite (id : Nat) (change : ρ → ρ) (e : Nat × Slot ρ) : Nat × Slot ρ :=
  if e.1 = id then (e.1, { e.2 with record := change e.2.record }) else e

variable [Layout ρ]

def serve (u : InUse ρ) : Use ρ → Reply ρ × InUse ρ
  | .reserve cpu =>
    match u.ring.reserve cpu with
    | none => (.refused, u)
    | some (slot, ring) =>
      (.reserved u.made slot.record, ⟨ring, u.held ++ [(u.made, slot)], u.made + 1⟩)
  | .write id change =>
    match u.slot? id with
    | none => (.absent, u)
    | some _ => (.written, { u with held := u.held.map (rewrite id change) })
  | .commit id =>
    match u.slot? id with
    | none => (.absent, u)
    | some (_, slot) =>
      (.committed slot.record, { u with ring := u.ring.commit slot, held := u.without id })
  | .discard id | .drop id =>
    match u.slot? id with
    | none => (.absent, u)
    | some (_, slot) => (.released, { u with ring := u.ring.release slot, held := u.without id })
  | .receive =>
    match u.ring.receive with
    | none => (.received [], u)
    | some (record, ring) => (.received [record], { u with ring })
  | .drain =>
    let (records, ring) := u.ring.drain
    (.received records, { u with ring })

end InUse

abbrev Log (ρ : Type) := List (Use ρ × Reply ρ)

/-- All uses of a new ring, with their replies, and what they leave. -/
def use [Layout ρ] (capacity : Nat) (uses : List (Use ρ)) : Log ρ × InUse ρ :=
  transcript InUse.serve ⟨.empty capacity, [], 0⟩ uses

/-! ### What a log tells -/

section Log

def reservation? : Use ρ × Reply ρ → Option Nat
  | (.reserve _, .reserved id _) => some id
  | _ => none

def commitment? : Use ρ × Reply ρ → Option (Nat × ρ)
  | (.commit id, .committed record) => some (id, record)
  | _ => none

def release? : Use ρ × Reply ρ → Option Nat
  | (.discard id, .released) | (.drop id, .released) => some id
  | _ => none

def change? (id : Nat) : Use ρ × Reply ρ → Option (ρ → ρ)
  | (.write id' change, .written) => if id' = id then some change else none
  | _ => none

def records : Use ρ × Reply ρ → List ρ
  | (_, .received records) => records
  | _ => []

/-- The numbers of the slots that were reserved, the oldest first. -/
def Log.reserved (log : Log ρ) : List Nat :=
  log.filterMap reservation?

/-- The slots that were committed, with the records in them, the oldest first. -/
def Log.committed (log : Log ρ) : List (Nat × ρ) :=
  log.filterMap commitment?

/-- The slots that were given up. -/
def Log.released (log : Log ρ) : List Nat :=
  log.filterMap release?

def Log.received (log : Log ρ) : List ρ :=
  log.flatMap records

/-- What was written into the slot of a number, over zeros. -/
def Log.content [Layout ρ] (log : Log ρ) (id : Nat) : ρ :=
  (log.filterMap (change? id)).foldl (fun record change => change record) Layout.zero

variable (log : Log ρ) (e : Use ρ × Reply ρ)

theorem Log.reserved_concat :
    Log.reserved (log ++ [e]) = log.reserved ++ (reservation? e).toList := by
  simp [reserved, List.filterMap_eq_flatMap_toList]

theorem Log.committed_concat :
    Log.committed (log ++ [e]) = log.committed ++ (commitment? e).toList := by
  simp [committed, List.filterMap_eq_flatMap_toList]

theorem Log.released_concat : Log.released (log ++ [e]) = log.released ++ (release? e).toList := by
  simp [released, List.filterMap_eq_flatMap_toList]

theorem Log.received_concat : Log.received (log ++ [e]) = log.received ++ records e := by
  simp [received]

theorem Log.content_concat [Layout ρ] (id : Nat) :
    Log.content (log ++ [e]) id =
      ((change? id e).getD fun record => record) (log.content id) := by
  unfold content
  rw [List.filterMap_append, List.foldl_append]
  cases hc : change? id e <;> simp [hc]

end Log

/-! ### The room that is taken -/

section Room

variable [Layout ρ] (ring : ByteRing ρ)

theorem foldl_free (records : List ρ) :
    records.foldl (fun ring _ => ring.free) ring =
      { ring with used := ring.used - recordSize ρ * records.length } := by
  induction records generalizing ring with
  | nil => rfl
  | cons record records ih =>
    have hsub : ring.used - recordSize ρ - recordSize ρ * records.length =
        ring.used - recordSize ρ * (records.length + 1) := by
      rw [Nat.sub_sub, Nat.mul_succ, Nat.add_comm]
    rw [List.foldl_cons, ih]
    simp only [free, hsub, List.length_cons]

theorem drain_eq : ring.drain =
    (ring.queue.toList, { ring with
      used := ring.used - recordSize ρ * ring.queue.toList.length
      queue := Fifo.empty }) := by
  rw [drain, foldl_free]

end Room

/-- `u` is what the uses in `log` have left of a ring. -/
structure Accounted [Layout ρ] (capacity : Nat) (log : Log ρ) (u : InUse ρ) : Prop where
  capacity_eq : u.ring.capacity = capacity
  used_eq : u.ring.used = recordSize ρ * (u.held.length + u.ring.queue.toList.length)
  used_le : u.ring.used ≤ capacity
  numbered : log.reserved = List.range u.made
  ended : log.reserved.Perm (log.committed.map Prod.fst ++ log.released ++ u.held.map Prod.fst)
  queue : log.committed.map Prod.snd = log.received ++ u.ring.queue.toList
  held_content : ∀ e ∈ u.held, e.2.record = log.content e.1
  committed_content : ∀ e ∈ log.committed, e.2 = log.content e.1
  unwritten : ∀ id, u.made ≤ id → log.content id = Layout.zero

namespace Accounted

variable [Layout ρ] {capacity : Nat} {log : Log ρ} {u : InUse ρ}

theorem empty (capacity : Nat) : Accounted capacity [] (⟨.empty capacity, [], 0⟩ : InUse ρ) where
  capacity_eq := rfl
  used_eq := by simp [ByteRing.empty]
  used_le := Nat.zero_le _
  numbered := rfl
  ended := .refl _
  queue := rfl
  held_content := by simp
  committed_content := by simp [Log.committed]
  unwritten := by simp [Log.content]

/-- The number of a slot that is held was never that of another, or of one that has ended. -/
theorem nodup (h : Accounted capacity log u) :
    (log.committed.map Prod.fst ++ log.released ++ u.held.map Prod.fst).Nodup :=
  h.ended.nodup_iff.1 (h.numbered ▸ List.nodup_range)

theorem lt_made (h : Accounted capacity log u) {e : Nat × Slot ρ} (he : e ∈ u.held) :
    e.1 < u.made := by
  have hmem : e.1 ∈ log.reserved :=
    h.ended.mem_iff.2 (List.mem_append_right _ (List.mem_map_of_mem he))
  rw [h.numbered] at hmem
  exact List.mem_range.1 hmem

theorem ne_of_committed (h : Accounted capacity log u) {e : Nat × Slot ρ} (he : e ∈ u.held)
    {sent : Nat × ρ} (hsent : sent ∈ log.committed) : sent.1 ≠ e.1 :=
  (List.nodup_append.1 h.nodup).2.2 sent.1
    (List.mem_append_left _ (List.mem_map_of_mem hsent)) e.1 (List.mem_map_of_mem he)

/-! Each use leaves an account of what was done. -/

/-- A use that is turned down leaves everything as it is. -/
theorem turned_down (h : Accounted capacity log u) (use : Use ρ) {reply : Reply ρ}
    (hreply : reply = .refused ∨ reply = .absent) :
    Accounted capacity (log ++ [(use, reply)]) u := by
  have hreservation : reservation? (use, reply) = none := by
    rcases hreply with rfl | rfl <;> cases use <;> rfl
  have hcommitment : commitment? (use, reply) = none := by
    rcases hreply with rfl | rfl <;> cases use <;> rfl
  have hrelease : release? (use, reply) = none := by
    rcases hreply with rfl | rfl <;> cases use <;> rfl
  have hrecords : records (use, reply) = [] := by
    rcases hreply with rfl | rfl <;> cases use <;> rfl
  have hcontent : ∀ id, Log.content (log ++ [(use, reply)]) id = log.content id := by
    intro id
    rw [Log.content_concat]
    rcases hreply with rfl | rfl <;> cases use <;> rfl
  constructor
  · exact h.capacity_eq
  · exact h.used_eq
  · exact h.used_le
  · simpa [Log.reserved_concat, hreservation] using h.numbered
  · simpa [Log.reserved_concat, Log.committed_concat, Log.released_concat, hreservation,
      hcommitment, hrelease] using h.ended
  · simpa [Log.committed_concat, Log.received_concat, hcommitment, hrecords] using h.queue
  · simpa only [hcontent] using h.held_content
  · simpa [Log.committed_concat, hcommitment, hcontent] using h.committed_content
  · simpa only [hcontent] using h.unwritten

theorem reserved (h : Accounted capacity log u) (cpu : Nat)
    (hroom : u.ring.used + recordSize ρ ≤ u.ring.capacity) :
    Accounted capacity (log ++ [(.reserve cpu, .reserved u.made Layout.zero)])
      { ring := { u.ring with used := u.ring.used + recordSize ρ }
        held := u.held ++ [(u.made, ⟨cpu, Layout.zero⟩)]
        made := u.made + 1 } := by
  have hcontent : ∀ id, Log.content (log ++ [(.reserve cpu, .reserved u.made Layout.zero)]) id =
      log.content id := Log.content_concat log _
  constructor
  · exact h.capacity_eq
  · rw [List.length_append, List.length_singleton, Nat.add_right_comm, Nat.mul_succ]
    exact congrArg (· + recordSize ρ) h.used_eq
  · exact h.capacity_eq ▸ hroom
  · rw [Log.reserved_concat, h.numbered, List.range_succ]
    rfl
  · rw [Log.reserved_concat, Log.committed_concat, Log.released_concat]
    simpa [commitment?, release?, reservation?] using h.ended.append_right [u.made]
  · simpa [Log.committed_concat, Log.received_concat, commitment?, records] using h.queue
  · intro e he
    rw [hcontent]
    rcases List.mem_append.1 he with he | he
    · exact h.held_content e he
    · rw [List.mem_singleton.1 he]
      exact (h.unwritten u.made (Nat.le_refl _)).symm
  · simpa [Log.committed_concat, commitment?, hcontent] using h.committed_content
  · intro id hid
    rw [hcontent]
    exact h.unwritten id (Nat.le_of_succ_le hid)

theorem written (h : Accounted capacity log u) {e : Nat × Slot ρ} (he : e ∈ u.held)
    (change : ρ → ρ) :
    Accounted capacity (log ++ [(.write e.1 change, .written)])
      { u with held := u.held.map (InUse.rewrite e.1 change) } := by
  have hcontent : ∀ id, Log.content (log ++ [(.write e.1 change, .written)]) id =
      if e.1 = id then change (log.content id) else log.content id := by
    intro id
    rw [Log.content_concat, change?]
    split <;> rfl
  have hkept : ∀ id, id ≠ e.1 →
      Log.content (log ++ [(.write e.1 change, .written)]) id = log.content id :=
    fun id hne => (hcontent id).trans (if_neg (Ne.symm hne))
  have hkeys : (u.held.map (InUse.rewrite e.1 change)).map Prod.fst = u.held.map Prod.fst := by
    rw [List.map_map]
    refine List.map_congr_left fun other _ => ?_
    simp only [Function.comp_apply, InUse.rewrite]
    split <;> rfl
  constructor
  · exact h.capacity_eq
  · rw [List.length_map]
    exact h.used_eq
  · exact h.used_le
  · simpa [Log.reserved_concat, reservation?] using h.numbered
  · rw [hkeys]
    simpa [Log.reserved_concat, Log.committed_concat, Log.released_concat, reservation?,
      commitment?, release?] using h.ended
  · simpa [Log.committed_concat, Log.received_concat, commitment?, records] using h.queue
  · intro changed hchanged
    obtain ⟨other, hother, rfl⟩ := List.mem_map.1 hchanged
    unfold InUse.rewrite
    split
    · rename_i heq
      rw [hcontent, if_pos heq.symm, ← h.held_content other hother]
    · rename_i hne
      rw [hkept other.1 hne]
      exact h.held_content other hother
  · -- a slot that was committed is not the one that is written into
    intro sent hsent
    have hsent : sent ∈ log.committed := by simpa [Log.committed_concat, commitment?] using hsent
    rw [hkept sent.1 (h.ne_of_committed he hsent)]
    exact h.committed_content sent hsent
  · intro id hid
    rw [hkept id (Nat.ne_of_gt (Nat.lt_of_lt_of_le (h.lt_made he) hid))]
    exact h.unwritten id hid

section Ends

variable {before after : List (Nat × Slot ρ)} {e : Nat × Slot ρ}

/-- A slot hands its room on with its record. -/
theorem committed (h : Accounted capacity log u) (hheld : u.held = before ++ e :: after) :
    Accounted capacity (log ++ [(.commit e.1, .committed e.2.record)])
      { u with ring := u.ring.commit e.2, held := before ++ after } := by
  have hcontent : ∀ id, Log.content (log ++ [(.commit e.1, .committed e.2.record)]) id =
      log.content id := Log.content_concat log _
  have hsub : ∀ other ∈ before ++ after, other ∈ u.held := by
    rw [hheld]
    exact (List.sublist_cons_self e after).append_left before |>.subset
  constructor
  · exact h.capacity_eq
  · have hused := h.used_eq
    rw [hheld] at hused
    simp only [ByteRing.commit, Fifo.toList_push, List.length_append, List.length_cons,
      List.length_nil] at hused ⊢
    rw [hused]
    congr 1
    omega
  · exact h.used_le
  · simpa [Log.reserved_concat, reservation?] using h.numbered
  · have hended := h.ended
    rw [hheld] at hended
    rw [Log.reserved_concat, Log.committed_concat, Log.released_concat]
    refine .trans (by simpa [reservation?] using hended) (List.perm_iff_count.2 fun id => ?_)
    simp [commitment?, release?, List.count_append, List.count_cons]
    omega
  · simp [Log.committed_concat, Log.received_concat, commitment?, records, h.queue,
      ByteRing.commit]
  · intro other hother
    rw [hcontent]
    exact h.held_content other (hsub other hother)
  · intro sent hsent
    rw [hcontent]
    rw [Log.committed_concat] at hsent
    rcases List.mem_append.1 hsent with hsent | hsent
    · exact h.committed_content sent hsent
    · obtain rfl := List.mem_singleton.1 hsent
      exact h.held_content e (hheld ▸ List.mem_append_right _ List.mem_cons_self)
  · simpa only [hcontent] using h.unwritten

/-- A slot that is given up, with a word or without, takes its room and its record along. -/
theorem released (h : Accounted capacity log u) (hheld : u.held = before ++ e :: after)
    {use : Use ρ} (huse : use = .discard e.1 ∨ use = .drop e.1) :
    Accounted capacity (log ++ [(use, .released)])
      { u with ring := u.ring.release e.2, held := before ++ after } := by
  have hreservation : reservation? (use, .released) = none := by
    rcases huse with rfl | rfl <;> rfl
  have hcommitment : commitment? (use, .released) = none := by
    rcases huse with rfl | rfl <;> rfl
  have hrelease : release? (use, .released) = some e.1 := by
    rcases huse with rfl | rfl <;> rfl
  have hrecords : records (use, .released) = [] := by
    rcases huse with rfl | rfl <;> rfl
  have hcontent : ∀ id, Log.content (log ++ [(use, .released)]) id = log.content id := by
    intro id
    rw [Log.content_concat]
    rcases huse with rfl | rfl <;> rfl
  constructor
  · exact h.capacity_eq
  · show u.ring.used - recordSize ρ = _
    have hone : u.held.length + u.ring.queue.toList.length =
        (before ++ after).length + u.ring.queue.toList.length + 1 := by
      rw [hheld]
      simp only [List.length_append, List.length_cons]
      omega
    rw [h.used_eq, hone, Nat.mul_succ, Nat.add_sub_cancel]
    rfl
  · exact Nat.le_trans (Nat.sub_le _ _) h.used_le
  · simpa [Log.reserved_concat, hreservation] using h.numbered
  · have hended := h.ended
    rw [hheld] at hended
    rw [Log.reserved_concat, Log.committed_concat, Log.released_concat]
    refine .trans (by simpa [hreservation] using hended) (List.perm_iff_count.2 fun id => ?_)
    simp [hcommitment, hrelease, List.count_append, List.count_cons]
    omega
  · simpa [Log.committed_concat, Log.received_concat, hcommitment, hrecords, release, free]
      using h.queue
  · intro other hother
    rw [hcontent]
    refine h.held_content other (hheld ▸ ?_)
    exact ((List.sublist_cons_self e after).append_left before).subset hother
  · simpa [Log.committed_concat, hcommitment, hcontent] using h.committed_content
  · simpa only [hcontent] using h.unwritten

end Ends

/-- Records leave the ring from the front, and their room with them. -/
theorem received (h : Accounted capacity log u) {use : Use ρ}
    (huse : use = .receive ∨ use = .drain) {taken : List ρ} {queue : Fifo ρ}
    (hqueue : u.ring.queue.toList = taken ++ queue.toList) :
    Accounted capacity (log ++ [(use, .received taken)])
      { u with ring := { u.ring with
          used := u.ring.used - recordSize ρ * taken.length
          queue } } := by
  have hreservation : reservation? (use, .received taken) = none := by
    rcases huse with rfl | rfl <;> rfl
  have hcommitment : commitment? (use, .received taken) = none := by
    rcases huse with rfl | rfl <;> rfl
  have hrelease : release? (use, .received taken) = none := by
    rcases huse with rfl | rfl <;> rfl
  have hcontent : ∀ id, Log.content (log ++ [(use, .received taken)]) id = log.content id := by
    intro id
    rw [Log.content_concat]
    rcases huse with rfl | rfl <;> rfl
  constructor
  · exact h.capacity_eq
  · show u.ring.used - recordSize ρ * taken.length = _
    have hleft : u.held.length + (taken.length + queue.toList.length) - taken.length =
        u.held.length + queue.toList.length := by omega
    rw [h.used_eq, hqueue, List.length_append, ← Nat.mul_sub, hleft]
  · exact Nat.le_trans (Nat.sub_le _ _) h.used_le
  · simpa [Log.reserved_concat, hreservation] using h.numbered
  · simpa [Log.reserved_concat, Log.committed_concat, Log.released_concat, hreservation,
      hcommitment, hrelease] using h.ended
  · rw [Log.committed_concat, Log.received_concat, hcommitment]
    simp [records, h.queue, hqueue]
  · simpa only [hcontent] using h.held_content
  · simpa [Log.committed_concat, hcommitment, hcontent] using h.committed_content
  · simpa only [hcontent] using h.unwritten

end Accounted

/-! ### What a use does -/

/-- A slot that is found is among those held, and ending it leaves the others. -/
theorem InUse.slot?_split {u : InUse ρ} {id : Nat} {e : Nat × Slot ρ} (h : u.slot? id = some e) :
    e.1 = id ∧ ∃ before after, u.held = before ++ e :: after ∧ u.without id = before ++ after := by
  obtain ⟨hid, before, after, hheld, hbefore⟩ := List.find?_eq_some_iff_append.1 h
  refine ⟨by simpa using hid, before, after, hheld, ?_⟩
  unfold without
  rw [hheld, List.eraseP_append_right _ (by simpa using hbefore)]
  simp [hid]

/-- A slot that is held is found by its number. -/
theorem InUse.slot?_of_mem {u : InUse ρ} {id : Nat} (h : id ∈ u.held.map Prod.fst) :
    ∃ e, u.slot? id = some e := by
  obtain ⟨e, he, rfl⟩ := List.mem_map.1 h
  exact Option.isSome_iff_exists.1 (List.find?_isSome.2 ⟨e, he, by simp⟩)

section Serve

variable [Layout ρ] (u : InUse ρ)

theorem InUse.serve_reserve (cpu : Nat) : u.serve (.reserve cpu) =
    if u.ring.used + recordSize ρ ≤ u.ring.capacity then
      (.reserved u.made Layout.zero,
        { ring := { u.ring with used := u.ring.used + recordSize ρ }
          held := u.held ++ [(u.made, ⟨cpu, Layout.zero⟩)]
          made := u.made + 1 })
    else (.refused, u) := by
  unfold serve ByteRing.reserve claim
  by_cases hroom : u.ring.used + recordSize ρ ≤ u.ring.capacity <;> simp [hroom]

theorem InUse.serve_receive : ∃ queue : Fifo ρ,
    u.ring.queue.toList = u.ring.queue.toList.take 1 ++ queue.toList ∧
    u.serve .receive = (.received (u.ring.queue.toList.take 1),
      { u with ring := { u.ring with
          used := u.ring.used - recordSize ρ * (u.ring.queue.toList.take 1).length
          queue } }) := by
  unfold serve ByteRing.receive
  cases hp : u.ring.queue.pop? with
  | none =>
    have hempty := (Fifo.pop?_eq_none_iff _).1 hp
    exact ⟨u.ring.queue, by simp [hempty], by simp [hempty]⟩
  | some popped =>
    obtain ⟨record, queue⟩ := popped
    have hlist := Fifo.toList_of_pop? hp
    exact ⟨queue, by simp [hlist], by simp [hlist, free]⟩

theorem InUse.serve_drain : u.serve .drain =
    (.received u.ring.queue.toList, { u with ring := { u.ring with
      used := u.ring.used - recordSize ρ * u.ring.queue.toList.length
      queue := Fifo.empty } }) := by
  unfold serve
  rw [drain_eq]

end Serve

variable [Layout ρ] {capacity : Nat} {log : Log ρ} {u : InUse ρ}

theorem Accounted.serve (h : Accounted capacity log u) (use : Use ρ) :
    Accounted capacity (log ++ [(use, (u.serve use).1)]) (u.serve use).2 := by
  cases use with
  | reserve cpu =>
    rw [InUse.serve_reserve]
    split
    · rename_i hroom
      exact h.reserved cpu hroom
    · exact h.turned_down _ (.inl rfl)
  | write id change =>
    simp only [InUse.serve]
    cases hslot : u.slot? id with
    | none => exact h.turned_down _ (.inr rfl)
    | some e =>
      obtain ⟨rfl, before, after, hheld, _⟩ := InUse.slot?_split hslot
      exact h.written (hheld ▸ List.mem_append_right _ List.mem_cons_self) change
  | commit id =>
    simp only [InUse.serve]
    cases hslot : u.slot? id with
    | none => exact h.turned_down _ (.inr rfl)
    | some e =>
      obtain ⟨rfl, before, after, hheld, hwithout⟩ := InUse.slot?_split hslot
      rw [hwithout]
      exact h.committed hheld
  | discard id =>
    simp only [InUse.serve]
    cases hslot : u.slot? id with
    | none => exact h.turned_down _ (.inr rfl)
    | some e =>
      obtain ⟨rfl, before, after, hheld, hwithout⟩ := InUse.slot?_split hslot
      rw [hwithout]
      exact h.released hheld (.inl rfl)
  | drop id =>
    simp only [InUse.serve]
    cases hslot : u.slot? id with
    | none => exact h.turned_down _ (.inr rfl)
    | some e =>
      obtain ⟨rfl, before, after, hheld, hwithout⟩ := InUse.slot?_split hslot
      rw [hwithout]
      exact h.released hheld (.inr rfl)
  | receive =>
    obtain ⟨queue, hqueue, hserve⟩ := u.serve_receive
    rw [hserve]
    exact h.received (.inl rfl) hqueue
  | drain =>
    rw [InUse.serve_drain]
    exact h.received (.inr rfl) (by simp)

theorem Accounted.transcript (h : Accounted capacity log u) (uses : List (Use ρ)) :
    Accounted capacity (log ++ (transcript InUse.serve u uses).1)
      (transcript InUse.serve u uses).2 :=
  transcript_keeps (fun use h => h.serve use) h uses

theorem accounted_use (capacity : Nat) (uses : List (Use ρ)) :
    Accounted capacity (use capacity uses).1 (use capacity uses).2 :=
  (Accounted.empty capacity).transcript uses

/-- A slot that is held can be written into and committed as it is. -/
theorem Accounted.serve_held (h : Accounted capacity log u) {id : Nat}
    (hid : id ∈ u.held.map Prod.fst) :
    (∀ change, (u.serve (.write id change)).1 = .written) ∧
      (u.serve (.commit id)).1 = .committed (log.content id) := by
  obtain ⟨e, hslot⟩ := InUse.slot?_of_mem hid
  obtain ⟨rfl, before, after, hheld, _⟩ := InUse.slot?_split hslot
  have hcontent := h.held_content e (hheld ▸ List.mem_append_right _ List.mem_cons_self)
  simp only [InUse.serve, hslot, hcontent, implies_true, and_self]

/-- A slot that is given up gives back the room of one record. -/
theorem Accounted.serve_release (h : Accounted capacity log u) {id : Nat}
    (hid : id ∈ u.held.map Prod.fst) {use : Use ρ} (huse : use = .discard id ∨ use = .drop id) :
    (u.serve use).1 = .released ∧ (u.serve use).2.ring.used + recordSize ρ = u.ring.used := by
  obtain ⟨e, hslot⟩ := InUse.slot?_of_mem hid
  obtain ⟨_, before, after, hheld, _⟩ := InUse.slot?_split hslot
  have hserve : u.serve use =
      (.released, { u with ring := u.ring.release e.2, held := u.without id }) := by
    rcases huse with rfl | rfl <;> simp only [InUse.serve, hslot]
  -- what is subtracted was there
  have htaken : recordSize ρ ≤ u.ring.used := by
    rw [h.used_eq, hheld, List.length_append, List.length_cons]
    exact Nat.le_mul_of_pos_right _ (by omega)
  rw [hserve]
  exact ⟨rfl, Nat.sub_add_cancel htaken⟩

/-- Whatever is asked of a ring, in whatever order: the records that were committed and not yet
received are `pending`, these and the slots held take up all the room that is taken, and no more
is taken than there is. Every slot is reserved under a number of its own and ends at most once, by
a commit or by being given up; the records received are those committed, in the order of the
commits, each with what was written into its slot. -/
theorem use_accounted (capacity : Nat) (uses : List (Use ρ)) :
    let log := (use capacity uses).1
    let u := (use capacity uses).2
    ∃ pending, log.committed.map Prod.snd = log.received ++ pending ∧
      (u.ring.used = recordSize ρ * (u.held.length + pending.length) ∧ u.ring.used ≤ capacity) ∧
      (log.reserved.Nodup ∧ log.reserved.Perm
        (log.committed.map Prod.fst ++ log.released ++ u.held.map Prod.fst)) ∧
      (∀ sent ∈ log.committed, sent.2 = log.content sent.1) ∧
      (∀ cpu, (u.serve (.reserve cpu)).1 =
        if u.ring.used + recordSize ρ ≤ capacity then .reserved u.made Layout.zero
        else .refused) ∧
      (∀ id ∈ u.held.map Prod.fst,
        (∀ change, (u.serve (.write id change)).1 = .written) ∧
        (u.serve (.commit id)).1 = .committed (log.content id) ∧
        ∀ use, use = .discard id ∨ use = .drop id → (u.serve use).1 = .released ∧
          (u.serve use).2.ring.used + recordSize ρ = u.ring.used) ∧
      (u.serve .receive).1 = .received (pending.take 1) ∧
      (u.serve .drain).1 = .received pending := by
  intro log u
  have h : Accounted capacity log u := accounted_use capacity uses
  have hdistinct : log.reserved.Nodup := h.numbered ▸ List.nodup_range
  obtain ⟨queue, _, hreceive⟩ := u.serve_receive
  refine ⟨u.ring.queue.toList, h.queue, ⟨h.used_eq, h.used_le⟩, ⟨hdistinct, h.ended⟩,
    h.committed_content, ?reserve, ?held, ?receive, ?drain⟩
  case reserve =>
    intro cpu
    rw [InUse.serve_reserve, h.capacity_eq]
    split <;> rfl
  case held =>
    intro id hid
    obtain ⟨hwrite, hcommit⟩ := h.serve_held hid
    exact ⟨hwrite, hcommit, fun use => h.serve_release hid⟩
  case receive => rw [hreceive]
  case drain => rw [InUse.serve_drain]

end HookTrace.Store.ByteRing
