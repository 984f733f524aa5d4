import HookTrace.Mysql.Connection

/-!
# HookTrace.Proofs.Mysql.Handshake

What a whole history of payloads makes of a connection. A history decides it at three places: the
first greeting of the server, the first answer of the client behind it, and the first verdict of
the server behind that. All other payloads count only in that one that is no frame spoils a
connection that has not been greeted.

* `Stage.next`: what one payload does to the stage; `Connection.stage_observe`.
* `Stage.foldl_next`: what a history does to it, told from those three places.
* `handshake_of_history`: the stage of a connection after a history, and what was reported of it.
-/

namespace HookTrace.Mysql

abbrev Message := Bytes × Direction

/-- The length that the first three bytes spell. -/
def announced (payload : Bytes) : Nat :=
  (payload.getD 0 0).toNat + 256 * (payload.getD 1 0).toNat + 65536 * (payload.getD 2 0).toNat

def Plausible (payload : Bytes) : Prop :=
  4 ≤ payload.length ∧ 1 ≤ announced payload ∧ announced payload ≤ 30720

instance : DecidablePred Plausible := fun _ => inferInstanceAs (Decidable (_ ∧ _))

namespace Message

/-- The server's greeting. -/
def Greets (m : Message) : Prop :=
  Plausible m.1 ∧ m.2 = .serverToClient ∧ m.1[3]? = some 0 ∧ 10 < m.1.length ∧ m.1[4]? = some 0x0a

/-- The client's answer to a greeting. -/
def Answers (m : Message) : Prop :=
  Plausible m.1 ∧ m.2 = .clientToServer ∧ m.1[3]? = some 1

/-- The server's verdict on an answer. -/
def Judges (m : Message) : Prop :=
  Plausible m.1 ∧ m.2 = .serverToClient ∧ 4 < m.1.length ∧
    (m.1[4]? = some 0x00 ∨ m.1[4]? = some 0xff)

instance : DecidablePred Greets := fun _ => inferInstanceAs (Decidable (_ ∧ _))
instance : DecidablePred Answers := fun _ => inferInstanceAs (Decidable (_ ∧ _))
instance : DecidablePred Judges := fun _ => inferInstanceAs (Decidable (_ ∧ _))

end Message

open Message

theorem isFrame_iff (payload : Bytes) : isFrame payload = true ↔ Plausible payload := by
  unfold isFrame frameLength Plausible headerLength
  match payload with
  | [] | [_] | [_, _] | [_, _, _] => simp
  | a :: b :: c :: d :: rest =>
    have hsum : Bytes.toNatLE [a, b, c] = announced (a :: b :: c :: d :: rest) := by
      simp only [Bytes.toNatLE, announced, List.getD_cons_zero, List.getD_cons_succ]
      omega
    have hlong : ¬ (a :: b :: c :: d :: rest).length < 4 := by simp
    rw [if_neg hlong, List.take_succ_cons, List.take_succ_cons, List.take_succ_cons,
      List.take_zero, hsum]
    simp only [Bool.and_eq_true, bne_iff_ne, decide_eq_true_iff, Nat.one_le_iff_ne_zero]
    exact ⟨fun hl => ⟨Nat.not_lt.1 hlong, hl⟩, fun hl => hl.2⟩

theorem sequenceOf_eq_iff {payload : Bytes} (h : Plausible payload) (id : UInt8) :
    sequenceOf payload = id ↔ payload[3]? = some id := by
  unfold sequenceOf
  have hlen : 3 < payload.length := h.1
  rw [List.getD_eq_getElem?_getD, List.getElem?_eq_getElem hlen]
  simp

/-- What a payload does to the stage of a connection. -/
def Stage.next (stage : Stage) (m : Message) : Stage :=
  match stage with
  | .connecting => if ¬ Plausible m.1 then .invalid else if Greets m then .greeted else .connecting
  | .greeted => if Answers m then .authenticating else .greeted
  | .authenticating =>
    if Judges m then if m.1[4]? = some 0xff then .invalid else .established else .authenticating
  | .established => .established
  | .invalid => .invalid

namespace Connection

theorem stage_observe_of_implausible {conn : Connection} {m : Message} (h : ¬ Plausible m.1) :
    (conn.observe m.1 m.2).2.stage = conn.stage.next m := by
  have hframe : isFrame m.1 = false := by
    rw [← Bool.not_eq_true, isFrame_iff]
    exact h
  unfold observe
  rw [hframe]
  cases hs : conn.stage <;> simp [hs, Stage.next, h, Answers, Judges]

theorem stage_advance {conn : Connection} {m : Message} (h : Plausible m.1) :
    (conn.advance m.1 m.2).stage = conn.stage.next m := by
  unfold advance Stage.next
  cases hs : conn.stage with
  | connecting =>
    have hiff : (m.2 = .serverToClient ∧ sequenceOf m.1 = 0 ∧ m.1.length > 10
        ∧ m.1[headerLength]? = some greetingMarker) ↔ Greets m := by
      rw [sequenceOf_eq_iff h]
      exact ⟨fun hm => ⟨h, hm⟩, fun hm => hm.2⟩
    simp only [hiff, h, not_true_eq_false, if_false]
    split
    · rfl
    · exact hs
  | greeted =>
    have hiff : (m.2 = .clientToServer ∧ sequenceOf m.1 = 1) ↔ Answers m := by
      rw [sequenceOf_eq_iff h]
      exact ⟨fun hm => ⟨h, hm⟩, fun hm => hm.2⟩
    simp only [hiff]
    split
    · rfl
    · exact hs
  | authenticating =>
    by_cases hd : m.2 = .serverToClient
    · simp only [hd, if_true, headerLength, okMarker, errorMarker]
      by_cases hok : m.1[4]? = some 0x00
      · have hj : Judges m := ⟨h, hd, (List.getElem?_eq_some_iff.1 hok).1, .inl hok⟩
        simp [hok, hj]
      · by_cases herr : m.1[4]? = some 0xff
        · have hj : Judges m := ⟨h, hd, (List.getElem?_eq_some_iff.1 herr).1, .inr herr⟩
          simp [herr, hj]
        · have hj : ¬ Judges m := fun hj => hj.2.2.2.elim hok herr
          simp [hok, herr, hj, hs]
    · have hj : ¬ Judges m := fun hj => hd hj.2.1
      simp only [hd, if_false, hj]
      exact hs
  | established => rfl
  | invalid => exact hs

theorem stage_observe (conn : Connection) (m : Message) :
    (conn.observe m.1 m.2).2.stage = conn.stage.next m := by
  by_cases hp : Plausible m.1
  · rw [← stage_advance hp]
    have hframe := (isFrame_iff m.1).2 hp
    unfold observe
    simp only [hframe, if_true]
    split
    · rename_i hs
      simp [advance, hs]
    · split <;> rfl
  · exact stage_observe_of_implausible hp

/-- A connection after a whole history of payloads. -/
def observeAll (conn : Connection) (history : List Message) : Connection :=
  history.foldl (fun conn m => (conn.observe m.1 m.2).2) conn

def observations (conn : Connection) : List Message → List Observation
  | [] => []
  | m :: rest => (conn.observe m.1 m.2).1 :: observations (conn.observe m.1 m.2).2 rest

theorem stage_observeAll (conn : Connection) (history : List Message) :
    (conn.observeAll history).stage = history.foldl Stage.next conn.stage := by
  induction history generalizing conn with
  | nil => rfl
  | cons m rest ih =>
    have h := ih (conn.observe m.1 m.2).2
    rw [stage_observe] at h
    exact h

theorem fst_observe (conn : Connection) (m : Message) :
    (conn.observe m.1 m.2).1 =
      if Plausible m.1 ∧ (conn.observe m.1 m.2).2.stage ≠ .invalid then .report (m.1.getD 3 0)
      else .ignore := by
  by_cases hp : Plausible m.1
  · have hframe := (isFrame_iff m.1).2 hp
    unfold observe
    simp only [hframe, if_true, hp, true_and]
    split
    · rename_i hs
      simp [hs]
    · split
      · rename_i hs
        simp [hs]
      · rename_i hs
        simp [sequenceOf]
  · have hframe : isFrame m.1 = false := by
      rw [← Bool.not_eq_true, isFrame_iff]
      exact hp
    unfold observe
    rw [hframe]
    cases hs : conn.stage <;> simp [hs, hp]

theorem observations_eq (conn : Connection) (history : List Message) :
    conn.observations history = history.mapIdx fun t m =>
      if Plausible m.1 ∧ (conn.observeAll (history.take (t + 1))).stage ≠ .invalid then
        .report (m.1.getD 3 0)
      else .ignore := by
  induction history generalizing conn with
  | nil => rfl
  | cons m rest ih =>
    rw [List.mapIdx_cons, observations, ih, fst_observe]
    rfl

end Connection

/-! ### The places that decide -/

section First

variable (p : Message → Prop) [DecidablePred p]

/-- The first place from `start` on with a message that `p` holds of. -/
def firstFrom (start : Nat) (history : List Message) : Option Nat :=
  ((history.drop start).findIdx? p).map (start + ·)

variable {p} {start i : Nat} {history : List Message}

theorem firstFrom_eq_none_iff :
    firstFrom p start history = none ↔ ∀ m ∈ history.drop start, ¬ p m := by
  simp [firstFrom, List.findIdx?_eq_none_iff]

/-- A first place splits the history behind `start`. -/
theorem split_of_firstFrom (h : firstFrom p start history = some i) :
    ∃ before m, history.drop start = before ++ m :: history.drop (i + 1) ∧
      history.take i = history.take start ++ before ∧
      history[i]? = some m ∧ p m ∧ ∀ x ∈ before, ¬ p x := by
  obtain ⟨k, hk, rfl⟩ := Option.map_eq_some_iff.1 h
  obtain ⟨hlt, hpk, hbefore⟩ := List.findIdx?_eq_some_iff_getElem.1 hk
  refine ⟨(history.drop start).take k, (history.drop start)[k], ?_, ?_, ?_, ?_, ?_⟩
  · rw [Nat.add_assoc, ← List.drop_drop, List.getElem_cons_drop, List.take_append_drop]
  · exact List.take_add
  · rw [← List.getElem?_drop]
    exact List.getElem?_eq_getElem hlt
  · exact of_decide_eq_true hpk
  · intro x hx
    obtain ⟨j, hj, rfl⟩ := List.getElem_of_mem hx
    rw [List.length_take] at hj
    rw [List.getElem_take]
    simpa using hbefore j (by omega)

end First

/-- The first greeting. -/
def greeting? (history : List Message) : Option Nat :=
  firstFrom Greets 0 history

/-- The first answer behind the first greeting. -/
def answer? (history : List Message) : Option Nat :=
  (greeting? history).bind fun i => firstFrom Answers (i + 1) history

/-- The first verdict behind that answer. -/
def verdict? (history : List Message) : Option Nat :=
  (answer? history).bind fun j => firstFrom Judges (j + 1) history

/-- Something that is no frame was sent before the first greeting. -/
def Garbled (history : List Message) : Prop :=
  ∃ m ∈ history.take ((greeting? history).getD history.length), ¬ Plausible m.1

/-- The verdict is that the client is refused. -/
def Refused (history : List Message) : Prop :=
  ∃ k ∈ verdict? history, ∃ m ∈ history[k]?, m.1[4]? = some 0xff

instance : DecidablePred Garbled := fun _ => inferInstanceAs (Decidable (∃ m ∈ _, _))
instance : DecidablePred Refused := fun _ => inferInstanceAs (Decidable (∃ k ∈ _, ∃ m ∈ _, _))

/-- The stage that a history leads to. -/
def Stage.ofHistory (history : List Message) : Stage :=
  if Garbled history ∨ Refused history then .invalid
  else
    match greeting? history, answer? history, verdict? history with
    | none, _, _ => .connecting
    | some _, none, _ => .greeted
    | some _, some _, none => .authenticating
    | some _, some _, some _ => .established

namespace Stage

variable {l history : List Message} {i j : Nat}

theorem foldl_next_of_stay {stage : Stage} (h : ∀ m ∈ l, stage.next m = stage) :
    l.foldl next stage = stage := by
  induction l with
  | nil => rfl
  | cons m rest ih =>
    rw [List.foldl_cons, h m List.mem_cons_self]
    exact ih fun x hx => h x (List.mem_cons_of_mem _ hx)

theorem foldl_next_connecting (h : ∀ m ∈ l, ¬ Greets m) :
    l.foldl next .connecting = if ∃ m ∈ l, ¬ Plausible m.1 then .invalid else .connecting := by
  induction l with
  | nil => rfl
  | cons m rest ih =>
    obtain ⟨hm, hrest⟩ := List.forall_mem_cons.1 h
    by_cases hp : Plausible m.1
    · have hstay : next .connecting m = .connecting := by simp [next, hp, hm]
      have hiff : (∃ x ∈ m :: rest, ¬ Plausible x.1) ↔ ∃ x ∈ rest, ¬ Plausible x.1 := by
        simp [hp]
      rw [List.foldl_cons, hstay, ih hrest]
      simp only [hiff]
    · have hspoilt : next .connecting m = .invalid := by simp [next, hp]
      rw [List.foldl_cons, hspoilt, foldl_next_of_stay fun _ _ => rfl]
      exact (if_pos ⟨m, List.mem_cons_self, hp⟩).symm

theorem foldl_next_greeted : (history.drop (i + 1)).foldl next .greeted =
    match firstFrom Answers (i + 1) history with
    | none => .greeted
    | some j => (history.drop (j + 1)).foldl next .authenticating := by
  have hstay : ∀ m, ¬ Answers m → next .greeted m = .greeted := fun m hm => if_neg hm
  cases hj : firstFrom Answers (i + 1) history with
  | none => exact foldl_next_of_stay fun m hm => hstay m (firstFrom_eq_none_iff.1 hj m hm)
  | some j =>
    obtain ⟨before, m, hsplit, -, -, hm, hbefore⟩ := split_of_firstFrom hj
    rw [hsplit, List.foldl_append, foldl_next_of_stay fun x hx => hstay x (hbefore x hx),
      List.foldl_cons]
    exact congrArg (List.foldl next · _) (if_pos hm)

theorem foldl_next_authenticating : (history.drop (j + 1)).foldl next .authenticating =
    match firstFrom Judges (j + 1) history with
    | none => .authenticating
    | some k => if ∃ m ∈ history[k]?, m.1[4]? = some 0xff then .invalid else .established := by
  have hstay : ∀ m, ¬ Judges m → next .authenticating m = .authenticating := fun m hm => if_neg hm
  cases hk : firstFrom Judges (j + 1) history with
  | none => exact foldl_next_of_stay fun m hm => hstay m (firstFrom_eq_none_iff.1 hk m hm)
  | some k =>
    obtain ⟨before, m, hsplit, -, hat, hm, hbefore⟩ := split_of_firstFrom hk
    rw [hsplit, List.foldl_append, foldl_next_of_stay fun x hx => hstay x (hbefore x hx),
      List.foldl_cons]
    show _ = if ∃ m ∈ history[k]?, m.1[4]? = some 0xff then invalid else established
    by_cases herr : m.1[4]? = some 0xff
    · have hnext : next .authenticating m = .invalid := by simp [next, hm, herr]
      rw [hnext, foldl_next_of_stay fun _ _ => rfl, if_pos ⟨m, hat, herr⟩]
    · have hnext : next .authenticating m = .established := by simp [next, hm, herr]
      rw [hnext, foldl_next_of_stay fun _ _ => rfl, if_neg]
      rintro ⟨x, hx, hmark⟩
      rw [hat] at hx
      cases hx
      exact herr hmark

theorem foldl_next_of_greeting_none (h : greeting? history = none) :
    history.foldl next .connecting = ofHistory history := by
  have hquiet : ∀ m ∈ history, ¬ Greets m := by
    intro m hm
    exact firstFrom_eq_none_iff.1 h m (by simpa using hm)
  have hgarbled : Garbled history ↔ ∃ m ∈ history, ¬ Plausible m.1 := by
    rw [Garbled, h, Option.getD_none, List.take_length]
  have hrefused : ¬ Refused history := by
    rintro ⟨k, hk, -⟩
    simp [verdict?, answer?, h] at hk
  rw [foldl_next_connecting hquiet, ofHistory, h]
  by_cases hg : Garbled history
  · rw [if_pos (hgarbled.1 hg), if_pos (.inl hg)]
  · rw [if_neg fun he => hg (hgarbled.2 he), if_neg fun he => he.elim hg hrefused]

theorem foldl_next_of_greeting_some (h : greeting? history = some i) (hg : ¬ Garbled history) :
    (history.drop (i + 1)).foldl next .greeted = ofHistory history := by
  have hanswer : answer? history = firstFrom Answers (i + 1) history := by
    rw [answer?, h, Option.bind_some]
  rw [foldl_next_greeted, ← hanswer]
  cases hj : answer? history with
  | none =>
    have hrefused : ¬ Refused history := by
      rintro ⟨k, hk, -⟩
      simp [verdict?, hj] at hk
    rw [ofHistory, h, hj, if_neg fun he => he.elim hg hrefused]
  | some j =>
    have hverdict : verdict? history = firstFrom Judges (j + 1) history := by
      rw [verdict?, hj, Option.bind_some]
    show (history.drop (j + 1)).foldl next .authenticating = _
    rw [foldl_next_authenticating, ← hverdict]
    cases hk : verdict? history with
    | none =>
      have hrefused : ¬ Refused history := by
        rintro ⟨k, hk', -⟩
        simp [hk] at hk'
      rw [ofHistory, h, hj, hk, if_neg fun he => he.elim hg hrefused]
    | some k =>
      have hrefused : Refused history ↔ ∃ m ∈ history[k]?, m.1[4]? = some 0xff := by
        simp [Refused, hk]
      rw [ofHistory, h, hj, hk]
      by_cases hr : Refused history
      · rw [if_pos (.inr hr)]
        exact if_pos (hrefused.1 hr)
      · rw [if_neg fun he => he.elim hg hr]
        exact if_neg fun he => hr (hrefused.2 he)

theorem foldl_next (history : List Message) :
    history.foldl next .connecting = ofHistory history := by
  cases hi : greeting? history with
  | none => exact foldl_next_of_greeting_none hi
  | some i =>
    obtain ⟨before, m, hsplit, htake, -, hm, hbefore⟩ := split_of_firstFrom hi
    rw [List.take_zero, List.nil_append] at htake
    rw [List.drop_zero] at hsplit
    have hgarbled : Garbled history ↔ ∃ x ∈ before, ¬ Plausible x.1 := by
      rw [Garbled, hi, Option.getD_some, htake]
    have hfold : history.foldl next .connecting =
        (history.drop (i + 1)).foldl next (next (before.foldl next .connecting) m) := by
      conv => lhs; rw [hsplit]
      rw [List.foldl_append, List.foldl_cons]
    rw [hfold, foldl_next_connecting hbefore]
    -- in front of the greeting the connection can only be spoilt, which the greeting does not undo
    by_cases hg : Garbled history
    · rw [if_pos (hgarbled.1 hg), ofHistory, if_pos (.inl hg)]
      exact foldl_next_of_stay fun _ _ => rfl
    · have hnext : next .connecting m = .greeted := by simp [next, hm, hm.1]
      rw [if_neg fun he => hg (hgarbled.2 he), hnext]
      exact foldl_next_of_greeting_some hi hg

end Stage

/-- What a history makes of a fresh connection, and what was reported of it. -/
theorem handshake_of_history (fd : Int32) (port : UInt16) (history : List Message) :
    ((Connection.connecting fd port).observeAll history).stage = .ofHistory history ∧
    (Connection.connecting fd port).observations history = history.mapIdx fun t m =>
      if Plausible m.1 ∧
          ((Connection.connecting fd port).observeAll (history.take (t + 1))).stage ≠ .invalid then
        .report (m.1.getD 3 0)
      else .ignore := by
  constructor
  · rw [Connection.stage_observeAll]
    exact Stage.foldl_next history
  · exact Connection.observations_eq _ history

example :
    let history : List Message := [
      ([11, 0, 0, 0, 0x0a, 56, 46, 48, 0, 8, 0], .serverToClient),
      ([7, 0, 0, 3, 0xff, 21, 4], .serverToClient),
      ([2, 0, 0, 1, 133, 166], .clientToServer),
      ([3, 0, 0, 2, 0x00, 0, 0], .serverToClient)]
    (greeting? history, answer? history, verdict? history) = (some 0, some 2, some 3) ∧
      Stage.ofHistory history = .established := by decide

end HookTrace.Mysql
