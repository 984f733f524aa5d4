import HookTrace.Proofs.Mysql.Handshake

/-!
# HookTrace.Proofs.Mysql.Progress

What is known of a connection hangs together, whatever is sent and received on it.

* `Observed`: all that one payload can do to a connection; `Connection.observed` says that each
  payload does one of these things, and everything else here follows from it.
* `InOrder`: how the fields of a connection fit its stage and what was reported of it; kept by each
  payload (`Observed.inOrder`) and by whole histories (`InOrder.observeAll`).
* `Connection.record_of_history`: a fresh connection is in order after every history, and moves on
  from there one step at a time.
-/

namespace HookTrace.Mysql

namespace Stage

/-- From one payload to the next the handshake stays where it is, goes one step on, or fails: while
nobody has greeted, or when the client is refused. -/
inductive Advances : Stage → Stage → Prop where
  | stay (stage : Stage) : Advances stage stage
  | greet : Advances .connecting .greeted
  | answer : Advances .greeted .authenticating
  | accept : Advances .authenticating .established
  | spoil : Advances .connecting .invalid
  | refuse : Advances .authenticating .invalid

/-- The order in which stages are passed through. -/
def rank : Stage → Nat
  | connecting => 0
  | greeted => 1
  | authenticating => 2
  | established => 3
  | invalid => 4

theorem Advances.rank_le {stage next : Stage} (h : stage.Advances next) :
    stage.rank ≤ next.rank := by
  cases h with
  | stay => exact Nat.le_refl _
  | greet | answer | accept | spoil | refuse => decide

/-- The stages that no payload leads out of. -/
def Final (stage : Stage) : Prop :=
  stage = .established ∨ stage = .invalid

theorem Advances.eq_of_final {stage next : Stage} (h : stage.Advances next)
    (hfinal : stage.Final) : next = stage := by
  cases h with
  | stay => rfl
  | greet | answer | accept | spoil | refuse => rcases hfinal with hs | hs <;> cases hs

end Stage

/-- What a payload with the sequence id `id` can do to a connection, and what is answered. -/
inductive Observed (conn : Connection) (id : UInt8) : Observation × Connection → Prop where
  | passed : Observed conn id (.ignore, conn)
  | spoilt : conn.stage = .connecting →
      Observed conn id (.ignore, { conn with stage := .invalid })
  | refused : conn.stage = .authenticating →
      Observed conn id (.ignore, { conn with stage := .invalid, isMysql := false })
  | noted : ¬ conn.stage.Final → Observed conn id (.report id, { conn with sequenceId := id })
  | greeted : conn.stage = .connecting → id = 0 →
      Observed conn id (.report id,
        { conn with stage := .greeted, sequenceId := id, lastSequenceId := id })
  | answered : conn.stage = .greeted → id = 1 →
      Observed conn id (.report id,
        { conn with stage := .authenticating, sequenceId := id, lastSequenceId := id })
  | accepted : conn.stage = .authenticating →
      Observed conn id (.report id, { conn with
        stage := .established, isMysql := true, sequenceId := id, lastSequenceId := id })
  | followed : conn.stage = .established →
      Observed conn id (.report id, { conn with sequenceId := id, lastSequenceId := id })

/-- How the fields of a connection hang together, if `reported` is the id of the last payload that
was reported of it. -/
structure InOrder (fd : Int32) (port : UInt16) (reported : UInt8) (conn : Connection) : Prop where
  fd_eq : conn.fd = fd
  port_eq : conn.port = port
  isMysql_iff : conn.isMysql = true ↔ conn.stage = .established
  sequenceId_eq : conn.sequenceId = reported
  before_answer : conn.stage = .connecting ∨ conn.stage = .greeted → conn.lastSequenceId = 0
  at_answer : conn.stage = .authenticating → conn.lastSequenceId = 1
  when_established : conn.stage = .established → conn.lastSequenceId = conn.sequenceId

namespace Observation

def id? : Observation → Option UInt8
  | report id => some id
  | ignore => none

/-- The id of the last payload that was reported, zero if none was. -/
def lastId (answers : List Observation) : UInt8 :=
  (answers.filterMap id?).getLastD 0

theorem getLastD_ids_cons (answer : Observation) (rest : List Observation) (before : UInt8) :
    ((answer :: rest).filterMap id?).getLastD before =
      (rest.filterMap id?).getLastD (answer.id?.getD before) := by
  cases answer with
  | report id => exact List.getLastD_cons
  | ignore => rfl

end Observation

variable {fd : Int32} {port : UInt16} {reported : UInt8} {conn : Connection}

namespace Connection

theorem observed_of_frame {m : Message} (hvalid : conn.stage ≠ .invalid)
    (hframe : isFrame m.1 = true) :
    Observed conn (sequenceOf m.1) (conn.observe m.1 m.2) := by
  unfold observe
  rw [if_neg hvalid, if_pos hframe]
  cases hs : conn.stage with
  | connecting =>
    have hopen : ¬ conn.stage.Final := by simp [Stage.Final, hs]
    simp only [advance, hs]
    split
    next hgreets => exact .greeted hs hgreets.2.1
    next => exact .noted hopen
  | greeted =>
    have hopen : ¬ conn.stage.Final := by simp [Stage.Final, hs]
    simp only [advance, hs]
    split
    next hanswers => exact .answered hs hanswers.2
    next => exact .noted hopen
  | authenticating =>
    have hopen : ¬ conn.stage.Final := by simp [Stage.Final, hs]
    simp only [advance, hs]
    split
    · split
      · exact .accepted hs
      · split
        · exact .refused hs
        · exact .noted hopen
    · exact .noted hopen
  | established =>
    -- nothing is asked of a payload here: it takes both sequence ids along
    have hadvance : conn.advance m.1 m.2 = { conn with lastSequenceId := sequenceOf m.1 } := by
      simp only [advance, hs]
    rw [hadvance]
    simp only [hvalid, if_false]
    exact .followed hs
  | invalid => exact absurd hs hvalid

theorem observed (conn : Connection) (m : Message) :
    Observed conn (sequenceOf m.1) (conn.observe m.1 m.2) := by
  by_cases hinvalid : conn.stage = .invalid
  · unfold observe
    rw [if_pos hinvalid]
    exact .passed
  by_cases hframe : isFrame m.1 = true
  · exact observed_of_frame hinvalid hframe
  · unfold observe
    rw [if_neg hinvalid, if_neg hframe]
    split
    next hconnecting => exact .spoilt hconnecting
    next => exact .passed

end Connection

namespace Observed

variable {id : UInt8} {observed : Observation × Connection}

theorem advances (h : Observed conn id observed) : conn.stage.Advances observed.2.stage := by
  cases h with
  | passed | noted | followed => exact .stay _
  | spoilt hs => exact hs ▸ .spoil
  | refused hs => exact hs ▸ .refuse
  | greeted hs => exact hs ▸ .greet
  | answered hs => exact hs ▸ .answer
  | accepted hs => exact hs ▸ .accept

/-- Each payload keeps a connection in order. -/
theorem inOrder (h : Observed conn id observed) (hconn : InOrder fd port reported conn) :
    InOrder fd port (observed.1.id?.getD reported) observed.2 := by
  obtain ⟨hfd, hport, hmysql, hsequence, hbefore, hat, hestablished⟩ := hconn
  cases h with
  | passed => exact ⟨hfd, hport, hmysql, hsequence, hbefore, hat, hestablished⟩
  | spoilt hs =>
    exact ⟨hfd, hport, by simpa [hs] using hmysql, hsequence, by simp, by simp, by simp⟩
  | refused hs => exact ⟨hfd, hport, by simp, hsequence, by simp, by simp, by simp⟩
  | noted hopen =>
    exact ⟨hfd, hport, hmysql, rfl, hbefore, hat, fun hs => absurd (.inl hs) hopen⟩
  | greeted hs hid =>
    exact ⟨hfd, hport, by simpa [hs] using hmysql, rfl, fun _ => hid, by simp, by simp⟩
  | answered hs hid =>
    exact ⟨hfd, hport, by simpa [hs] using hmysql, rfl, by simp, fun _ => hid, by simp⟩
  | accepted hs => exact ⟨hfd, hport, by simp, rfl, by simp, by simp, fun _ => rfl⟩
  | followed hs => exact ⟨hfd, hport, hmysql, rfl, by simp [hs], by simp [hs], fun _ => rfl⟩

/-- What is not reported leaves a connection as it was, unless it spoils it: the flag that a refusal
takes back has not been set. -/
theorem of_ignore (h : Observed conn id observed) (hignored : observed.1 = .ignore)
    (hconn : InOrder fd port reported conn) :
    observed.2 = conn ∨ observed.2 = { conn with stage := .invalid } := by
  cases h with
  | noted | greeted | answered | accepted | followed => cases hignored
  | passed => exact .inl rfl
  | spoilt hs => exact .inr rfl
  | refused hs =>
    have hmysql : conn.isMysql = false := by
      rw [← Bool.not_eq_true, hconn.isMysql_iff, hs]
      decide
    right
    rw [← hmysql]

end Observed

/-! ### Whole histories -/

theorem inOrder_connecting (fd : Int32) (port : UInt16) :
    InOrder fd port 0 (.connecting fd port) :=
  ⟨rfl, rfl, by simp [Connection.connecting], rfl, fun _ => rfl, nofun, nofun⟩

theorem InOrder.observeAll (h : InOrder fd port reported conn) (history : List Message) :
    InOrder fd port (((conn.observations history).filterMap Observation.id?).getLastD reported)
      (conn.observeAll history) := by
  -- the last id reported so far stands for what was reported before the rest of the history
  induction history generalizing conn reported with
  | nil => exact h
  | cons m rest ih =>
    rw [Connection.observations, Observation.getLastD_ids_cons]
    exact ih ((conn.observed m).inOrder h)

namespace Connection

theorem rank_le_observeAll (conn : Connection) (later : List Message) :
    conn.stage.rank ≤ (conn.observeAll later).stage.rank := by
  induction later generalizing conn with
  | nil => exact Nat.le_refl _
  | cons m rest ih => exact Nat.le_trans (conn.observed m).advances.rank_le (ih _)

theorem stage_observeAll_of_final (h : conn.stage.Final) (later : List Message) :
    (conn.observeAll later).stage = conn.stage := by
  induction later generalizing conn with
  | nil => rfl
  | cons m rest ih =>
    have hstay := (conn.observed m).advances.eq_of_final h
    exact (ih (hstay.symm ▸ h)).trans hstay

/-- A fresh connection, after any history. It is still the connection of its descriptor and port;
it is marked as MySQL exactly while it is established; its sequence ids are those of the last
payload reported and, once the client has answered, of the handshake. From there every payload moves
it on by one step at most, never back and never out of `established` or `invalid`, and one that is
not reported changes nothing but that it may make the connection invalid. -/
theorem record_of_history (fd : Int32) (port : UInt16) (history : List Message) :
    let conn := (connecting fd port).observeAll history
    InOrder fd port (Observation.lastId ((connecting fd port).observations history)) conn ∧
    (∀ later, conn.stage.rank ≤ (conn.observeAll later).stage.rank ∧
      (conn.stage.Final → (conn.observeAll later).stage = conn.stage)) ∧
    ∀ m : Message, conn.stage.Advances (conn.observe m.1 m.2).2.stage ∧
      ((conn.observe m.1 m.2).1 = .ignore → (conn.observe m.1 m.2).2 = conn ∨
        (conn.observe m.1 m.2).2 = { conn with stage := .invalid }) := by
  intro conn
  have horder := (inOrder_connecting fd port).observeAll history
  refine ⟨horder, fun later => ?later, fun m => ?next⟩
  case later =>
    exact ⟨rank_le_observeAll conn later, fun hfinal => stage_observeAll_of_final hfinal later⟩
  case next =>
    have hobserved := conn.observed m
    exact ⟨hobserved.advances, fun hignored => hobserved.of_ignore hignored horder⟩

/-- A client that is refused. -/
theorem record_of_history_refused :
    let conn := (connecting 7 3306).observeAll [
      ([11, 0, 0, 0, 0x0a, 56, 46, 48, 0, 8, 0], .serverToClient),
      ([2, 0, 0, 1, 133, 166], .clientToServer)]
    (conn.observe [3, 0, 0, 2, 0xff, 21, 4] .serverToClient).1 = .ignore ∧
    (conn.observe [3, 0, 0, 2, 0xff, 21, 4] .serverToClient).2 = { conn with stage := .invalid } ∧
    conn.lastSequenceId = 1 := by
  intro conn
  have hignored : (conn.observe [3, 0, 0, 2, 0xff, 21, 4] .serverToClient).1 = .ignore := by decide
  obtain ⟨horder, -, hnext⟩ := record_of_history 7 3306 [
    ([11, 0, 0, 0, 0x0a, 56, 46, 48, 0, 8, 0], .serverToClient),
    ([2, 0, 0, 1, 133, 166], .clientToServer)]
  have hchanged := (hnext ([3, 0, 0, 2, 0xff, 21, 4], .serverToClient)).2 hignored
  refine ⟨hignored, hchanged.resolve_left ?_, horder.at_answer ?_⟩ <;> decide

end Connection

end HookTrace.Mysql
