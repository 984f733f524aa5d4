import HookTrace.Code
import HookTrace.Layout
import HookTrace.Bytes
import HookTrace.Limits

/-!
# HookTrace.Mysql.Connection

Whether a connection speaks the MySQL protocol, judged by its handshake.

A connection is `connecting` until the server greets, then `greeted` until the client answers,
then `authenticating` until the server accepts or refuses, and from then on `established` or
`invalid` for good. Payloads are judged one at a time, as one system call carried them; frames
are not put together again.

* `frameLength`, `isFrame`: the shape of a frame header.
* `Connection.observe`: what one payload does to a connection, and whether it is reported.
-/

namespace HookTrace.Mysql

inductive Direction where
  | clientToServer
  | serverToClient
deriving DecidableEq

instance : Coded Direction where
  all := [.clientToServer, .serverToClient]
  code
    | .clientToServer => 0
    | .serverToClient => 1
  label
    | .clientToServer => "ClientToServer"
    | .serverToClient => "ServerToClient"

inductive Stage where
  | connecting
  | greeted
  | authenticating
  | established
  | invalid
deriving DecidableEq

namespace Stage

def label : Stage → String
  | connecting => "Connecting"
  | greeted => "ServerGreeting"
  | authenticating => "ClientAuth"
  | established => "Established"
  | invalid => "Invalid"

end Stage

/-- Bytes of a frame header: three of length, least significant first, and the sequence id. -/
def headerLength : Nat := 4

/-- First body byte of the server's greeting. -/
def greetingMarker : UInt8 := 0x0a

/-- First body byte of an accepted authentication. -/
def okMarker : UInt8 := 0x00

/-- First body byte of a refused authentication. -/
def errorMarker : UInt8 := 0xff

/-- The length that a frame's header gives to its body; `none` for less than a header. -/
def frameLength (payload : Bytes) : Option Nat :=
  if payload.length < headerLength then none
  else some (Bytes.toNatLE (payload.take 3))

/-- Whether a payload has the shape of a frame that fits the capture buffer. -/
def isFrame (payload : Bytes) : Bool :=
  match frameLength payload with
  | some length => length != 0 && length ≤ Limits.payload
  | none => false

def sequenceOf (payload : Bytes) : UInt8 :=
  payload.getD 3 0

/-- What is known of one tracked descriptor. -/
structure Connection where
  fd : Int32
  port : UInt16
  stage : Stage := .connecting
  /-- Set once the server accepted the client's authentication. -/
  isMysql : Bool := false
  /-- The id of the last reported payload. -/
  sequenceId : UInt8 := 0
  /-- The id of the last payload that moved the handshake forward, or that came after it. -/
  lastSequenceId : UInt8 := 0
deriving DecidableEq

instance : Layout Connection where
  zero := { fd := 0, port := 0 }
  members := [.word 4, .word 1, .word 1, .word 2, .word 4, .word 1, .field 3]

inductive Observation where
  | report (sequenceId : UInt8)
  | ignore
deriving DecidableEq

namespace Connection

/-- A descriptor on which nothing has been sent or received yet. -/
def connecting (fd : Int32) (port : UInt16) : Connection :=
  { fd, port }

/-- The step of the handshake that one frame takes. -/
def advance (conn : Connection) (payload : Bytes) (direction : Direction) : Connection :=
  let sequenceId := sequenceOf payload
  let marker := payload[headerLength]?
  match conn.stage with
  | .connecting =>
    if direction = .serverToClient ∧ sequenceId = 0 ∧ payload.length > 10
        ∧ marker = some greetingMarker then
      { conn with stage := .greeted, lastSequenceId := sequenceId }
    else conn
  | .greeted =>
    if direction = .clientToServer ∧ sequenceId = 1 then
      { conn with stage := .authenticating, lastSequenceId := sequenceId }
    else conn
  | .authenticating =>
    if direction = .serverToClient then
      if marker = some okMarker then
        { conn with stage := .established, isMysql := true, lastSequenceId := sequenceId }
      else if marker = some errorMarker then
        { conn with stage := .invalid, isMysql := false }
      else conn
    else conn
  | .established => { conn with lastSequenceId := sequenceId }
  | .invalid => conn

/-- Feeds one payload to the handshake. A payload that is no frame makes a connection invalid that is
still connecting and is otherwise ignored; on an invalid connection nothing is reported. -/
def observe (conn : Connection) (payload : Bytes) (direction : Direction) :
    Observation × Connection :=
  if conn.stage = .invalid then
    (.ignore, conn)
  else if isFrame payload then
    let next := conn.advance payload direction
    if next.stage = .invalid then (.ignore, next)
    else (.report (sequenceOf payload), { next with sequenceId := sequenceOf payload })
  else if conn.stage = .connecting then
    (.ignore, { conn with stage := .invalid })
  else
    (.ignore, conn)

end Connection

end HookTrace.Mysql
