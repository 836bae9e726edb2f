/-
  What a connection asks of the hub.

  A session is a player on a connection to a room.  It begins by joining the room
  and ends by leaving it: when the player says so, when a frame cannot be read, or
  when the connection is lost.  Whatever a frame names as room and sender, the
  session speaks for its own player in its own room.

  * `Session.react` is the event for what arrives on a connection;
  * `Session.run` lists all events of a session.
-/
import HectocDuel.Hub.Event
import HectocDuel.Wire.Frame

namespace HectocDuel

/-- The outgoing queue of a connection. -/
def ConnectionId.queue (c : ConnectionId) : QueueId :=
  ⟨c.label⟩

/-- What arrives on a connection. -/
inductive Incoming where
  | frame (text : List UInt8)
  /-- The other side closed the connection. -/
  | closed
  /-- The connection was lost. -/
  | failed
  deriving DecidableEq, Repr

/-- A player on a connection to a room. -/
structure Session where
  room : RoomId
  player : PlayerId
  connection : ConnectionId
  deriving DecidableEq, Repr

namespace Session

/-- The client to be seated. -/
def client (s : Session) : Client :=
  .new s.player s.connection s.room s.connection.queue

/-- The event with which a session begins. -/
def joining (s : Session) : Event :=
  .join s.client

/-- The event with which a session ends. -/
def leaving (s : Session) : Event :=
  .leave s.room s.player s.connection

/-- The event for a message, and whether the session goes on. -/
def reactTo (s : Session) (body : Body) : Event × Bool :=
  match body with
  | .text .submit expression => (.submit s.room s.player s.connection expression, true)
  | .leave => (s.leaving, false)
  | body => (.broadcast s.connection { body, room := s.room, sender := some s.player }, true)

/-- The event for what arrives, and whether the session goes on. -/
def react (s : Session) : Incoming → Event × Bool
  | .frame text =>
    match Message.decode text with
    | .ok m => s.reactTo m.body
    | .error _ => (s.leaving, false)
  | .closed => (s.leaving, false)
  | .failed => (s.leaving, false)

/-- The events for what arrives, up to the end of the session. -/
def events (s : Session) : List Incoming → List Event
  | [] => []
  | i :: is =>
    let (e, goesOn) := s.react i
    e :: if goesOn then s.events is else []

/-- All events of a session. -/
def run (s : Session) (is : List Incoming) : List Event :=
  s.joining :: s.events is

end Session

end HectocDuel
