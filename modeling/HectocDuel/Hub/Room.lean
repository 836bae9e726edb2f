/-
  Rooms and the clients seated in them.

  A client is a player on a connection, with the queue on which the hub answers.
  A room holds at most two clients, one per player, and the puzzle they are
  given once there are two.
-/
import HectocDuel.Puzzle.Solve
import HectocDuel.Table
import HectocDuel.Wire.Message

namespace HectocDuel

/-! ## Clients -/

/-- The name of an outgoing queue. -/
structure QueueId where
  text : String
  deriving DecidableEq, Repr, Inhabited

/-- A player on a connection. -/
structure Client where
  player : PlayerId
  connection : ConnectionId
  room : RoomId
  /-- The queue for what is sent to the player, until it is closed. -/
  outbound : Option QueueId
  deriving DecidableEq, Repr

namespace Client

/-- A client with an open queue. -/
def new (player : PlayerId) (connection : ConnectionId) (room : RoomId) (queue : QueueId) :
    Client :=
  ⟨player, connection, room, some queue⟩

/-- Whether the queue was closed. -/
def isClosed (c : Client) : Bool :=
  c.outbound.isNone

/-- Closes the queue, and says whether it was open. -/
def close (c : Client) : Bool × Client :=
  (!c.isClosed, { c with outbound := none })

end Client

/-! ## Rooms -/

/-- How many players a room holds. -/
def roomCapacity : Nat :=
  2

/-- Whether a room has a puzzle. -/
inductive RoomState where
  | waiting
  | active
  deriving DecidableEq, Repr

/-- The states, in the order in which they are listed. -/
def RoomState.all : List RoomState :=
  [.waiting, .active]

/-- The name of a state. -/
def RoomState.name : RoomState → String
  | waiting => "Waiting"
  | active => "Active"

/-- A room. -/
structure Room where
  id : RoomId
  clients : Table PlayerId Client := .empty
  puzzle : Option Puzzle := none

/-- What can be seen of a room. -/
structure RoomInfo where
  room : RoomId
  state : RoomState
  /-- The players, sorted by name. -/
  players : List PlayerId
  /-- The digits of the puzzle, if there is one. -/
  digits : Option Digits
  deriving DecidableEq

namespace Room

/-- Whether there is a puzzle. -/
def state (r : Room) : RoomState :=
  if r.puzzle.isSome then .active else .waiting

/-- Whether nobody is seated. -/
def isEmpty (r : Room) : Bool :=
  r.clients.size = 0

/-- Whether no further player can be seated. -/
def isFull (r : Room) : Bool :=
  roomCapacity ≤ r.clients.size

/-- Whether a player is seated. -/
def contains (r : Room) (player : PlayerId) : Bool :=
  r.clients.contains player

/-- The client seated as a player, if it is on the given connection. -/
def clientOn (r : Room) (player : PlayerId) (connection : ConnectionId) : Option Client :=
  (r.clients.get? player).filter (·.connection = connection)

theorem not_isFull_new (id : RoomId) : ¬ ({ id } : Room).isFull :=
  Bool.false_ne_true

/-- Seats a client in a room that has a place. -/
def seat (r : Room) (c : Client) (_ : ¬ r.isFull) : Room :=
  { r with clients := r.clients.insert c.player c }

/-- Removes a player. -/
def remove (r : Room) (player : PlayerId) : Room :=
  { r with clients := r.clients.erase player }

/-- What can be seen of the room. -/
def info (r : Room) : RoomInfo :=
  { room := r.id
    state := r.state
    players := r.clients.keys.mergeSort fun a b => a.text ≤ b.text
    digits := r.puzzle.map (·.digits) }

end Room

end HectocDuel
