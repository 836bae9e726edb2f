/-
  The hub: all rooms, and what becomes of them event by event.

  A room begins with its first player and ends with the last, or with a correct
  answer.  As soon as two players are seated they are given a puzzle, which is
  theirs until one of them leaves.

  The puzzles come from a source that may fail for single draws; the hub then
  makes do with a puzzle whose solutions it does not know.

  * `Hub.step` takes one event.
-/
import HectocDuel.Hub.Event
import HectocDuel.Puzzle.Draw

namespace HectocDuel

/-- The rooms, and how many puzzles were drawn. -/
structure Hub where
  rooms : Table RoomId Room := .empty
  draws : Nat := 0

/-- A source of puzzles: the draw with each number, if it succeeds. -/
abbrev PuzzleSource :=
  Nat → Option Puzzle

/-- The puzzle for a draw that failed. -/
def unsolvedPuzzle : Puzzle :=
  ⟨fallbacks[0], []⟩

/-! ## What is sent -/

/-- Sends a message to a client, if its queue is open. -/
def Client.deliver (c : Client) (m : Message) : List Effect :=
  (c.outbound.map (Effect.deliver · m)).toList

/-- Closes the queue of a client, if it is open. -/
def Client.closing (c : Client) : List Effect :=
  (c.outbound.map Effect.close).toList

/-- Sends a message to every client of a room. -/
def Room.deliverAll (r : Room) (m : Message) : List Effect :=
  r.clients.values.flatMap (·.deliver m)

namespace Hub

/-- What can be seen of a room, if it exists. -/
def info? (h : Hub) (room : RoomId) : Option RoomInfo :=
  (h.rooms.get? room).map Room.info

/-- The hub with a room as given. -/
def setRoom (h : Hub) (r : Room) : Hub :=
  { h with rooms := h.rooms.insert r.id r }

/-- The hub without a room. -/
def dropRoom (h : Hub) (room : RoomId) : Hub :=
  { h with rooms := h.rooms.erase room }

/-! ## Joining -/

/-- Gives a puzzle to the players of a room. -/
def start (source : PuzzleSource) (h : Hub) (r : Room) : Hub × List Effect :=
  let puzzle := (source h.draws).getD unsolvedPuzzle
  let assign (c : Client) : List Effect :=
    c.deliver { body := .puzzleAssign puzzle.digits, room := r.id, sender := some c.player }
  ({ h.setRoom { r with puzzle := some puzzle } with draws := h.draws + 1 },
    r.clients.values.flatMap assign ++ [.report (.puzzleCreated r.id puzzle)])

/-- Turns a client away. -/
def reject (h : Hub) (c : Client) (body : Body) : Hub × List Effect :=
  (h, c.deliver (Notice.inRoom c.room body) ++ c.closing)

/-- Seats a client, if its player is not seated and there is a place. -/
def join (source : PuzzleSource) (h : Hub) (c : Client) : Hub × List Effect :=
  match h.rooms.get? c.room with
  | none =>
    let r : Room := { id := c.room }
    (h.setRoom (r.seat c (Room.not_isFull_new _)),
      c.deliver (Notice.inRoom c.room Notice.roomCreated))
  | some r =>
    if r.contains c.player then
      h.reject c (Notice.rejected (.alreadyInRoom c.player c.room))
    else if hr : r.isFull then h.reject c Notice.roomFull
    else
      let welcome := c.deliver (Notice.inRoom c.room Notice.joinSuccess)
      let r := r.seat c hr
      if r.isFull then
        let (h, effects) := h.start source r
        (h, welcome ++ effects)
      else (h.setRoom r, welcome)

/-! ## Leaving -/

/-- Removes a player who is seated on a connection. -/
def leave (h : Hub) (room : RoomId) (player : PlayerId) (connection : ConnectionId) :
    Hub × List Effect :=
  match h.rooms.get? room with
  | none => (h, [])
  | some r =>
    match r.clientOn player connection with
    | none => (h, [])
    | some c =>
      let farewell := c.deliver (Notice.inRoom room Notice.leaveSuccess) ++ c.closing
      let r := r.remove player
      if r.isEmpty then (h.dropRoom room, farewell ++ [.report (.roomEmpty room)])
      else
        (h.setRoom { r with puzzle := none },
          farewell ++ r.deliverAll (Notice.inRoom room Notice.opponentLeft))

/-! ## Messages to all -/

/-- Relays a message, if its sender is seated in its room on the connection. -/
def broadcast (h : Hub) (connection : ConnectionId) (m : Message) : Hub × List Effect :=
  match h.rooms.get? m.room, m.sender with
  | some r, some sender =>
    if (r.clientOn sender connection).isSome then (h, r.deliverAll m) else (h, [])
  | _, _ => (h, [])

/-! ## Answers -/

/-- Ends the game in a room. -/
def finish (h : Hub) (r : Room) (winner : PlayerId) : Hub × List Effect :=
  let clients := r.clients.values
  let result (c : Client) : List Effect :=
    c.deliver <| Notice.inRoom r.id <|
      if c.player = winner then Notice.correctSubmission else Notice.gameOver
  let ended :=
    match clients.find? (·.player ≠ winner) with
    | some loser => [Effect.report (.gameEnded r.id winner loser.player)]
    | none => []
  (h.dropRoom r.id, clients.flatMap result ++ clients.flatMap Client.closing ++ ended)

/-- Checks an answer of a player who is seated on the connection. -/
def submit (h : Hub) (room : RoomId) (player : PlayerId) (connection : ConnectionId)
    (expression : String) : Hub × List Effect :=
  match h.rooms.get? room with
  | none => (h, [])
  | some r =>
    match r.clientOn player connection with
    | none => (h, [])
    | some c =>
      let reply (body : Body) := c.deliver (Notice.inRoom room body)
      match r.puzzle with
      | none => (h, reply (Notice.rejected .puzzleNotAssigned))
      | some puzzle =>
        if puzzle.digits.matchesSubmission expression then
          match verify expression with
          | .error e => (h, reply (Notice.unverified e))
          | .ok correct =>
            let checked := Effect.report (.submission room ⟨player, expression, correct⟩)
            if correct then
              let (h, effects) := h.finish r player
              (h, checked :: effects)
            else (h, checked :: reply Notice.incorrectSubmission)
        else (h, reply Notice.invalidFormat)

/-! ## Events -/

/-- Takes one event: the hub after it, and what it does in order. -/
def step (source : PuzzleSource) (h : Hub) : Event → Hub × List Effect
  | .join c => h.join source c
  | .leave room player connection => h.leave room player connection
  | .broadcast connection m => h.broadcast connection m
  | .submit room player connection expression => h.submit room player connection expression
  | .info room => (h, [.tellInfo (h.info? room)])
  | .count => (h, [.tellCount h.rooms.size])

/-- Takes events in order. -/
def run (source : PuzzleSource) (h : Hub) : List Event → Hub × List Effect
  | [] => (h, [])
  | e :: es =>
    let (h, effects) := h.step source e
    let (h, later) := h.run source es
    (h, effects ++ later)

end Hub

end HectocDuel
