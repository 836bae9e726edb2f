/-
  What the hub is told, and what it does about it.

  * `Event` is what connections tell the hub;
  * `Report` is what happens in rooms, as it is reported to those who keep the books;
  * `Effect` is what the hub does, besides changing its rooms;
  * `Notice` lists what the hub itself says to players.
-/
import HectocDuel.Hub.Room
import HectocDuel.Wire.Message

namespace HectocDuel

/-! ## Events -/

/-- Something a connection tells or asks the hub. -/
inductive Event where
  /-- A client wants to be seated in its room. -/
  | join (client : Client)
  /-- The player on a connection leaves. -/
  | leave (room : RoomId) (player : PlayerId) (connection : ConnectionId)
  /-- A message for everybody in its room. -/
  | broadcast (connection : ConnectionId) (message : Message)
  /-- An answer to the puzzle. -/
  | submit (room : RoomId) (player : PlayerId) (connection : ConnectionId) (expression : String)
  /-- What can be seen of a room? -/
  | info (room : RoomId)
  /-- How many rooms are there? -/
  | count
  deriving DecidableEq

/-! ## Reports -/

/-- An answer of a player that was checked. -/
structure Submission where
  player : PlayerId
  expression : String
  correct : Bool
  deriving DecidableEq, Repr

/-- Something that happened in a room. -/
inductive Report where
  /-- The last player left. -/
  | roomEmpty (room : RoomId)
  /-- A puzzle was drawn for two players. -/
  | puzzleCreated (room : RoomId) (puzzle : Puzzle)
  /-- An answer was checked. -/
  | submission (room : RoomId) (submission : Submission)
  /-- A player solved the puzzle before the other. -/
  | gameEnded (room : RoomId) (winner loser : PlayerId)
  deriving DecidableEq

/-- The room in which it happened. -/
def Report.room : Report → RoomId
  | roomEmpty r => r
  | puzzleCreated r _ => r
  | submission r _ => r
  | gameEnded r _ _ => r

/-! ## Effects -/

/-- Something the hub does. -/
inductive Effect where
  /-- Sends a message to a queue. -/
  | deliver (queue : QueueId) (message : Message)
  /-- Closes a queue. -/
  | close (queue : QueueId)
  /-- Reports what happened. -/
  | report (r : Report)
  /-- Answers a question about a room. -/
  | tellInfo (info : Option RoomInfo)
  /-- Answers the question for the number of rooms. -/
  | tellCount (n : Nat)
  deriving DecidableEq

/-! ## Notices -/

/-- Why a player cannot do what they want in a room. -/
inductive RoomError where
  /-- The hub has ended. -/
  | hubUnavailable
  /-- A player of this name is seated in the room. -/
  | alreadyInRoom (player : PlayerId) (room : RoomId)
  /-- The second player has not come yet. -/
  | puzzleNotAssigned
  deriving DecidableEq, Repr

/-- The error in words. -/
def RoomError.message : RoomError → String
  | hubUnavailable => "room hub is unavailable"
  | alreadyInRoom player room => "player " ++ player.text ++ " already in room " ++ room.text
  | puzzleNotAssigned => "puzzle not assigned yet"

namespace Notice

/-- To the first player in a room. -/
def roomCreated : Body :=
  .text .roomCreated "Room created successfully"

/-- To the second player in a room. -/
def joinSuccess : Body :=
  .text .joinSuccess "Joined the room successfully"

/-- To a third player. -/
def roomFull : Body :=
  .text .roomFull "Room is full"

/-- To a player who leaves. -/
def leaveSuccess : Body :=
  .text .leaveSuccess "Left the room successfully"

/-- To a player whose opponent leaves. -/
def opponentLeft : Body :=
  .text .opponentLeft "Your opponent left the room"

/-- To a player who did not use the digits of the puzzle. -/
def invalidFormat : Body :=
  .text .wrongSubmission
    "Invalid submission format. Please ensure your submission matches the Hectoc sequence."

/-- To a player whose answer is not worth the target. -/
def incorrectSubmission : Body :=
  .text .wrongSubmission "Incorrect submission. Try again."

/-- To the player who solved the puzzle. -/
def correctSubmission : Body :=
  .text .correctSubmission "Congratulations! You have submitted the correct answer."

/-- To the other player. -/
def gameOver : Body :=
  .text .ended "Game over! Your opponent has submitted the correct answer."

/-- To a player who cannot do what they want. -/
def rejected (e : RoomError) : Body :=
  .text .error e.message

/-- To a player whose answer has no value. -/
def unverified (e : ExpressionError) : Body :=
  .text .error ("Error verifying submission: " ++ e.message)

/-- A notice in a room. -/
def inRoom (room : RoomId) (body : Body) : Message :=
  { body, room }

end Notice

end HectocDuel
