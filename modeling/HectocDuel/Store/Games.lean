/-
  The games on record.

  Each game has a number, the room it is played in, and what is known of it: its
  players, its puzzle, the submissions and, once it is decided, the ratings.  A
  room is mapped to the game that is open in it.  Numbers are given out in
  order and never again.

  * `Games` holds the records; its operations either fail and change nothing or
    do one thing.
-/
import HectocDuel.Hub.Event
import HectocDuel.Rating
import HectocDuel.Table

namespace HectocDuel

/-! ## Records -/

/-- A checked answer and the game it was given in. -/
structure SubmissionRecord where
  game : GameId
  submission : Submission
  deriving DecidableEq, Repr

/-- What is known of a game. -/
structure GameRecord where
  room : RoomId
  /-- The players, in the order in which they came. -/
  players : List PlayerId := []
  puzzle : Option Puzzle := none
  submissions : List SubmissionRecord := []
  /-- The ratings after the game, once it is decided. -/
  ratings : List (PlayerId × Int) := []
  deriving DecidableEq

/-- Why something cannot be looked up or recorded. -/
inductive StoreError where
  /-- No game is open in the room. -/
  | roomNotFound (room : RoomId)
  /-- There is no game with this number. -/
  | gameNotFound (game : GameId)
  /-- The records are out of reach. -/
  | unavailable (reason : String)
  deriving DecidableEq, Repr

namespace StoreError

/-- The error in words. -/
def message : StoreError → String
  | roomNotFound room => "no game for room " ++ room.text
  | gameNotFound game => game.label ++ " not found"
  | unavailable reason => "store unavailable: " ++ reason

/-- Whether the records were searched and hold nothing of the kind. -/
def isNotFound : StoreError → Bool
  | unavailable _ => false
  | _ => true

end StoreError

/-! ## Operations -/

/-- Work on records of type `σ` that can fail. -/
abbrev StoreM (σ : Type) :=
  ExceptT StoreError (StateM σ)

/-- All games on record. -/
structure Games where
  /-- Whether any room opens a game when it is first asked for. -/
  autoOpen : Bool
  /-- The number of the latest game. -/
  latest : Nat := 0
  rooms : Table RoomId GameId := .empty
  records : Table GameId GameRecord := .empty
  ratings : Table PlayerId Int := .empty

namespace Games

/-- Opens a new game in a room, whatever game was open there. -/
def openGame (room : RoomId) (gs : Games) : GameId × Games :=
  let game : GameId := ⟨gs.latest + 1⟩
  (game, { gs with
    latest := gs.latest + 1
    records := gs.records.insert game { room }
    rooms := gs.rooms.insert room game })

/-- The game open in a room. -/
def gameFor (room : RoomId) (gs : Games) : Option GameId :=
  gs.rooms.get? room

/-- What is known of a game. -/
def game (id : GameId) (gs : Games) : Option GameRecord :=
  gs.records.get? id

/-- The rating of a player. -/
def ratingOf (player : PlayerId) (gs : Games) : Int :=
  (gs.ratings.get? player).getD Rating.initial

/-- The game open in a room; where it may, it opens one. -/
def resolve (room : RoomId) : StoreM Games GameId := fun gs =>
  match gs.gameFor room with
  | some id => (.ok id, gs)
  | none =>
    if gs.autoOpen then
      let (id, gs) := gs.openGame room
      (.ok id, gs)
    else (.error (.roomNotFound room), gs)

/-- Changes what is known of a game. -/
def change (id : GameId) (f : GameRecord → GameRecord) : StoreM Games Unit := fun gs =>
  match gs.game id with
  | some r => (.ok (), { gs with records := gs.records.insert id (f r) })
  | none => (.error (.gameNotFound id), gs)

/-- Enters a player into a game, once. -/
def register (id : GameId) (player : PlayerId) : StoreM Games Unit :=
  change id fun r =>
    if player ∈ r.players then r else { r with players := r.players ++ [player] }

/-- Forgets which game is open in a room; the game stays on record. -/
def evict (room : RoomId) : StoreM Games Unit := fun gs =>
  (.ok (), { gs with rooms := gs.rooms.erase room })

/-- Records the puzzle of a game. -/
def savePuzzle (id : GameId) (puzzle : Puzzle) : StoreM Games Unit :=
  change id fun r => { r with puzzle := some puzzle }

/-- Records an answer. -/
def recordSubmission (s : SubmissionRecord) : StoreM Games Unit :=
  change s.game fun r => { r with submissions := r.submissions ++ [s] }

/-- Looks up the rating of a player. -/
def rating (player : PlayerId) : StoreM Games Int := fun gs =>
  (.ok (gs.ratingOf player), gs)

/-- Records the ratings of two players after a game. -/
def recordRatings (id : GameId) (first second : PlayerId × Int) : StoreM Games Unit := do
  change id fun r => { r with ratings := [first, second] }
  modify fun gs =>
    { gs with ratings := (gs.ratings.insert first.1 first.2).insert second.1 second.2 }

end Games

end HectocDuel
