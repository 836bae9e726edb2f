/-
  Stores: whatever offers the operations on game records.

  * `GameStore` names the operations;
  * `GameStore.ofGames` keeps the records in memory;
  * `GameStore.watched` notes every call of another store, and can take some of
    its operations out of service.
-/
import HectocDuel.Store.Games

namespace HectocDuel

/-! ## Stores -/

/-- The operations of a store whose state is of type `σ`. -/
structure GameStore (σ : Type) where
  /-- The game open in a room. -/
  resolve : RoomId → StoreM σ GameId
  /-- Enters a player into a game. -/
  register : GameId → PlayerId → StoreM σ Unit
  /-- Forgets which game is open in a room. -/
  evict : RoomId → StoreM σ Unit
  /-- Records the puzzle of a game. -/
  savePuzzle : GameId → Puzzle → StoreM σ Unit
  /-- Records an answer. -/
  recordSubmission : SubmissionRecord → StoreM σ Unit
  /-- The rating of a player. -/
  rating : PlayerId → StoreM σ Int
  /-- Records the ratings of two players after a game. -/
  recordRatings : GameId → PlayerId × Int → PlayerId × Int → StoreM σ Unit

/-- The store that keeps its records in memory. -/
def GameStore.ofGames : GameStore Games where
  resolve := Games.resolve
  register := Games.register
  evict := Games.evict
  savePuzzle := Games.savePuzzle
  recordSubmission := Games.recordSubmission
  rating := Games.rating
  recordRatings := Games.recordRatings

/-! ## Watching a store -/

/-- The operations of a store by name. -/
inductive Service where
  | resolve
  | register
  | evict
  | savePuzzle
  | recordSubmission
  | rating
  | recordRatings
  deriving DecidableEq, Repr

/-- A call of a store. -/
inductive Call where
  | resolve (room : RoomId)
  | register (game : GameId) (player : PlayerId)
  | evict (room : RoomId)
  | savePuzzle (game : GameId) (puzzle : Puzzle)
  | recordSubmission (record : SubmissionRecord)
  | rating (player : PlayerId)
  | recordRatings (game : GameId) (first second : PlayerId × Int)
  deriving DecidableEq

/-- The operation that a call asks for. -/
def Call.service : Call → Service
  | resolve _ => .resolve
  | register _ _ => .register
  | evict _ => .evict
  | savePuzzle _ _ => .savePuzzle
  | recordSubmission _ => .recordSubmission
  | rating _ => .rating
  | recordRatings _ _ _ => .recordRatings

/-- A store and the calls made to it. -/
structure Watched (σ : Type) where
  store : σ
  /-- The calls, in order. -/
  calls : List Call := []

variable {σ α : Type}

/-- Notes a call, and does its work unless the operation is out of service. -/
def Watched.note (isDown : Service → Bool) (call : Call) (work : StoreM σ α) :
    StoreM (Watched σ) α := fun w =>
  let calls := w.calls ++ [call]
  if isDown call.service then (.error (.unavailable "out of service"), { w with calls })
  else
    let (result, store) := work w.store
    (result, { store, calls })

/-- A store whose calls are noted, with some operations out of service. -/
def GameStore.watched (s : GameStore σ) (isDown : Service → Bool) : GameStore (Watched σ) where
  resolve room := Watched.note isDown (.resolve room) (s.resolve room)
  register game player := Watched.note isDown (.register game player) (s.register game player)
  evict room := Watched.note isDown (.evict room) (s.evict room)
  savePuzzle game puzzle :=
    Watched.note isDown (.savePuzzle game puzzle) (s.savePuzzle game puzzle)
  recordSubmission record :=
    Watched.note isDown (.recordSubmission record) (s.recordSubmission record)
  rating player := Watched.note isDown (.rating player) (s.rating player)
  recordRatings game first second :=
    Watched.note isDown (.recordRatings game first second) (s.recordRatings game first second)

end HectocDuel
