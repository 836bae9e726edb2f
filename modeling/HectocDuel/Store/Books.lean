/-
  Keeping the books: how reports from rooms change a store.

  Each report is handled to its end before the next.  Work that fails is left
  where it stopped; only the room of a decided game is always given up.

  * `GameStore.apply` handles a report.
-/
import HectocDuel.Store.Service

namespace HectocDuel.GameStore

variable {σ : Type}

/-- Records the puzzle of the game open in a room. -/
def puzzleCreated (s : GameStore σ) (room : RoomId) (puzzle : Puzzle) : StoreM σ Unit := do
  let game ← s.resolve room
  s.savePuzzle game puzzle

/-- Records an answer in the game open in a room. -/
def submitted (s : GameStore σ) (room : RoomId) (submission : Submission) : StoreM σ Unit := do
  let game ← s.resolve room
  s.recordSubmission ⟨game, submission⟩

/-- Records the ratings of both players of the game open in a room. -/
def decided (s : GameStore σ) (room : RoomId) (winner loser : PlayerId) : StoreM σ Unit := do
  let game ← s.resolve room
  let winnerBefore ← s.rating winner
  let loserBefore ← s.rating loser
  let (winnerAfter, loserAfter) := Rating.newRatings winnerBefore loserBefore
  s.recordRatings game (winner, winnerAfter) (loser, loserAfter)

/-- Does work and drops its result. -/
def perform {α : Type} (work : StoreM σ α) (state : σ) : σ :=
  (work state).2

/-- Handles a report.  A decided game no longer occupies its room, so the next
    player who comes there opens another. -/
def apply (s : GameStore σ) (state : σ) : Report → σ
  | .roomEmpty room => perform (s.evict room) state
  | .puzzleCreated room puzzle => perform (s.puzzleCreated room puzzle) state
  | .submission room submission => perform (s.submitted room submission) state
  | .gameEnded room winner loser =>
    perform (s.evict room) (perform (s.decided room winner loser) state)

end HectocDuel.GameStore
