/-
  What is entered in which game when a report is booked, where games open as they are
  asked for.

  * `current` is the game that is found for a room, `withCurrent` the records by then;
  * `game_apply` and `gameFor_apply`: a report is entered in the current game of its
    room and nowhere else, and that game is open there until the room is given up.
-/
import HectocDuel.Proofs.Store.Books

namespace HectocDuel

/-- Whether a report is entered in a game. -/
def Report.isEntered : Report → Bool
  | roomEmpty _ => false
  | puzzleCreated _ _ | submission _ _ | gameEnded _ _ _ => true

theorem Report.room_of_givesUp {room : RoomId} {x : Report} (hx : x.givesUp room) :
    x.room = room := by
  cases x with
  | roomEmpty | gameEnded => exact of_decide_eq_true hx
  | puzzleCreated | submission => cases hx

namespace Games

open GameStore

/-! ## The current game of a room -/

section
variable (gs : Games)

/-- The game that is found for a room. -/
def current (room : RoomId) : GameId :=
  (gs.gameFor room).getD gs.next

/-- The records once the game of a room was looked for. -/
def withCurrent (room : RoomId) : Games :=
  if (gs.gameFor room).isSome then gs else (gs.openGame room).2

variable {gs}

theorem current_of_gameFor {room : RoomId} {id : GameId} (hr : gs.gameFor room = some id) :
    gs.current room = id := by
  rw [current, hr]
  rfl

theorem current_of_none {room : RoomId} (hr : gs.gameFor room = none) :
    gs.current room = gs.next := by
  rw [current, hr]
  rfl

theorem withCurrent_of_gameFor {room : RoomId} {id : GameId} (hr : gs.gameFor room = some id) :
    gs.withCurrent room = gs := by
  rw [withCurrent, hr]
  rfl

theorem withCurrent_of_none {room : RoomId} (hr : gs.gameFor room = none) :
    gs.withCurrent room = (gs.openGame room).2 := by
  rw [withCurrent, hr]
  rfl

theorem resolve_of_open (ha : gs.autoOpen) (room : RoomId) :
    resolve room gs = (.ok (gs.current room), gs.withCurrent room) := by
  rcases hr : gs.gameFor room with _ | id
  · rw [resolve_of_autoOpen hr ha, current_of_none hr, withCurrent_of_none hr]
  · rw [resolve_of_gameFor hr, current_of_gameFor hr, withCurrent_of_gameFor hr]

theorem gameFor_withCurrent (room other : RoomId) :
    (gs.withCurrent room).gameFor other =
      if other = room then some (gs.current room) else gs.gameFor other := by
  rcases hr : gs.gameFor room with _ | id
  · rw [withCurrent_of_none hr, current_of_none hr, gameFor_openGame]
  · rw [withCurrent_of_gameFor hr, current_of_gameFor hr]
    split
    · next heq => rw [heq, hr]
    · rfl

theorem Coherent.game_next (hc : gs.Coherent) : gs.game gs.next = none :=
  Option.map_eq_none_iff.1 hc.roster_next

theorem Coherent.game_of_gameFor (hc : gs.Coherent) {room : RoomId} {id : GameId}
    (hr : gs.gameFor room = some id) : ∃ r, gs.game id = some r ∧ r.room = room := by
  obtain ⟨players, hp⟩ := hc.mapped room id hr
  obtain ⟨r, hg, hroom, -⟩ := (gs.roster_eq_some).1 hp
  exact ⟨r, hg, hroom⟩

theorem game_withCurrent (hc : gs.Coherent) (room : RoomId) (id : GameId) :
    (gs.withCurrent room).game id =
      if id = gs.current room then some ((gs.game id).getD { room }) else gs.game id := by
  rcases hr : gs.gameFor room with _ | id'
  · rw [withCurrent_of_none hr, current_of_none hr, game_openGame]
    split
    · next heq => rw [heq, hc.game_next, Option.getD_none]
    · rfl
  · rw [withCurrent_of_gameFor hr, current_of_gameFor hr]
    split
    · next heq =>
      obtain ⟨r, hg, -⟩ := hc.game_of_gameFor hr
      rw [heq, hg, Option.getD_some]
    · rfl

theorem autoOpen_withCurrent (room : RoomId) : (gs.withCurrent room).autoOpen = gs.autoOpen := by
  rw [withCurrent]
  split <;> rfl

theorem ratingOf_withCurrent (room : RoomId) (p : PlayerId) :
    (gs.withCurrent room).ratingOf p = gs.ratingOf p := by
  rw [withCurrent]
  split <;> rfl

theorem coherent_withCurrent (hc : gs.Coherent) (room : RoomId) :
    (gs.withCurrent room).Coherent := by
  rcases hr : gs.gameFor room with _ | id
  · rw [withCurrent_of_none hr]
    have hgrows : Grows (fun _ => False) gs (gs.openGame room).2 := grows_openGame hc hr
    exact hgrows.coherent
  · rwa [withCurrent_of_gameFor hr]

theorem gameFor_of_current (hc : gs.Coherent) {room : RoomId} {r : GameRecord}
    (hg : gs.game (gs.current room) = some r) :
    gs.gameFor room = some (gs.current room) ∧ r.room = room := by
  rcases hr : gs.gameFor room with _ | id
  · rw [current_of_none hr, hc.game_next] at hg
    cases hg
  · obtain ⟨r', hg', hroom⟩ := hc.game_of_gameFor hr
    rw [current_of_gameFor hr, hg'] at hg
    obtain rfl := Option.some.inj hg
    exact ⟨by rw [current_of_gameFor hr], hroom⟩

theorem current_ne_of_gameFor (hc : gs.Coherent) {room other : RoomId} {id : GameId}
    (hr : gs.gameFor room = some id) (hne : other ≠ room) : gs.current other ≠ id := by
  rintro rfl
  obtain ⟨r, hg, rfl⟩ := hc.game_of_gameFor hr
  exact hne (gameFor_of_current hc hg).2.symm

end

/-! ## Booking a report -/

section
variable {gs : Games} {room : RoomId}

variable (gs) in
/-- What is known of a game after a report was entered in it. -/
def entered (id : GameId) (r : GameRecord) : Report → GameRecord
  | .puzzleCreated _ z => { r with puzzle := some z }
  | .submission _ s => { r with submissions := r.submissions ++ [⟨id, s⟩] }
  | .gameEnded _ winner loser =>
    let after := Rating.newRatings (gs.ratingOf winner) (gs.ratingOf loser)
    { r with ratings := [(winner, after.1), (loser, after.2)] }
  | .roomEmpty _ => r

theorem apply_puzzleCreated (ha : gs.autoOpen) (room : RoomId) (z : Puzzle) :
    ofGames.apply gs (.puzzleCreated room z) =
      (savePuzzle (gs.current room) z (gs.withCurrent room)).2 := by
  have hresolve : ofGames.resolve room gs = _ := resolve_of_open ha room
  rw [apply, perform, puzzleCreated, bind_apply, hresolve]
  rfl

theorem apply_submission (ha : gs.autoOpen) (room : RoomId) (s : Submission) :
    ofGames.apply gs (.submission room s) =
      (recordSubmission ⟨gs.current room, s⟩ (gs.withCurrent room)).2 := by
  have hresolve : ofGames.resolve room gs = _ := resolve_of_open ha room
  rw [apply, perform, submitted, bind_apply, hresolve]
  rfl

theorem apply_gameEnded (ha : gs.autoOpen) (hc : gs.Coherent) (room : RoomId)
    (winner loser : PlayerId) :
    let after := Rating.newRatings (gs.ratingOf winner) (gs.ratingOf loser)
    ofGames.apply gs (.gameEnded room winner loser) =
      { gs.withCurrent room with
        rooms := (gs.withCurrent room).rooms.erase room
        records := (gs.withCurrent room).records.insert (gs.current room)
          (gs.entered (gs.current room) ((gs.game (gs.current room)).getD { room })
            (.gameEnded room winner loser))
        ratings :=
          ((gs.withCurrent room).ratings.insert winner after.1).insert loser after.2 } := by
  intro after
  have hfor : (gs.withCurrent room).gameFor room = some (gs.current room) := by
    rw [gameFor_withCurrent, if_pos rfl]
  have hgame : (gs.withCurrent room).game (gs.current room) = some _ :=
    (game_withCurrent hc room _).trans (if_pos rfl)
  have hlooked : ofGames.apply gs (.gameEnded room winner loser) =
      ofGames.apply (gs.withCurrent room) (.gameEnded room winner loser) := by
    have hresolve : ofGames.resolve room (gs.withCurrent room) = ofGames.resolve room gs :=
      (resolve_of_gameFor hfor).trans (resolve_of_open ha room).symm
    rw [apply, apply, perform, perform, perform, perform, decided, bind_apply, bind_apply, hresolve]
  rw [hlooked, apply_gameEnded_of_gameFor hfor hgame, ratingOf_withCurrent, ratingOf_withCurrent]
  rfl

theorem game_change_withCurrent (hc : gs.Coherent) (f : GameRecord → GameRecord) (id : GameId) :
    (change (gs.current room) f (gs.withCurrent room)).2.game id =
      if id = gs.current room then some (f ((gs.game id).getD { room })) else gs.game id := by
  rw [game_change, game_withCurrent hc, game_withCurrent hc, if_pos rfl]
  split
  · next heq => rw [heq, Option.map_some]
  · rfl

/-- **A report is entered in the current game of its room and nowhere else.** -/
theorem game_apply (ha : gs.autoOpen) (hc : gs.Coherent) (report : Report) (id : GameId) :
    (ofGames.apply gs report).game id =
      if report.isEntered ∧ id = gs.current report.room then
        some (gs.entered id ((gs.game id).getD { room := report.room }) report)
      else gs.game id := by
  cases report with
  | roomEmpty room => exact (if_neg fun h => nomatch h.1).symm
  | puzzleCreated room z =>
    rw [apply_puzzleCreated ha, savePuzzle, game_change_withCurrent hc]
    simp [Report.isEntered, Report.room, entered]
  | submission room s =>
    rw [apply_submission ha, recordSubmission, game_change_withCurrent hc]
    simp only [Report.isEntered, Report.room, entered, true_and]
    split
    · next heq => rw [heq]
    · rfl
  | gameEnded room winner loser =>
    rw [apply_gameEnded ha hc, game, Table.get?_insert]
    change (if id = _ then _ else (gs.withCurrent room).game id) = _
    rw [game_withCurrent hc]
    simp only [Report.isEntered, Report.room, entered, true_and]
    split
    · next heq => rw [heq]
    · rfl

/-- The game in which a report is entered is open in the room, until a report gives the
    room up. -/
theorem gameFor_apply (ha : gs.autoOpen) (hc : gs.Coherent) (report : Report) (room : RoomId) :
    (ofGames.apply gs report).gameFor room =
      if report.givesUp room then none
      else if room = report.room then some (gs.current room) else gs.gameFor room := by
  cases report with
  | roomEmpty left =>
    refine (gameFor_evict gs left room).trans ?_
    by_cases hroom : room = left <;> simp [Report.givesUp, Report.room, hroom, eq_comm (a := left)]
  | puzzleCreated created z =>
    rw [apply_puzzleCreated ha, savePuzzle, gameFor_change, gameFor_withCurrent]
    by_cases hroom : room = created <;> simp [Report.givesUp, Report.room, hroom]
  | submission played s =>
    rw [apply_submission ha, recordSubmission, gameFor_change, gameFor_withCurrent]
    by_cases hroom : room = played <;> simp [Report.givesUp, Report.room, hroom]
  | gameEnded ended winner loser =>
    rw [apply_gameEnded ha hc]
    refine (Table.get?_erase _ _ _).trans ?_
    change (if room = ended then none else (gs.withCurrent ended).gameFor room) = _
    rw [gameFor_withCurrent]
    by_cases hroom : room = ended <;>
      simp [Report.givesUp, Report.room, hroom, eq_comm (a := ended)]

theorem gameFor_apply_of_givesUp (ha : gs.autoOpen) (hc : gs.Coherent) {report : Report}
    (hup : report.givesUp room) : (ofGames.apply gs report).gameFor room = none := by
  rw [gameFor_apply ha hc, if_pos hup]

theorem gameFor_apply_own (ha : gs.autoOpen) (hc : gs.Coherent) {report : Report}
    (hup : report.givesUp report.room = false) :
    (ofGames.apply gs report).gameFor report.room = some (gs.current report.room) := by
  rw [gameFor_apply ha hc, hup, if_neg Bool.false_ne_true, if_pos rfl]

theorem gameFor_apply_of_ne (ha : gs.autoOpen) (hc : gs.Coherent) {report : Report}
    (hne : report.room ≠ room) : (ofGames.apply gs report).gameFor room = gs.gameFor room := by
  rw [gameFor_apply ha hc, if_neg fun hup => hne (Report.room_of_givesUp hup), if_neg hne.symm]

theorem autoOpen_change (id : GameId) (f : GameRecord → GameRecord) :
    (change id f gs).2.autoOpen = gs.autoOpen := by
  rw [change]
  split <;> rfl

theorem autoOpen_apply (ha : gs.autoOpen) (hc : gs.Coherent) (report : Report) :
    (ofGames.apply gs report).autoOpen := by
  cases report with
  | roomEmpty room => exact ha
  | puzzleCreated room z =>
    rw [apply_puzzleCreated ha, savePuzzle, autoOpen_change, autoOpen_withCurrent, ha]
  | submission room s =>
    rw [apply_submission ha, recordSubmission, autoOpen_change, autoOpen_withCurrent, ha]
  | gameEnded room winner loser =>
    rw [apply_gameEnded ha hc]
    exact (autoOpen_withCurrent room).trans ha

end

end Games

end HectocDuel
