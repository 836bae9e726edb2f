/-
  What is on record when a report was booked.

  * `apply_grows`: booking never touches a room, a number or a list of players, and
    only the end of a game or of a room gives the room up;
  * `recordsResult_iff`: the end of a game is recorded in full iff both players are
    listed in the game that is open in the room by then.
-/
import HectocDuel.Proofs.Store.Games

namespace HectocDuel

/-- Whether a room is given up when the report is booked. -/
def Report.givesUp (room : RoomId) : Report → Bool
  | roomEmpty r | gameEnded r _ _ => r = room
  | puzzleCreated _ _ | submission _ _ => false

namespace Games

open GameStore

variable {gs : Games} {room : RoomId} {winner loser : PlayerId}

/-! ## Rosters -/

section
variable {lost : RoomId → Prop}

theorem growsBy_puzzleCreated (room : RoomId) (puzzle : Puzzle) :
    GrowsBy lost (ofGames.puzzleCreated room puzzle) :=
  .bind (growsBy_resolve room) fun id => growsBy_change id fun _ => ⟨rfl, rfl⟩

theorem growsBy_submitted (room : RoomId) (submission : Submission) :
    GrowsBy lost (ofGames.submitted room submission) :=
  .bind (growsBy_resolve room) fun id => growsBy_change id fun _ => ⟨rfl, rfl⟩

theorem growsBy_decided (room : RoomId) (winner loser : PlayerId) :
    GrowsBy lost (ofGames.decided room winner loser) := by
  refine .bind (growsBy_resolve room) fun id => ?_
  refine .bind (growsBy_rating winner) fun _ => ?_
  exact .bind (growsBy_rating loser) fun _ => growsBy_recordRatings id _ _

end

/-- Booking a report makes the records grow, and at most its room is given up. -/
theorem apply_grows (hc : gs.Coherent) (report : Report) :
    Grows (report.givesUp · = true) gs (ofGames.apply gs report) := by
  have hlost : ∀ {room : RoomId}, ∀ other, other = room → decide (room = other) = true :=
    fun _ hroom => decide_eq_true hroom.symm
  cases report with
  | roomEmpty room => exact (grows_evict hc room).mono hlost
  | puzzleCreated room puzzle => exact growsBy_puzzleCreated room puzzle gs hc
  | submission room submission => exact growsBy_submitted room submission gs hc
  | gameEnded room winner loser =>
    have hdecided : Grows (· = room) gs _ := growsBy_decided room winner loser gs hc
    exact (hdecided.trans (grows_evict hdecided.coherent room)).mono hlost

/-! ## Results -/

/-- From `gs` to `gs'` the result of a game was recorded in full: the game that is
    found for the room lists both players and has their new ratings, which are
    their ratings from then on. -/
def RecordsResult (gs gs' : Games) (room : RoomId) (winner loser : PlayerId) : Prop :=
  let after := Rating.newRatings (gs.ratingOf winner) (gs.ratingOf loser)
  ∃ id r, (resolve room gs).1 = .ok id ∧ gs'.game id = some r ∧
    r.ratings = [(winner, after.1), (loser, after.2)] ∧ winner ∈ r.players ∧ loser ∈ r.players ∧
    gs'.ratingOf winner = after.1 ∧ gs'.ratingOf loser = after.2

/-- What is done at the end of a game that is still open in its room. -/
theorem decided_of_gameFor {id : GameId} {r : GameRecord} (hr : gs.gameFor room = some id)
    (hg : gs.game id = some r) (winner loser : PlayerId) :
    let after := Rating.newRatings (gs.ratingOf winner) (gs.ratingOf loser)
    ofGames.decided room winner loser gs =
      (.ok (), { gs with
        records := gs.records.insert id
          { r with ratings := [(winner, after.1), (loser, after.2)] }
        ratings := (gs.ratings.insert winner after.1).insert loser after.2 }) := by
  have hresolve : ofGames.resolve room gs = (.ok id, gs) := resolve_of_gameFor hr
  have hrating : ∀ p, ofGames.rating p gs = (.ok (gs.ratingOf p), gs) := fun _ => rfl
  intro after
  rw [decided, bind_apply, hresolve]
  simp only
  rw [bind_apply, hrating]
  simp only
  rw [bind_apply, hrating]
  simp only [ofGames, recordRatings]
  rw [bind_apply, change_of_game hg]
  rfl

theorem apply_gameEnded_of_gameFor {id : GameId} {r : GameRecord} (hr : gs.gameFor room = some id)
    (hg : gs.game id = some r) (winner loser : PlayerId) :
    let after := Rating.newRatings (gs.ratingOf winner) (gs.ratingOf loser)
    ofGames.apply gs (.gameEnded room winner loser) =
      { gs with
        rooms := gs.rooms.erase room
        records := gs.records.insert id
          { r with ratings := [(winner, after.1), (loser, after.2)] }
        ratings := (gs.ratings.insert winner after.1).insert loser after.2 } := by
  intro after
  rw [apply, perform, perform, decided_of_gameFor hr hg]
  rfl

/-- In a room without a game, where games open as they are asked for, one is opened
    for the result. -/
theorem decided_of_autoOpen (hr : gs.gameFor room = none) (ha : gs.autoOpen)
    (winner loser : PlayerId) :
    ofGames.decided room winner loser gs =
      ofGames.decided room winner loser (gs.openGame room).2 := by
  have hopen : (gs.openGame room).2.gameFor room = some gs.next := by
    rw [gameFor_openGame, if_pos rfl]
  have hresolve : ofGames.resolve room gs = ofGames.resolve room (gs.openGame room).2 :=
    (resolve_of_autoOpen hr ha).trans (resolve_of_gameFor hopen).symm
  rw [decided, bind_apply, bind_apply, hresolve]

/-- **The end of a game is recorded in full iff both players are listed** in the
    game that is open in the room. -/
theorem recordsResult_iff (hc : gs.Coherent) (hne : winner ≠ loser) :
    gs.RecordsResult (ofGames.apply gs (.gameEnded room winner loser)) room winner loser ↔
      ∃ id players, gs.gameFor room = some id ∧ gs.roster id = some (room, players) ∧
        winner ∈ players ∧ loser ∈ players := by
  rcases hr : gs.gameFor room with _ | id
  · refine iff_of_false ?_ (by simp)
    rintro ⟨id, r, hid, hg, -, hw, -⟩
    by_cases ha : gs.autoOpen
    · -- The game was opened for the result, so nobody is listed in it.
      obtain rfl : gs.next = id := by
        rw [resolve_of_autoOpen hr ha] at hid
        exact Except.ok.inj hid
      have hopen : Grows (fun _ => False) gs (gs.openGame room).2 := grows_openGame hc hr
      have hnew : (gs.openGame room).2.roster gs.next = some (room, []) := by
        rw [roster_openGame, if_pos rfl]
      have hdecided : Grows (fun _ => False) (gs.openGame room).2 _ :=
        growsBy_decided room winner loser _ hopen.coherent
      have hkept := hdecided.kept _ _ hnew
      rw [← decided_of_autoOpen hr ha] at hkept
      obtain ⟨r', hg', -, hp⟩ := (roster_eq_some _).1 hkept
      obtain rfl : r' = r := Option.some.inj (hg'.symm.trans hg)
      rw [hp] at hw
      cases hw
    · rw [resolve_of_closed hr ha] at hid
      cases hid
  · obtain ⟨players, hp⟩ := hc.mapped room id hr
    obtain ⟨r, hg, -, rfl⟩ := (roster_eq_some _).1 hp
    have hgame : (ofGames.apply gs (.gameEnded room winner loser)).game id =
        some { r with ratings :=
          [(winner, (Rating.newRatings (gs.ratingOf winner) (gs.ratingOf loser)).1),
            (loser, (Rating.newRatings (gs.ratingOf winner) (gs.ratingOf loser)).2)] } := by
      rw [apply_gameEnded_of_gameFor hr hg, game, Table.get?_insert, if_pos rfl]
    constructor
    · rintro ⟨id', r', hid, hg', -, hw, hl, -⟩
      obtain rfl : id = id' := by
        rw [resolve_of_gameFor hr] at hid
        exact Except.ok.inj hid
      obtain rfl := Option.some.inj (hgame.symm.trans hg')
      exact ⟨id, r.players, rfl, hp, hw, hl⟩
    · rintro ⟨id', players, hid, hp', hw, hl⟩
      obtain rfl := Option.some.inj hid
      obtain ⟨-, rfl⟩ := Prod.mk.inj (Option.some.inj (hp.symm.trans hp'))
      refine ⟨id, _, by rw [resolve_of_gameFor hr], hgame, rfl, hw, hl, ?_, ?_⟩
      · rw [apply_gameEnded_of_gameFor hr hg, ratingOf, Table.get?_insert, if_neg hne,
          Table.get?_insert, if_pos rfl]
        rfl
      · rw [apply_gameEnded_of_gameFor hr hg, ratingOf, Table.get?_insert, if_pos rfl]
        rfl

end Games

end HectocDuel
