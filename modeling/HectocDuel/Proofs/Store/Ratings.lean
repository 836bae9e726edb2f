/-
  The ratings of all players, whatever work is done and in what order.

  A rating is read, computed and written while a result is booked.  Nothing else writes any,
  and nothing gets lost:

  * `standings`: what all ratings are after a list of results;
  * `ratings_does`: a piece of work rates the players of its result, if it books one, and
    nobody else;
  * `ratings_follow_results`: so the table of ratings holds the standings after all results
    that were booked, and the ratings of each are entered in one record.
-/
import HectocDuel.Proofs.Store.Work

namespace HectocDuel

/-- The winner and the loser, if the report is a result. -/
def Report.result? : Report → Option (PlayerId × PlayerId)
  | gameEnded _ winner loser => some (winner, loser)
  | roomEmpty _ | puzzleCreated _ _ | submission _ _ => none

namespace Games

/-! ## Standings -/

/-- The ratings that a result of players with given ratings leaves.  Who is not rated yet
    plays with the initial rating. -/
def afterResult (rated : PlayerId → Option Int) :
    PlayerId × PlayerId → PlayerId → Option Int
  | (winner, loser), p =>
    let after := Rating.newRatings ((rated winner).getD Rating.initial)
      ((rated loser).getD Rating.initial)
    if p = loser then some after.2 else if p = winner then some after.1 else rated p

/-- The ratings after results, in order, where at first nobody is rated. -/
def standings (results : List (PlayerId × PlayerId)) : PlayerId → Option Int :=
  results.foldl afterResult fun _ => none

theorem standings_concat (results : List (PlayerId × PlayerId)) (result : PlayerId × PlayerId) :
    standings (results ++ [result]) = afterResult (standings results) result := by
  rw [standings, List.foldl_append, ← standings, List.foldl_cons, List.foldl_nil]

theorem newRatings_nonneg (winner loser : Int) :
    0 ≤ (Rating.newRatings winner loser).1 ∧ 0 ≤ (Rating.newRatings winner loser).2 :=
  ⟨Int.le_max_right _ _, Int.le_max_right _ _⟩

theorem standings_nonneg (results : List (PlayerId × PlayerId)) {p : PlayerId} {rating : Int}
    (h : standings results p = some rating) : 0 ≤ rating := by
  induction results using List.reverseRecOn with
  | nil => cases h
  | append_singleton results result ih =>
    rw [standings_concat, afterResult] at h
    split at h
    · obtain rfl := Option.some.inj h
      exact (newRatings_nonneg _ _).2
    · split at h
      · obtain rfl := Option.some.inj h
        exact (newRatings_nonneg _ _).1
      · exact ih h

/-! ## Ratings and work -/

/-- The result that is booked. -/
def Work.result? (w : Work) : Option (PlayerId × PlayerId) :=
  w.report?.bind Report.result?

/-- The results that are booked by work. -/
def results (ws : List Work) : List (PlayerId × PlayerId) :=
  (booked ws).filterMap Report.result?

theorem results_concat (ws : List Work) (w : Work) :
    results (ws ++ [w]) = results ws ++ w.result?.toList := by
  rw [results, booked_append, List.filterMap_append, ← results]
  rcases w with report | room | ⟨id, p⟩
  · cases report <;> rfl
  · rfl
  · rfl

section
variable {gs : Games}

theorem ratings_change (id : GameId) (f : GameRecord → GameRecord) :
    (change id f gs).2.ratings = gs.ratings := by
  rw [change]
  split <;> rfl

theorem ratings_withCurrent (room : RoomId) : (gs.withCurrent room).ratings = gs.ratings := by
  rw [withCurrent]
  split <;> rfl

theorem ratings_does_of_none (ha : gs.autoOpen) {w : Work} (hw : w.result? = none) :
    (gs.does w).ratings = gs.ratings := by
  cases w with
  | book report =>
    cases report with
    | roomEmpty room => rfl
    | puzzleCreated room z =>
      rw [does, apply_puzzleCreated ha, savePuzzle, ratings_change, ratings_withCurrent]
    | submission room s =>
      rw [does, apply_submission ha, recordSubmission, ratings_change, ratings_withCurrent]
    | gameEnded room winner loser => cases hw
  | resolve room => rw [does, resolve_snd ha, ratings_withCurrent]
  | register id p => exact ratings_change id _

theorem ratings_does_gameEnded (ha : gs.autoOpen) (hc : gs.Coherent) (room : RoomId)
    (winner loser p : PlayerId) :
    (gs.does (.book (.gameEnded room winner loser))).ratings.get? p =
      afterResult gs.ratings.get? (winner, loser) p := by
  rw [does, apply_gameEnded ha hc, Table.get?_insert, Table.get?_insert, ratings_withCurrent]
  rfl

/-- **A piece of work rates the players of its result**, if it books one, and nobody else. -/
theorem ratings_does (ha : gs.autoOpen) (hc : gs.Coherent) (w : Work) (p : PlayerId) :
    (gs.does w).ratings.get? p =
      (w.result?.elim gs.ratings.get? (afterResult gs.ratings.get?)) p := by
  rcases hw : w.result? with _ | result
  · rw [ratings_does_of_none ha hw]
    rfl
  · obtain ⟨report, hreport, hresult⟩ := Option.bind_eq_some_iff.1 hw
    cases w with
    | book report' =>
      cases report' with
      | gameEnded room winner loser =>
        obtain rfl := Option.some.inj hw
        exact ratings_does_gameEnded ha hc room winner loser p
      | _ => cases hw
    | _ => cases hw

/-- The table of ratings holds the standings after all results. -/
theorem ratings_eq_standings (ws : List Work) (p : PlayerId) :
    (afterWork ws).ratings.get? p = standings (results ws) p := by
  induction ws using List.reverseRecOn generalizing p with
  | nil => rfl
  | append_singleton ws w ih =>
    obtain ⟨ha, hc⟩ := open_coherent_afterWork ws
    rw [afterWork_concat, ratings_does ha hc, results_concat, funext ih]
    cases w.result? with
    | none => rw [Option.toList_none, List.append_nil, Option.elim_none]
    | some result => rw [Option.toList_some, standings_concat, Option.elim_some]

end

/-- From `gs` to `gs'` both players of a result get their new ratings, which are entered in
    the game that is found for the room; no other rating and no other game changes. -/
structure Rates (gs gs' : Games) (room : RoomId) (winner loser : PlayerId) : Prop where
  found : (resolve room gs).1 = .ok (gs.current room)
  won : gs'.ratingOf winner = (Rating.newRatings (gs.ratingOf winner) (gs.ratingOf loser)).1
  lost : gs'.ratingOf loser = (Rating.newRatings (gs.ratingOf winner) (gs.ratingOf loser)).2
  others : ∀ p, p ≠ winner → p ≠ loser → gs'.ratings.get? p = gs.ratings.get? p
  entered : gs'.game (gs.current room) = some { (gs.game (gs.current room)).getD { room } with
    ratings := [(winner, gs'.ratingOf winner), (loser, gs'.ratingOf loser)] }
  elsewhere : ∀ id, id ≠ gs.current room → gs'.game id = gs.game id

theorem rates_does {gs : Games} (ha : gs.autoOpen) (hc : gs.Coherent) (room : RoomId)
    {winner loser : PlayerId} (hne : winner ≠ loser) :
    gs.Rates (gs.does (.book (.gameEnded room winner loser))) room winner loser := by
  have hratings := ratings_does_gameEnded ha hc room winner loser
  have hgame := game_apply ha hc (.gameEnded room winner loser)
  have hwinner : (gs.does (.book (.gameEnded room winner loser))).ratingOf winner =
      (Rating.newRatings (gs.ratingOf winner) (gs.ratingOf loser)).1 := by
    rw [ratingOf, hratings, afterResult, if_neg hne, if_pos rfl]
    rfl
  have hloser : (gs.does (.book (.gameEnded room winner loser))).ratingOf loser =
      (Rating.newRatings (gs.ratingOf winner) (gs.ratingOf loser)).2 := by
    rw [ratingOf, hratings, afterResult, if_pos rfl]
    rfl
  refine ⟨by rw [resolve_of_open ha], hwinner, hloser, fun p hw hl => ?_, ?_, fun id hid => ?_⟩
  · rw [hratings, afterResult, if_neg hl, if_neg hw]
  · rw [hwinner, hloser]
    exact (hgame _).trans (if_pos ⟨rfl, rfl⟩)
  · exact (hgame id).trans (if_neg fun h => hid h.2)

/-- **No result is lost.**  Whatever work is done, in whatever order, where games open as they
    are asked for: the table of ratings holds the standings after all results that were
    booked, in that order, and no rating in it is below zero.  Booking a result of two
    players gives them the new ratings of the ratings they have by then, enters the same two
    ratings in one record, and changes no other rating or record; no other work changes any
    rating.  Ratings are whole numbers without a bound here, so they never overflow. -/
theorem ratings_follow_results (ws : List Work) :
    (∀ p, (afterWork ws).ratings.get? p = standings (results ws) p) ∧
      (∀ p rating, (afterWork ws).ratings.get? p = some rating → 0 ≤ rating) ∧
      (∀ room winner loser, winner ≠ loser →
        (afterWork ws).Rates (afterWork (ws ++ [.book (.gameEnded room winner loser)])) room
          winner loser) ∧
      ∀ w : Work, w.result? = none → (afterWork (ws ++ [w])).ratings = (afterWork ws).ratings := by
  obtain ⟨ha, hc⟩ := open_coherent_afterWork ws
  refine ⟨ratings_eq_standings ws, fun p rating h => ?_, fun room winner loser hne => ?_,
    fun w hw => ?_⟩
  · exact standings_nonneg (results ws) ((ratings_eq_standings ws p).symm.trans h)
  · rw [afterWork_concat]
    exact rates_does ha hc room hne
  · rw [afterWork_concat]
    exact ratings_does_of_none ha hw

/-- `ada` beats `bob` and loses to `cyd`, in a room whose first game was given up. -/
theorem ratings_follow_results_two_rooms :
    let ada : PlayerId := ⟨"ada"⟩
    let ws : List Work := [.resolve ⟨"s"⟩, .resolve ⟨"r"⟩, .register ⟨2⟩ ada,
      .book (.gameEnded ⟨"r"⟩ ada ⟨"bob"⟩), .book (.roomEmpty ⟨"s"⟩)]
    let ws' : List Work := ws ++ [.book (.gameEnded ⟨"s"⟩ ⟨"cyd"⟩ ada)]
    (∀ p, (afterWork ws').ratings.get? p = standings [(ada, ⟨"bob"⟩), (⟨"cyd"⟩, ada)] p) ∧
      (afterWork ws).Rates (afterWork ws') ⟨"s"⟩ ⟨"cyd"⟩ ada ∧
      (afterWork ws).current ⟨"s"⟩ = ⟨3⟩ := by
  intro ada ws ws'
  obtain ⟨-, -, hrates, -⟩ := ratings_follow_results ws
  exact ⟨(ratings_follow_results ws').1, hrates _ _ _ (by decide), by decide +kernel⟩

end Games

end HectocDuel
