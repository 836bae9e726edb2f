/-
  Duels on record.

  A duel is the stretch of work from the report that announces a puzzle in a room to the
  report that the game there ended, without another puzzle or an empty room reported in
  between.

  * `Going.does`: as long as a duel goes on, its game is open in the room, and the
    answers are entered there one after the other;
  * `duel_kept`: so when it ends its record has the puzzle, all of its answers and both
    ratings, and nothing is entered there any more; no two duels share a record.
-/
import HectocDuel.Proofs.Hub.Play
import HectocDuel.Proofs.Store.Work

namespace HectocDuel

/-- The answers among reports on a room. -/
def submissionsOn (room : RoomId) (reports : List Report) : List Submission :=
  reports.filterMap fun
    | .submission r s => if r = room then some s else none
    | _ => none

theorem submissionsOn_append (room : RoomId) (xs ys : List Report) :
    submissionsOn room (xs ++ ys) = submissionsOn room xs ++ submissionsOn room ys :=
  List.filterMap_append

theorem submissionsOn_of_ne {room : RoomId} {x : Report} (hx : x.room ≠ room) :
    submissionsOn room [x] = [] := by
  cases x with
  | submission r s => simp [submissionsOn, show r ≠ room from hx]
  | _ => rfl

namespace Games

/-! ## A duel that goes on -/

/-- The game `id` is open in the room and has the puzzle `z`; the answers `checked` are
    the last that were entered in it, after the answers `earlier`. -/
structure Going (gs : Games) (id : GameId) (room : RoomId) (z : Puzzle)
    (earlier : List SubmissionRecord) (checked : List Submission) : Prop where
  isOpen : gs.gameFor room = some id
  recorded : ∃ r, gs.game id = some r ∧ r.room = room ∧ r.puzzle = some z ∧
    r.submissions = earlier ++ checked.map (⟨id, ·⟩)

section
variable {gs : Games} {id : GameId} {room : RoomId} {z : Puzzle}
  {earlier : List SubmissionRecord} {checked : List Submission}

theorem Going.book_elsewhere (h : gs.Going id room z earlier checked) (ha : gs.autoOpen)
    (hc : gs.Coherent) {x : Report} (hx : x.room ≠ room) :
    (gs.does (.book x)).Going id room z earlier checked := by
  obtain ⟨r, hg, hr⟩ := h.recorded
  have hne := current_ne_of_gameFor hc h.isOpen hx
  refine ⟨?_, r, ?_, hr⟩
  · exact (gameFor_apply_of_ne ha hc hx).trans h.isOpen
  · rw [does, game_apply ha hc, if_neg fun heq => hne heq.2.symm, hg]

theorem Going.book_submission (h : gs.Going id room z earlier checked) (ha : gs.autoOpen)
    (hc : gs.Coherent) (s : Submission) :
    (gs.does (.book (.submission room s))).Going id room z earlier (checked ++ [s]) := by
  obtain ⟨r, hg, hroom, hz, hs⟩ := h.recorded
  have hcur := current_of_gameFor h.isOpen
  refine ⟨?_, gs.entered id r (.submission room s), ?_, hroom, hz, ?_⟩
  · exact (gameFor_apply_own ha hc rfl).trans (congrArg some hcur)
  · rw [does, game_apply ha hc, if_pos ⟨rfl, hcur.symm⟩, hg, Option.getD_some]
  · rw [entered, hs, List.map_append, List.append_assoc]
    rfl

/-- **A duel goes on** until another puzzle, the end of the game or an empty room is
    reported. -/
theorem Going.does (h : gs.Going id room z earlier checked) (ha : gs.autoOpen)
    (hc : gs.Coherent) {w : Work}
    (hw : ∀ x ∈ w.report?, x.room = room → x.puzzle? = none ∧ ¬ x.IsFinal) :
    (gs.does w).Going id room z earlier (checked ++ submissionsOn room (booked [w])) := by
  have hnothing : submissionsOn room [] = [] := rfl
  obtain ⟨r, hg, hr⟩ := h.recorded
  cases w with
  | book x =>
    change (gs.does (.book x)).Going id room z earlier (checked ++ submissionsOn room [x])
    by_cases hroom : x.room = room
    · obtain ⟨hz, hfinal⟩ := hw x rfl hroom
      cases x with
      | submission r s =>
        obtain rfl : r = room := hroom
        have hs : submissionsOn r [.submission r s] = [s] := by simp [submissionsOn]
        rw [hs]
        exact h.book_submission ha hc s
      | puzzleCreated => cases hz
      | gameEnded | roomEmpty => exact absurd trivial hfinal
    · rw [submissionsOn_of_ne hroom, List.append_nil]
      exact h.book_elsewhere ha hc hroom
  | resolve other =>
    change (gs.does _).Going id room z earlier (checked ++ submissionsOn room [])
    rw [hnothing, List.append_nil]
    refine ⟨?_, r, ?_, hr⟩
    · rw [gameFor_does_resolve ha]
      split
      · next heq => rw [← heq, current_of_gameFor h.isOpen]
      · exact h.isOpen
    · rw [Games.does, resolve_snd ha, game_withCurrent hc, hg, Option.getD_some, ite_self]
  | register id' p =>
    change (gs.does _).Going id room z earlier (checked ++ submissionsOn room [])
    rw [hnothing, List.append_nil]
    obtain ⟨r', hg', hsame⟩ := game_does_register hg id' p
    exact ⟨(gameFor_does_register id' p room).trans h.isOpen, r', hg', hsame.room.trans hr.1,
      hsame.puzzle.trans hr.2.1, hsame.submissions.trans hr.2.2⟩

theorem going_of_puzzleCreated (ha : gs.autoOpen) (hc : gs.Coherent) (room : RoomId)
    (z : Puzzle) :
    ∃ id earlier, (gs.does (.book (.puzzleCreated room z))).Going id room z earlier [] := by
  let r := (gs.game (gs.current room)).getD { room }
  refine ⟨gs.current room, r.submissions, gameFor_apply_own ha hc rfl, { r with puzzle := some z },
    ?_, ?_, rfl, (List.append_nil _).symm⟩
  · rw [Games.does, game_apply ha hc]
    exact if_pos ⟨rfl, rfl⟩
  · change ((gs.game (gs.current room)).getD { room }).room = room
    rcases hg : gs.game (gs.current room) with _ | r
    · rfl
    · exact (gameFor_of_current hc hg).2

/-- When the end of a duel is booked its game is closed, with both ratings. -/
theorem Going.gameEnded (h : gs.Going id room z earlier checked) (ha : gs.autoOpen)
    (hc : gs.Coherent) (w l : PlayerId) :
    let gs' := gs.does (.book (.gameEnded room w l))
    ∃ r, gs'.game id = some r ∧ gs'.Closed id r ∧ r.room = room ∧ r.puzzle = some z ∧
      r.submissions = earlier ++ checked.map (⟨id, ·⟩) ∧ ∃ a b, r.ratings = [(w, a), (l, b)] := by
  obtain ⟨r, hg, hroom, hz, hs⟩ := h.recorded
  have hcur := current_of_gameFor h.isOpen
  have hg' : (gs.does (.book (.gameEnded room w l))).game id =
      some (gs.entered id r (.gameEnded room w l)) := by
    rw [Games.does, game_apply ha hc, if_pos ⟨rfl, hcur.symm⟩, hg, Option.getD_some]
  refine ⟨_, hg', ⟨⟨_, hg', .refl _⟩, fun other ho => ?_⟩, hroom, hz, hs, _, _, rfl⟩
  by_cases hroom : other = room
  · have hnone : (gs.does (.book (.gameEnded room w l))).gameFor room = none :=
      gameFor_apply_of_givesUp ha hc (decide_eq_true rfl)
    rw [hroom, hnone] at ho
    cases ho
  · -- The game was open in no other room.
    have hother := (gameFor_apply_of_ne ha hc (Ne.symm hroom)).symm.trans ho
    exact current_ne_of_gameFor hc h.isOpen hroom (current_of_gameFor hother)

end

/-! ## Duels -/

/-- A duel in the course of work, from the report of its puzzle to the report of its
    end. -/
structure Duel where
  /-- What was done before. -/
  before : List Work
  room : RoomId
  puzzle : Puzzle
  /-- What is done from the one report to the other. -/
  between : List Work
  winner : PlayerId
  loser : PlayerId
  /-- Neither another puzzle nor an empty room is reported in between. -/
  undisturbed : ∀ x ∈ booked between, x.room = room → x.puzzle? = none ∧ x ≠ .roomEmpty room

namespace Duel

/-- All work until the end of the duel is booked. -/
def opening (d : Duel) : List Work :=
  d.before ++ .book (.puzzleCreated d.room d.puzzle) :: d.between

/-- All work until the end of the duel was booked. -/
def work (d : Duel) : List Work :=
  d.opening ++ [.book (.gameEnded d.room d.winner d.loser)]

/-- The answers that were checked in the duel. -/
def checked (d : Duel) : List Submission :=
  submissionsOn d.room (booked d.between)

/-- A duel is kept as the record `r` of the game `id`: the game is open in its room until
    its end is booked; then the record has its puzzle, its answers last and the ratings
    of both players; and through the work `later` the game is open nowhere and its record
    tells of the same play. -/
structure KeptAs (d : Duel) (later : List Work) (id : GameId) (r : GameRecord) : Prop where
  isOpen : (afterWork d.opening).gameFor d.room = some id
  recorded : (afterWork d.work).game id = some r
  room : r.room = d.room
  puzzle : r.puzzle = some d.puzzle
  submissions : ∃ earlier, r.submissions = earlier ++ d.checked.map (⟨id, ·⟩)
  ratings : ∃ a b, r.ratings = [(d.winner, a), (d.loser, b)]
  closed : ∀ part, part <+: later → (afterWork (d.work ++ part)).Closed id r

theorem booked_work (d : Duel) :
    booked d.work = booked d.opening ++ [.gameEnded d.room d.winner d.loser] :=
  booked_append ..

theorem not_isFinal_of_between (d : Duel) (hplayed : Played (booked d.work)) {x : Report}
    (hx : x ∈ booked d.between) (hroom : x.room = d.room) : ¬ x.IsFinal := by
  intro hfinal
  obtain ⟨xs, ys, hbetween⟩ := List.append_of_mem hx
  -- After `x` no puzzle is open, and none is announced.
  have hclosed : openPuzzle d.room (booked d.opening) = none := by
    have hsplit : booked d.opening =
        (booked d.before ++ .puzzleCreated d.room d.puzzle :: xs ++ [x]) ++ ys := by
      rw [opening, booked_append, booked_book, hbetween]
      simp
    rw [hsplit]
    refine openPuzzle_append_eq_none ?_ fun y hy hyroom => ?_
    · rw [openPuzzle_concat, if_pos hroom]
      cases x with
      | gameEnded | roomEmpty => rfl
      | puzzleCreated | submission => exact hfinal.elim
    · refine (d.undisturbed y ?_ hyroom).1
      rw [hbetween]
      exact List.mem_append_right _ (List.mem_cons_of_mem x hy)
  obtain ⟨z, hz⟩ := hplayed (booked d.opening) (.gameEnded d.room d.winner d.loser)
    (d.booked_work ▸ List.prefix_refl _)
  rw [hclosed] at hz
  cases hz

/-- A duel goes on until its end is booked. -/
theorem going (d : Duel) (hplayed : Played (booked d.work)) :
    ∃ id earlier, (afterWork d.opening).Going id d.room d.puzzle earlier d.checked := by
  obtain ⟨ha, hc⟩ := open_coherent_afterWork d.before
  obtain ⟨id, earlier, hstart⟩ := going_of_puzzleCreated ha hc d.room d.puzzle
  have hopening : d.opening =
      (d.before ++ [.book (.puzzleCreated d.room d.puzzle)]) ++ d.between := by
    rw [opening, List.append_cons]
  have hw : ∀ x ∈ booked d.between, x.room = d.room → x.puzzle? = none ∧ ¬ x.IsFinal :=
    fun x hx hroom => ⟨(d.undisturbed x hx hroom).1, d.not_isFinal_of_between hplayed hx hroom⟩
  refine ⟨id, earlier, ?_⟩
  rw [hopening, checked]
  rw [← afterWork_concat] at hstart
  generalize d.between = between at hw
  induction between using List.reverseRecOn with
  | nil =>
    rw [List.append_nil]
    exact hstart
  | append_singleton ws w ih =>
    have hgoing := ih fun x hx => hw x (booked_append ws [w] ▸ List.mem_append_left _ hx)
    obtain ⟨ha, hc⟩ := open_coherent_afterWork (d.before ++ [.book _] ++ ws)
    rw [← List.append_assoc, afterWork_concat, booked_append, submissionsOn_append]
    refine hgoing.does ha hc fun x hx => hw x ?_
    rw [booked_append]
    refine List.mem_append_right _ (List.mem_filterMap.2 ⟨w, List.mem_cons_self, hx⟩)

/-- Two duels in one course of work are not kept as one record. -/
theorem KeptAs.not_shared {d d' : Duel} {later later' more : List Work} {id : GameId}
    {r r' : GameRecord} (h : d.KeptAs later id r) (h' : d'.KeptAs later' id r')
    (hall : d'.work ++ later' = d.work ++ later) (hmore : d'.work = d.work ++ more) :
    more = [] := by
  rcases List.eq_nil_or_concat more with hnil | ⟨part, w, rfl⟩
  · exact hnil
  · -- Just before the end of the later duel the game of the other one is closed.
    have hopening : d'.opening = d.work ++ part := by
      rw [work, List.concat_eq_append, ← List.append_assoc] at hmore
      exact (List.append_inj' hmore rfl).1
    have hpart : part <+: later := by
      rw [hmore, List.append_assoc] at hall
      have hlater := List.append_cancel_left hall
      rw [List.concat_eq_append, List.append_assoc] at hlater
      exact ⟨_, hlater⟩
    exact absurd (hopening ▸ h'.isOpen) ((h.closed part hpart).unmapped d'.room)

end Duel

/-- **A finished duel is kept whole and alone.**  Let the reports of a run be booked in
    order, with connections looking for games and registering players in between.  Then
    for every duel there is one game, open in its room until the end is booked, whose
    record then has the puzzle, the answers of the duel last and the ratings of both
    players; the game is open nowhere and its record tells of the same play after all
    later work; and no other duel of that work is kept in it. -/
theorem duel_kept (source : PuzzleSource) (es : List Event) (hes : ∀ e ∈ es, e.Fresh) (d : Duel)
    (later : List Work) (hfed : booked (d.work ++ later) <+: reportsOf (Hub.done source es)) :
    ∃ id r, d.KeptAs later id r ∧
      ∀ (d' : Duel) later' r', d'.work ++ later' = d.work ++ later → d'.work ≠ d.work →
        ¬ d'.KeptAs later' id r' := by
  rw [booked_append] at hfed
  have hplayed : Played (booked d.work) :=
    (Hub.run_played source hes).initial ((List.prefix_append _ _).trans hfed)
  obtain ⟨id, earlier, hgoing⟩ := d.going hplayed
  obtain ⟨ha, hc⟩ := open_coherent_afterWork d.opening
  obtain ⟨r, hg, hclosed, hroom, hz, hs, hratings⟩ := hgoing.gameEnded ha hc d.winner d.loser
  rw [← afterWork_concat] at hg hclosed
  have hkept : d.KeptAs later id r :=
    { isOpen := hgoing.isOpen
      recorded := hg
      room := hroom
      puzzle := hz
      submissions := ⟨earlier, hs⟩
      ratings := hratings
      closed := fun part _ => Closed.run hclosed part }
  refine ⟨id, r, hkept, fun d' later' r' hall hne hkept' => hne ?_⟩
  rcases List.append_eq_append_iff.1 hall with ⟨more, hmore, -⟩ | ⟨more, hmore, -⟩
  · rw [hmore, hkept'.not_shared hkept hall.symm hmore, List.append_nil]
  · rw [hmore, hkept.not_shared hkept' hall hmore, List.append_nil]

/-- A duel of `ada` and `bob`.  Before it ends `carol` looks for the game of the room and is
    registered, and afterwards `dan` is, in the next game. -/
theorem duel_kept_visited :
    let r : RoomId := ⟨"r"⟩
    let es : List Event :=
      [.join (.new ⟨"ada"⟩ ⟨1⟩ r ⟨"a"⟩), .join (.new ⟨"bob"⟩ ⟨2⟩ r ⟨"b"⟩),
        .submit r ⟨"ada"⟩ ⟨1⟩ "1+1+9+9+9+9", .submit r ⟨"bob"⟩ ⟨2⟩ "1+1*9*9+9+9"]
    let d : Duel :=
      { before := [.resolve r, .register ⟨1⟩ ⟨"ada"⟩, .resolve r, .register ⟨1⟩ ⟨"bob"⟩]
        room := r
        puzzle := unsolvedPuzzle
        between := [.resolve r, .book (.submission r ⟨⟨"ada"⟩, "1+1+9+9+9+9", false⟩),
          .register ⟨1⟩ ⟨"carol"⟩, .book (.submission r ⟨⟨"bob"⟩, "1+1*9*9+9+9", true⟩)]
        winner := ⟨"bob"⟩
        loser := ⟨"ada"⟩
        undisturbed := by decide }
    let later : List Work := [.resolve r, .register ⟨2⟩ ⟨"dan"⟩]
    (∀ e ∈ es, e.Fresh) ∧
      booked (d.work ++ later) <+: reportsOf (Hub.done (fun _ => none) es) ∧
      ∃ id r, d.KeptAs later id r ∧
        ∀ (d' : Duel) later' r', d'.work ++ later' = d.work ++ later → d'.work ≠ d.work →
          ¬ d'.KeptAs later' id r' := by
  intro r es d later
  have hes : ∀ e ∈ es, e.Fresh := by decide
  have hfed : booked (d.work ++ later) <+: reportsOf (Hub.done (fun _ => none) es) := by
    decide +kernel
  exact ⟨hes, hfed, duel_kept _ es hes d later hfed⟩

end Games

end HectocDuel
