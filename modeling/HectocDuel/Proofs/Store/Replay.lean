/-
  Answers on record and the puzzles on which they were given.

  When a player leaves another one behind, the room keeps its game.  The puzzle for the
  next opponent is then stored in place of the first one, while the answers stay.  So a
  record cannot be replayed against the puzzle it ends with, but it can be replayed
  against the puzzles it had.

  * `going_of_openPuzzle`: the puzzle that is open in a room is stored in its game;
  * `GivenOn`: an answer was entered in a record that had a puzzle with its digits, and
    the record has that puzzle until another one is stored in it;
  * `answers_given`: this holds of every answer on record.
-/
import HectocDuel.Proofs.Store.Duel

namespace HectocDuel.Games

/-! ## Answers and their puzzles -/

section
variable (id : GameId) (room : RoomId)

/-- After the work `before` the answer `s` can be entered in the game of the room, whose
    record has the puzzle `z` and the answers `earlier`. -/
structure EnteredOn (before : List Work) (earlier : List SubmissionRecord) (s : Submission)
    (z : Puzzle) : Prop where
  isOpen : (afterWork before).gameFor room = some id
  recorded : ∃ r, (afterWork before).game id = some r ∧ r.room = room ∧ r.puzzle = some z ∧
    r.submissions = earlier
  digits : z.digits.matchesSubmission s.expression

/-- After the work `before`, and in the course of the work `since`, a puzzle is stored in
    the game of the room. -/
def Renewed (before since : List Work) : Prop :=
  ∃ part z rest, since = part ++ .book (.puzzleCreated room z) :: rest ∧
    (afterWork (before ++ part)).gameFor room = some id

end

/-- In the course of the work `ws` the answer `s` was booked, on a puzzle with its digits
    that the record of the game had by then.  The record `r` still has that puzzle, unless
    another one was stored in the game since. -/
def GivenOn (ws : List Work) (id : GameId) (r : GameRecord) (earlier : List SubmissionRecord)
    (s : SubmissionRecord) : Prop :=
  ∃ before since z,
    ws = before ++ .book (.submission r.room s.submission) :: since ∧ s.game = id ∧
      EnteredOn id r.room before earlier s.submission z ∧
      (r.puzzle = some z ∨
        Renewed id r.room (before ++ [.book (.submission r.room s.submission)]) since)

/-- The record `r` of a game can be replayed against the puzzles it had in the course of
    the work `ws`. -/
structure Replayable (ws : List Work) (id : GameId) (r : GameRecord) : Prop where
  puzzle : r.submissions ≠ [] → r.puzzle.isSome
  given : ∀ earlier s later, r.submissions = earlier ++ s :: later → GivenOn ws id r earlier s

section
variable {ws : List Work} {id : GameId} {r r' : GameRecord} {room : RoomId} {z : Puzzle}
  {earlier : List SubmissionRecord} {s : SubmissionRecord}

/-! ## One piece of work -/

theorem Renewed.concat {before since : List Work} (h : Renewed id room before since) (w : Work) :
    Renewed id room before (since ++ [w]) := by
  obtain ⟨part, z, rest, rfl, hopen⟩ := h
  exact ⟨part, z, rest ++ [w], by simp, hopen⟩

/-- An answer is still given on its puzzle when no other is stored. -/
theorem GivenOn.later (h : GivenOn ws id r earlier s) (hroom : r'.room = r.room)
    (hz : r'.puzzle = r.puzzle) (w : Work) : GivenOn (ws ++ [w]) id r' earlier s := by
  obtain ⟨before, since, z, rfl, hid, hentered, hlast⟩ := h
  refine ⟨before, since ++ [w], z, ?_, hid, ?_, ?_⟩
  · rw [hroom, List.append_assoc, List.cons_append]
  · rwa [hroom]
  · rw [hroom, hz]
    exact hlast.imp_right (·.concat w)

/-- It is still given on its puzzle when another is stored in the game. -/
theorem GivenOn.renewed (h : GivenOn ws id r earlier s)
    (hopen : (afterWork ws).gameFor r.room = some id) (z : Puzzle) :
    GivenOn (ws ++ [.book (.puzzleCreated r.room z)]) id { r with puzzle := some z } earlier s := by
  obtain ⟨before, since, z', rfl, hid, hentered, -⟩ := h
  refine ⟨before, since ++ [.book (.puzzleCreated r.room z)], z', ?_, hid, hentered, .inr ?_⟩
  · rw [List.append_assoc, List.cons_append]
  · refine ⟨since, z, [], rfl, ?_⟩
    rwa [List.append_assoc, List.singleton_append]

theorem replayable_of_nil (hs : r.submissions = []) : Replayable ws id r where
  puzzle hne := absurd hs hne
  given earlier s later heq := by
    rw [hs] at heq
    simp at heq

theorem Replayable.later (h : Replayable ws id r) (hroom : r'.room = r.room)
    (hz : r'.puzzle = r.puzzle) (hs : r'.submissions = r.submissions) (w : Work) :
    Replayable (ws ++ [w]) id r' where
  puzzle hne := hz ▸ h.puzzle (hs ▸ hne)
  given earlier s later heq := (h.given earlier s later (hs ▸ heq)).later hroom hz w

theorem Replayable.puzzleCreated (h : Replayable ws id r)
    (hopen : (afterWork ws).gameFor r.room = some id) (z : Puzzle) :
    Replayable (ws ++ [.book (.puzzleCreated r.room z)]) id { r with puzzle := some z } where
  puzzle _ := rfl
  given earlier s later heq := (h.given earlier s later heq).renewed hopen z

theorem Replayable.submission (h : Replayable ws id r) (hz : r.puzzle = some z)
    {answer : Submission} (hentered : EnteredOn id r.room ws r.submissions answer z) :
    Replayable (ws ++ [.book (.submission r.room answer)]) id
      { r with submissions := r.submissions ++ [⟨id, answer⟩] } where
  puzzle _ := hz ▸ rfl
  given earlier s later heq := by
    rcases List.eq_nil_or_concat later with rfl | ⟨later, last, rfl⟩
    · -- It is the answer that was just entered.
      obtain ⟨rfl, hlast⟩ := List.append_inj' heq rfl
      obtain rfl := List.singleton_inj.1 hlast
      exact ⟨ws, [], z, rfl, rfl, hentered, .inl hz⟩
    · rw [List.concat_eq_append, ← List.cons_append, ← List.append_assoc] at heq
      exact (h.given earlier s later (List.append_inj' heq rfl).1).later rfl rfl _

/-! ## All work -/

theorem going_of_openPuzzle (hz : openPuzzle room (booked ws) = some z) :
    ∃ id earlier checked, (afterWork ws).Going id room z earlier checked := by
  induction ws using List.reverseRecOn with
  | nil => cases hz
  | append_singleton ws w ih =>
    obtain ⟨ha, hc⟩ := open_coherent_afterWork ws
    -- A game goes on unless a puzzle or an end is reported in its room.
    have hgoes (hz' : openPuzzle room (booked ws) = some z)
        (hw : ∀ x ∈ w.report?, x.room = room → x.puzzle? = none ∧ ¬ x.IsFinal) :
        ∃ id earlier checked, (afterWork (ws ++ [w])).Going id room z earlier checked := by
      obtain ⟨id, earlier, checked, hgoing⟩ := ih hz'
      exact ⟨id, earlier, _, afterWork_concat ws w ▸ hgoing.does ha hc hw⟩
    rw [booked_append] at hz
    cases w with
    | resolve | register =>
      refine hgoes ?_ fun x hx => nomatch hx
      rwa [← List.append_nil (booked ws)]
    | book x =>
      change openPuzzle room (booked ws ++ [x]) = some z at hz
      rw [openPuzzle_concat] at hz
      split at hz
      · next hroom =>
        subst hroom
        cases x with
        | puzzleCreated room z' =>
          obtain rfl := Option.some.inj hz
          obtain ⟨id, earlier, hgoing⟩ := going_of_puzzleCreated ha hc room z'
          exact ⟨id, earlier, [], afterWork_concat ws _ ▸ hgoing⟩
        | submission room s =>
          refine hgoes hz fun x hx _ => ?_
          obtain rfl := Option.some.inj hx
          exact ⟨rfl, fun h => h⟩
        | gameEnded | roomEmpty => cases hz
      · next hne =>
        refine hgoes hz fun y hy hroom => absurd hroom ?_
        obtain rfl := Option.some.inj hy
        exact hne

theorem enteredOn_of_played {answer : Submission}
    (hplayed : Report.PlayedAfter (booked ws) (.submission room answer))
    (hid : id = (afterWork ws).current room) :
    ∃ r z, (afterWork ws).game id = some r ∧ r.room = room ∧ r.puzzle = some z ∧
      EnteredOn id room ws r.submissions answer z := by
  obtain ⟨z, hz, hdigits⟩ := hplayed
  obtain ⟨id', earlier, checked, hgoing⟩ := going_of_openPuzzle hz
  obtain rfl : id = id' := hid.trans (current_of_gameFor hgoing.isOpen)
  obtain ⟨r, hg, hroom, hrz, -⟩ := hgoing.recorded
  exact ⟨r, z, hg, hroom, hrz, hgoing.isOpen, ⟨r, hg, hroom, hrz, rfl⟩, hdigits⟩

/-- Where all is played on open puzzles, every record can be replayed. -/
theorem replayable_of_played (hplayed : Played (booked ws)) (hg : (afterWork ws).game id = some r) :
    Replayable ws id r := by
  induction ws using List.reverseRecOn generalizing r with
  | nil => cases hg
  | append_singleton ws w ih =>
    obtain ⟨ha, hc⟩ := open_coherent_afterWork ws
    rw [booked_append] at hplayed
    have ih := fun {r : GameRecord} =>
      ih (r := r) (hplayed.initial (List.prefix_append _ _))
    rw [afterWork_concat] at hg
    cases recordTurn ha hc hg with
    | stays hg' hsame =>
      exact (ih hg').later hsame.room hsame.puzzle hsame.submissions w
    | opens => exact replayable_of_nil rfl
    | @books report hentered hid =>
      rcases hg' : (afterWork ws).game id with _ | r'
      · rw [Option.getD_none]
        cases report with
        | puzzleCreated | gameEnded | roomEmpty => exact replayable_of_nil rfl
        | submission room answer =>
          -- A game in which an answer is entered is on record.
          obtain ⟨r, -, hr, -⟩ :=
            enteredOn_of_played (played_concat_iff.1 hplayed).2 hid
          rw [hg'] at hr
          cases hr
      · rw [Option.getD_some]
        obtain ⟨hopen, hroom⟩ := gameFor_of_current hc (hid ▸ hg')
        rw [← hid] at hopen
        cases report with
        | puzzleCreated room z =>
          obtain rfl : r'.room = room := hroom
          exact (ih hg').puzzleCreated hopen z
        | submission room answer =>
          obtain ⟨r, z, hr, rfl, hz, hon⟩ :=
            enteredOn_of_played (played_concat_iff.1 hplayed).2 hid
          obtain rfl := Option.some.inj (hg'.symm.trans hr)
          exact (ih hg').submission hz hon
        | gameEnded => refine (ih hg').later ?_ ?_ ?_ _ <;> rfl
        | roomEmpty => cases hentered

end

/-- **Every answer on record was given on a puzzle that was stored with it.**  Let the
    reports of a run be booked in order, with connections looking for games and
    registering players in between.  Then every record with answers has a puzzle, and
    every answer in it was entered when the record had a puzzle with its digits; it has
    that puzzle still, unless another one was stored in the game since. -/
theorem answers_given (source : PuzzleSource) (es : List Event) (hes : ∀ e ∈ es, e.Fresh)
    (ws : List Work) (hfed : booked ws <+: reportsOf (Hub.done source es)) {id : GameId}
    {r : GameRecord} (hg : (afterWork ws).game id = some r) :
    (r.submissions ≠ [] → r.puzzle.isSome) ∧
      ∀ earlier s later, r.submissions = earlier ++ s :: later → GivenOn ws id r earlier s :=
  have h := replayable_of_played ((Hub.run_played source hes).initial hfed) hg
  ⟨h.puzzle, h.given⟩

/-! ## A second opponent -/

/-- Puzzles with the digits that are kept for failed draws, one after the other. -/
def keptPuzzles : PuzzleSource := fun n =>
  fallbacks[n]?.map fun digits => ⟨digits, []⟩

/-- `ada` gives a wrong answer, `bob` leaves, and `carol` comes in his place. -/
def secondOpponent : List Event :=
  let r : RoomId := ⟨"r"⟩
  [.join (.new ⟨"ada"⟩ ⟨1⟩ r ⟨"a"⟩), .join (.new ⟨"bob"⟩ ⟨2⟩ r ⟨"b"⟩),
    .submit r ⟨"ada"⟩ ⟨1⟩ "1+1+9+9+9+9", .leave r ⟨"bob"⟩ ⟨2⟩,
    .join (.new ⟨"carol"⟩ ⟨3⟩ r ⟨"c"⟩)]

/-- All that is reported then is booked. -/
def secondPuzzle : List Work :=
  (reportsOf (Hub.done keptPuzzles secondOpponent)).map .book

/-- The record that is kept of it. -/
def secondRecord : GameRecord where
  room := ⟨"r"⟩
  puzzle := keptPuzzles 1
  submissions := [⟨⟨1⟩, ⟨⟨"ada"⟩, "1+1+9+9+9+9", false⟩⟩]

/-- The answer of `ada` was given on the puzzle that she and `bob` had. -/
theorem answers_given_secondOpponent :
    (∀ e ∈ secondOpponent, e.Fresh) ∧
      booked secondPuzzle <+: reportsOf (Hub.done keptPuzzles secondOpponent) ∧
      (afterWork secondPuzzle).game ⟨1⟩ = some secondRecord ∧
      (secondRecord.submissions ≠ [] → secondRecord.puzzle.isSome) ∧
      ∀ earlier s later, secondRecord.submissions = earlier ++ s :: later →
        GivenOn secondPuzzle ⟨1⟩ secondRecord earlier s := by
  have hes : ∀ e ∈ secondOpponent, e.Fresh := by decide
  have hfed : booked secondPuzzle <+: reportsOf (Hub.done keptPuzzles secondOpponent) := by
    decide +kernel
  have hg : (afterWork secondPuzzle).game ⟨1⟩ = some secondRecord := by decide +kernel
  exact ⟨hes, hfed, hg, answers_given _ _ hes _ hfed hg⟩

/-- It does not have the digits of the puzzle that is stored with it in the end. -/
theorem answer_of_other_puzzle :
    (∀ e ∈ secondOpponent, e.Fresh) ∧
      booked secondPuzzle <+: reportsOf (Hub.done keptPuzzles secondOpponent) ∧
      (afterWork secondPuzzle).game ⟨1⟩ = some secondRecord ∧
      ∃ z ∈ secondRecord.puzzle, ∃ s ∈ secondRecord.submissions,
        ¬ z.digits.matchesSubmission s.submission.expression := by
  refine ⟨by decide, by decide +kernel, by decide +kernel, _, rfl, _, List.mem_cons_self, ?_⟩
  decide

end HectocDuel.Games
