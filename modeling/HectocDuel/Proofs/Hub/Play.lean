/-
  The puzzles to which reported answers belong.

  A puzzle is open in a room from the report that announces it until another one is
  announced, the game ends or the room is empty.

  * `openPuzzle` is the puzzle that is open in a room after reports;
  * `Played`: every answer among reports has the digits of the puzzle that is open in
    its room by then, and no game ends where none is open;
  * `run_played`: the reports of every run are such.
-/
import HectocDuel.Proofs.Hub.Reports

namespace HectocDuel

/-! ## Open puzzles -/

/-- The puzzle that is open in a room after a report on it, if `z` was open before. -/
def Report.puzzleAfter (z : Option Puzzle) : Report → Option Puzzle
  | puzzleCreated _ z' => some z'
  | submission _ _ => z
  | gameEnded _ _ _ | roomEmpty _ => none

/-- The puzzle that is open in a room after reports. -/
def openPuzzle (room : RoomId) (reports : List Report) : Option Puzzle :=
  (reports.filter (·.room = room)).foldl Report.puzzleAfter none

section
variable {room : RoomId} {xs ys : List Report} {x : Report}

theorem openPuzzle_append (room : RoomId) (xs ys : List Report) :
    openPuzzle room (xs ++ ys) =
      (ys.filter (·.room = room)).foldl Report.puzzleAfter (openPuzzle room xs) := by
  rw [openPuzzle, List.filter_append, List.foldl_append, openPuzzle]

theorem openPuzzle_concat (room : RoomId) (xs : List Report) (x : Report) :
    openPuzzle room (xs ++ [x]) =
      if x.room = room then x.puzzleAfter (openPuzzle room xs) else openPuzzle room xs := by
  rw [openPuzzle_append, List.filter_singleton]
  by_cases hx : x.room = room
  · simp [hx]
  · simp [hx]

theorem openPuzzle_append_eq_none (hxs : openPuzzle room xs = none)
    (hys : ∀ y ∈ ys, y.room = room → y.puzzle? = none) : openPuzzle room (xs ++ ys) = none := by
  induction ys using List.reverseRecOn with
  | nil => rwa [List.append_nil]
  | append_singleton ys y ih =>
    have hopen := ih fun y' hy' => hys y' (List.mem_append_left _ hy')
    rw [← List.append_assoc, openPuzzle_concat, hopen]
    split
    · next hroom =>
      have hy := hys y (List.mem_append_right _ List.mem_cons_self) hroom
      cases y with
      | puzzleCreated => cases hy
      | _ => rfl
    · rfl

/-! ## Reports of play -/

/-- An answer has the digits of the puzzle that is open in its room after the reports
    `before`, and a game ends only where some puzzle is. -/
def Report.PlayedAfter (before : List Report) : Report → Prop
  | submission room s =>
    ∃ z, openPuzzle room before = some z ∧ z.digits.matchesSubmission s.expression
  | gameEnded room _ _ => ∃ z, openPuzzle room before = some z
  | puzzleCreated _ _ | roomEmpty _ => True

/-- Reports in which all that is played is played on open puzzles. -/
def Played (reports : List Report) : Prop :=
  ∀ before x, before ++ [x] <+: reports → x.PlayedAfter before

theorem Played.initial (h : Played ys) (hxs : xs <+: ys) : Played xs := fun before x hx =>
  h before x (hx.trans hxs)

theorem played_nil : Played [] := fun before x hx => by
  simp at hx

theorem played_concat_iff : Played (xs ++ [x]) ↔ Played xs ∧ x.PlayedAfter xs := by
  constructor
  · exact fun h => ⟨h.initial (List.prefix_append xs [x]), h xs x (List.prefix_refl _)⟩
  · rintro ⟨hxs, hx⟩ before y hy
    rcases List.prefix_concat_iff.1 hy with heq | hy
    · obtain ⟨rfl, rfl⟩ := List.append_singleton_inj.1 heq
      exact hx
    · exact hxs before y hy

end

namespace Hub

section
variable {source : PuzzleSource}

theorem openPuzzle_of_puzzle {es : List Event} (hes : ∀ e ∈ es, e.Fresh) {room : RoomId} {r : Room}
    {z : Puzzle} (hr : (after source es).rooms.get? room = some r) (hz : r.puzzle = some z) :
    openPuzzle room (reportsOf (done source es)) = some z := by
  induction es using List.reverseRecOn generalizing r with
  | nil => cases hr
  | append_singleton es e ih =>
    have hes' : ∀ e ∈ es, e.Fresh := fun e he => hes e (List.mem_append_left _ he)
    have ht := (sound_after source hes').roomTurn_step source e room
    rw [after_concat] at hr
    rw [done_concat, reportsOf_append, openPuzzle_append]
    change (reportsOn room _).foldl _ _ = _
    rw [hr] at ht
    generalize hafter : some r = o at ht
    generalize reportsOn room ((after source es).step source e).2 = reports at ht ⊢
    cases ht with
    | idle => exact ih hes' hafter.symm hz
    | wrong hr' =>
      obtain rfl := Option.some.inj hafter
      exact ih hes' hr' hz
    | opened _ _ hn | abandoned _ hn =>
      obtain rfl := Option.some.inj hafter
      rw [hz] at hn
      cases hn
    | started _ _ hz' =>
      obtain rfl := Option.some.inj hafter
      exact hz'.symm.trans hz
    | emptied | solved => cases hafter

theorem matches_of_submit {h h' : Hub} {effects : List Effect} {room : RoomId} {p : PlayerId}
    {k : ConnectionId} {text : String} {r : Room} {z : Puzzle}
    (ht : Transition source h (.submit room p k text) h' effects)
    (hr : h.rooms.get? room = some r) (hz : r.puzzle = some z) (hx : reportsOf effects ≠ []) :
    z.digits.matchesSubmission text := by
  cases ht with
  | unseated => exact absurd rfl hx
  | unassigned | mismatched | unverified => exact absurd (reportsOf_deliver _ _) hx
  | wrong hr' _ hz' hm | solved hr' _ hz' hm =>
    obtain rfl := Option.some.inj (hr.symm.trans hr')
    obtain rfl := Option.some.inj (hz.symm.trans hz')
    exact hm

/-- What an event reports is played on the puzzles that are open before it. -/
theorem played_step {es : List Event} (hes : ∀ e ∈ es, e.Fresh) (e : Event)
    (hplayed : Played (reportsOf (done source es))) :
    Played (reportsOf (done source es) ++ reportsOf ((after source es).step source e).2) := by
  have hs := sound_after source hes
  have ht := step_transition source (after source es) e
  rcases hreports : reportsOf ((after source es).step source e).2 with _ | ⟨x, xs⟩
  · rwa [List.append_nil]
  · -- All that is reported is on the room of the event.
    have hroom := hs.room_of_report ht (hreports ▸ List.mem_cons_self)
    have hturn := hs.roomTurn ht x.room
    have hsome : reportsOf ((after source es).step source e).2 ≠ [] := by simp [hreports]
    rw [hs.reportsOn_eq ht hroom, hreports] at hturn
    generalize ((after source es).step source e).1.rooms.get? x.room = o at hturn
    generalize x.room = room at hturn
    generalize x :: xs = reports at hturn
    cases hturn with
    | idle | opened | abandoned => rwa [List.append_nil]
    | started | emptied => exact played_concat_iff.2 ⟨hplayed, trivial⟩
    | wrong hr hz =>
      exact played_concat_iff.2
        ⟨hplayed, _, openPuzzle_of_puzzle hes hr hz, matches_of_submit ht hr hz hsome⟩
    | @solved p _ text _ _ _ z hr hz =>
      have hopen := openPuzzle_of_puzzle hes hr hz
      have hanswer : Played (reportsOf (done source es) ++ [.submission room ⟨p, text, true⟩]) :=
        played_concat_iff.2 ⟨hplayed, z, hopen, matches_of_submit ht hr hz hsome⟩
      rw [List.append_cons]
      exact played_concat_iff.2
        ⟨hanswer, z, (openPuzzle_concat _ _ _).trans ((if_pos rfl).trans hopen)⟩

/-- **All that a run reports is played on open puzzles.** -/
theorem run_played (source : PuzzleSource) {es : List Event} (hes : ∀ e ∈ es, e.Fresh) :
    Played (reportsOf (done source es)) := by
  induction es using List.reverseRecOn with
  | nil => exact played_nil
  | append_singleton es e ih =>
    have hes' : ∀ e ∈ es, e.Fresh := fun e he => hes e (List.mem_append_left _ he)
    rw [done_concat, reportsOf_append]
    exact played_step hes' e (ih hes')

end

end Hub

end HectocDuel
