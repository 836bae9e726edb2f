/-
  Work on the records, piece by piece and in any order.

  Reports are booked, and in between connections look for the games of their rooms and
  register their players.  Games open as they are asked for.

  * `RecordTurn` lists how a game comes to its record by a piece of work;
  * `Closed.run`: once a game is open in no room, its puzzle, submissions and ratings
    stay whatever is done.
-/
import HectocDuel.Proofs.Store.Entries
import Mathlib.Data.List.Induction

namespace HectocDuel

/-- Two records tell of the same play; they may list different players. -/
structure GameRecord.SamePlay (r r' : GameRecord) : Prop where
  room : r.room = r'.room
  puzzle : r.puzzle = r'.puzzle
  submissions : r.submissions = r'.submissions
  ratings : r.ratings = r'.ratings

theorem GameRecord.SamePlay.refl (r : GameRecord) : r.SamePlay r :=
  ⟨rfl, rfl, rfl, rfl⟩

theorem GameRecord.SamePlay.trans {r r' r'' : GameRecord} (h : r.SamePlay r')
    (h' : r'.SamePlay r'') : r.SamePlay r'' :=
  ⟨h.room.trans h'.room, h.puzzle.trans h'.puzzle, h.submissions.trans h'.submissions,
    h.ratings.trans h'.ratings⟩

namespace Games

/-! ## Work -/

/-- A piece of work on the records. -/
inductive Work where
  /-- A report is booked. -/
  | book (report : Report)
  /-- A connection looks for the game of its room. -/
  | resolve (room : RoomId)
  /-- A connection registers its player. -/
  | register (id : GameId) (player : PlayerId)

/-- The report that is booked. -/
def Work.report? : Work → Option Report
  | book report => some report
  | resolve _ | register _ _ => none

/-- The records after a piece of work. -/
def does (gs : Games) : Work → Games
  | .book report => GameStore.ofGames.apply gs report
  | .resolve room => (Games.resolve room gs).2
  | .register id player => (Games.register id player gs).2

/-- The records after work, from the start. -/
def afterWork (ws : List Work) : Games :=
  ws.foldl does { autoOpen := true }

/-- The reports that are booked by work. -/
def booked (ws : List Work) : List Report :=
  ws.filterMap Work.report?

theorem afterWork_append (ws ws' : List Work) :
    afterWork (ws ++ ws') = ws'.foldl does (afterWork ws) :=
  List.foldl_append

theorem afterWork_concat (ws : List Work) (w : Work) :
    afterWork (ws ++ [w]) = (afterWork ws).does w :=
  afterWork_append ws [w]

theorem booked_append (ws ws' : List Work) : booked (ws ++ ws') = booked ws ++ booked ws' :=
  List.filterMap_append

theorem booked_book (report : Report) (ws : List Work) :
    booked (.book report :: ws) = report :: booked ws :=
  rfl

/-! ## What a piece of work does -/

section
variable {gs : Games} {id : GameId} {r : GameRecord} {room : RoomId}

/-- How the game `id` comes to its record by a piece of work. -/
inductive RecordTurn (gs : Games) (id : GameId) : Work → GameRecord → Prop where
  /-- It tells of the same play as before. -/
  | stays {w : Work} {r r' : GameRecord} : gs.game id = some r → r'.SamePlay r →
      RecordTurn gs id w r'
  /-- It is opened for a room. -/
  | opens {room : RoomId} : RecordTurn gs id (.resolve room) { room }
  /-- A report is entered in it. -/
  | books {report : Report} : report.isEntered → id = gs.current report.room →
      RecordTurn gs id (.book report)
        (gs.entered id ((gs.game id).getD { room := report.room }) report)

theorem resolve_snd (ha : gs.autoOpen) (room : RoomId) :
    (resolve room gs).2 = gs.withCurrent room :=
  congrArg Prod.snd (resolve_of_open ha room)

theorem samePlay_register {p : PlayerId} {id' : GameId}
    (hg : (register id' p gs).2.game id = some r) : ∃ r', gs.game id = some r' ∧ r.SamePlay r' := by
  rw [register, game_change] at hg
  split at hg
  · next heq =>
    obtain ⟨r', hg', rfl⟩ := Option.map_eq_some_iff.1 hg
    refine ⟨r', heq ▸ hg', ?_⟩
    split <;> exact ⟨rfl, rfl, rfl, rfl⟩
  · exact ⟨r, hg, .refl r⟩

/-- Every record is come to in one of these ways. -/
theorem recordTurn (ha : gs.autoOpen) (hc : gs.Coherent) {w : Work}
    (hg : (gs.does w).game id = some r) : RecordTurn gs id w r := by
  cases w with
  | book report =>
    rw [does, game_apply ha hc] at hg
    split at hg
    · next h =>
      obtain rfl := Option.some.inj hg
      exact .books h.1 h.2
    · exact .stays hg (.refl r)
  | resolve room =>
    rw [does, resolve_snd ha, game_withCurrent hc] at hg
    split at hg
    · obtain rfl := Option.some.inj hg
      rcases hg' : gs.game id with _ | r'
      · exact .opens
      · exact .stays hg' (.refl r')
    · exact .stays hg (.refl r)
  | register id' p =>
    obtain ⟨r', hg', hsame⟩ := samePlay_register hg
    exact .stays hg' hsame

theorem gameFor_does_resolve (ha : gs.autoOpen) (room other : RoomId) :
    (gs.does (.resolve room)).gameFor other =
      if other = room then some (gs.current room) else gs.gameFor other := by
  rw [does, resolve_snd ha, gameFor_withCurrent]

theorem gameFor_does_register (id : GameId) (p : PlayerId) (room : RoomId) :
    (gs.does (.register id p)).gameFor room = gs.gameFor room :=
  gameFor_change id _ room

theorem game_does_register (hg : gs.game id = some r) (id' : GameId) (p : PlayerId) :
    ∃ r', (gs.does (.register id' p)).game id = some r' ∧ r'.SamePlay r := by
  rw [does, register, game_change]
  split
  · next heq =>
    rw [← heq, hg]
    refine ⟨_, rfl, ?_⟩
    dsimp only
    split <;> exact ⟨rfl, rfl, rfl, rfl⟩
  · exact ⟨r, hg, .refl r⟩

theorem autoOpen_does (ha : gs.autoOpen) (hc : gs.Coherent) (w : Work) : (gs.does w).autoOpen := by
  cases w with
  | book report => exact autoOpen_apply ha hc report
  | resolve room => rw [does, resolve_snd ha, autoOpen_withCurrent, ha]
  | register id p => exact (autoOpen_change id _).trans ha

theorem coherent_does (ha : gs.autoOpen) (hc : gs.Coherent) (w : Work) : (gs.does w).Coherent := by
  cases w with
  | book report => exact (apply_grows hc report).coherent
  | resolve room =>
    rw [does, resolve_snd ha]
    exact coherent_withCurrent hc room
  | register id p => exact hc.register id p

/-- Whatever is done, games open as they are asked for and the records are coherent. -/
theorem open_coherent_afterWork (ws : List Work) :
    (afterWork ws).autoOpen ∧ (afterWork ws).Coherent := by
  induction ws using List.reverseRecOn with
  | nil => exact ⟨rfl, coherent_empty true⟩
  | append_singleton ws w ih =>
    rw [afterWork_concat]
    exact ⟨autoOpen_does ih.1 ih.2 w, coherent_does ih.1 ih.2 w⟩

/-! ## Closed games -/

/-- A game is open in no room, and its record tells of the same play as `r`. -/
structure Closed (gs : Games) (id : GameId) (r : GameRecord) : Prop where
  recorded : ∃ r', gs.game id = some r' ∧ r'.SamePlay r
  unmapped : ∀ room, gs.gameFor room ≠ some id

theorem Closed.current_ne (h : gs.Closed id r) (hc : gs.Coherent) (room : RoomId) :
    id ≠ gs.current room := by
  rintro rfl
  obtain ⟨r', hg, -⟩ := h.recorded
  exact h.unmapped room (gameFor_of_current hc hg).1

/-- **Nothing more is entered in a closed game.** -/
theorem Closed.does (h : gs.Closed id r) (ha : gs.autoOpen) (hc : gs.Coherent) (w : Work) :
    (gs.does w).Closed id r := by
  obtain ⟨r', hg, hsame⟩ := h.recorded
  have hne := h.current_ne hc
  cases w with
  | book report =>
    refine ⟨⟨r', ?_, hsame⟩, fun room hr => ?_⟩
    · rw [Games.does, game_apply ha hc, if_neg fun heq => hne _ heq.2, hg]
    · rw [Games.does, gameFor_apply ha hc] at hr
      split at hr
      · cases hr
      · split at hr
        · exact hne room (Option.some.inj hr).symm
        · exact h.unmapped room hr
  | resolve room =>
    refine ⟨⟨r', ?_, hsame⟩, fun other hr => ?_⟩
    · rw [Games.does, resolve_snd ha, game_withCurrent hc, if_neg (hne room), hg]
    · rw [gameFor_does_resolve ha] at hr
      split at hr
      · exact hne room (Option.some.inj hr).symm
      · exact h.unmapped other hr
  | register id' p =>
    obtain ⟨r'', hg', hsame'⟩ := game_does_register hg id' p
    exact ⟨⟨r'', hg', hsame'.trans hsame⟩, fun room hr =>
      h.unmapped room ((gameFor_does_register id' p room).symm.trans hr)⟩

theorem Closed.run {ws : List Work} (h : (afterWork ws).Closed id r) (later : List Work) :
    (afterWork (ws ++ later)).Closed id r := by
  induction later using List.reverseRecOn with
  | nil => rwa [List.append_nil]
  | append_singleton later w ih =>
    obtain ⟨ha, hc⟩ := open_coherent_afterWork (ws ++ later)
    rw [← List.append_assoc, afterWork_concat]
    exact ih.does ha hc w

end

end Games

end HectocDuel
