/-
  Work that fails leaves no trace.

  An operation looks for what it needs before it writes.  So does the work on a report:
  where games open only on request, it is over for a room without a game before anything
  was written.

  * `Games.Refuses` lists why an operation fails, and `operate_eq_error_iff` says that it
    fails for no other reason;
  * `failures_leave_no_trace`: then all records are as before, and they are so after a report
    on a room without a game;
  * `foldl_apply_filter`: among other reports those on such rooms may be left out.
-/
import HectocDuel.Proofs.Store.Books
import HectocDuel.Proofs.Store.Operations
import HectocDuel.Proofs.Table

namespace HectocDuel.Games

open GameStore

variable {gs : Games} {room : RoomId}

/-! ## Operations -/

/-- Why an operation on the records fails. -/
inductive Refuses (gs : Games) : Operation → StoreError → Prop where
  /-- The room has no game, and none is opened as it is asked for. -/
  | room {room : RoomId} : gs.gameFor room = none → gs.autoOpen = false →
      Refuses gs (.call (.resolve room)) (.roomNotFound room)
  /-- The game that is to be written to is not on record. -/
  | game {c : Call} {id : GameId} : c.target? = some id → gs.game id = none →
      Refuses gs (.call c) (.gameNotFound id)

theorem operate_of_refuses {op : Operation} {e : StoreError} (h : gs.Refuses op e) :
    gs.operate op = (.error e, gs) := by
  cases h with
  | room hr ha =>
    rw [operate, resolve_of_closed hr (Bool.eq_false_iff.1 ha)]
    rfl
  | game hc hg => exact operate_of_none hc hg

/-- An operation fails for one of these reasons and for no other. -/
theorem operate_eq_error_iff {op : Operation} {e : StoreError} :
    (gs.operate op).1 = .error e ↔ gs.Refuses op e := by
  refine ⟨fun h => ?_, fun h => congrArg Prod.fst (operate_of_refuses h)⟩
  have hturn := operationTurn gs op
  rw [h] at hturn
  -- Only two turns return an error.
  generalize (gs.operate op).2 = gs' at hturn
  cases hturn with
  | misses hr ha => exact .room hr (Bool.eq_false_iff.2 ha)
  | fails hc hg => exact .game hc hg

/-! ## Reports -/

/-- Work that begins with the game of a room is over where there is none. -/
theorem resolve_bind_of_closed {α : Type} (hr : gs.gameFor room = none) (ha : gs.autoOpen = false)
    (work : GameId → StoreM Games α) :
    (ofGames.resolve room >>= work) gs = (.error (.roomNotFound room), gs) := by
  have hresolve : ofGames.resolve room gs = (.error (.roomNotFound room), gs) :=
    resolve_of_closed hr (Bool.eq_false_iff.1 ha)
  rw [bind_apply, hresolve]

theorem evict_of_none (hr : gs.gameFor room = none) : evict room gs = (.ok (), gs) := by
  rw [evict, gs.rooms.erase_of_get?_eq_none hr]

theorem apply_of_closed (ha : gs.autoOpen = false) {report : Report}
    (hr : gs.gameFor report.room = none) : ofGames.apply gs report = gs := by
  have hevict : ofGames.evict report.room gs = (.ok (), gs) := evict_of_none hr
  cases report with
  | roomEmpty room => exact congrArg Prod.snd hevict
  | puzzleCreated room puzzle => exact congrArg Prod.snd (resolve_bind_of_closed hr ha _)
  | submission room submission => exact congrArg Prod.snd (resolve_bind_of_closed hr ha _)
  | gameEnded room winner loser =>
    have hdecided : perform (ofGames.decided room winner loser) gs = gs :=
      congrArg Prod.snd (resolve_bind_of_closed hr ha _)
    rw [apply, hdecided]
    exact congrArg Prod.snd hevict

/-! ## Rooms without a game -/

/-- Where games open only on request, this work opens none in the room. -/
def OpensNone {α : Type} (room : RoomId) (work : StoreM Games α) : Prop :=
  ∀ gs : Games, gs.autoOpen = false → gs.gameFor room = none →
    (work gs).2.autoOpen = false ∧ (work gs).2.gameFor room = none

section
variable {α β : Type}

theorem OpensNone.bind {x : StoreM Games α} {f : α → StoreM Games β} (hx : OpensNone room x)
    (hf : ∀ a, OpensNone room (f a)) : OpensNone room (x >>= f) := by
  intro gs ha hr
  have hafter := hx gs ha hr
  rw [bind_apply]
  generalize x gs = result at hafter
  rcases result with ⟨_ | a, gs'⟩
  · exact hafter
  · exact hf a gs' hafter.1 hafter.2

theorem opensNone_resolve (other : RoomId) : OpensNone room (resolve other) := by
  intro gs ha hr
  rcases ho : gs.gameFor other with _ | id
  · rw [resolve_of_closed ho (Bool.eq_false_iff.1 ha)]
    exact ⟨ha, hr⟩
  · rw [resolve_of_gameFor ho]
    exact ⟨ha, hr⟩

theorem opensNone_change (id : GameId) (f : GameRecord → GameRecord) :
    OpensNone room (change id f) := by
  intro gs ha hr
  rw [change]
  split <;> exact ⟨ha, hr⟩

theorem opensNone_evict (other : RoomId) : OpensNone room (evict other) := by
  intro gs ha hr
  refine ⟨ha, ?_⟩
  rw [gameFor_evict, hr, ite_self]

theorem opensNone_decided (other : RoomId) (winner loser : PlayerId) :
    OpensNone room (ofGames.decided other winner loser) := by
  refine .bind (opensNone_resolve other) fun id => ?_
  refine .bind (fun _ ha hr => ⟨ha, hr⟩) fun _ => .bind (fun _ ha hr => ⟨ha, hr⟩) fun _ => ?_
  exact .bind (opensNone_change id _) fun _ _ ha hr => ⟨ha, hr⟩

end

theorem opensNone_apply (ha : gs.autoOpen = false) (hr : gs.gameFor room = none)
    (report : Report) :
    (ofGames.apply gs report).autoOpen = false ∧
      (ofGames.apply gs report).gameFor room = none := by
  cases report with
  | roomEmpty other => exact opensNone_evict other gs ha hr
  | puzzleCreated other puzzle =>
    exact OpensNone.bind (opensNone_resolve other) (fun id => opensNone_change id _) gs ha hr
  | submission other submission =>
    exact OpensNone.bind (opensNone_resolve other) (fun id => opensNone_change id _) gs ha hr
  | gameEnded other winner loser =>
    obtain ⟨ha', hr'⟩ := opensNone_decided other winner loser gs ha hr
    exact opensNone_evict other _ ha' hr'

/-- Reports on a room without a game may be left out of any reports, where games open only on
    request. -/
theorem foldl_apply_filter (ha : gs.autoOpen = false) (hr : gs.gameFor room = none)
    (reports : List Report) :
    reports.foldl ofGames.apply gs = (reports.filter (·.room ≠ room)).foldl ofGames.apply gs := by
  induction reports generalizing gs with
  | nil => rfl
  | cons report reports ih =>
    by_cases heq : report.room = room
    · rw [List.foldl_cons, apply_of_closed ha (heq ▸ hr), ih ha hr,
        List.filter_cons_of_neg (by simpa using heq)]
    · obtain ⟨ha', hr'⟩ := opensNone_apply ha hr report
      rw [List.foldl_cons, ih ha' hr', List.filter_cons_of_pos (by simpa using heq),
        List.foldl_cons]

/-! ## Failures -/

/-- **Work that fails leaves no trace.**  Whatever is on record:

    * an operation fails iff it asks for the game of a room that has none and opens none, or
      writes to a game that is not on record, and the error names the room or the game;
    * then the number of the latest game, the rooms, the records and the ratings are as before;
    * where games open only on request, they are as before also after a report on a room
      without a game, and as much if it comes among other reports. -/
theorem failures_leave_no_trace (gs : Games) :
    (∀ op e, (gs.operate op).1 = .error e ↔ gs.Refuses op e) ∧
      (∀ op e, (gs.operate op).1 = .error e → (gs.operate op).2 = gs) ∧
      (gs.autoOpen = false → ∀ report : Report, gs.gameFor report.room = none →
        ofGames.apply gs report = gs) ∧
      (gs.autoOpen = false → ∀ room, gs.gameFor room = none → ∀ reports : List Report,
        reports.foldl ofGames.apply gs =
          (reports.filter (·.room ≠ room)).foldl ofGames.apply gs) :=
  ⟨fun _ _ => operate_eq_error_iff,
    fun _ _ h => congrArg Prod.snd (operate_of_refuses (operate_eq_error_iff.1 h)),
    fun ha _ hr => apply_of_closed ha hr, fun ha _ hr => foldl_apply_filter ha hr⟩

/-- Ratings for a game that was never opened reach neither player, nor does a result from a
    room without a game, which does not keep another room from being given up either. -/
theorem failures_leave_no_trace_ratings :
    let ada : PlayerId := ⟨"ada"⟩
    let bob : PlayerId := ⟨"bob"⟩
    let gs := operated false [.openGame ⟨"r"⟩, .call (.recordRatings ⟨1⟩ (ada, 416) (bob, 384))]
    let op : Operation := .call (.recordRatings ⟨2⟩ (ada, 432) (bob, 368))
    let lost : Report := .gameEnded ⟨"s"⟩ ada bob
    (gs.operate op).1 = .error (.gameNotFound ⟨2⟩) ∧ (gs.operate op).2 = gs ∧
      gs.ratingOf ada = 416 ∧ gs.autoOpen = false ∧ gs.gameFor lost.room = none ∧
      ofGames.apply gs lost = gs ∧
      [lost, .roomEmpty ⟨"r"⟩].foldl ofGames.apply gs =
        [.roomEmpty ⟨"r"⟩].foldl ofGames.apply gs := by
  intro ada bob gs op lost
  obtain ⟨hfails, hafter, hreport, hreports⟩ := failures_leave_no_trace gs
  have herror : (gs.operate op).1 = .error (.gameNotFound ⟨2⟩) :=
    (hfails op _).2 (.game rfl (by decide +kernel))
  have hroom : gs.gameFor lost.room = none := by decide +kernel
  exact ⟨herror, hafter op _ herror, by decide +kernel, rfl, hroom, hreport rfl lost hroom,
    hreports rfl lost.room hroom [lost, .roomEmpty ⟨"r"⟩]⟩

end HectocDuel.Games
