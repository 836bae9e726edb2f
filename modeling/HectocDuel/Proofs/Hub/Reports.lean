/-
  What is reported of a room, and in which order.

  `RoomTurn` lists what an event can do to one room, with all that is reported of
  the room by it.

  * `Sound.roomTurn`: in a sound hub every event does one of these things;
  * `run_reports`: so answers are reported only of two players with the puzzle that
    was reported last, a correct one together with the end of the game; and
    after the end, or when the last player has left, nothing more is reported
    until somebody joins.
-/
import HectocDuel.Proofs.Hub.Seats
import HectocDuel.Server

namespace HectocDuel

/-! ## Reports among effects -/

theorem reportsOf_append (xs ys : List Effect) :
    reportsOf (xs ++ ys) = reportsOf xs ++ reportsOf ys :=
  List.filterMap_append

theorem reportsOf_report (r : Report) (xs : List Effect) :
    reportsOf (.report r :: xs) = r :: reportsOf xs :=
  rfl

theorem reportsOf_deliver (c : Client) (m : Message) : reportsOf (c.deliver m) = [] := by
  rw [Client.deliver]
  cases c.outbound <;> rfl

theorem reportsOf_closing (c : Client) : reportsOf c.closing = [] := by
  rw [Client.closing]
  cases c.outbound <;> rfl

theorem reportsOf_flatMap {cs : List Client} {f : Client → List Effect}
    (hf : ∀ c, reportsOf (f c) = []) : reportsOf (cs.flatMap f) = [] := by
  induction cs with
  | nil => rfl
  | cons c cs ih => rw [List.flatMap_cons, reportsOf_append, hf, ih]; rfl

theorem reportsOf_deliverAll (r : Room) (m : Message) : reportsOf (r.deliverAll m) = [] :=
  reportsOf_flatMap fun c => reportsOf_deliver c m

/-- What is reported of a room by effects. -/
def reportsOn (room : RoomId) (effects : List Effect) : List Report :=
  (reportsOf effects).filter (·.room = room)

theorem reportsOn_append (room : RoomId) (xs ys : List Effect) :
    reportsOn room (xs ++ ys) = reportsOn room xs ++ reportsOn room ys := by
  rw [reportsOn, reportsOf_append, List.filter_append]
  rfl

namespace Hub

/-! ## What an event does to a room -/

/-- The event `e` leaves `after` of the room and has `reports` made on it. -/
inductive RoomTurn (h : Hub) (room : RoomId) :
    Event → Option Room → List Report → Prop where
  /-- Nothing happens to the room. -/
  | idle {e : Event} : RoomTurn h room e (h.rooms.get? room) []
  /-- A client opens the room. -/
  | opened {c : Client} {r : Room} : c.room = room → h.rooms.get? room = none → r.puzzle = none →
      RoomTurn h room (.join c) (some r) []
  /-- A second client comes, and both are given a puzzle. -/
  | started {c : Client} {r₀ r : Room} {z : Puzzle} : c.room = room →
      h.rooms.get? room = some r₀ → r.puzzle = some z →
      RoomTurn h room (.join c) (some r) [.puzzleCreated room z]
  /-- The last client leaves. -/
  | emptied {p : PlayerId} {k : ConnectionId} {r : Room} {c : Client} :
      h.rooms.get? room = some r → r.clientOn p k = some c → r.clients.size = 1 →
      RoomTurn h room (.leave room p k) none [.roomEmpty room]
  /-- A client leaves another one behind. -/
  | abandoned {p : PlayerId} {k : ConnectionId} {r₀ r : Room} :
      h.rooms.get? room = some r₀ → r.puzzle = none →
      RoomTurn h room (.leave room p k) (some r) []
  /-- A wrong answer is checked. -/
  | wrong {p : PlayerId} {k : ConnectionId} {text : String} {r : Room} {z : Puzzle} :
      h.rooms.get? room = some r → r.puzzle = some z →
      RoomTurn h room (.submit room p k text) (some r) [.submission room ⟨p, text, false⟩]
  /-- A correct answer is checked, and the game ends. -/
  | solved {p : PlayerId} {k : ConnectionId} {text : String} {r : Room} {c d : Client}
      {z : Puzzle} : h.rooms.get? room = some r → r.puzzle = some z →
      r.clients.get? p = some c → r.clients.get? d.player = some d → d.player ≠ p →
      RoomTurn h room (.submit room p k text) none
        [.submission room ⟨p, text, true⟩, .gameEnded room p d.player]

section
variable {source : PuzzleSource} {h h' : Hub} {effects : List Effect} {e : Event}

theorem reportsOf_finish (hs : h.Sound) {room : RoomId} {r : Room} {p : PlayerId} {c : Client}
    (hr : h.rooms.get? room = some r) (hz : r.puzzle.isSome) (hc : r.clients.get? p = some c) :
    ∃ d, d.player ≠ p ∧ r.clients.get? d.player = some d ∧
      reportsOf (h.finish r p).2 = [.gameEnded room p d.player] := by
  obtain ⟨rfl, hrs⟩ := hs _ _ hr
  obtain ⟨d, hd, hdp, hv⟩ := hrs.opponent hz hc
  obtain rfl : c.player = p := (hrs.seats _ c hc).1
  have hfind : r.clients.values.find? (·.player ≠ c.player) = some d := by
    rcases hv with hv | hv <;> simp [hv, hd]
  refine ⟨d, hd, hdp, ?_⟩
  simp only [finish, hfind, reportsOf_append]
  rw [reportsOf_flatMap fun _ => reportsOf_deliver _ _, reportsOf_flatMap reportsOf_closing]
  rfl

theorem reportsOf_start (source : PuzzleSource) (h : Hub) (r : Room) :
    reportsOf (h.start source r).2 =
      [.puzzleCreated r.id ((source h.draws).getD unsolvedPuzzle)] := by
  rw [start, reportsOf_append, reportsOf_flatMap fun _ => reportsOf_deliver _ _]
  rfl

theorem Sound.room_of_report (hs : h.Sound) (ht : Transition source h e h' effects) {x : Report}
    (hx : x ∈ reportsOf effects) : e.room? = some x.room := by
  cases ht with
  | started hf hr =>
    rw [reportsOf_append, reportsOf_deliver, reportsOf_start] at hx
    obtain rfl := List.mem_singleton.1 hx
    exact congrArg some (hs _ _ hr).1.symm
  | emptied =>
    rw [reportsOf_append, reportsOf_append, reportsOf_deliver, reportsOf_closing] at hx
    obtain rfl := List.mem_singleton.1 hx
    rfl
  | wrong =>
    rw [reportsOf_report, reportsOf_deliver] at hx
    obtain rfl := List.mem_singleton.1 hx
    rfl
  | solved hr hc hz =>
    obtain ⟨d, -, -, hfin⟩ :=
      reportsOf_finish hs hr (by rw [hz]; rfl) (Room.clientOn_eq_some.1 hc).1
    rw [reportsOf_report, hfin] at hx
    rcases List.mem_pair.1 hx with rfl | rfl <;> rfl
  -- All other events report nothing.
  | opened | waiting | unassigned | mismatched | unverified =>
    rw [reportsOf_deliver] at hx
    cases hx
  | duplicate | crowded =>
    rw [reportsOf_append, reportsOf_deliver, reportsOf_closing] at hx
    cases hx
  | abandoned =>
    rw [reportsOf_append, reportsOf_append, reportsOf_deliver, reportsOf_closing,
      reportsOf_deliverAll] at hx
    cases hx
  | relayed =>
    rw [reportsOf_deliverAll] at hx
    cases hx
  | absent | unrelayed | unseated | informed | counted => cases hx

/-- When all that is reported is on the room, it is what is reported on it. -/
theorem Sound.reportsOn_eq (hs : h.Sound) (ht : Transition source h e h' effects) {room : RoomId}
    (hroom : e.room? = some room) : reportsOn room effects = reportsOf effects :=
  List.filter_eq_self.2 fun _ hx =>
    decide_eq_true (Option.some.inj ((hs.room_of_report ht hx).symm.trans hroom))

theorem Sound.roomTurn_join (hs : h.Sound) {c : Client}
    (ht : Transition source h (.join c) h' effects) :
    RoomTurn h c.room (.join c) (h'.rooms.get? c.room) (reportsOf effects) := by
  cases ht with
  | opened hr =>
    have hget := (get?_setRoom h (({ id := c.room } : Room).seat c (Room.not_isFull_new _))
      c.room).trans (if_pos rfl)
    rw [hget, reportsOf_deliver]
    exact .opened rfl hr rfl
  | duplicate | crowded =>
    rw [reportsOf_append, reportsOf_deliver, reportsOf_closing]
    exact .idle
  | waiting hf hr hp hw => exact absurd (hs.filled hr hf hp).2 hw
  | @started _ r hf hr =>
    have hid : (r.seat c hf).id = c.room := (hs _ _ hr).1
    have hget : (h.start source (r.seat c hf)).1.rooms.get? c.room = some _ :=
      (get?_setRoom h _ c.room).trans (if_pos hid.symm)
    rw [hget, reportsOf_append, reportsOf_deliver, reportsOf_start, hid]
    exact .started rfl hr rfl

theorem Sound.roomTurn_leave (hs : h.Sound) {room : RoomId} {p : PlayerId} {k : ConnectionId}
    (ht : Transition source h (.leave room p k) h' effects) :
    RoomTurn h room (.leave room p k) (h'.rooms.get? room) (reportsOf effects) := by
  cases ht with
  | absent => exact .idle
  | emptied hr hc he =>
    rw [reportsOf_append, reportsOf_append, reportsOf_deliver, reportsOf_closing, get?_dropRoom,
      if_pos rfl]
    exact .emptied hr hc (by rw [← Room.size_remove hc, (Room.isEmpty_iff _).1 he])
  | @abandoned _ _ _ r _ hr =>
    have hget := (get?_setRoom h { r.remove p with puzzle := none } room).trans
      (if_pos (hs _ _ hr).1.symm)
    rw [hget, reportsOf_append, reportsOf_append, reportsOf_deliver, reportsOf_closing,
      reportsOf_deliverAll]
    exact .abandoned hr rfl

theorem Sound.roomTurn_submit (hs : h.Sound) {room : RoomId} {p : PlayerId} {k : ConnectionId}
    {text : String} (ht : Transition source h (.submit room p k text) h' effects) :
    RoomTurn h room (.submit room p k text) (h'.rooms.get? room) (reportsOf effects) := by
  cases ht with
  | unseated => exact .idle
  | unassigned | mismatched | unverified =>
    rw [reportsOf_deliver]
    exact .idle
  | wrong hr _ hz =>
    rw [reportsOf_report, reportsOf_deliver, hr]
    exact .wrong hr hz
  | @solved _ _ _ _ r c _ hr hc hz =>
    have hcp := (Room.clientOn_eq_some.1 hc).1
    obtain ⟨d, hd, hdp, hfin⟩ := reportsOf_finish hs hr (by rw [hz]; rfl) hcp
    rw [reportsOf_report, hfin, Hub.finish, get?_dropRoom, if_pos (hs _ _ hr).1.symm]
    exact .solved hr hz hcp hdp hd

/-- **Every event does one of these things to a room.** -/
theorem Sound.roomTurn (hs : h.Sound) (ht : Transition source h e h' effects) (room : RoomId) :
    RoomTurn h room e (h'.rooms.get? room) (reportsOn room effects) := by
  by_cases hroom : e.room? = some room
  · rw [hs.reportsOn_eq ht hroom]
    cases e with
    | join c =>
      obtain rfl := Option.some.inj hroom
      exact hs.roomTurn_join ht
    | leave left p k =>
      obtain rfl := Option.some.inj hroom
      exact hs.roomTurn_leave ht
    | submit asked p k text =>
      obtain rfl := Option.some.inj hroom
      exact hs.roomTurn_submit ht
    | broadcast k m =>
      cases ht with
      | relayed =>
        rw [reportsOf_deliverAll]
        exact .idle
      | unrelayed => exact .idle
    | info | count =>
      cases ht
      exact .idle
  · -- The event is about another room.
    have hnone : reportsOn room effects = [] := List.filter_eq_nil_iff.2 fun x hx hxr =>
      hroom ((hs.room_of_report ht hx).trans (congrArg some (of_decide_eq_true hxr)))
    rw [hs.elsewhere ht hroom, hnone]
    exact .idle

end

/-! ## Reports of a run -/

end Hub

/-- The puzzle that a report announces. -/
def Report.puzzle? : Report → Option Puzzle
  | puzzleCreated _ z => some z
  | _ => none

/-- The puzzle that was announced last. -/
def lastPuzzle? (reports : List Report) : Option Puzzle :=
  (reports.filterMap Report.puzzle?).getLast?

/-- The report of the end of a game or of an empty room. -/
def Report.IsFinal : Report → Prop
  | gameEnded _ _ _ | roomEmpty _ => True
  | _ => False

/-- The report of an answer or of the end of a game. -/
def Report.IsPlay : Report → Prop
  | submission _ _ | gameEnded _ _ _ => True
  | _ => False

theorem lastPuzzle?_append_of_none {xs ys : List Report} (h : ∀ y ∈ ys, y.puzzle? = none) :
    lastPuzzle? (xs ++ ys) = lastPuzzle? xs := by
  rw [lastPuzzle?, List.filterMap_append, List.filterMap_eq_nil_iff.2 h, List.append_nil]
  rfl

theorem lastPuzzle?_concat (xs : List Report) (room : RoomId) (z : Puzzle) :
    lastPuzzle? (xs ++ [.puzzleCreated room z]) = some z := by
  simp [lastPuzzle?, List.filterMap_append, Report.puzzle?]

namespace Hub

/-- What an event reports on a room, after the events `before`. -/
def reportsAt (source : PuzzleSource) (room : RoomId) (before : List Event) (e : Event) :
    List Report :=
  reportsOn room ((after source before).step source e).2

/-- What the events `later` report on a room, after the events `before`. -/
def reportsSince (source : PuzzleSource) (room : RoomId) (before later : List Event) :
    List Report :=
  reportsOn room ((after source before).run source later).2

theorem Sound.roomTurn_step {h : Hub} (hs : h.Sound) (source : PuzzleSource) (e : Event)
    (room : RoomId) :
    RoomTurn h room e ((h.step source e).1.rooms.get? room)
      (reportsOn room (h.step source e).2) :=
  hs.roomTurn (step_transition source h e) room

section
variable {source : PuzzleSource} {room : RoomId}

theorem lastPuzzle?_of_puzzle {es : List Event} (hes : ∀ e ∈ es, e.Fresh) {r : Room} {z : Puzzle}
    (hr : (after source es).rooms.get? room = some r) (hz : r.puzzle = some z) :
    lastPuzzle? (reportsOn room (done source es)) = some z := by
  induction es using List.reverseRecOn generalizing r z with
  | nil => cases hr
  | append_singleton es e ih =>
    have hes' : ∀ e ∈ es, e.Fresh := fun e he => hes e (List.mem_append_left _ he)
    have ht := (sound_after source hes').roomTurn_step source e room
    rw [after_concat] at hr
    rw [done_concat, reportsOn_append]
    rw [hr] at ht
    generalize hafter : some r = o at ht
    generalize reportsOn room ((after source es).step source e).2 = reports at ht ⊢
    cases ht with
    | idle =>
      rw [List.append_nil]
      exact ih hes' hafter.symm hz
    | opened _ _ hn | abandoned _ hn =>
      obtain rfl := Option.some.inj hafter
      rw [hz] at hn
      cases hn
    | started _ _ hz' =>
      obtain rfl := Option.some.inj hafter
      obtain rfl := Option.some.inj (hz.symm.trans hz')
      exact lastPuzzle?_concat _ room z
    | wrong hr' =>
      obtain rfl := Option.some.inj hafter
      rw [lastPuzzle?_append_of_none (by simp [Report.puzzle?])]
      exact ih hes' hr' hz
    | emptied | solved => cases hafter

theorem silent_of_absent {h : Hub} (hs : h.Sound) {later : List Event}
    (hlater : ∀ e ∈ later, e.Fresh) (hr : h.rooms.get? room = none)
    (hjoin : ∀ c, .join c ∈ later → c.room ≠ room) :
    reportsOn room (h.run source later).2 = [] := by
  induction later generalizing h with
  | nil => rfl
  | cons e later ih =>
    obtain ⟨he, hlater⟩ := List.forall_mem_cons.1 hlater
    have ht := hs.roomTurn_step source e room
    have hnext : (h.step source e).1.rooms.get? room = none →
        reportsOn room ((h.step source e).1.run source later).2 = [] := fun hr =>
      ih (hs.step source he) hlater hr fun c hc => hjoin c (List.mem_cons_of_mem e hc)
    rw [run_cons, reportsOn_append]
    generalize (h.step source e).1.rooms.get? room = o at ht hnext
    generalize reportsOn room (h.step source e).2 = reports at ht ⊢
    cases ht with
    | idle => exact hnext hr
    | opened hc | started hc => exact absurd hc (hjoin _ List.mem_cons_self)
    | emptied hr' | abandoned hr' | wrong hr' | solved hr' => rw [hr] at hr'; cases hr'

theorem unplayed_of_unassigned {h : Hub} (hs : h.Sound) {later : List Event}
    (hlater : ∀ e ∈ later, e.Fresh)
    (hz : ∀ r, h.rooms.get? room = some r → r.puzzle = none) :
    ∀ x ∈ (reportsOn room (h.run source later).2).takeWhile (·.puzzle?.isNone), ¬ x.IsPlay := by
  induction later generalizing h with
  | nil => simp [run_nil, reportsOn, reportsOf]
  | cons e later ih =>
    obtain ⟨he, hlater⟩ := List.forall_mem_cons.1 hlater
    have ht := hs.roomTurn_step source e room
    have hnext := ih (hs.step source he) hlater
    rw [run_cons, reportsOn_append]
    generalize (h.step source e).1.rooms.get? room = o at ht hnext
    generalize reportsOn room (h.step source e).2 = reports at ht ⊢
    cases ht with
    | idle => exact hnext hz
    | opened _ _ hn | abandoned _ hn =>
      exact hnext fun r hr => Option.some.inj hr ▸ hn
    | started => simp [Report.puzzle?]
    | emptied =>
      rw [List.singleton_append, List.takeWhile_cons_of_pos rfl, List.forall_mem_cons]
      exact ⟨id, hnext fun r hr => by cases hr⟩
    | wrong hr hz' | solved hr hz' =>
      rw [hz _ hr] at hz'
      cases hz'

end

theorem RoomTurn.absent_of_final {h : Hub} {e : Event} {o : Option Room} {reports : List Report}
    (ht : RoomTurn h room e o reports) (hx : ∃ x ∈ reports, x.IsFinal) : o = none := by
  obtain ⟨x, hm, hx⟩ := hx
  cases ht with
  | emptied | solved => rfl
  | started | wrong =>
    obtain rfl := List.mem_singleton.1 hm
    exact hx.elim
  | _ => cases hm

/-! ## The order of reports -/

/-- What is reported of a room at an event `e`, after the events `before` and
    ahead of the events `later`. -/
structure ReportsInOrder (source : PuzzleSource) (room : RoomId) (before : List Event) (e : Event)
    (later : List Event) : Prop where
  /-- At most one thing is reported at once, except that a correct answer is
      followed by the end of the game, which its player wins; the end of a game
      is not reported otherwise. -/
  together : reportsAt source room before e = [] ∨
    (∃ z, reportsAt source room before e = [.puzzleCreated room z]) ∨
    (∃ p text, reportsAt source room before e = [.submission room ⟨p, text, false⟩]) ∨
    (∃ p q text, reportsAt source room before e =
      [.submission room ⟨p, text, true⟩, .gameEnded room p q]) ∨
    reportsAt source room before e = [.roomEmpty room]
  /-- An answer is reported only while the room holds two clients and the puzzle
      that was announced last. -/
  played : ∀ s, .submission room s ∈ reportsAt source room before e →
    ∃ r z, (after source before).rooms.get? room = some r ∧ r.clients.size = 2 ∧
      r.puzzle = some z ∧ lastPuzzle? (reportsOn room (done source before)) = some z
  /-- Winner and loser are two players, both seated just before. -/
  opponents : ∀ p q, .gameEnded room p q ∈ reportsAt source room before e →
    p ≠ q ∧ ((after source before).seated? room p).isSome ∧
      ((after source before).seated? room q).isSome
  /-- Whoever has a puzzle to solve has an opponent to beat. -/
  opposed : ∀ r p, (after source before).rooms.get? room = some r → r.puzzle.isSome →
    r.contains p → (r.clients.values.find? (·.player ≠ p)).isSome
  /-- An empty room is reported iff the last client leaves. -/
  roomEmpty_iff : .roomEmpty room ∈ reportsAt source room before e ↔
    ∃ p k r, e = .leave room p k ∧ (after source before).rooms.get? room = some r ∧
      (r.clientOn p k).isSome ∧ r.clients.size = 1
  /-- After the end of a game, and after the last client has left, nothing is
      reported until a client joins. -/
  silent : (∃ x ∈ reportsAt source room before e, x.IsFinal) →
    (∀ c, .join c ∈ later → c.room ≠ room) →
    reportsSince source room (before ++ [e]) later = []
  /-- Nor is any answer, or end of a game, until another puzzle is announced. -/
  unplayed : (∃ x ∈ reportsAt source room before e, x.IsFinal) →
    ∀ x ∈ (reportsSince source room (before ++ [e]) later).takeWhile (·.puzzle?.isNone),
      ¬ x.IsPlay

section
variable {source : PuzzleSource} {room : RoomId} {h : Hub} {e : Event}

theorem RoomTurn.together {o : Option Room} {reports : List Report}
    (ht : RoomTurn h room e o reports) :
    reports = [] ∨ (∃ z, reports = [.puzzleCreated room z]) ∨
      (∃ p text, reports = [.submission room ⟨p, text, false⟩]) ∨
      (∃ p q text, reports = [.submission room ⟨p, text, true⟩, .gameEnded room p q]) ∨
      reports = [.roomEmpty room] := by
  cases ht with
  | idle | opened | abandoned => exact .inl rfl
  | started => exact .inr (.inl ⟨_, rfl⟩)
  | wrong => exact .inr (.inr (.inl ⟨_, _, rfl⟩))
  | solved => exact .inr (.inr (.inr (.inl ⟨_, _, _, rfl⟩)))
  | emptied => exact .inr (.inr (.inr (.inr rfl)))

theorem RoomTurn.puzzle_of_submission {o : Option Room} {reports : List Report} {s : Submission}
    (ht : RoomTurn h room e o reports) (hm : .submission room s ∈ reports) :
    ∃ r z, h.rooms.get? room = some r ∧ r.puzzle = some z := by
  cases ht with
  | wrong hr hz | solved hr hz => exact ⟨_, _, hr, hz⟩
  | _ => simp at hm

theorem RoomTurn.seated_of_gameEnded {o : Option Room} {reports : List Report} {p q : PlayerId}
    (ht : RoomTurn h room e o reports) (hm : .gameEnded room p q ∈ reports) :
    p ≠ q ∧ (h.seated? room p).isSome ∧ (h.seated? room q).isSome := by
  cases ht with
  | solved hr _ hc hd hne =>
    simp only [List.mem_cons, reduceCtorEq, false_or, Report.gameEnded.injEq, true_and,
      List.not_mem_nil, or_false] at hm
    obtain ⟨rfl, rfl⟩ := hm
    rw [seated?_of_get? hr, seated?_of_get? hr, hc, hd]
    exact ⟨hne.symm, rfl, rfl⟩
  | _ => simp at hm

/-- An empty room is reported iff the last client leaves. -/
theorem Sound.roomEmpty_iff (hs : h.Sound) :
    .roomEmpty room ∈ reportsOn room (h.step source e).2 ↔
      ∃ p k r, e = .leave room p k ∧ h.rooms.get? room = some r ∧ (r.clientOn p k).isSome ∧
        r.clients.size = 1 := by
  constructor
  · intro hm
    have ht := hs.roomTurn_step source e room
    generalize (h.step source e).1.rooms.get? room = o at ht
    generalize reportsOn room (h.step source e).2 = reports at ht hm
    cases ht with
    | emptied hr hc h1 => exact ⟨_, _, _, rfl, hr, by rw [hc]; rfl, h1⟩
    | _ => simp at hm
  · rintro ⟨p, k, r, rfl, hr, hc, h1⟩
    obtain ⟨c, hc⟩ := Option.isSome_iff_exists.1 hc
    have ht := step_transition source h (.leave room p k)
    generalize (h.step source (.leave room p k)).1 = h' at ht
    generalize (h.step source (.leave room p k)).2 = effects at ht
    cases ht with
    | absent hn =>
      rw [seatedOn?_of_get? hr, hc] at hn
      cases hn
    | emptied => simp [reportsOn, reportsOf, Report.room]
    | abandoned hr' hc' he =>
      obtain rfl := Option.some.inj (hr.symm.trans hr')
      have := Room.size_remove hc'
      rw [Room.isEmpty_iff] at he
      omega

end

/-- **The reports on a room come in order**, in every run and at every event of it. -/
theorem run_reports (source : PuzzleSource) (room : RoomId) (before : List Event) (e : Event)
    (later : List Event) (hes : ∀ e' ∈ before ++ e :: later, e'.Fresh) :
    ReportsInOrder source room before e later := by
  rw [List.forall_mem_append, List.forall_mem_cons] at hes
  obtain ⟨hbefore, he, hlater⟩ := hes
  have hs := sound_after source hbefore
  have ht := hs.roomTurn_step source e room
  have hs' : (after source (before ++ [e])).Sound := by
    rw [after_concat]
    exact hs.step source he
  have hgone : (∃ x ∈ reportsAt source room before e, x.IsFinal) →
      (after source (before ++ [e])).rooms.get? room = none := by
    rw [after_concat]
    exact ht.absent_of_final
  exact
    { together := ht.together
      played := by
        intro s hm
        obtain ⟨r, z, hr, hz⟩ := ht.puzzle_of_submission hm
        exact ⟨r, z, hr, (hs _ _ hr).2.puzzle_iff.1 (by rw [hz]; rfl), hz,
          lastPuzzle?_of_puzzle hbefore hr hz⟩
      opponents := fun p q hm => ht.seated_of_gameEnded hm
      opposed := by
        intro r p hr hz hp
        obtain ⟨c, hc⟩ := Option.isSome_iff_exists.1 hp
        obtain ⟨d, hd, -, hv⟩ := (hs _ _ hr).2.opponent hz hc
        rw [List.find?_isSome]
        refine ⟨d, ?_, by simpa using hd⟩
        rcases hv with hv | hv <;> simp [hv]
      roomEmpty_iff := hs.roomEmpty_iff
      silent := fun hx => silent_of_absent hs' hlater (hgone hx)
      unplayed := by
        intro hx
        refine unplayed_of_unassigned hs' hlater fun r hr => ?_
        rw [hgone hx] at hr
        cases hr }

/-- A second player comes and wins, and the other one leaves too late. -/
theorem run_reports_played :
    let before : List Event :=
      [.join (.new ⟨"ada"⟩ ⟨1⟩ ⟨"r"⟩ ⟨"a"⟩), .join (.new ⟨"bob"⟩ ⟨2⟩ ⟨"r"⟩ ⟨"b"⟩)]
    let e : Event := .submit ⟨"r"⟩ ⟨"bob"⟩ ⟨2⟩ "1+1*9*9+9+9"
    let later : List Event := [.leave ⟨"r"⟩ ⟨"ada"⟩ ⟨1⟩]
    (∀ e' ∈ before ++ e :: later, e'.Fresh) ∧
      ReportsInOrder (fun _ => none) ⟨"r"⟩ before e later := by
  intro before e later
  have hes : ∀ e' ∈ before ++ e :: later, e'.Fresh := by decide
  exact ⟨hes, run_reports _ _ before e later hes⟩

end Hub

end HectocDuel
