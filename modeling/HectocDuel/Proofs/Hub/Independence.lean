/-
  Rooms that do not know of each other.

  The hub keeps all rooms in one table, and all draw their puzzles from one source.
  Apart from the number of the next draw, an event sees only the room it is about.

  * `SameRoom.step`: what an event does is read off its room and the next draw;
  * `leavesAlone`: an event is not heard of in any other room;
  * `fares_alone`: so a room fares in a run as it would if there were no others;
  * `rooms_independent`: runs that consist of the same events room by room come to
    the same, if each room is given the same puzzles.
-/
import HectocDuel.Proofs.Hub.Reports
import HectocDuel.Proofs.Hub.Stay

namespace HectocDuel

/-! ## The events on a room -/

/-- The events that are about a room. -/
def eventsOn (room : RoomId) (es : List Event) : List Event :=
  es.filter fun e => e.room? = some room

theorem mem_eventsOn {room : RoomId} {es : List Event} {e : Event} (he : e.room? = some room) :
    e ∈ eventsOn room es ↔ e ∈ es := by
  rw [eventsOn, List.mem_filter, decide_eq_true he]
  exact and_iff_left rfl

section
variable {room : RoomId} {e : Event} (es : List Event)

theorem eventsOn_concat_of_room (he : e.room? = some room) :
    eventsOn room (es ++ [e]) = eventsOn room es ++ [e] := by
  rw [eventsOn, List.filter_append, List.filter_cons_of_pos (by simpa using he)]
  rfl

theorem eventsOn_concat_of_ne (he : e.room? ≠ some room) :
    eventsOn room (es ++ [e]) = eventsOn room es := by
  rw [eventsOn, List.filter_append, List.filter_cons_of_neg (by simpa using he), List.filter_nil,
    List.append_nil, eventsOn]

end

/-- Whether two neighbouring events change places does not show in any room, if they
    are about two rooms. -/
theorem eventsOn_swap {e e' : Event} (he : e.room? ≠ e'.room?) (room : RoomId)
    (before later : List Event) :
    eventsOn room (before ++ e' :: e :: later) = eventsOn room (before ++ e :: e' :: later) := by
  simp only [eventsOn, List.filter_append, List.filter_cons]
  by_cases h : e.room? = some room
  · have h' : ¬ e'.room? = some room := fun h' => he (h.trans h'.symm)
    simp [h, h']
  · simp [h]

/-- Whoever joins with a queue does so in one room. -/
def QueueOf (q : QueueId) (room : RoomId) (es : List Event) : Prop :=
  ∀ d, .join d ∈ es → d.outbound = some q → d.room = room

theorem OwnQueues.queueOf {es : List Event} (ho : OwnQueues es) {c : Client} {q : QueueId}
    (hc : .join c ∈ es) (hq : c.outbound = some q) : QueueOf q c.room es := fun _ hd hdq =>
  congrArg Client.room (ho.eq_of_join hd hc hdq hq)

theorem mem_of_eventsOn_eq {es es' : List Event}
    (heq : ∀ room, eventsOn room es' = eventsOn room es) {e : Event} (hm : e ∈ es')
    {room : RoomId} (he : e.room? = some room) : e ∈ es := by
  rw [← mem_eventsOn he, ← heq room]
  exact (mem_eventsOn he).2 hm

theorem fresh_of_eventsOn_eq {es es' : List Event}
    (heq : ∀ room, eventsOn room es' = eventsOn room es) (hes : ∀ e ∈ es, e.Fresh) :
    ∀ e ∈ es', e.Fresh := fun e he => by
  cases e with
  | join c => exact hes _ (mem_of_eventsOn_eq heq he rfl)
  | _ => trivial

namespace Hub

/-! ## What an event sees of the hub -/

/-- Two hubs have the same room under a name, or both have none. -/
def SameRoom (room : RoomId) (h h' : Hub) : Prop :=
  h'.rooms.get? room = h.rooms.get? room

/-- Two outcomes have the same effects, and leave a room the same. -/
def SameOutcome (room : RoomId) (o o' : Hub × List Effect) : Prop :=
  o'.2 = o.2 ∧ SameRoom room o.1 o'.1

namespace SameRoom

variable {source source' : PuzzleSource} {h h' : Hub} {room : RoomId} {p : PlayerId}
  {k : ConnectionId}

theorem get? (hr : SameRoom room h h') : h'.rooms.get? room = h.rooms.get? room :=
  hr

theorem setRoom (hr : SameRoom room h h') (r : Room) :
    SameRoom room (h.setRoom r) (h'.setRoom r) := by
  rw [SameRoom, get?_setRoom, get?_setRoom, hr.get?]

theorem dropRoom (hr : SameRoom room h h') (id : RoomId) :
    SameRoom room (h.dropRoom id) (h'.dropRoom id) := by
  rw [SameRoom, get?_dropRoom, get?_dropRoom, hr.get?]

theorem join {c : Client} (hr : SameRoom c.room h h')
    (hdraw : (h.join source c).1.draws ≠ h.draws → source' h'.draws = source h.draws) :
    SameOutcome c.room (h.join source c) (h'.join source' c) := by
  rw [Hub.join] at hdraw
  rw [Hub.join, Hub.join, hr.get?]
  split
  · exact ⟨rfl, hr.setRoom _⟩
  · next r hget =>
    simp only [hget] at hdraw
    split
    · exact ⟨rfl, hr⟩
    · next hp =>
      rw [if_neg hp] at hdraw
      split
      · exact ⟨rfl, hr⟩
      · next hf =>
        simp only [dif_neg hf] at hdraw
        simp only
        split
        · next hs =>
          rw [if_pos hs] at hdraw
          rw [Hub.start, Hub.start, hdraw (Nat.succ_ne_self _)]
          exact ⟨rfl, hr.setRoom _⟩
        · exact ⟨rfl, hr.setRoom _⟩

theorem leave (hr : SameRoom room h h') :
    SameOutcome room (h.leave room p k) (h'.leave room p k) := by
  rw [Hub.leave, Hub.leave, hr.get?]
  split
  · exact ⟨rfl, hr⟩
  · split
    · exact ⟨rfl, hr⟩
    · simp only
      split
      · exact ⟨rfl, hr.dropRoom _⟩
      · exact ⟨rfl, hr.setRoom _⟩

theorem broadcast {m : Message} (hr : SameRoom m.room h h') :
    SameOutcome m.room (h.broadcast k m) (h'.broadcast k m) := by
  rw [Hub.broadcast, Hub.broadcast, hr.get?]
  split
  · split <;> exact ⟨rfl, hr⟩
  · exact ⟨rfl, hr⟩

theorem submit {text : String} (hr : SameRoom room h h') :
    SameOutcome room (h.submit room p k text) (h'.submit room p k text) := by
  rw [Hub.submit, Hub.submit, hr.get?]
  split
  · exact ⟨rfl, hr⟩
  · split
    · exact ⟨rfl, hr⟩
    · simp only
      split
      · exact ⟨rfl, hr⟩
      · split
        · split
          · exact ⟨rfl, hr⟩
          · split
            · exact ⟨rfl, hr.dropRoom _⟩
            · exact ⟨rfl, hr⟩
        · exact ⟨rfl, hr⟩

/-- **What an event does is read off the room it is about**, and off the next draw if
    it takes one. -/
theorem step {e : Event} (he : e.room? = some room) (hr : SameRoom room h h')
    (hdraw : (h.step source e).1.draws ≠ h.draws → source' h'.draws = source h.draws) :
    SameOutcome room (h.step source e) (h'.step source' e) := by
  cases e with
  | join c =>
    obtain rfl := Option.some.inj he
    exact hr.join hdraw
  | leave own p k =>
    obtain rfl := Option.some.inj he
    exact hr.leave
  | broadcast k m =>
    obtain rfl := Option.some.inj he
    exact hr.broadcast
  | submit own p k text =>
    obtain rfl := Option.some.inj he
    exact hr.submit
  | info own =>
    obtain rfl := Option.some.inj he
    refine ⟨?_, hr⟩
    rw [Hub.step, Hub.step, info?, info?, hr.get?]
  | count => cases he

end SameRoom

/-! ## Draws -/

/-- The puzzles that effects announce in a room. -/
def puzzlesOn (room : RoomId) (effects : List Effect) : List Puzzle :=
  (reportsOn room effects).filterMap Report.puzzle?

section
variable {source : PuzzleSource} {h h' : Hub} {e : Event} {effects : List Effect}

theorem Transition.draws (ht : Transition source h e h' effects) :
    h'.draws = h.draws + ((reportsOf effects).filterMap Report.puzzle?).length := by
  cases ht with
  | opened | waiting | unassigned | mismatched | unverified =>
    rw [reportsOf_deliver]
    rfl
  | duplicate | crowded =>
    rw [reportsOf_append, reportsOf_deliver, reportsOf_closing]
    rfl
  | started =>
    rw [reportsOf_append, reportsOf_deliver, reportsOf_start]
    rfl
  | emptied =>
    rw [reportsOf_append, reportsOf_append, reportsOf_deliver, reportsOf_closing]
    rfl
  | abandoned =>
    rw [reportsOf_append, reportsOf_append, reportsOf_deliver, reportsOf_closing,
      reportsOf_deliverAll]
    rfl
  | relayed =>
    rw [reportsOf_deliverAll]
    rfl
  | wrong =>
    rw [reportsOf_report, reportsOf_deliver]
    rfl
  | solved =>
    simp only [finish, reportsOf_report, reportsOf_append]
    rw [reportsOf_flatMap fun _ => reportsOf_deliver _ _, reportsOf_flatMap reportsOf_closing]
    split <;> rfl
  | absent | unrelayed | unseated | informed | counted => rfl

theorem draws_after (source : PuzzleSource) (es : List Event) :
    (after source es).draws = ((reportsOf (done source es)).filterMap Report.puzzle?).length := by
  induction es using List.reverseRecOn with
  | nil => rfl
  | append_singleton es e ih =>
    rw [after_concat, (step_transition source _ e).draws, ih, done_concat, reportsOf_append,
      List.filterMap_append, List.length_append]

end

/-- Every room has draws of its own: whenever a game starts in a room in the course of
    `es`, the source gives what `draw` gives for the room, by the number of games
    that were started there before. -/
def DrawsByRoom (draw : RoomId → PuzzleSource) (source : PuzzleSource) (es : List Event) : Prop :=
  ∀ before e later room, es = before ++ e :: later → e.room? = some room →
    let h := after source before
    (h.step source e).1.draws ≠ h.draws →
      source h.draws = draw room (puzzlesOn room (done source before)).length

section
variable {draw : RoomId → PuzzleSource} {source source' : PuzzleSource} {es es' : List Event}

/-- A source that always gives the same gives it to every room. -/
theorem drawsByRoom_of_const (z : Option Puzzle) (es : List Event) :
    DrawsByRoom (fun _ _ => z) (fun _ => z) es := by
  intro before e later room _ _ h _
  rfl

theorem drawsByRoom_concat_iff {e : Event} :
    DrawsByRoom draw source (es ++ [e]) ↔ DrawsByRoom draw source es ∧
      ∀ room, e.room? = some room →
        ((after source es).step source e).1.draws ≠ (after source es).draws →
        source (after source es).draws = draw room (puzzlesOn room (done source es)).length := by
  constructor
  · refine fun hd => ⟨?_, fun room => hd es e [] room rfl⟩
    rintro before e' later room rfl
    exact hd before e' (later ++ [e]) room (by simp)
  · rintro ⟨hd, hlast⟩ before e' later room heq
    rcases later.eq_nil_or_concat with rfl | ⟨later, e'', rfl⟩
    · obtain ⟨rfl, he⟩ := List.append_inj' heq rfl
      obtain rfl := List.singleton_inj.1 he
      exact hlast room
    · rw [List.concat_eq_append, ← List.cons_append, ← List.append_assoc] at heq
      exact hd before e' later room (List.append_inj' heq rfl).1

end

/-! ## Elsewhere -/

/-- After `before`, the event `e` does not change a room and is not heard of there. -/
structure LeavesAlone (source : PuzzleSource) (before : List Event) (e : Event) (room : RoomId) :
    Prop where
  same : SameRoom room (after source before) ((after source before).step source e).1
  reports : reportsAt source room before e = []
  signals : ∀ q, QueueOf q room (before ++ [e]) →
    signalsTo q ((after source before).step source e).2 = []

/-- **An event is not heard of in any room but its own.** -/
theorem leavesAlone (source : PuzzleSource) {before : List Event} {e : Event}
    (hes : ∀ e' ∈ before, e'.Fresh) {room : RoomId} (he : e.room? ≠ some room) :
    LeavesAlone source before e room := by
  have hs := sound_after source hes
  have ht := step_transition source (after source before) e
  refine ⟨hs.elsewhere ht he, ?_, fun q hq => hs.unheard ht ?_ ?_⟩
  · exact List.filter_eq_nil_iff.2 fun x hx hxr =>
      he ((hs.room_of_report ht hx).trans (congrArg some (of_decide_eq_true hxr)))
  · rintro c rfl hc
    exact he (congrArg some (hq c (by simp) hc))
  · intro own c hown hc hcq
    have hroom := hq c (List.mem_append_left _ (joined_of_seated hes hc)) hcq
    rw [(hs.of_seated hc).2.1] at hroom
    exact he (hroom ▸ hown)

/-! ## Room by room -/

/-- A room fares in the course of `es'` as it does in the course of `es`: it comes to the
    same, the same is reported of it, and its clients hear the same. -/
structure FaresAs (room : RoomId) (source : PuzzleSource) (es : List Event)
    (source' : PuzzleSource) (es' : List Event) : Prop where
  same : SameRoom room (after source es) (after source' es')
  reports : reportsOn room (done source' es') = reportsOn room (done source es)
  signals : ∀ q, QueueOf q room es →
    signalsTo q (done source' es') = signalsTo q (done source es)

section
variable {draw : RoomId → PuzzleSource} {source source' : PuzzleSource} {es es' : List Event}
  {room : RoomId} {e : Event}

theorem reportsOn_done (source : PuzzleSource) (hes : ∀ e ∈ es, e.Fresh)
    (hroom : ∀ e ∈ es, e.room? = some room) :
    reportsOn room (done source es) = reportsOf (done source es) := by
  induction es using List.reverseRecOn with
  | nil => rfl
  | append_singleton es e ih =>
    obtain ⟨hes', -⟩ := List.forall_mem_append.1 hes
    obtain ⟨hroom', he⟩ := List.forall_mem_append.1 hroom
    rw [done_concat, reportsOn_append, reportsOf_append, ih hes' hroom',
      (sound_after source hes').reportsOn_eq (step_transition source _ e)
        (he e List.mem_cons_self)]

theorem draws_eventsOn (source : PuzzleSource) (hes : ∀ e ∈ es, e.Fresh) (room : RoomId) :
    (after source (eventsOn room es)).draws =
      (puzzlesOn room (done source (eventsOn room es))).length := by
  rw [draws_after, puzzlesOn, reportsOn_done source]
  · exact fun e he => hes e (List.mem_of_mem_filter he)
  · exact fun e he => of_decide_eq_true (List.mem_filter.1 he).2

/-- **A room fares in a run as if there were no others.** -/
theorem fares_alone (hes : ∀ e ∈ es, e.Fresh) (hd : DrawsByRoom draw source es) (room : RoomId) :
    FaresAs room source es (draw room) (eventsOn room es) := by
  induction es using List.reverseRecOn with
  | nil => exact ⟨rfl, rfl, fun _ _ => rfl⟩
  | append_singleton es e ih =>
    have hes' : ∀ e ∈ es, e.Fresh := fun e he => hes e (List.mem_append_left _ he)
    obtain ⟨hroom, hreports, hsignals⟩ := ih hes' (drawsByRoom_concat_iff.1 hd).1
    have hqueue : ∀ {q}, QueueOf q room (es ++ [e]) → QueueOf q room es := fun hq d hdj =>
      hq d (List.mem_append_left _ hdj)
    by_cases he : e.room? = some room
    · rw [eventsOn_concat_of_room es he]
      have hdraw : ((after source es).step source e).1.draws ≠ (after source es).draws →
          draw room (after (draw room) (eventsOn room es)).draws =
            source (after source es).draws := by
        intro hne
        rw [(drawsByRoom_concat_iff.1 hd).2 room he hne, draws_eventsOn _ hes',
          puzzlesOn, puzzlesOn, hreports]
      obtain ⟨heffects, hafter⟩ := hroom.step he hdraw
      refine ⟨?_, ?_, fun q hq => ?_⟩
      · rwa [after_concat, after_concat]
      · rw [done_concat, done_concat, reportsOn_append, reportsOn_append, hreports, heffects]
      · rw [done_concat, done_concat, signalsTo_append, signalsTo_append, hsignals q (hqueue hq),
          heffects]
    · rw [eventsOn_concat_of_ne es he]
      have halone := leavesAlone source hes' he
      refine ⟨?_, ?_, fun q hq => ?_⟩
      · rw [after_concat]
        exact hroom.trans halone.same.symm
      · rw [done_concat, reportsOn_append, hreports]
        exact (List.append_nil _).symm.trans (congrArg _ halone.reports.symm)
      · rw [done_concat, signalsTo_append, halone.signals q hq, List.append_nil,
          hsignals q (hqueue hq)]

/-! ## Runs with the same events room by room -/

/-- The run over `es'` comes to the same as the run over `es`: in every room, in what is
    reported of every room, and in what every client hears. -/
structure SameByRoom (source : PuzzleSource) (es : List Event) (source' : PuzzleSource)
    (es' : List Event) : Prop where
  rooms : ∀ room, (after source' es').rooms.get? room = (after source es).rooms.get? room
  reports : ∀ room, reportsOn room (done source' es') = reportsOn room (done source es)
  signals : ∀ c q, .join c ∈ es → c.outbound = some q →
    signalsTo q (done source' es') = signalsTo q (done source es)

theorem sameByRoom_of_eventsOn_eq (hes : ∀ e ∈ es, e.Fresh) (ho : OwnQueues es)
    (hd : DrawsByRoom draw source es) (hd' : DrawsByRoom draw source' es')
    (heq : ∀ room, eventsOn room es' = eventsOn room es) :
    SameByRoom source es source' es' := by
  have hfares := fares_alone hes hd
  have hfares' := fares_alone (fresh_of_eventsOn_eq heq hes) hd'
  refine ⟨fun room => ?_, fun room => ?_, fun c q hc hq => ?_⟩
  · exact (hfares' room).same.symm.trans (heq room ▸ (hfares room).same)
  · rw [← (hfares' room).reports, heq room, (hfares room).reports]
  · have hqueue := ho.queueOf hc hq
    have hqueue' : QueueOf q c.room es' := fun d hd hdq =>
      hqueue d (mem_of_eventsOn_eq heq hd rfl) hdq
    rw [← (hfares' c.room).signals q hqueue', heq c.room, (hfares c.room).signals q hqueue]

end

/-- **Rooms are independent.**  Let the rooms be given the same puzzles in two runs, as
    they are by a source that does not heed the order of draws (`drawsByRoom_of_const`), and
    let every client come with a queue of its own.

    * If two neighbouring events on different rooms change places, the runs come to
      the same.
    * So they do whenever they consist of the same events room by room.
    * An event on one room changes no other, is not reported of it, and is heard of
      by none of its clients. -/
theorem rooms_independent (draw : RoomId → PuzzleSource) (source source' : PuzzleSource)
    (es es' : List Event) (hes : ∀ e ∈ es, e.Fresh) (ho : OwnQueues es)
    (hd : DrawsByRoom draw source es) (hd' : DrawsByRoom draw source' es') :
    (∀ before e e' later room room', es = before ++ e :: e' :: later →
        es' = before ++ e' :: e :: later → e.room? = some room → e'.room? = some room' →
        room ≠ room' → SameByRoom source es source' es') ∧
      ((∀ room, eventsOn room es' = eventsOn room es) → SameByRoom source es source' es') ∧
      ∀ before e later room, es = before ++ e :: later → e.room? ≠ some room →
        (after source (before ++ [e])).rooms.get? room = (after source before).rooms.get? room ∧
        reportsAt source room before e = [] ∧
        ∀ c q, .join c ∈ es → c.room = room → c.outbound = some q →
          signalsTo q ((after source before).step source e).2 = [] := by
  have hsame := sameByRoom_of_eventsOn_eq hes ho hd hd'
  refine ⟨?_, hsame, ?_⟩
  · rintro before e e' later room room' rfl rfl he he' hne
    exact hsame (eventsOn_swap (by simpa [he, he'] using hne) · before later)
  · rintro before e later room rfl he
    have halone := leavesAlone source (fun e' he' => hes e' (List.mem_append_left _ he')) he
    refine ⟨?_, halone.reports, ?_⟩
    · rw [after_concat]
      exact halone.same
    · rintro c q hc rfl hq
      refine halone.signals q fun d hdj => ho.queueOf hc hq d ?_
      rw [List.append_cons]
      exact List.mem_append_left _ hdj

/-- Games start in two rooms, in one order or in the other, and each room is given its
    own puzzle. -/
theorem rooms_independent_two_games :
    let ada : Event := .join (.new ⟨"ada"⟩ ⟨1⟩ ⟨"r"⟩ ⟨"a"⟩)
    let bob : Event := .join (.new ⟨"bob"⟩ ⟨2⟩ ⟨"s"⟩ ⟨"b"⟩)
    let cyd : Event := .join (.new ⟨"cyd"⟩ ⟨3⟩ ⟨"r"⟩ ⟨"c"⟩)
    let dan : Event := .join (.new ⟨"dan"⟩ ⟨4⟩ ⟨"s"⟩ ⟨"d"⟩)
    let draw (room : RoomId) : PuzzleSource := fun _ =>
      if room = ⟨"r"⟩ then some unsolvedPuzzle else fallbacks[1]?.map (⟨·, []⟩)
    let source : PuzzleSource := fun n => draw (if n = 0 then ⟨"r"⟩ else ⟨"s"⟩) 0
    let source' : PuzzleSource := fun n => draw (if n = 0 then ⟨"s"⟩ else ⟨"r"⟩) 0
    (∀ e ∈ [ada, bob, cyd, dan], e.Fresh) ∧ OwnQueues [ada, bob, cyd, dan] ∧
      DrawsByRoom draw source [ada, bob, cyd, dan] ∧
      DrawsByRoom draw source' [ada, bob, dan, cyd] ∧
      SameByRoom source [ada, bob, cyd, dan] source' [ada, bob, dan, cyd] := by
  intro ada bob cyd dan draw source source'
  have hes : ∀ e ∈ [ada, bob, cyd, dan], e.Fresh := by decide
  have ho : OwnQueues [ada, bob, cyd, dan] := by decide
  -- Only the second client of a room takes a draw.
  have hnil : ∀ source, DrawsByRoom draw source [] := by
    rintro source before e later room heq
    simp at heq
  have hd : DrawsByRoom draw source ([] ++ [ada] ++ [bob] ++ [cyd] ++ [dan]) := by
    simp only [drawsByRoom_concat_iff]
    refine ⟨⟨⟨⟨hnil source, ?_⟩, ?_⟩, ?_⟩, ?_⟩
    all_goals
      rintro room ⟨⟩
      decide +kernel
  have hd' : DrawsByRoom draw source' ([] ++ [ada] ++ [bob] ++ [dan] ++ [cyd]) := by
    simp only [drawsByRoom_concat_iff]
    refine ⟨⟨⟨⟨hnil source', ?_⟩, ?_⟩, ?_⟩, ?_⟩
    all_goals
      rintro room ⟨⟩
      decide +kernel
  exact ⟨hes, ho, hd, hd', (rooms_independent draw source source' _ _ hes ho hd hd').1 [ada, bob]
    cyd dan [] ⟨"r"⟩ ⟨"s"⟩ rfl rfl rfl rfl (by decide)⟩

end Hub

end HectocDuel
