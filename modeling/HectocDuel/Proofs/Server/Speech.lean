/-
  What one connection asks of the hub, among all that happens on a server.

  * `queued` lists the events that a connection puts in line in the course of actions;
  * `get?_act`, `queued_skip`: what other parties do changes nothing for it;
  * `queued_of_begun`: once its session has begun it asks what the session asks;
  * `Visit`: a connection comes to a room, is let in, and frames arrive on it until it is
    closed or lost;
  * `visit_queued`: it joins, says what is in the frames and leaves, for its own player in
    its own room, whatever the frames name.
-/
import HectocDuel.Proofs.Server.Run
import HectocDuel.Proofs.Session

namespace HectocDuel.Server

/-- The connection that does an action. -/
def Action.connection? : Action → Option ConnectionId
  | .advance c | .receive c _ => some c
  | _ => none

section
variable [Url.HostNames] (source : PuzzleSource)

/-- The events that the connection `c` puts in line by an action. -/
def queuedBy (c : ConnectionId) (s : Server Games) (a : Action) : List Event :=
  if a.connection? = some c then (act source s a).intake.drop s.intake.length else []

/-- The events that the connection `c` puts in line in the course of actions. -/
def queued (c : ConnectionId) (s : Server Games) : List Action → List Event
  | [] => []
  | a :: acts => queuedBy source c s a ++ queued c (act source s a) acts

theorem queued_append (c : ConnectionId) (s : Server Games) (acts acts' : List Action) :
    queued source c s (acts ++ acts') =
      queued source c s acts ++ queued source c (acts.foldl (act source) s) acts' := by
  induction acts generalizing s with
  | nil => rfl
  | cons a acts ih =>
    rw [List.cons_append, queued, queued, ih, List.append_assoc, List.foldl_cons]

section
variable {source} {c : ConnectionId} {s : Server Games}

/-! ## What others do -/

variable (source s) in
theorem accepted_le_act (a : Action) : s.accepted ≤ (act source s a).accepted := by
  have hturn := actionTurn source s a
  generalize act source s a = s' at *
  cases hturn with
  | asks | refuses => exact Nat.le_succ _
  | _ => exact Nat.le_refl _

variable (source s) in
theorem accepted_le_foldl (acts : List Action) :
    s.accepted ≤ (acts.foldl (act source) s).accepted := by
  induction acts generalizing s with
  | nil => exact Nat.le_refl _
  | cons a acts ih => exact Nat.le_trans (accepted_le_act source s a) (ih _)

variable (source) in
/-- A connection stays as it is unless it acts, or is just being accepted. -/
theorem get?_act {a : Action} (ha : a.connection? ≠ some c) :
    (act source s a).stages.get? c = s.stages.get? c ∨
      c.number = s.accepted + 1 ∧ (act source s a).accepted = s.accepted + 1 := by
  have hturn := actionTurn source s a
  generalize act source s a = s' at *
  cases hturn with
  | asks | refuses =>
    by_cases hc : c = ⟨s.accepted + 1⟩
    · exact .inr ⟨congrArg ConnectionId.number hc, rfl⟩
    · exact .inl ((get?_setStage ..).trans (if_neg hc))
  | finds | misses | registers | begins | ends =>
    exact .inl ((get?_setStage ..).trans (if_neg fun h => ha (congrArg some h.symm)))
  | rests | speaks | takes | books | opens => exact .inl rfl

/-- A connection that was accepted is at some stage. -/
structure IsAt (s : Server Games) (c : ConnectionId) (stage : Stage) : Prop where
  get? : s.stages.get? c = some stage
  accepted : c.number ≤ s.accepted

variable {stage : Stage}

theorem IsAt.act_other (h : s.IsAt c stage) {a : Action} (ha : a.connection? ≠ some c) :
    (act source s a).IsAt c stage := by
  refine ⟨?_, Nat.le_trans h.accepted (accepted_le_act source s a)⟩
  rcases get?_act source ha with heq | ⟨hc, -⟩
  · exact heq.trans h.get?
  · exact absurd h.accepted (by omega)

theorem queuedBy_other {a : Action} (ha : a.connection? ≠ some c) : queuedBy source c s a = [] :=
  if_neg ha

variable (source) in
/-- What other parties do changes nothing for a connection. -/
theorem queued_skip (h : s.IsAt c stage) {acts : List Action}
    (hacts : ∀ a ∈ acts, a.connection? ≠ some c) :
    queued source c s acts = [] ∧ (acts.foldl (act source) s).IsAt c stage := by
  induction acts generalizing s with
  | nil => exact ⟨rfl, h⟩
  | cons a acts ih =>
    obtain ⟨ha, hacts⟩ := List.forall_mem_cons.1 hacts
    obtain ⟨hnone, hat⟩ := ih (h.act_other ha) hacts
    rw [queued, queuedBy_other ha, hnone]
    exact ⟨rfl, hat⟩

variable (source) in
theorem queued_next (h : s.IsAt c stage) {a : Action} {acts own : List Action}
    (hown : acts.filter (·.connection? = some c) = a :: own) :
    ∃ s' later, s'.IsAt c stage ∧ later.filter (·.connection? = some c) = own ∧
      queued source c s acts =
        queuedBy source c s' a ++ queued source c (act source s' a) later := by
  obtain ⟨before, later, rfl, hbefore, -, hlater⟩ := List.filter_eq_cons_iff.1 hown
  obtain ⟨hnone, hat⟩ := queued_skip source h fun b hb => by simpa using hbefore b hb
  refine ⟨_, later, hat, hlater, ?_⟩
  rw [queued_append, hnone]
  rfl

/-! ## What it does itself -/

/-- A connection comes to a stage by an action of its own and puts `events` in line. -/
structure Moves (source : PuzzleSource) (s : Server Games) (c : ConnectionId) (a : Action)
    (stage : Stage) (events : List Event) : Prop where
  isAt : (act source s a).IsAt c stage
  queued : queuedBy source c s a = events

theorem Moves.of_act {a : Action} {stage' : Stage} {events : List Event} (h : s.IsAt c stage)
    (ha : a.connection? = some c) (hstage : (act source s a).stages.get? c = some stage')
    (hintake : (act source s a).intake = s.intake ++ events) :
    Moves source s c a stage' events := by
  refine ⟨⟨hstage, Nat.le_trans h.accepted (accepted_le_act source s a)⟩, ?_⟩
  rw [queuedBy, if_pos ha, hintake, List.drop_left]

theorem Moves.of_setStage {s' : Server Games} {a : Action} {stage' : Stage} {events : List Event}
    (h : s.IsAt c stage) (ha : a.connection? = some c)
    (hact : act source s a = s'.setStage c stage') (hintake : s'.intake = s.intake ++ events) :
    Moves source s c a stage' events :=
  .of_act h ha (by rw [hact, get?_setStage, if_pos rfl]) (by rw [hact]; exact hintake)

variable {session : Session}

variable (source) in
theorem IsAt.finds (h : s.IsAt c (.asked session)) {id : GameId}
    (hid : (Games.resolve session.room s.store).1 = .ok id) :
    Moves source s c (.advance c) (.found session id) [] := by
  have hresolve : GameStore.ofGames.resolve session.room s.store =
      (.ok id, (Games.resolve session.room s.store).2) := Prod.ext hid rfl
  have hact : act source s (.advance c) =
      ({ s with store := (Games.resolve session.room s.store).2 }).setStage c
        (.found session id) := by
    rw [act, advance, h.get?]
    simp only [hresolve]
  exact .of_setStage h rfl hact (List.append_nil _).symm

variable (source) in
theorem IsAt.registers {id : GameId} (h : s.IsAt c (.found session id)) :
    Moves source s c (.advance c) (.registered session) [] := by
  have hact : act source s (.advance c) =
      ({ s with store := (Games.register id session.player s.store).2 }).setStage c
        (.registered session) := by
    rw [act, advance, h.get?]
    rfl
  exact .of_setStage h rfl hact (List.append_nil _).symm

variable (source) in
theorem IsAt.begins (h : s.IsAt c (.registered session)) :
    Moves source s c (.advance c) (.begun session) [session.joining] := by
  have hact : act source s (.advance c) =
      ({ s with intake := s.intake ++ [session.joining] }).setStage c (.begun session) := by
    rw [act, advance, h.get?]
  exact .of_setStage h rfl hact rfl

variable (source) in
theorem IsAt.reacts (h : s.IsAt c (.begun session)) (i : Incoming) :
    Moves source s c (.receive c i) (if (session.react i).2 then .begun session else .ended)
      [(session.react i).1] := by
  have hact : act source s (.receive c i) =
      if (session.react i).2 then { s with intake := s.intake ++ [(session.react i).1] }
      else ({ s with intake := s.intake ++ [(session.react i).1] }).setStage c .ended := by
    rw [act, receive, h.get?]
  by_cases hgo : (session.react i).2 = true
  · rw [if_pos hgo] at hact ⊢
    exact .of_act h rfl (by rw [hact]; exact h.get?) (by rw [hact])
  · rw [if_neg hgo] at hact ⊢
    exact .of_setStage h rfl hact rfl

theorem act_of_closed {a : Action} (ha : a.connection? = some c)
    (h : s.stages.get? c = some .ended ∨ s.stages.get? c = none) : act source s a = s := by
  cases a with
  | advance c' =>
    obtain rfl := Option.some.inj ha
    rcases h with h | h <;> rw [act, advance, h]
  | receive c' i =>
    obtain rfl := Option.some.inj ha
    rcases h with h | h <;> rw [act, receive, h]
  | accept | takeEvent | takeReport | openGame => cases ha

theorem queuedBy_of_closed {a : Action} (ha : a.connection? = some c)
    (h : s.stages.get? c = some .ended ∨ s.stages.get? c = none) : queuedBy source c s a = [] := by
  rw [queuedBy, if_pos ha, act_of_closed ha h, List.drop_length]

/-! ## The whole course -/

theorem queued_of_ended (h : s.IsAt c .ended) (acts : List Action) :
    queued source c s acts = [] := by
  induction acts generalizing s with
  | nil => rfl
  | cons a acts ih =>
    rw [queued]
    by_cases ha : a.connection? = some c
    · rw [queuedBy_of_closed ha (.inl h.get?), act_of_closed ha (.inl h.get?)]
      exact ih h
    · rw [queuedBy_other ha]
      exact ih (h.act_other ha)

/-- Once its session has begun, a connection asks what the session asks. -/
theorem queued_of_begun (h : s.IsAt c (.begun session)) {acts : List Action} {is : List Incoming}
    (hacts : acts.filter (·.connection? = some c) = is.map (.receive c)) :
    queued source c s acts = session.events is := by
  induction is generalizing s acts with
  | nil =>
    refine (queued_skip source h fun a ha => ?_).1
    simpa using List.filter_eq_nil_iff.1 hacts a ha
  | cons i is ih =>
    obtain ⟨s', later, hat, hlater, hq⟩ := queued_next source h hacts
    have hmoves := hat.reacts source i
    rw [hq, hmoves.queued, Session.events_cons, List.singleton_append]
    congr 1
    split
    · next hgo => exact ih (by simpa [hgo] using hmoves.isAt) hlater
    · next hgo => exact queued_of_ended (by simpa [hgo] using hmoves.isAt) later

theorem queued_of_absent (h : s.stages.get? c = none) {acts : List Action}
    (hc : (acts.foldl (act source) s).accepted < c.number) : queued source c s acts = [] := by
  induction acts generalizing s with
  | nil => rfl
  | cons a acts ih =>
    rw [queued]
    by_cases ha : a.connection? = some c
    · rw [queuedBy_of_closed ha (.inr h)]
      rw [List.foldl_cons] at hc
      rw [act_of_closed ha (.inr h)] at hc ⊢
      exact ih h hc
    · rw [queuedBy_other ha]
      refine ih ?_ hc
      rcases get?_act source ha with heq | ⟨hnumber, haccepted⟩
      · exact heq.trans h
      · have hle := accepted_le_foldl source (act source s a) acts
        rw [List.foldl_cons] at hc
        omega

variable (source) in
theorem isAt_accept {target : String}
    (htarget : parseTarget target = .ok (session.room, session.player))
    (hconnection : session.connection = ⟨s.accepted + 1⟩) :
    (act source s (.accept target)).IsAt session.connection (.asked session) := by
  obtain ⟨room, player, c⟩ := session
  obtain rfl : c = ⟨s.accepted + 1⟩ := hconnection
  rw [act, accept]
  simp only [htarget]
  exact ⟨(get?_setStage ..).trans (if_pos rfl), Nat.le_refl _⟩

/-- A connection whose game was found registers its player, joins and asks what its session
    asks. -/
theorem queued_of_found {id : GameId} (h : s.IsAt c (.found session id)) {acts : List Action}
    {is : List Incoming}
    (hacts : acts.filter (·.connection? = some c) =
      .advance c :: .advance c :: is.map (.receive c)) :
    queued source c s acts = session.run is := by
  obtain ⟨s₁, later₁, hat₁, hlater₁, hq₁⟩ := queued_next source h hacts
  have hregisters := hat₁.registers source
  obtain ⟨s₂, later₂, hat₂, hlater₂, hq₂⟩ := queued_next source hregisters.isAt hlater₁
  have hbegins := hat₂.begins source
  rw [hq₁, hregisters.queued, hq₂, hbegins.queued, queued_of_begun hbegins.isAt hlater₂]
  rfl

end

/-! ## Visits -/

variable (autoOpen : Bool)

/-- In the course of actions a connection comes for `session`: its target is understood and
    the game of its room is found, and `texts` arrive on it as frames until it is closed or
    lost.  All other actions come in between as they like. -/
inductive Visit : List Action → Session → List (List UInt8) → Prop where
  | intro {before between later : List Action} {target : String} {session : Session}
      {texts : List (List UInt8)} {last : Incoming} :
      parseTarget target = .ok (session.room, session.player) →
      session.connection = ⟨(after autoOpen source before).accepted + 1⟩ →
      (∀ a ∈ between, a.connection? ≠ some session.connection) →
      (∃ id, (Games.resolve session.room
        (after autoOpen source (before ++ .accept target :: between)).store).1 = .ok id) →
      later.filter (·.connection? = some session.connection) =
        .advance session.connection :: .advance session.connection ::
          (texts.map Incoming.frame ++ [last]).map (.receive session.connection) →
      (∀ text, last ≠ .frame text) →
      Visit (before ++ .accept target :: between ++ .advance session.connection :: later) session
        texts

variable {source autoOpen}

/-- On a visit the hub is asked what the session asks. -/
theorem Visit.queued_eq {acts : List Action} {session : Session} {texts : List (List UInt8)}
    (h : Visit source autoOpen acts session texts) :
    queued source session.connection { store := { autoOpen } } acts =
      session.joining :: ((spoken texts).map session.saying ++ [session.leaving]) := by
  cases h with
  | @intro before between later target _ _ last htarget hconnection hbetween hresolve hlater
      hlast =>
    obtain ⟨id, hid⟩ := hresolve
    have hbefore : queued source session.connection { store := { autoOpen } } before = [] :=
      queued_of_absent rfl (by rw [hconnection]; exact Nat.lt_succ_self _)
    have haccept : queuedBy source session.connection (after autoOpen source before)
        (.accept target) = [] := queuedBy_other nofun
    obtain ⟨hnone, hasked⟩ :=
      queued_skip source (isAt_accept source htarget hconnection) hbetween
    rw [after, List.foldl_append] at hid
    have hfinds := hasked.finds source hid
    rw [queued_append, queued_append, hbefore, queued, ← after, haccept, hnone, queued,
      List.foldl_append, List.foldl_cons, ← after, hfinds.queued,
      queued_of_found hfinds.isAt hlater, session.run_frames texts hlast]
    rfl

/-- **What a connection may ask of the hub.**  On every visit, whatever else happens on the
    server, a connection puts in line that its player joins its room; then what is said in
    the frames, one event a frame, up to the first that leaves or cannot be read; then that
    the player leaves, once, and nothing after that.  All of this is said for the player of
    the connection, in its room and on this connection.  So it does not matter what the
    frames name as room and as sender. -/
theorem visit_queued {acts : List Action} {session : Session} {texts : List (List UInt8)}
    (h : Visit source autoOpen acts session texts) :
    queued source session.connection { store := { autoOpen } } acts =
        session.joining :: ((spoken texts).map session.saying ++ [session.leaving]) ∧
      (∀ e ∈ queued source session.connection { store := { autoOpen } } acts,
        session.SpeaksFor e) ∧
      ∀ source' autoOpen' acts' texts', Visit source' autoOpen' acts' session texts' →
        texts.Forall₂ (fun t t' => t' = t ∨ SameSaying t t') texts' →
        queued source' session.connection { store := { autoOpen := autoOpen' } } acts' =
          queued source session.connection { store := { autoOpen } } acts := by
  refine ⟨h.queued_eq, ?_, ?_⟩
  · intro e he
    rw [h.queued_eq, ← @Session.run_frames session texts .closed nofun] at he
    exact session.speaksFor_of_mem_run he
  · intro source' autoOpen' acts' texts' h' hsame
    rw [h'.queued_eq, h.queued_eq, spoken_congr hsame]

end

/-- `bob` sends what he likes, in his own name or in that of his opponent, while `ada` comes
    and goes. -/
theorem visit_queued_two_names :
    let said (room : RoomId) (sender : Option PlayerId) : List (List UInt8) :=
      [Message.encode ⟨.text .submit "1+2", room, sender⟩,
        Message.encode ⟨.text .ended "Game over!", room, sender⟩,
        Message.encode ⟨.leave, room, sender⟩]
    let before : List Action := [.accept "/api/v1/ws/rooms/r/join?userId=ada", .advance ⟨1⟩]
    let later (room : RoomId) (sender : Option PlayerId) : List Action :=
      [.advance ⟨1⟩, .advance ⟨2⟩, .advance ⟨2⟩, .takeEvent] ++
        (said room sender).map (fun text => Action.receive ⟨2⟩ (.frame text)) ++
        [.receive ⟨1⟩ .failed, .takeEvent, .receive ⟨2⟩ .closed]
    let acts (room : RoomId) (sender : Option PlayerId) : List Action :=
      before ++ .accept "/api/v1/ws/rooms/r/join?userId=bob" :: [.advance ⟨1⟩] ++
        .advance ⟨2⟩ :: later room sender
    let bob : Session := ⟨⟨"r"⟩, ⟨"bob"⟩, ⟨2⟩⟩
    let asked (room : RoomId) (sender : Option PlayerId) : List Event :=
      queued (fun _ => none) ⟨2⟩ { store := { autoOpen := true } } (acts room sender)
    Visit (fun _ => none) true (acts ⟨"s"⟩ (some ⟨"ada"⟩)) bob (said ⟨"s"⟩ (some ⟨"ada"⟩)) ∧
      asked ⟨"s"⟩ (some ⟨"ada"⟩) =
        [.join (.new ⟨"bob"⟩ ⟨2⟩ ⟨"r"⟩ (ConnectionId.queue ⟨2⟩)),
          .submit ⟨"r"⟩ ⟨"bob"⟩ ⟨2⟩ "1+2",
          .broadcast ⟨2⟩ ⟨.text .ended "Game over!", ⟨"r"⟩, some ⟨"bob"⟩⟩,
          .leave ⟨"r"⟩ ⟨"bob"⟩ ⟨2⟩] ∧
      asked ⟨"r"⟩ none = asked ⟨"s"⟩ (some ⟨"ada"⟩) := by
  intro said before later acts bob asked
  have hvisit : ∀ room sender, Visit (fun _ => none) true (acts room sender) bob
      (said room sender) := by
    intro room sender
    have htarget : parseTarget "/api/v1/ws/rooms/r/join?userId=bob" = .ok (⟨"r"⟩, ⟨"bob"⟩) := by
      decide +kernel
    have hresolve : ∃ id, (Games.resolve ⟨"r"⟩ (after true (fun _ => none) (before ++
        .accept "/api/v1/ws/rooms/r/join?userId=bob" :: [.advance ⟨1⟩])).store).1 = .ok id := by
      exact ⟨⟨1⟩, by decide +kernel⟩
    exact @Visit.intro _ _ _ before [.advance ⟨1⟩] (later room sender) _ bob (said room sender)
      .closed htarget (by decide +kernel) (by decide) hresolve rfl nofun
  obtain ⟨hasked, -, hsame⟩ := visit_queued (hvisit ⟨"s"⟩ (some ⟨"ada"⟩))
  refine ⟨hvisit _ _, hasked.trans ?_, hsame _ _ _ _ (hvisit ⟨"r"⟩ none) ?_⟩
  · have hspoken : spoken (said ⟨"s"⟩ (some ⟨"ada"⟩)) =
        [.text .submit "1+2", .text .ended "Game over!"] := by
      simp [said, spoken, Message.decode_encode]
    rw [hspoken]
    rfl
  · refine .cons (.inr ?_) (.cons (.inr ?_) (.cons (.inr ?_) .nil))
    all_goals exact sameSaying_encode _ ⟨"r"⟩ none

end HectocDuel.Server
