/-
  The server, step by step and in any order.

  An action is one step of one party: a connection that comes, goes on or says
  something, the hub with its next event, the books with their next report, or a
  game opened by hand in a room without one.

  * `ActionTurn` lists what an action can make of the server;
  * `StageTurn` and `StoreTurn` list what that means for a connection and for the store,
    `join_before` and `act_hub` what it means for the hub;
  * `Found` and `Registered` are the history of a session: which game it found, what was
    booked since, and whether its player was entered there;
  * `traced`: so whoever joins, is seated or ends a game was registered before.
-/
import HectocDuel.Proofs.Hub.Reports
import HectocDuel.Proofs.Store.Books

namespace HectocDuel.Server

/-! ## Actions -/

/-- A step of the server. -/
inductive Action where
  /-- A connection with a target arrives. -/
  | accept (target : String)
  /-- A connection that is not open yet goes one step on. -/
  | advance (c : ConnectionId)
  /-- Something arrives on a connection. -/
  | receive (c : ConnectionId) (i : Incoming)
  /-- The hub takes the next event. -/
  | takeEvent
  /-- The next report is booked. -/
  | takeReport
  /-- A game is opened in a room, if it has none. -/
  | openGame (room : RoomId)

variable [Url.HostNames] (autoOpen : Bool) (source : PuzzleSource)

/-- The server after an action. -/
def act (s : Server Games) : Action → Server Games
  | .accept target => (s.accept target).2.1
  | .advance c => (s.advance .ofGames c).1
  | .receive c i => s.receive c i
  | .takeEvent => (s.takeEvent source).1
  | .takeReport => s.takeReport .ofGames
  | .openGame room =>
    if (s.store.gameFor room).isSome then s else { s with store := (s.store.openGame room).2 }

/-- The report that is booked by an action. -/
def bookedBy (s : Server Games) : Action → Option Report
  | .takeReport => s.reports.head?
  | _ => none

/-- The server after actions, from the start. -/
def after (acts : List Action) : Server Games :=
  acts.foldl (act source) { store := { autoOpen } }

theorem after_concat (acts : List Action) (a : Action) :
    after autoOpen source (acts ++ [a]) = act source (after autoOpen source acts) a :=
  List.foldl_concat ..

/-! ## What an action does -/

section
variable {source} {s : Server Games} {a : Action}

/-- What an action makes of the server. -/
inductive ActionTurn (source : PuzzleSource) (s : Server Games) : Action → Server Games → Prop where
  /-- Nothing. -/
  | rests {a : Action} : (∀ target, a ≠ .accept target) → ActionTurn source s a s
  /-- A connection arrives that asks for a room. -/
  | asks {target : String} {session : Session} : session.connection = ⟨s.accepted + 1⟩ →
      ActionTurn source s (.accept target)
        ({ s with accepted := s.accepted + 1 }.setStage ⟨s.accepted + 1⟩ (.asked session))
  /-- A connection arrives that asks for none. -/
  | refuses {target : String} : ActionTurn source s (.accept target)
      ({ s with accepted := s.accepted + 1 }.setStage ⟨s.accepted + 1⟩ .ended)
  /-- The game of its room is found. -/
  | finds {c : ConnectionId} {session : Session} {id : GameId} :
      s.stages.get? c = some (.asked session) →
      (Games.resolve session.room s.store).1 = .ok id →
      ActionTurn source s (.advance c)
        ({ s with store := (Games.resolve session.room s.store).2 }.setStage c (.found session id))
  /-- Its room has no game. -/
  | misses {c : ConnectionId} {session : Session} : s.stages.get? c = some (.asked session) →
      ActionTurn source s (.advance c)
        ({ s with store := (Games.resolve session.room s.store).2 }.setStage c .ended)
  /-- Its player is registered. -/
  | registers {c : ConnectionId} {session : Session} {id : GameId} :
      s.stages.get? c = some (.found session id) →
      ActionTurn source s (.advance c)
        ({ s with store := (Games.register id session.player s.store).2 }.setStage c
          (.registered session))
  /-- Its session begins. -/
  | begins {c : ConnectionId} {session : Session} : s.stages.get? c = some (.registered session) →
      ActionTurn source s (.advance c)
        ({ s with intake := s.intake ++ [session.joining] }.setStage c (.begun session))
  /-- Its session goes on. -/
  | speaks {c : ConnectionId} {i : Incoming} {session : Session} :
      s.stages.get? c = some (.begun session) → (session.react i).2 = true →
      ActionTurn source s (.receive c i) { s with intake := s.intake ++ [(session.react i).1] }
  /-- Its session ends. -/
  | ends {c : ConnectionId} {i : Incoming} {session : Session} :
      s.stages.get? c = some (.begun session) → (session.react i).2 = false →
      ActionTurn source s (.receive c i)
        ({ s with intake := s.intake ++ [(session.react i).1] }.setStage c .ended)
  /-- The hub takes an event. -/
  | takes {e : Event} {intake : List Event} : s.intake = e :: intake →
      ActionTurn source s .takeEvent
        { s with
          hub := (s.hub.step source e).1
          intake
          reports := s.reports ++ reportsOf (s.hub.step source e).2 }
  /-- A report is booked. -/
  | books {report : Report} {reports : List Report} : s.reports = report :: reports →
      ActionTurn source s .takeReport
        { s with store := GameStore.ofGames.apply s.store report, reports }
  /-- A game is opened by hand. -/
  | opens {room : RoomId} : s.store.gameFor room = none →
      ActionTurn source s (.openGame room) { s with store := (s.store.openGame room).2 }

/-- **Every action does one of these things.** -/
theorem actionTurn (source : PuzzleSource) (s : Server Games) (a : Action) :
    ActionTurn source s a (act source s a) := by
  cases a with
  | accept target =>
    rw [act, accept]
    split
    · exact .asks rfl
    · exact .refuses
  | advance c =>
    rw [act, advance]
    split
    · next session hasked =>
      split
      · next id store hid =>
        obtain rfl : _ = store := congrArg Prod.snd hid
        exact .finds hasked (congrArg Prod.fst hid)
      · next e store hid =>
        obtain rfl : _ = store := congrArg Prod.snd hid
        exact .misses hasked
    · next session id hfound => exact .registers hfound
    · next session hreg => exact .begins hreg
    · exact .rests nofun
  | receive c i =>
    rw [act, receive]
    split
    · next session hbegun =>
      simp only
      split
      · next hgo => exact .speaks hbegun hgo
      · next hgo => exact .ends hbegun (Bool.eq_false_iff.2 hgo)
    · exact .rests nofun
  | takeEvent =>
    rw [act, takeEvent]
    split
    · exact .rests nofun
    · next e intake hi => exact .takes hi
  | takeReport =>
    rw [act, takeReport]
    split
    · exact .rests nofun
    · next report reports hr => exact .books hr
  | openGame room =>
    rw [act]
    split
    · exact .rests nofun
    · next hr => exact .opens (Option.not_isSome_iff_eq_none.1 hr)

/-- How the connection `c` comes to its stage by an action. -/
inductive StageTurn (s : Server Games) (c : ConnectionId) : Action → Stage → Prop where
  /-- Nothing happens to it. -/
  | stays {a : Action} {stage : Stage} : s.stages.get? c = some stage → StageTurn s c a stage
  /-- It arrives with a target that names room and player. -/
  | asks {target : String} {session : Session} : StageTurn s c (.accept target) (.asked session)
  /-- The game of its room is found. -/
  | finds {session : Session} {id : GameId} : s.stages.get? c = some (.asked session) →
      (Games.resolve session.room s.store).1 = .ok id →
      StageTurn s c (.advance c) (.found session id)
  /-- Its player is registered. -/
  | registers {session : Session} {id : GameId} : s.stages.get? c = some (.found session id) →
      StageTurn s c (.advance c) (.registered session)
  /-- Its session begins. -/
  | begins {session : Session} : s.stages.get? c = some (.registered session) →
      StageTurn s c (.advance c) (.begun session)
  /-- It ends. -/
  | ends {a : Action} : StageTurn s c a .ended

omit [Url.HostNames] in
theorem get?_setStage (s : Server Games) (c c' : ConnectionId) (stage : Stage) :
    (s.setStage c stage).stages.get? c' = if c' = c then some stage else s.stages.get? c' :=
  s.stages.get?_insert c c' stage

omit [Url.HostNames] in
theorem StageTurn.of_setStage {s' : Server Games} {c c' : ConnectionId} {stage stage' : Stage}
    (hs : s'.stages = s.stages) (hc : (s'.setStage c stage).stages.get? c' = some stage')
    (ht : StageTurn s c a stage) : StageTurn s c' a stage' := by
  rw [get?_setStage, hs] at hc
  split at hc
  · next heq =>
    obtain rfl := Option.some.inj hc
    exact heq ▸ ht
  · exact .stays hc

theorem stageTurn {c : ConnectionId} {stage : Stage}
    (hc : (act source s a).stages.get? c = some stage) : StageTurn s c a stage := by
  have hturn := actionTurn source s a
  generalize act source s a = s' at *
  cases hturn with
  | rests | speaks | takes | books | opens => exact .stays hc
  | asks => exact .of_setStage rfl hc .asks
  | finds hasked hid => exact .of_setStage rfl hc (.finds hasked hid)
  | registers hfound => exact .of_setStage rfl hc (.registers hfound)
  | begins hreg => exact .of_setStage rfl hc (.begins hreg)
  | refuses | misses | ends => exact .of_setStage rfl hc .ends

/-- What an action makes of the store. -/
inductive StoreTurn (s : Server Games) : Action → Games → Prop where
  /-- Nothing. -/
  | keeps {a : Action} : StoreTurn s a s.store
  /-- The game of a room is looked up. -/
  | resolves {c : ConnectionId} {session : Session} : s.stages.get? c = some (.asked session) →
      StoreTurn s (.advance c) (Games.resolve session.room s.store).2
  /-- A player is registered. -/
  | registers {c : ConnectionId} {session : Session} {id : GameId} :
      s.stages.get? c = some (.found session id) →
      StoreTurn s (.advance c) (Games.register id session.player s.store).2
  /-- A report is booked. -/
  | books {report : Report} {reports : List Report} : s.reports = report :: reports →
      StoreTurn s .takeReport (GameStore.ofGames.apply s.store report)
  /-- A game is opened by hand. -/
  | opens {room : RoomId} : s.store.gameFor room = none →
      StoreTurn s (.openGame room) (s.store.openGame room).2

theorem storeTurn (source : PuzzleSource) (s : Server Games) (a : Action) :
    StoreTurn s a (act source s a).store := by
  have hturn := actionTurn source s a
  generalize act source s a = s' at *
  cases hturn with
  | rests | asks | refuses | begins | speaks | ends | takes => exact .keeps
  | finds hasked | misses hasked => exact .resolves hasked
  | registers hfound => exact .registers hfound
  | books hr => exact .books hr
  | opens hr => exact .opens hr

omit [Url.HostNames] in
theorem react_ne_join (session : Session) (i : Incoming) (c : Client) :
    (session.react i).1 ≠ .join c := by
  cases i with
  | frame text =>
    rw [Session.react]
    split
    · unfold Session.reactTo
      split <;> nofun
    · nofun
  | closed => nofun
  | failed => nofun

/-- Whoever waits to join has waited before, or is registered and goes on. -/
theorem join_before {c : Client} (hc : .join c ∈ (act source s a).intake) :
    .join c ∈ s.intake ∨ ∃ k session, a = .advance k ∧
      s.stages.get? k = some (.registered session) ∧ c = session.client := by
  have hturn := actionTurn source s a
  generalize act source s a = s' at *
  cases hturn with
  | rests | asks | refuses | finds | misses | registers | books | opens => exact .inl hc
  | @begins k session hreg =>
    rcases List.mem_append.1 hc with hc | hc
    · exact .inl hc
    · exact .inr ⟨k, session, rfl, hreg, Event.join.inj (List.mem_singleton.1 hc)⟩
  | @speaks _ i session | @ends _ i session =>
    rcases List.mem_append.1 hc with hc | hc
    · exact .inl hc
    · exact absurd (List.mem_singleton.1 hc).symm (react_ne_join session i c)
  | @takes e _ hi => exact .inl (hi ▸ List.mem_cons_of_mem e hc)

/-- The hub and what it has reported stay as they are, except that reports are
    booked, unless the hub takes an event. -/
theorem act_hub (source : PuzzleSource) (s : Server Games) (a : Action) :
    ((act source s a).hub = s.hub ∧ ∀ x ∈ (act source s a).reports, x ∈ s.reports) ∨
      ∃ e intake, s.intake = e :: intake ∧ (act source s a).hub = (s.hub.step source e).1 ∧
        (act source s a).reports = s.reports ++ reportsOf (s.hub.step source e).2 := by
  have hturn := actionTurn source s a
  generalize act source s a = s' at *
  cases hturn with
  | @takes e intake hi => exact .inr ⟨e, intake, hi, rfl, rfl⟩
  | @books report _ hr => exact .inl ⟨rfl, fun x hx => hr ▸ List.mem_cons_of_mem report hx⟩
  | _ => exact .inl ⟨rfl, fun _ hx => hx⟩

end

/-! ## The history of a session -/

/-- In the course of actions a connection has found the game `id` for its session,
    and the reports `since` were booked after that. -/
inductive Found : List Action → Session → GameId → List Report → Prop where
  | now {acts : List Action} {c : ConnectionId} {session : Session} {id : GameId} :
      (after autoOpen source acts).stages.get? c = some (.asked session) →
      (Games.resolve session.room (after autoOpen source acts).store).1 = .ok id →
      Found (acts ++ [.advance c]) session id []
  | later {acts : List Action} {session : Session} {id : GameId} {since : List Report}
      (a : Action) : Found acts session id since →
      Found (acts ++ [a]) session id (since ++ (bookedBy (after autoOpen source acts) a).toList)

/-- In the course of actions a connection has entered the player of its session into
    the game `id`. -/
inductive Registered : List Action → Session → GameId → Prop where
  | now {acts : List Action} {c : ConnectionId} {session : Session} {id : GameId} :
      (after autoOpen source acts).stages.get? c = some (.found session id) →
      Registered (acts ++ [.advance c]) session id
  | later {acts : List Action} {session : Session} {id : GameId} (a : Action) :
      Registered acts session id → Registered (acts ++ [a]) session id

section
variable {autoOpen} {source} {acts : List Action}

theorem registered_concat {a : Action} {session : Session} {id : GameId} :
    Registered autoOpen source (acts ++ [a]) session id ↔
      Registered autoOpen source acts session id ∨ ∃ c, a = .advance c ∧
        (after autoOpen source acts).stages.get? c = some (.found session id) := by
  constructor
  · intro hreg
    generalize hacts : acts ++ [a] = all at hreg
    cases hreg with
    | now hc =>
      obtain ⟨rfl, ha⟩ := List.append_inj' hacts rfl
      exact .inr ⟨_, List.singleton_inj.1 ha, hc⟩
    | later a' hreg =>
      obtain ⟨rfl, -⟩ := List.append_inj' hacts rfl
      exact .inl hreg
  · rintro (hreg | ⟨c, rfl, hc⟩)
    · exact .later a hreg
    · exact .now hc

/-- A connection that has found a game goes on by registering its player there. -/
theorem registered_concat_of_found {c : ConnectionId} {session session' : Session}
    {id id' : GameId} (hc : (after autoOpen source acts).stages.get? c = some (.found session id)) :
    Registered autoOpen source (acts ++ [.advance c]) session' id' ↔
      Registered autoOpen source acts session' id' ∨ session' = session ∧ id' = id := by
  rw [registered_concat]
  refine or_congr_right ⟨?_, ?_⟩
  · rintro ⟨c', hc', hfound⟩
    obtain rfl := Action.advance.inj hc'
    rw [hc] at hfound
    obtain ⟨rfl, rfl⟩ := Stage.found.inj (Option.some.inj hfound)
    exact ⟨rfl, rfl⟩
  · rintro ⟨rfl, rfl⟩
    exact ⟨c, rfl, hc⟩

theorem found_concat {a : Action} {session : Session} {id : GameId} {since : List Report}
    (h : Found autoOpen source (acts ++ [a]) session id since) :
    (∃ c, a = .advance c ∧ (after autoOpen source acts).stages.get? c = some (.asked session) ∧
      (Games.resolve session.room (after autoOpen source acts).store).1 = .ok id) ∨
    ∃ since', since = since' ++ (bookedBy (after autoOpen source acts) a).toList ∧
      Found autoOpen source acts session id since' := by
  generalize hacts : acts ++ [a] = all at h
  cases h with
  | now hc hid =>
    obtain ⟨rfl, ha⟩ := List.append_inj' hacts rfl
    exact .inl ⟨_, List.singleton_inj.1 ha, hc, hid⟩
  | later a' h =>
    obtain ⟨rfl, ha⟩ := List.append_inj' hacts rfl
    obtain rfl := List.singleton_inj.1 ha
    exact .inr ⟨_, rfl, h⟩

/-- Nothing is found or booked while a player is registered. -/
theorem found_of_found_concat {c : ConnectionId} {session session' : Session} {id id' : GameId}
    {since : List Report}
    (hc : (after autoOpen source acts).stages.get? c = some (.found session id))
    (h : Found autoOpen source (acts ++ [.advance c]) session' id' since) :
    Found autoOpen source acts session' id' since := by
  rcases found_concat h with ⟨c', hc', hasked, -⟩ | ⟨since', rfl, h'⟩
  · obtain rfl := Action.advance.inj hc'
    rw [hc] at hasked
    cases hasked
  · show Found autoOpen source acts session' id' (since' ++ [])
    rw [List.append_nil]
    exact h'

/-! ## Who was registered -/

variable (autoOpen source) in
/-- A player came to a room on a connection on which it was registered. -/
def Came (acts : List Action) (room : RoomId) (p : PlayerId) : Prop :=
  ∃ session id, Registered autoOpen source acts session id ∧ session.room = room ∧
    session.player = p

variable (autoOpen source) in
/-- A client was made for a session whose player was registered. -/
def Enrolled (acts : List Action) (c : Client) : Prop :=
  ∃ session id, c = session.client ∧ Registered autoOpen source acts session id

theorem Came.later {room : RoomId} {p : PlayerId} (a : Action)
    (h : Came autoOpen source acts room p) : Came autoOpen source (acts ++ [a]) room p :=
  let ⟨session, id, hreg, hroom, hp⟩ := h
  ⟨session, id, hreg.later a, hroom, hp⟩

theorem Enrolled.later {c : Client} (a : Action) (h : Enrolled autoOpen source acts c) :
    Enrolled autoOpen source (acts ++ [a]) c :=
  let ⟨session, id, hc, hreg⟩ := h
  ⟨session, id, hc, hreg.later a⟩

theorem Enrolled.came {c : Client} (h : Enrolled autoOpen source acts c) :
    Came autoOpen source acts c.room c.player :=
  let ⟨session, id, hc, hreg⟩ := h
  ⟨session, id, hreg, hc ▸ rfl, hc ▸ rfl⟩

theorem Enrolled.fresh {c : Client} (h : Enrolled autoOpen source acts c) :
    (Event.join c).Fresh :=
  let ⟨session, _, hc, _⟩ := h
  ⟨session.player, session.connection, session.room, session.connection.queue, hc⟩

variable (autoOpen source acts) in
/-- After actions, all that the server holds on players can be traced back to
    their registration. -/
structure Traced : Prop where
  found : ∀ c session id,
    (after autoOpen source acts).stages.get? c = some (.found session id) →
      ∃ since, Found autoOpen source acts session id since
  registered : ∀ c session,
    (after autoOpen source acts).stages.get? c = some (.registered session) →
      ∃ id, Registered autoOpen source acts session id
  joins : ∀ c, .join c ∈ (after autoOpen source acts).intake → Enrolled autoOpen source acts c
  sound : (after autoOpen source acts).hub.Sound
  seated : ∀ room p c, (after autoOpen source acts).hub.seated? room p = some c →
    Enrolled autoOpen source acts c
  ended : ∀ room w l, .gameEnded room w l ∈ (after autoOpen source acts).reports →
    w ≠ l ∧ Came autoOpen source acts room w ∧ Came autoOpen source acts room l

theorem Traced.of_gameEnded {acts : List Action} (ht : Traced autoOpen source acts) {e : Event}
    {room : RoomId} {w l : PlayerId}
    (hx : .gameEnded room w l ∈ reportsOf ((after autoOpen source acts).hub.step source e).2) :
    w ≠ l ∧ Came autoOpen source acts room w ∧ Came autoOpen source acts room l := by
  have hturn := ht.sound.roomTurn_step source e room
  have hm : .gameEnded room w l ∈
      reportsOn room ((after autoOpen source acts).hub.step source e).2 :=
    List.mem_filter.2 ⟨hx, decide_eq_true rfl⟩
  obtain ⟨hne, hw, hl⟩ := hturn.seated_of_gameEnded hm
  have hcame : ∀ p, ((after autoOpen source acts).hub.seated? room p).isSome →
      Came autoOpen source acts room p := by
    intro p hp
    obtain ⟨c, hc⟩ := Option.isSome_iff_exists.1 hp
    obtain ⟨rfl, rfl, -⟩ := ht.sound.of_seated hc
    exact (ht.seated _ _ c hc).came
  exact ⟨hne, hcame w hw, hcame l hl⟩

theorem Traced.act (ht : Traced autoOpen source acts) (a : Action) :
    Traced autoOpen source (acts ++ [a]) := by
  have hafter := after_concat autoOpen source acts a
  have hhub := act_hub source (after autoOpen source acts) a
  rw [← hafter] at hhub
  have hevent : ∀ e intake, (after autoOpen source acts).intake = e :: intake → e.Fresh := by
    intro e intake hi
    cases e with
    | join c => exact (ht.joins c (hi ▸ List.mem_cons_self)).fresh
    | _ => trivial
  refine ⟨fun c session id hc => ?_, fun c session hc => ?_, fun c hc => ?_, ?_, ?_, ?_⟩
  · rw [hafter] at hc
    cases stageTurn hc with
    | stays hc =>
      obtain ⟨since, hf⟩ := ht.found c session id hc
      exact ⟨_, .later a hf⟩
    | finds hasked hid => exact ⟨[], .now hasked hid⟩
  · rw [hafter] at hc
    cases stageTurn hc with
    | stays hc =>
      obtain ⟨id, hreg⟩ := ht.registered c session hc
      exact ⟨id, .later a hreg⟩
    | @registers _ id hfound => exact ⟨id, .now hfound⟩
  · rw [hafter] at hc
    rcases join_before hc with hc | ⟨k, session, rfl, hreg, rfl⟩
    · exact (ht.joins c hc).later a
    · obtain ⟨id, hreg⟩ := ht.registered k session hreg
      exact ⟨session, id, rfl, .later _ hreg⟩
  · rcases hhub with ⟨hh, -⟩ | ⟨e, intake, hi, hh, -⟩
    · exact hh ▸ ht.sound
    · exact hh ▸ ht.sound.step source (hevent e intake hi)
  · intro room p c hc
    rcases hhub with ⟨hh, -⟩ | ⟨e, intake, hi, hh, -⟩
    · exact (ht.seated room p c (hh ▸ hc)).later a
    · rw [hh] at hc
      rcases (Hub.step_transition source _ e).seated_before ht.sound hc with hc | rfl
      · exact (ht.seated room p c hc).later a
      · exact (ht.joins c (hi ▸ List.mem_cons_self)).later a
  · intro room w l hx
    have hlater : w ≠ l ∧ Came autoOpen source acts room w ∧ Came autoOpen source acts room l := by
      rcases hhub with ⟨-, hr⟩ | ⟨e, intake, -, -, hr⟩
      · exact ht.ended room w l (hr _ hx)
      · rw [hr] at hx
        rcases List.mem_append.1 hx with hx | hx
        · exact ht.ended room w l hx
        · exact ht.of_gameEnded hx
    exact ⟨hlater.1, hlater.2.1.later a, hlater.2.2.later a⟩

/-- **In whatever order actions come**, all that the server holds on players can be
    traced back to their registration. -/
theorem traced (autoOpen : Bool) (source : PuzzleSource) (acts : List Action) :
    Traced autoOpen source acts := by
  induction acts using List.reverseRecOn with
  | nil =>
    refine ⟨?_, ?_, ?_, Hub.sound_empty, ?_, ?_⟩
    · exact fun _ _ _ h => nomatch h
    · exact fun _ _ h => nomatch h
    · exact fun _ h => nomatch h
    · exact fun _ _ _ h => nomatch h
    · exact fun _ _ _ h => nomatch h
  | append_singleton acts a ih => exact ih.act a

theorem Registered.found {session : Session} {id : GameId}
    (h : Registered autoOpen source acts session id) :
    ∃ since, Found autoOpen source acts session id since := by
  induction h with
  | @now acts c session id hc =>
    obtain ⟨since, hf⟩ := (traced autoOpen source acts).found c session id hc
    exact ⟨_, .later _ hf⟩
  | later a _ ih =>
    obtain ⟨since, hf⟩ := ih
    exact ⟨_, .later a hf⟩

end

end HectocDuel.Server
