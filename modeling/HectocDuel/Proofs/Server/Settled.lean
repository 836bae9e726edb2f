/-
  A server that is left nothing to do between two moves.

  A move is a connection with a target, something that arrives on a connection, or a game
  opened by hand.  The hub takes all events that follow from it, and all that it reports
  is booked, before the next move.

  * `Settles`: the hub has run over events, and what it reported is booked;
  * `MoveTurn` lists what a move does to the hub and the store;
  * `settled`: so the server is settled after every move.
-/
import HectocDuel.Proofs.Server.Run
import HectocDuel.Proofs.Store.Work

namespace HectocDuel

/-- Nobody joins by the events. -/
def Joinless (es : List Event) : Prop :=
  ∀ e ∈ es, ∀ c, e ≠ .join c

theorem Joinless.fresh {es : List Event} (hes : Joinless es) : ∀ e ∈ es, e.Fresh := fun e he => by
  cases e with
  | join c => exact absurd rfl (hes _ he c)
  | _ => trivial

/-- The records after all that a hub reports on events was booked. -/
def Hub.booksOf (h : Hub) (source : PuzzleSource) (es : List Event) (gs : Games) : Games :=
  (reportsOf (h.run source es).2).foldl GameStore.ofGames.apply gs

theorem Hub.booksOf_cons (h : Hub) (source : PuzzleSource) (e : Event) (es : List Event)
    (gs : Games) :
    h.booksOf source (e :: es) gs =
      (h.step source e).1.booksOf source es (h.booksOf source [e] gs) := by
  rw [booksOf, booksOf, booksOf, run_cons, run_cons, run_nil, reportsOf_append, List.foldl_append,
    List.append_nil]

namespace Games

/-- The records after a player was registered in the game that is found for a room. -/
def enroll (room : RoomId) (p : PlayerId) (gs : Games) : Games :=
  (gs.does (.resolve room)).does (.register (gs.current room) p)

variable {gs : Games}

theorem open_coherent_enroll (ha : gs.autoOpen) (hc : gs.Coherent) (room : RoomId) (p : PlayerId) :
    (gs.enroll room p).autoOpen ∧ (gs.enroll room p).Coherent := by
  have ha' := autoOpen_does ha hc (.resolve room)
  have hc' := coherent_does ha hc (.resolve room)
  exact ⟨autoOpen_does ha' hc' _, coherent_does ha' hc' _⟩

theorem autoOpen_foldl_apply (ha : gs.autoOpen) (hc : gs.Coherent) (reports : List Report) :
    (reports.foldl GameStore.ofGames.apply gs).autoOpen := by
  induction reports generalizing gs with
  | nil => exact ha
  | cons x reports ih => exact ih (autoOpen_apply ha hc x) (apply_grows hc x).coherent

theorem grows_foldl_apply (hc : gs.Coherent) (reports : List Report) :
    Grows (fun _ => True) gs (reports.foldl GameStore.ofGames.apply gs) := by
  induction reports generalizing gs with
  | nil => exact .refl hc
  | cons x reports ih =>
    have hx := (apply_grows hc x).mono fun _ _ => trivial
    exact hx.trans (ih hx.coherent)

end Games

namespace Server

open Games

/-! ## Moves -/

/-- Something that happens to a server. -/
inductive Move where
  /-- A connection with a target arrives. -/
  | connect (target : String)
  /-- Something arrives on a connection. -/
  | deliver (c : ConnectionId) (i : Incoming)
  /-- A game is opened in a room, whatever game is open there. -/
  | openGame (room : RoomId)

variable (source : PuzzleSource)

/-- The server after a move and all that follows from it. -/
def move [Url.HostNames] (s : Server Games) : Move → Server Games
  | .connect target => (s.connect .ofGames source target).2.1
  | .deliver c i => (s.deliver .ofGames source c i).1
  | .openGame room => { s with store := (s.store.openGame room).2 }

/-- The server after moves, from the start, where games open as they are asked for. -/
def afterMoves [Url.HostNames] (ms : List Move) : Server Games :=
  ms.foldl (move source) { store := { autoOpen := true } }

theorem afterMoves_concat [Url.HostNames] (ms : List Move) (m : Move) :
    afterMoves source (ms ++ [m]) = move source (afterMoves source ms) m :=
  List.foldl_concat ..

/-! ## Settling -/

/-- The server `s'` is `s` after the events `es` were heard, none of them a join. -/
structure Hears (s s' : Server Games) (es : List Event) : Prop where
  store : s'.store = s.store
  hub : s'.hub = s.hub
  reports : s'.reports = s.reports
  intake : s'.intake = s.intake ++ es
  joinless : Joinless es

/-- The server `s'` is `s` after the hub took the events `es` and all that it reported
    was booked, and nothing is left to do. -/
structure Settles (s s' : Server Games) (es : List Event) : Prop where
  hub : s'.hub = (s.hub.run source es).1
  store : s'.store = s.hub.booksOf source es s.store
  intake : s'.intake = []
  reports : s'.reports = []

section
variable {source} {s : Server Games}

theorem hears_refl (s : Server Games) : Hears s s [] :=
  ⟨rfl, rfl, rfl, (List.append_nil _).symm, fun _ he => nomatch he⟩

theorem Hears.trans {s' s'' : Server Games} {es es' : List Event} (h : Hears s s' es)
    (h' : Hears s' s'' es') : Hears s s'' (es ++ es') where
  store := h'.store.trans h.store
  hub := h'.hub.trans h.hub
  reports := h'.reports.trans h.reports
  intake := by rw [h'.intake, h.intake, List.append_assoc]
  joinless := fun e he => (List.mem_append.1 he).elim (h.joinless e) (h'.joinless e)

/-- A connection says at most one thing at a time, and does not join. -/
theorem receive_hears (s : Server Games) (c : ConnectionId) (i : Incoming) :
    ∃ es, Hears s (s.receive c i) es := by
  rw [receive]
  split
  · next session _ =>
    have hjoinless : Joinless [(session.react i).1] := fun e he =>
      List.mem_singleton.1 he ▸ react_ne_join session i
    refine ⟨[(session.react i).1], ?_⟩
    simp only
    split <;> exact ⟨rfl, rfl, rfl, rfl, hjoinless⟩
  · exact ⟨[], hears_refl s⟩

theorem foldl_hears (s : Server Games) (cs : List ConnectionId) (i : Incoming) :
    ∃ es, Hears s (cs.foldl (receive · · i) s) es := by
  induction cs generalizing s with
  | nil => exact ⟨[], hears_refl s⟩
  | cons c cs ih =>
    obtain ⟨es, hes⟩ := receive_hears s c i
    obtain ⟨es', hes'⟩ := ih (s.receive c i)
    exact ⟨es ++ es', hes.trans hes'⟩

/-- The server settles over the events that wait, and over those of connections that are
    closed then. -/
theorem settle_settles (source : PuzzleSource) (hr : s.reports = []) :
    ∃ later, Joinless later ∧ (closedBy (s.hub.run source s.intake).2 = [] → later = []) ∧
      Settles source s (s.settle .ofGames source).1 (s.intake ++ later) := by
  let s₁ := (s.takeEvents source).1
  let effects := (s.hub.run source s.intake).2
  have hs₁ : s₁.reports = reportsOf effects := by
    change s.reports ++ _ = _
    rw [hr, List.nil_append]
  let cs := s₁.stages.keys.filter (·.queue ∈ closedBy effects)
  obtain ⟨later, hlater⟩ := foldl_hears s₁ cs .closed
  have hintake : (s₁.hangUp effects).intake = later := hlater.intake
  refine ⟨later, hlater.joinless, fun hnone => ?_, ?_⟩
  · -- Where no queue is closed nobody hangs up.
    have hcs : cs = [] := List.filter_eq_nil_iff.2 fun c _ => by
      rw [show closedBy effects = [] from hnone]
      exact of_decide_eq_false rfl
    rw [← hintake, hangUp]
    change (cs.foldl _ s₁).intake = []
    rw [hcs]
    rfl
  · have hhub : (s₁.hangUp effects).hub = (s.hub.run source s.intake).1 := hlater.hub
    have hreports : (s₁.hangUp effects).reports = reportsOf effects := hlater.reports.trans hs₁
    have hstore : (s₁.hangUp effects).store = s.store := hlater.store
    refine ⟨?_, ?_, rfl, rfl⟩
    · change ((s₁.hangUp effects).hub.run source (s₁.hangUp effects).intake).1 = _
      rw [hhub, hintake, Hub.run_append]
    · change ((s₁.hangUp effects).reports ++
          reportsOf ((s₁.hangUp effects).hub.run source (s₁.hangUp effects).intake).2).foldl
        GameStore.ofGames.apply (s₁.hangUp effects).store = _
      rw [hhub, hintake, hreports, hstore, Hub.booksOf, Hub.run_append, reportsOf_append]

end

/-! ## What a move does -/

variable [Url.HostNames]

/-- What a move makes of hub and store. -/
inductive MoveTurn (s : Server Games) : Move → Hub → Games → Prop where
  /-- The target of a connection names no room or no player. -/
  | refused {target : String} {e : TargetError} : parseTarget target = .error e →
      MoveTurn s (.connect target) s.hub s.store
  /-- A player is registered and joins; who is closed by it leaves. -/
  | joins {target : String} {c : Client} {later : List Event} :
      parseTarget target = .ok (c.room, c.player) → (Event.join c).Fresh → Joinless later →
      (closedBy (s.hub.step source (.join c)).2 = [] → later = []) →
      MoveTurn s (.connect target) (s.hub.run source (.join c :: later)).1
        (s.hub.booksOf source (.join c :: later) (s.store.enroll c.room c.player))
  /-- Something is heard of a connection. -/
  | hears {c : ConnectionId} {i : Incoming} {es : List Event} : Joinless es →
      MoveTurn s (.deliver c i) (s.hub.run source es).1 (s.hub.booksOf source es s.store)
  /-- A game is opened by hand. -/
  | opens {room : RoomId} : MoveTurn s (.openGame room) s.hub (s.store.openGame room).2

/-- Nothing is left to do, and new games open as they are asked for. -/
structure Settled (s : Server Games) : Prop where
  intake : s.intake = []
  reports : s.reports = []
  hub : s.hub.Sound
  autoOpen : s.store.autoOpen
  coherent : s.store.Coherent

section
variable {source} {s : Server Games}

theorem connect_of_error (source : PuzzleSource) {target : String} {e : TargetError}
    (ht : parseTarget target = .error e) :
    ∃ s₁ : Server Games, (s.connect .ofGames source target).2.1 = (s₁.settle .ofGames source).1 ∧
      s₁.hub = s.hub ∧ s₁.store = s.store ∧ s₁.intake = s.intake ∧ s₁.reports = s.reports := by
  let c : ConnectionId := ⟨s.accepted + 1⟩
  let s₁ := { s with accepted := s.accepted + 1 }.setStage c .ended
  have hstays : s₁.advance .ofGames c = (s₁, []) := by
    rw [advance, get?_setStage, if_pos rfl]
  refine ⟨s₁, ?_, rfl, rfl, rfl, rfl⟩
  rw [connect, accept, ht]
  change (((((s₁.advance .ofGames c).1).advance .ofGames c).1.advance .ofGames c).1.settle
    .ofGames source).1 = _
  rw [hstays, hstays, hstays]

/-- A connection that asks for a room has its player registered there, and joins. -/
theorem connect_of_target (source : PuzzleSource) (ha : s.store.autoOpen) {target : String}
    {room : RoomId} {p : PlayerId} (ht : parseTarget target = .ok (room, p)) :
    ∃ (s₁ : Server Games) (c : Client),
      (s.connect .ofGames source target).2.1 = (s₁.settle .ofGames source).1 ∧
      c.room = room ∧ c.player = p ∧ (Event.join c).Fresh ∧ s₁.hub = s.hub ∧
      s₁.store = s.store.enroll room p ∧ s₁.intake = s.intake ++ [.join c] ∧
      s₁.reports = s.reports := by
  let k : ConnectionId := ⟨s.accepted + 1⟩
  let session : Session := ⟨room, p, k⟩
  let id := s.store.current room
  -- The connection goes on step by step: it asks, finds its game, is registered, and begins.
  let asked := { s with accepted := s.accepted + 1 }.setStage k (.asked session)
  let found := { asked with store := s.store.withCurrent room }.setStage k (.found session id)
  let registered := { found with store := s.store.enroll room p }.setStage k (.registered session)
  let begun :=
    { registered with intake := s.intake ++ [session.joining] }.setStage k (.begun session)
  have hfound : asked.advance .ofGames k = (found, []) := by
    have hresolve : GameStore.ofGames.resolve session.room asked.store = _ :=
      Games.resolve_of_open ha room
    rw [advance, get?_setStage, if_pos rfl]
    simp only [hresolve]
    rfl
  have hregistered : found.advance .ofGames k = (registered, []) := by
    have henroll : GameStore.perform (GameStore.ofGames.register id session.player) found.store =
        s.store.enroll room p := by
      rw [Games.enroll, Games.does, Games.does, Games.resolve_snd ha]
      rfl
    rw [advance, get?_setStage, if_pos rfl]
    simp only [henroll]
    rfl
  have hbegun : registered.advance .ofGames k = (begun, []) := by
    rw [advance, get?_setStage, if_pos rfl]
    rfl
  refine ⟨begun, session.client, ?_, rfl, rfl, ⟨_, _, _, _, rfl⟩, rfl, rfl, rfl, rfl⟩
  rw [connect, accept, ht]
  change ((((asked.advance .ofGames k).1.advance .ofGames k).1.advance .ofGames k).1.settle
    .ofGames source).1 = _
  rw [hfound, hregistered, hbegun]

/-- **Every move does one of these things**, and settles. -/
theorem Settled.moveTurn (hs : s.Settled) (source : PuzzleSource) (m : Move) :
    MoveTurn source s m (move source s m).hub (move source s m).store ∧
      (move source s m).intake = [] ∧ (move source s m).reports = [] := by
  cases m with
  | connect target =>
    rw [move]
    rcases ht : parseTarget target with e | ⟨room, p⟩
    · obtain ⟨s₁, heq, hhub, hstore, hintake, hreports⟩ :=
        connect_of_error (s := s) source ht
      obtain ⟨later, -, hlater, hsettles⟩ := settle_settles source (hreports.trans hs.reports)
      rw [hintake, hs.intake] at hlater hsettles
      obtain rfl := hlater rfl
      rw [heq]
      refine ⟨?_, hsettles.intake, hsettles.reports⟩
      rw [hsettles.hub, hsettles.store, hhub, hstore]
      exact .refused ht
    · obtain ⟨s₁, c, heq, rfl, rfl, hfresh, hhub, hstore, hintake, hreports⟩ :=
        connect_of_target source hs.autoOpen ht
      obtain ⟨later, hjoinless, hlater, hsettles⟩ :=
        settle_settles source (hreports.trans hs.reports)
      rw [hintake, hs.intake] at hlater hsettles
      rw [heq]
      refine ⟨?_, hsettles.intake, hsettles.reports⟩
      rw [hsettles.hub, hsettles.store, hhub, hstore]
      refine .joins ht hfresh hjoinless fun hnone => hlater ?_
      rwa [hhub, List.nil_append, Hub.run_cons, Hub.run_nil, List.append_nil]
  | deliver c i =>
    rw [move, deliver]
    obtain ⟨es, hes⟩ := receive_hears s c i
    obtain ⟨later, hjoinless, -, hsettles⟩ := settle_settles source (hes.reports.trans hs.reports)
    rw [hes.intake, hs.intake, List.nil_append] at hsettles
    refine ⟨?_, hsettles.intake, hsettles.reports⟩
    rw [hsettles.hub, hsettles.store, hes.hub, hes.store]
    exact .hears fun e he => (List.mem_append.1 he).elim (hes.joinless e) (hjoinless e)
  | openGame room => exact ⟨.opens, hs.intake, hs.reports⟩

theorem Settled.step (hs : s.Settled) (source : PuzzleSource) (m : Move) :
    (move source s m).Settled := by
  obtain ⟨hturn, hintake, hreports⟩ := hs.moveTurn source m
  generalize move source s m = s' at *
  obtain ⟨store, hub, accepted, stages, intake, reports⟩ := s'
  suffices hkept : hub.Sound ∧ store.autoOpen ∧ store.Coherent from
    ⟨hintake, hreports, hkept.1, hkept.2.1, hkept.2.2⟩
  have hbooks : ∀ {gs : Games}, gs.autoOpen ∧ gs.Coherent → ∀ es,
      (s.hub.booksOf source es gs).autoOpen ∧ (s.hub.booksOf source es gs).Coherent :=
    fun hgs _ => ⟨autoOpen_foldl_apply hgs.1 hgs.2 _, (grows_foldl_apply hgs.2 _).coherent⟩
  cases hturn with
  | refused => exact ⟨hs.hub, hs.autoOpen, hs.coherent⟩
  | @joins _ c later _ hfresh hjoinless =>
    have hes : ∀ e ∈ Event.join c :: later, e.Fresh :=
      List.forall_mem_cons.2 ⟨hfresh, hjoinless.fresh⟩
    exact ⟨hs.hub.run source hes,
      hbooks (open_coherent_enroll hs.autoOpen hs.coherent c.room c.player) _⟩
  | hears hjoinless =>
    exact ⟨hs.hub.run source hjoinless.fresh, hbooks ⟨hs.autoOpen, hs.coherent⟩ _⟩
  | opens => exact ⟨hs.hub, hs.autoOpen, (grows_reopen hs.coherent _).coherent⟩

variable (source) in
/-- **The server is settled after every move.** -/
theorem settled (ms : List Move) : (afterMoves source ms).Settled := by
  induction ms using List.reverseRecOn with
  | nil => exact ⟨rfl, rfl, Hub.sound_empty, rfl, coherent_empty true⟩
  | append_singleton ms m ih =>
    rw [afterMoves_concat]
    exact ih.step source m

end

end Server

end HectocDuel
