/-
  Hub and store agree when the server is settled.

  The hub seats players and drops rooms without looking at the store, and the store opens
  and closes games as it is told.  They are led along by what is reported and by the
  players who are registered on their way in.

  * `Settlement` lists what becomes of a room and of its game by events that no client
    joins by; it can be put together, so that it holds of whole runs;
  * `AgreesOn`: a room is open iff it has a game, which lists its players and has its
    puzzle;
  * `settled_agree`: so it is after every move.
-/
import HectocDuel.Proofs.Server.Settled

namespace HectocDuel

/-! ## The game of a room -/

namespace Games

/-- From `gs` to `gs'` a room keeps its game, with its players and its puzzle. -/
structure Keeps (gs gs' : Games) (room : RoomId) : Prop where
  gameFor : gs'.gameFor room = gs.gameFor room
  game : ∀ id r, gs.gameFor room = some id → gs.game id = some r →
    ∃ r', gs'.game id = some r' ∧ r'.players = r.players ∧ r'.puzzle = r.puzzle

section
variable {gs gs' gs'' : Games} {room : RoomId}

theorem Keeps.refl (gs : Games) (room : RoomId) : gs.Keeps gs room :=
  ⟨rfl, fun _ r _ hg => ⟨r, hg, rfl, rfl⟩⟩

theorem Keeps.trans (h : gs.Keeps gs' room) (h' : gs'.Keeps gs'' room) : gs.Keeps gs'' room := by
  refine ⟨h'.gameFor.trans h.gameFor, fun id r hr hg => ?_⟩
  obtain ⟨r', hg', hp, hz⟩ := h.game id r hr hg
  obtain ⟨r'', hg'', hp', hz'⟩ := h'.game id r' (h.gameFor.trans hr) hg'
  exact ⟨r'', hg'', hp'.trans hp, hz'.trans hz⟩

/-- A room keeps its game when nothing is reported on it. -/
theorem keeps_foldl_apply (ha : gs.autoOpen) (hc : gs.Coherent) {reports : List Report}
    (hne : ∀ x ∈ reports, x.room ≠ room) :
    gs.Keeps (reports.foldl GameStore.ofGames.apply gs) room := by
  induction reports generalizing gs with
  | nil => exact .refl gs room
  | cons x reports ih =>
    obtain ⟨hx, hne⟩ := List.forall_mem_cons.1 hne
    have hone : gs.Keeps (GameStore.ofGames.apply gs x) room := by
      refine ⟨gameFor_apply_of_ne ha hc hx, fun id r hr hg => ⟨r, ?_, rfl, rfl⟩⟩
      rw [game_apply ha hc, if_neg fun h => current_ne_of_gameFor hc hr hx h.2.symm, hg]
    exact hone.trans (ih (autoOpen_apply ha hc x) (apply_grows hc x).coherent hne)

theorem keeps_submission (ha : gs.autoOpen) (hc : gs.Coherent)
    (hopen : (gs.gameFor room).isSome) (s : Submission) :
    gs.Keeps (GameStore.ofGames.apply gs (.submission room s)) room := by
  obtain ⟨id, hr⟩ := Option.isSome_iff_exists.1 hopen
  have hcur := current_of_gameFor hr
  refine ⟨?_, fun id' r hr' hg => ?_⟩
  · exact (gameFor_apply_own ha hc rfl).trans ((congrArg some hcur).trans hr.symm)
  · obtain rfl := Option.some.inj (hr.symm.trans hr')
    refine ⟨gs.entered id r (.submission room s), ?_, rfl, rfl⟩
    rw [game_apply ha hc, if_pos ⟨rfl, hcur.symm⟩, hg, Option.getD_some]

theorem gameFor_enroll (ha : gs.autoOpen) (room other : RoomId) (p : PlayerId) :
    (gs.enroll room p).gameFor other =
      if other = room then some (gs.current room) else gs.gameFor other :=
  (gameFor_does_register _ p other).trans (gameFor_does_resolve ha room other)

theorem current_enroll (ha : gs.autoOpen) (room : RoomId) (p : PlayerId) :
    (gs.enroll room p).current room = gs.current room :=
  current_of_gameFor ((gameFor_enroll ha room room p).trans (if_pos rfl))

theorem game_enroll (ha : gs.autoOpen) (hc : gs.Coherent) (room : RoomId) (p : PlayerId) :
    ∃ r, (gs.enroll room p).game (gs.current room) = some r ∧ p ∈ r.players ∧
      ∀ r₀, gs.game (gs.current room) = some r₀ →
        (∀ q ∈ r₀.players, q ∈ r.players) ∧ r.puzzle = r₀.puzzle := by
  let r₁ := (gs.game (gs.current room)).getD { room }
  have hfound : (gs.withCurrent room).game (gs.current room) = some r₁ := by
    rw [game_withCurrent hc, if_pos rfl]
  refine ⟨if p ∈ r₁.players then r₁ else { r₁ with players := r₁.players ++ [p] }, ?_, ?_,
    fun r₀ hg => ?_⟩
  · rw [enroll, does, does, resolve_snd ha, register, game_change, if_pos rfl, hfound]
    rfl
  · split
    · assumption
    · exact List.mem_append_right _ List.mem_cons_self
  · obtain rfl : r₁ = r₀ := by rw [← Option.getD_some (a := r₀), ← hg]
    split
    · exact ⟨fun _ hq => hq, rfl⟩
    · exact ⟨fun _ hq => List.mem_append_left _ hq, rfl⟩

theorem keeps_enroll (ha : gs.autoOpen) (hc : gs.Coherent) {other : RoomId} (hne : other ≠ room)
    (p : PlayerId) : gs.Keeps (gs.enroll other p) room := by
  refine ⟨by rw [gameFor_enroll ha, if_neg hne.symm], fun id r hr hg => ⟨r, ?_, rfl, rfl⟩⟩
  have hid := current_ne_of_gameFor hc hr hne
  rw [enroll, does, does, resolve_snd ha, register, game_change, if_neg hid.symm,
    game_withCurrent hc, if_neg hid.symm, hg]

end

end Games

/-! ## What becomes of a room and its game -/

/-- What becomes of a room by events that no client joins by, while the records `gs`
    become `gs'`. -/
inductive Settlement (gs gs' : Games) (room : RoomId) : Option Room → Option Room → Prop where
  /-- It is dropped, and its game is closed. -/
  | gone {r : Room} : gs'.gameFor room = none → Settlement gs gs' room (some r) none
  /-- It stays, with its game. -/
  | kept {o : Option Room} : gs.Keeps gs' room → Settlement gs gs' room o o
  /-- Somebody leaves, and it has no puzzle any more. -/
  | left {r₀ r : Room} : gs.Keeps gs' room → r.puzzle = none →
      (∀ p, r.contains p → r₀.contains p) → Settlement gs gs' room (some r₀) (some r)

section
variable {gs gs' gs'' : Games} {room : RoomId} {o o' o'' : Option Room}

theorem Settlement.trans (h : Settlement gs gs' room o o') (h' : Settlement gs' gs'' room o' o'') :
    Settlement gs gs'' room o o'' := by
  cases h with
  | gone hn =>
    cases h' with
    | kept hk => exact .gone (hk.gameFor.trans hn)
  | kept hk =>
    cases h' with
    | gone hn => exact .gone hn
    | kept hk' => exact .kept (hk.trans hk')
    | left hk' hz hp => exact .left (hk.trans hk') hz hp
  | left hk hz hp =>
    cases h' with
    | gone hn => exact .gone hn
    | kept hk' => exact .left (hk.trans hk') hz hp
    | left hk' hz' hp' => exact .left (hk.trans hk') hz' fun p h => hp p (hp' p h)

theorem Settlement.mapped (h : Settlement gs gs' room o o')
    (hm : o.isSome → (gs.gameFor room).isSome) : o'.isSome → (gs'.gameFor room).isSome := by
  cases h with
  | gone => exact fun h => nomatch h
  | kept hk => exact fun h => hk.gameFor ▸ hm h
  | left hk => exact fun _ => hk.gameFor ▸ hm rfl

end

namespace Hub

variable {source : PuzzleSource} {h : Hub} {gs : Games} {room : RoomId}

theorem booksOf_singleton (h : Hub) (source : PuzzleSource) (e : Event) (gs : Games) :
    h.booksOf source [e] gs =
      (reportsOf (h.step source e).2).foldl GameStore.ofGames.apply gs := by
  rw [booksOf, run_cons, run_nil, List.append_nil]

/-- An event about another room is settled without a room and its game. -/
theorem Sound.keeps_elsewhere (hs : h.Sound) (ha : gs.autoOpen) (hc : gs.Coherent) {e : Event}
    (hroom : e.room? ≠ some room) : gs.Keeps (h.booksOf source [e] gs) room := by
  rw [booksOf_singleton]
  refine Games.keeps_foldl_apply ha hc fun x hx heq => hroom ?_
  rw [← heq, hs.room_of_report (step_transition source h e) hx]

theorem Sound.settlement_step (hs : h.Sound) (source : PuzzleSource) (ha : gs.autoOpen)
    (hc : gs.Coherent) (hm : (h.rooms.get? room).isSome → (gs.gameFor room).isSome) {e : Event}
    (he : ∀ c, e ≠ .join c) :
    Settlement gs (h.booksOf source [e] gs) room (h.rooms.get? room)
      ((h.step source e).1.rooms.get? room) := by
  have ht := step_transition source h e
  by_cases hroom : e.room? = some room
  · have hturn := hs.roomTurn ht room
    have hseats : ∀ r₀ r, h.rooms.get? room = some r₀ →
        (h.step source e).1.rooms.get? room = some r → ∀ p, r.contains p → r₀.contains p := by
      intro r₀ r hr₀ hr p hp
      obtain ⟨c, hcp⟩ := Option.isSome_iff_exists.1 hp
      rw [← seated?_of_get? hr] at hcp
      rcases ht.seated_before hs hcp with hcp | heq
      · rw [seated?_of_get? hr₀] at hcp
        exact Option.isSome_iff_exists.2 ⟨c, hcp⟩
      · exact absurd heq (he c)
    rw [hs.reportsOn_eq ht hroom] at hturn
    rw [booksOf_singleton]
    generalize (h.step source e).1.rooms.get? room = o at hturn hseats ⊢
    generalize reportsOf (h.step source e).2 = reports at hturn ⊢
    cases hturn with
    | idle => exact .kept (.refl gs room)
    | opened | started => exact absurd rfl (he _)
    | emptied hr =>
      have hup : (Report.roomEmpty room).givesUp room := decide_eq_true rfl
      rw [hr]
      exact .gone (Games.gameFor_apply_of_givesUp ha hc hup)
    | abandoned hr hz =>
      rw [hr]
      exact .left (.refl gs room) hz (hseats _ _ hr rfl)
    | wrong hr =>
      rw [hr]
      exact .kept (Games.keeps_submission ha hc (hm (hr ▸ rfl)) _)
    | @solved p _ _ _ _ d _ hr =>
      have hup : (Report.gameEnded room p d.player).givesUp room := decide_eq_true rfl
      rw [hr]
      exact .gone (Games.gameFor_apply_of_givesUp (Games.autoOpen_apply ha hc _)
        (Games.apply_grows hc _).coherent hup)
  · rw [hs.elsewhere ht hroom]
    exact .kept (hs.keeps_elsewhere ha hc hroom)

/-- **Every run without joins is settled so.** -/
theorem Sound.settlement (hs : h.Sound) (ha : gs.autoOpen) (hc : gs.Coherent)
    (hm : (h.rooms.get? room).isSome → (gs.gameFor room).isSome) {es : List Event}
    (hes : Joinless es) :
    Settlement gs (h.booksOf source es gs) room (h.rooms.get? room)
      ((h.run source es).1.rooms.get? room) := by
  induction es generalizing h gs with
  | nil => exact .kept (.refl gs room)
  | cons e es ih =>
    have hfresh := hes.fresh
    obtain ⟨he, hes⟩ := List.forall_mem_cons.1 hes
    have hstep := hs.settlement_step source ha hc hm he
    have hs' := hs.step source (hfresh e List.mem_cons_self)
    have ha' : (h.booksOf source [e] gs).autoOpen := Games.autoOpen_foldl_apply ha hc _
    have hc' : (h.booksOf source [e] gs).Coherent := (Games.grows_foldl_apply hc _).coherent
    rw [booksOf_cons, run_cons]
    exact hstep.trans (ih hs' ha' hc' (hstep.mapped hm) hes)

end Hub

/-! ## Agreement -/

/-- Hub and store agree on a room. -/
inductive AgreesOn (gs : Games) (room : RoomId) : Option Room → Prop where
  /-- It is not there and has no game. -/
  | absent : gs.gameFor room = none → AgreesOn gs room none
  /-- It has a game that lists its players and has its puzzle, if it has one. -/
  | present {r : Room} {id : GameId} {record : GameRecord} : gs.gameFor room = some id →
      gs.game id = some record → (∀ p, r.contains p → p ∈ record.players) →
      (r.puzzle.isSome → record.puzzle = r.puzzle) → AgreesOn gs room (some r)

section
variable {gs gs' : Games} {room : RoomId} {o o' : Option Room}

theorem AgreesOn.mapped (h : AgreesOn gs room o) : o.isSome ↔ (gs.gameFor room).isSome := by
  cases h with
  | absent hn => simp [hn]
  | present hr => simp [hr]

theorem AgreesOn.keeps (h : AgreesOn gs room o) (hk : gs.Keeps gs' room) :
    AgreesOn gs' room o := by
  cases h with
  | absent hn => exact .absent (hk.gameFor.trans hn)
  | present hr hg hp hz =>
    obtain ⟨record, hg', hp', hz'⟩ := hk.game _ _ hr hg
    exact .present (hk.gameFor.trans hr) hg' (fun p h => hp' ▸ hp p h) fun h => hz'.trans (hz h)

/-- Whoever is enrolled is listed in the game of the room, with all who are seated there. -/
theorem AgreesOn.enroll (h : AgreesOn gs room o) (ha : gs.autoOpen) (hc : gs.Coherent)
    (p : PlayerId) :
    ∃ record, (gs.enroll room p).game (gs.current room) = some record ∧ p ∈ record.players ∧
      ∀ r, o = some r → (∀ q, r.contains q → q ∈ record.players) ∧
        (r.puzzle.isSome → record.puzzle = r.puzzle) := by
  obtain ⟨record, hg, hp, hbefore⟩ := Games.game_enroll ha hc room p
  refine ⟨record, hg, hp, fun r hr => ?_⟩
  cases h with
  | absent => cases hr
  | present hopen hg₀ hlisted hstored =>
    obtain rfl := Option.some.inj hr
    obtain ⟨hkept, hz⟩ := hbefore _ (Games.current_of_gameFor hopen ▸ hg₀)
    exact ⟨fun q hq => hkept q (hlisted q hq), fun h => hz.trans (hstored h)⟩

theorem AgreesOn.settlement (h : AgreesOn gs room o) (hs : Settlement gs gs' room o o') :
    AgreesOn gs' room o' := by
  cases hs with
  | gone hn => exact .absent hn
  | kept hk => exact h.keeps hk
  | left hk hz hp =>
    cases h with
    | present hr hg hlisted =>
      obtain ⟨record, hg', hp', -⟩ := hk.game _ _ hr hg
      refine .present (hk.gameFor.trans hr) hg' (fun p h => hp' ▸ hlisted p (hp p h)) fun h => ?_
      rw [hz] at h
      cases h

end

namespace Hub

variable {source : PuzzleSource} {h : Hub} {gs : Games} {room : RoomId} {c : Client}

/-- The game in which a player is enrolled is open when the player has joined. -/
theorem Sound.gameFor_join (hs : h.Sound) (source : PuzzleSource) (ha : gs.autoOpen)
    (hc : gs.Coherent) (c : Client) :
    (h.booksOf source [.join c] (gs.enroll c.room c.player)).gameFor c.room =
      some (gs.current c.room) := by
  have hopen := (Games.gameFor_enroll ha c.room c.room c.player).trans (if_pos rfl)
  obtain ⟨ha', hc'⟩ := Games.open_coherent_enroll ha hc c.room c.player
  have hturn := hs.roomTurn_join (step_transition source h (.join c))
  rw [booksOf_singleton]
  generalize (h.step source (.join c)).1.rooms.get? c.room = o at hturn
  generalize reportsOf (h.step source (.join c)).2 = reports at hturn ⊢
  cases hturn with
  | idle | opened => exact hopen
  | @started _ _ _ z =>
    have hown := (Games.gameFor_apply ha' hc' (.puzzleCreated c.room z) c.room).trans
      ((if_neg Bool.false_ne_true).trans (if_pos rfl))
    exact hown.trans (congrArg some (Games.current_enroll ha c.room c.player))

/-- Hub and store agree on a room when a client has joined who was enrolled before. -/
theorem Sound.agreesOn_join (hs : h.Sound) (source : PuzzleSource) (ha : gs.autoOpen)
    (hc : gs.Coherent) (hagree : AgreesOn gs room (h.rooms.get? room)) (c : Client) :
    AgreesOn (h.booksOf source [.join c] (gs.enroll c.room c.player)) room
      ((h.step source (.join c)).1.rooms.get? room) := by
  have ht := step_transition source h (.join c)
  obtain ⟨ha', hc'⟩ := Games.open_coherent_enroll ha hc c.room c.player
  by_cases hroom : c.room = room
  · subst hroom
    have hopen := hs.gameFor_join source ha hc c
    obtain ⟨record, hg, hp, hbefore⟩ := hagree.enroll ha hc c.player
    rw [booksOf_singleton] at hopen ⊢
    generalize (h.step source (.join c)).1 = h' at *
    generalize (h.step source (.join c)).2 = effects at *
    have hseat : ∀ {r : Room} (hf : ¬ r.isFull), (∀ p, r.contains p → p ∈ record.players) →
        ∀ p, (r.seat c hf).contains p → p ∈ record.players := fun hf hr p h =>
      ((Room.contains_seat hf p).1 h).elim (fun heq => heq ▸ hp) (hr p)
    cases ht with
    | opened hr =>
      have hget := (get?_setRoom h (({ id := c.room } : Room).seat c (Room.not_isFull_new _))
        c.room).trans (if_pos rfl)
      rw [reportsOf_deliver] at hopen ⊢
      rw [hget]
      refine .present hopen hg (hseat _ fun p h => ?_) fun h => ?_
      · simp [Room.contains, Table.contains] at h
      · simp [Room.seat] at h
    | duplicate hr | crowded hr =>
      rw [reportsOf_append, reportsOf_deliver, reportsOf_closing] at hopen ⊢
      rw [hr]
      obtain ⟨hp, hz⟩ := hbefore _ hr
      exact .present hopen hg hp hz
    | waiting hf hr hp hw => exact absurd (hs.filled hr hf hp).2 hw
    | @started _ r hf hr =>
      have hid : (r.seat c hf).id = c.room := (hs _ _ hr).1
      have hget : (h.start source (r.seat c hf)).1.rooms.get? c.room = some _ :=
        (get?_setRoom h _ c.room).trans (if_pos hid.symm)
      have hstored (z : Puzzle) :
          (GameStore.ofGames.apply (gs.enroll c.room c.player) (.puzzleCreated c.room z)).game
            (gs.current c.room) = some { record with puzzle := some z } := by
        have hcur := Games.current_enroll ha c.room c.player
        rw [Games.game_apply ha' hc', if_pos ⟨rfl, hcur.symm⟩, hg]
        rfl
      rw [reportsOf_append, reportsOf_deliver, reportsOf_start, hid] at hopen ⊢
      rw [hget]
      exact .present hopen (hstored _) (hseat hf (hbefore _ hr).1) fun _ => rfl
  · have hroom' : (Event.join c).room? ≠ some room := fun heq => hroom (Option.some.inj heq)
    rw [hs.elsewhere ht hroom']
    exact hagree.keeps ((Games.keeps_enroll ha hc hroom c.player).trans
      (hs.keeps_elsewhere ha' hc' hroom'))

theorem Sound.mapped_join (hs : h.Sound) (source : PuzzleSource) (ha : gs.autoOpen)
    (hc : gs.Coherent) (hm : (h.rooms.get? room).isSome → (gs.gameFor room).isSome) (c : Client) :
    ((h.step source (.join c)).1.rooms.get? room).isSome →
      ((h.booksOf source [.join c] (gs.enroll c.room c.player)).gameFor room).isSome := by
  intro hr
  by_cases hroom : c.room = room
  · rw [← hroom, hs.gameFor_join source ha hc]
    rfl
  · have hroom' : (Event.join c).room? ≠ some room := fun heq => hroom (Option.some.inj heq)
    obtain ⟨ha', hc'⟩ := Games.open_coherent_enroll ha hc c.room c.player
    rw [hs.elsewhere (step_transition source h (.join c)) hroom'] at hr
    rw [(hs.keeps_elsewhere ha' hc' hroom').gameFor,
      (Games.keeps_enroll ha hc hroom c.player).gameFor]
    exact hm hr

/-- A client who joins after being enrolled, and all that follows, come down to a
    settlement. -/
theorem Sound.settlement_after_join (hs : h.Sound) (ha : gs.autoOpen) (hc : gs.Coherent)
    (hm : (h.rooms.get? room).isSome → (gs.gameFor room).isSome) (hfresh : (Event.join c).Fresh)
    {later : List Event} (hlater : Joinless later) :
    Settlement (h.booksOf source [.join c] (gs.enroll c.room c.player))
      (h.booksOf source (.join c :: later) (gs.enroll c.room c.player)) room
      ((h.step source (.join c)).1.rooms.get? room)
      ((h.run source (.join c :: later)).1.rooms.get? room) := by
  obtain ⟨ha', hc'⟩ := Games.open_coherent_enroll ha hc c.room c.player
  rw [h.booksOf_cons source (.join c) later, run_cons]
  exact (hs.step source hfresh).settlement (Games.autoOpen_foldl_apply ha' hc' _)
    (Games.grows_foldl_apply hc' _).coherent (hs.mapped_join source ha hc hm c) hlater

end Hub

/-! ## Every move -/

namespace Server

open Games

section
variable [Url.HostNames]

section
variable {s : Server Games}

/-- After a move every room of the hub has a game, as before. -/
theorem Settled.mapped_move (hs : s.Settled) (source : PuzzleSource)
    (hm : ∀ room, (s.hub.rooms.get? room).isSome → (s.store.gameFor room).isSome) (m : Move)
    (room : RoomId) :
    ((move source s m).hub.rooms.get? room).isSome →
      ((move source s m).store.gameFor room).isSome := by
  have hturn := (hs.moveTurn source m).1
  generalize (move source s m).hub = hub at *
  generalize (move source s m).store = store at *
  cases hturn with
  | refused => exact hm room
  | @joins _ c _ _ hfresh hjoinless =>
    have hjoin := hs.hub.mapped_join source hs.autoOpen hs.coherent (hm room) c
    exact (hs.hub.settlement_after_join hs.autoOpen hs.coherent (hm room) hfresh
      hjoinless).mapped hjoin
  | hears hjoinless =>
    exact (hs.hub.settlement hs.autoOpen hs.coherent (hm room) hjoinless).mapped (hm room)
  | opens =>
    intro hr
    rw [gameFor_openGame]
    split
    · rfl
    · exact hm room hr

/-- After a move hub and store agree, as before, unless a game was opened by hand. -/
theorem Settled.agreesOn_move (hs : s.Settled) (source : PuzzleSource)
    (hagree : ∀ room, AgreesOn s.store room (s.hub.rooms.get? room)) {m : Move}
    (hm : ∀ room, m ≠ .openGame room) (room : RoomId) :
    AgreesOn (move source s m).store room ((move source s m).hub.rooms.get? room) := by
  have hturn := (hs.moveTurn source m).1
  have hmapped := (hagree room).mapped.1
  generalize (move source s m).hub = hub at *
  generalize (move source s m).store = store at *
  cases hturn with
  | refused => exact hagree room
  | @joins _ c _ _ hfresh hjoinless =>
    have hjoin := hs.hub.agreesOn_join source hs.autoOpen hs.coherent (hagree room) c
    exact hjoin.settlement
      (hs.hub.settlement_after_join hs.autoOpen hs.coherent hmapped hfresh hjoinless)
  | hears hjoinless =>
    exact (hagree room).settlement (hs.hub.settlement hs.autoOpen hs.coherent hmapped hjoinless)
  | opens => exact absurd rfl (hm _)

end

variable (source : PuzzleSource)

/-- Every room of the hub has a game, also when games are opened by hand. -/
theorem mapped_afterMoves (ms : List Move) (room : RoomId) :
    ((afterMoves source ms).hub.rooms.get? room).isSome →
      ((afterMoves source ms).store.gameFor room).isSome := by
  induction ms using List.reverseRecOn generalizing room with
  | nil => exact fun hr => nomatch hr
  | append_singleton ms m ih =>
    rw [afterMoves_concat]
    exact (settled source ms).mapped_move source ih m room

theorem agreesOn_afterMoves {ms : List Move} (hms : ∀ room, .openGame room ∉ ms) (room : RoomId) :
    AgreesOn (afterMoves source ms).store room ((afterMoves source ms).hub.rooms.get? room) := by
  induction ms using List.reverseRecOn generalizing room with
  | nil => exact .absent rfl
  | append_singleton ms m ih =>
    have hms' : ∀ room, .openGame room ∉ ms := fun room h =>
      hms room (List.mem_append_left _ h)
    have hm : ∀ room, m ≠ .openGame room := fun room heq =>
      hms room (heq ▸ List.mem_append_right _ List.mem_cons_self)
    rw [afterMoves_concat]
    exact (settled source ms).agreesOn_move source (ih hms') hm room

/-- **Hub and store agree when the server is settled.**  After any moves but games opened by
    hand, a room is there iff it is mapped to a game; that game lists all players of the
    room, and while the room is active it has the puzzle of the room. -/
theorem settled_agree (ms : List Move) (hms : ∀ room, .openGame room ∉ ms) :
    let s := afterMoves source ms
    (∀ room, (s.hub.rooms.get? room).isSome ↔ (s.store.gameFor room).isSome) ∧
      ∀ room r, s.hub.rooms.get? room = some r →
        ∃ id record, s.store.gameFor room = some id ∧ s.store.game id = some record ∧
          (∀ p, r.contains p → p ∈ record.players) ∧
          (r.state = .active → r.puzzle.isSome ∧ record.puzzle = r.puzzle) := by
  intro s
  have hagree := agreesOn_afterMoves source hms
  refine ⟨fun room => (hagree room).mapped, fun room r hr => ?_⟩
  have hroom := hagree room
  rw [hr] at hroom
  cases hroom with
  | @present _ id record hopen hg hp hz =>
    refine ⟨id, record, hopen, hg, hp, fun hactive => ?_⟩
    have hsome : r.puzzle.isSome := by
      by_contra hnone
      rw [Room.state, if_neg hnone] at hactive
      cases hactive
    exact ⟨hsome, hz hsome⟩

end

/-- `carol` is turned away from the room of `ada` and `bob`, and takes the place of `ada` when
    that player is gone; a target that names no room changes nothing. -/
theorem settled_agree_visited :
    let ms : List Move :=
      [.connect "/api/v1/ws/rooms/r/join?userId=ada", .connect "/api/v1/ws/rooms/r/join?userId=bob",
        .connect "/api/v1/ws/rooms/r/join?userId=carol", .connect "/nowhere",
        .deliver ⟨1⟩ .closed, .connect "/api/v1/ws/rooms/r/join?userId=carol"]
    let s := afterMoves (fun _ => none) ms
    (∀ room, .openGame room ∉ ms) ∧ s.hub.rooms.keys = [⟨"r"⟩] ∧
      (∀ room, (s.hub.rooms.get? room).isSome ↔ (s.store.gameFor room).isSome) ∧
      ∀ room r, s.hub.rooms.get? room = some r →
        ∃ id record, s.store.gameFor room = some id ∧ s.store.game id = some record ∧
          (∀ p, r.contains p → p ∈ record.players) ∧
          (r.state = .active → r.puzzle.isSome ∧ record.puzzle = r.puzzle) := by
  intro ms s
  have hms : ∀ room, .openGame room ∉ ms := fun room h => by simp [ms] at h
  have hkeys : s.hub.rooms.keys = [⟨"r"⟩] := by decide +kernel
  exact ⟨hms, hkeys, settled_agree _ ms hms⟩

end Server

end HectocDuel
