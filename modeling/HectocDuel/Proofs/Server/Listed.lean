/-
  Who is listed in a game, and who was seated for it.

  A connection registers its player before the hub decides whether there is a place.
  Nothing is undone when there is none.

  * `listed_iff_connected`: a game lists exactly the players who connected to its room
    while the room was mapped to it, or opened it by that;
  * `listed_seated_or_turnedAway`: each of them was seated in the room at some time while
    it was mapped to the game, or was turned away from it then because it was full;
  * `listed_not_seated`: a player of the second kind.
-/
import HectocDuel.Proofs.Server.Agreement
import Mathlib.Data.List.Infix

namespace HectocDuel

/-! ## Lists of players -/

namespace Games

/-- The game is on record for the room, and lists the player. -/
def Lists (gs : Games) (id : GameId) (room : RoomId) (p : PlayerId) : Prop :=
  ∃ players, gs.roster id = some (room, players) ∧ p ∈ players

section
variable {lost : RoomId → Prop} {gs gs' : Games} {id : GameId} {room : RoomId} {p : PlayerId}

theorem Grows.lists_iff (h : Grows lost gs gs') : gs'.Lists id room p ↔ gs.Lists id room p := by
  constructor
  · rintro ⟨players, hr, hp⟩
    rcases h.added id _ hr with hr | ⟨-, hnil⟩
    · exact ⟨players, hr, hp⟩
    · obtain rfl : players = [] := hnil
      cases hp
  · rintro ⟨players, hr, hp⟩
    exact ⟨players, h.kept id _ hr, hp⟩

theorem lists_register {room' : RoomId} {players : List PlayerId} {id' : GameId} {q : PlayerId}
    (hr' : gs.roster id' = some (room', players)) :
    (register id' q gs).2.Lists id room p ↔
      gs.Lists id room p ∨ id = id' ∧ room = room' ∧ p = q := by
  constructor
  · rintro ⟨players', hr, hp⟩
    obtain ⟨before, hb, hmem⟩ := roster_of_register hr
    rcases (hmem p).1 hp with hp | ⟨rfl, rfl⟩
    · exact .inl ⟨before, hb, hp⟩
    · obtain ⟨rfl, -⟩ := Prod.mk.inj (Option.some.inj (hr'.symm.trans hb))
      exact .inr ⟨rfl, rfl, rfl⟩
  · have hlists : ∀ {players₀}, gs.roster id = some (room, players₀) →
        p ∈ players₀ ∨ p = q ∧ id = id' → (register id' q gs).2.Lists id room p := by
      intro players₀ hr hp
      obtain ⟨players', hr'⟩ := exists_roster_register hr q
      obtain ⟨before, hb, hmem⟩ := roster_of_register hr'
      obtain ⟨-, rfl⟩ := Prod.mk.inj (Option.some.inj (hr.symm.trans hb))
      exact ⟨players', hr', (hmem p).2 hp⟩
    rintro (⟨players₀, hr, hp⟩ | ⟨rfl, rfl, rfl⟩)
    · exact hlists hr (.inl hp)
    · exact hlists hr' (.inr ⟨rfl, rfl⟩)

theorem lists_enroll (ha : gs.autoOpen) (hc : gs.Coherent) {room' : RoomId} {q : PlayerId} :
    (gs.enroll room' q).Lists id room p ↔
      gs.Lists id room p ∨ id = gs.current room' ∧ room = room' ∧ p = q := by
  have hopen : (gs.withCurrent room').gameFor room' = some (gs.current room') :=
    (gameFor_withCurrent room' room').trans (if_pos rfl)
  obtain ⟨players, hr⟩ := (coherent_withCurrent hc room').mapped _ _ hopen
  have hgrows : Grows (fun _ => False) gs (gs.withCurrent room') :=
    resolve_snd ha room' ▸ growsBy_resolve room' gs hc
  rw [enroll, does, does, resolve_snd ha, lists_register hr, hgrows.lists_iff]

end

end Games

/-! ## A place in a room -/

theorem closedBy_eq_nil {effects : List Effect} (h : ∀ q, .close q ∉ effects) :
    closedBy effects = [] := by
  refine List.filterMap_eq_nil_iff.2 fun x hx => ?_
  cases x with
  | close q => exact absurd hx (h q)
  | _ => rfl

/-- A client who joins is seated, and nothing is closed, unless the room is there and its
    player is seated or there is no place. -/
theorem Hub.Sound.seated_of_join {h : Hub} (hs : h.Sound) (source : PuzzleSource) (c : Client) :
    (∃ r, h.rooms.get? c.room = some r ∧
        (r.contains c.player ∨ r.isFull ∧ ¬ r.contains c.player)) ∨
      ((h.step source (.join c)).1.seated? c.room c.player).isSome ∧
        closedBy (h.step source (.join c)).2 = [] := by
  have ht := step_transition source h (.join c)
  generalize (h.step source (.join c)).1 = h' at *
  generalize (h.step source (.join c)).2 = effects at *
  cases ht with
  | duplicate hr hp => exact .inl ⟨_, hr, .inl hp⟩
  | crowded hr hp hf => exact .inl ⟨_, hr, .inr ⟨hf, hp⟩⟩
  | opened hr =>
    refine .inr ⟨?_, closedBy_eq_nil fun q hq => ?_⟩
    · have hget := (seated?_setRoom h (({ id := c.room } : Room).seat c (Room.not_isFull_new _))
        c.room c.player).trans (if_pos rfl)
      rw [hget, Room.get?_seat, if_pos rfl]
      rfl
    · simp [Client.mem_deliver] at hq
  | waiting hf hr hp hw => exact absurd (hs.filled hr hf hp).2 hw
  | @started _ r hf hr =>
    refine .inr ⟨?_, closedBy_eq_nil fun q hq => ?_⟩
    · have hid : (r.seat c hf).id = c.room := (hs _ _ hr).1
      rw [seated?_start, if_pos hid.symm, Room.get?_seat, if_pos rfl]
      rfl
    · simp [Client.mem_deliver, Hub.start] at hq

/-! ## Connections -/

namespace Server

open Games

section
variable [Url.HostNames] (source : PuzzleSource) (ms : List Move)
  (id : GameId) (room : RoomId) (p : PlayerId)

/-- The player connected to the room when the game was found for it. -/
def Connected : Prop :=
  ∃ part target, part ++ [.connect target] <+: ms ∧ parseTarget target = .ok (room, p) ∧
    (afterMoves source part).store.current room = id

/-- The player was seated in the room at some time while it was mapped to the game. -/
def SeatedIn : Prop :=
  ∃ part, part <+: ms ∧ (afterMoves source part).store.gameFor room = some id ∧
    ((afterMoves source part).hub.seated? room p).isSome

/-- The player connected to the room while it was mapped to the game, and was turned away
    because the room was full. -/
def TurnedAway : Prop :=
  ∃ part target r, part ++ [.connect target] <+: ms ∧ parseTarget target = .ok (room, p) ∧
    (afterMoves source part).store.gameFor room = some id ∧
    (afterMoves source part).hub.rooms.get? room = some r ∧ r.isFull ∧ ¬ r.contains p

section
variable {source ms id room p} {s : Server Games}

theorem Settled.lists_move (hs : s.Settled) (source : PuzzleSource) (m : Move) :
    (move source s m).store.Lists id room p ↔
      s.store.Lists id room p ∨
        ∃ target, m = .connect target ∧ parseTarget target = .ok (room, p) ∧
          s.store.current room = id := by
  have hturn := (hs.moveTurn source m).1
  generalize (move source s m).store = store at *
  generalize (move source s m).hub = hub at *
  cases hturn with
  | refused ht =>
    refine (or_iff_left ?_).symm
    rintro ⟨target, heq, ht', -⟩
    obtain rfl := Move.connect.inj heq
    rw [ht] at ht'
    cases ht'
  | @joins target c later ht =>
    have hc := (open_coherent_enroll hs.autoOpen hs.coherent c.room c.player).2
    rw [Hub.booksOf, (grows_foldl_apply hc _).lists_iff, lists_enroll hs.autoOpen hs.coherent]
    refine or_congr_right ⟨?_, ?_⟩
    · rintro ⟨rfl, rfl, rfl⟩
      exact ⟨target, rfl, ht, rfl⟩
    · rintro ⟨target', heq, ht', rfl⟩
      obtain rfl := Move.connect.inj heq
      obtain ⟨rfl, rfl⟩ := Prod.mk.inj (Except.ok.inj (ht.symm.trans ht'))
      exact ⟨rfl, rfl, rfl⟩
  | hears =>
    rw [Hub.booksOf, (grows_foldl_apply hs.coherent _).lists_iff]
    refine (or_iff_left ?_).symm
    rintro ⟨target, heq, -⟩
    cases heq
  | opens =>
    rw [(grows_reopen hs.coherent _).lists_iff]
    refine (or_iff_left ?_).symm
    rintro ⟨target, heq, -⟩
    cases heq

/-- A connection to a room ends in a seat there, unless the player is seated already or
    the room is full. -/
theorem Settled.seated_of_connect (hs : s.Settled) (source : PuzzleSource) {target : String}
    (ht : parseTarget target = .ok (room, p)) :
    (∃ r, s.hub.rooms.get? room = some r ∧ (r.contains p ∨ r.isFull ∧ ¬ r.contains p)) ∨
      ((move source s (.connect target)).hub.seated? room p).isSome ∧
        (move source s (.connect target)).store.gameFor room = some (s.store.current room) := by
  have hturn := (hs.moveTurn source (.connect target)).1
  generalize (move source s (.connect target)).store = store at *
  generalize (move source s (.connect target)).hub = hub at *
  cases hturn with
  | refused ht' =>
    rw [ht] at ht'
    cases ht'
  | @joins _ c later ht' _ _ hlater =>
    obtain ⟨rfl, rfl⟩ := Prod.mk.inj (Except.ok.inj (ht.symm.trans ht'))
    refine (hs.hub.seated_of_join source c).imp_right ?_
    rintro ⟨hseated, hclosed⟩
    obtain rfl := hlater hclosed
    exact ⟨hseated, hs.hub.gameFor_join source hs.autoOpen hs.coherent c⟩

end

/-- **A game lists exactly those who connected to its room when it was found there.** -/
theorem listed_iff_connected :
    (afterMoves source ms).store.Lists id room p ↔ Connected source ms id room p := by
  induction ms using List.reverseRecOn with
  | nil =>
    refine iff_of_false ?_ ?_
    · rintro ⟨players, hr, -⟩
      cases hr
    · rintro ⟨part, target, hpart, -⟩
      simp at hpart
  | append_singleton ms m ih =>
    rw [afterMoves_concat, (settled source ms).lists_move source m, ih]
    constructor
    · rintro (⟨part, target, hpart, h⟩ | ⟨target, rfl, h⟩)
      · exact ⟨part, target, hpart.trans (List.prefix_append ms [m]), h⟩
      · exact ⟨ms, target, List.prefix_refl _, h⟩
    · rintro ⟨part, target, hpart, h⟩
      rcases List.prefix_concat_iff.1 hpart with heq | hpart
      · obtain ⟨rfl, rfl⟩ := List.append_singleton_inj.1 heq
        exact .inr ⟨target, rfl, h⟩
      · exact .inl ⟨part, target, hpart, h⟩

section
variable {source ms id room p}

theorem Connected.seated_or_turnedAway (h : Connected source ms id room p) :
    SeatedIn source ms id room p ∨ TurnedAway source ms id room p := by
  obtain ⟨part, target, hpart, ht, rfl⟩ := h
  have hbefore : part <+: ms := (List.prefix_append part _).trans hpart
  rcases (settled source part).seated_of_connect source ht with ⟨r, hr, hp⟩ | ⟨hseated, hopen⟩
  · -- The room is there, so it has a game.
    have hmapped := mapped_afterMoves source part room (hr ▸ rfl)
    obtain ⟨id, hopen⟩ := Option.isSome_iff_exists.1 hmapped
    rw [current_of_gameFor hopen]
    rcases hp with hp | ⟨hf, hp⟩
    · refine .inl ⟨part, hbefore, hopen, ?_⟩
      rwa [Hub.seated?_of_get? hr]
    · exact .inr ⟨part, target, r, hpart, ht, hopen, hr, hf, hp⟩
  · rw [← afterMoves_concat] at hseated hopen
    exact .inl ⟨part ++ [.connect target], hpart, hopen, hseated⟩

theorem TurnedAway.connected (h : TurnedAway source ms id room p) :
    Connected source ms id room p := by
  obtain ⟨part, target, r, hpart, ht, hopen, -⟩ := h
  exact ⟨part, target, hpart, ht, current_of_gameFor hopen⟩

/-- Where no game is opened by hand, whoever was seated had connected. -/
theorem SeatedIn.connected (h : SeatedIn source ms id room p)
    (hms : ∀ room, .openGame room ∉ ms) : Connected source ms id room p := by
  obtain ⟨part, hpart, hopen, hseated⟩ := h
  have hagree := agreesOn_afterMoves source (fun room h => hms room (hpart.subset h)) room
  rw [Hub.seated?, Option.isSome_iff_exists] at hseated
  obtain ⟨c, hc⟩ := hseated
  obtain ⟨r, hr, hcp⟩ := Option.bind_eq_some_iff.1 hc
  rw [hr] at hagree
  cases hagree with
  | @present _ id' record hopen' hg hp =>
    obtain rfl := Option.some.inj (hopen.symm.trans hopen')
    obtain ⟨players, hr'⟩ := (settled source part).coherent.mapped room id hopen
    obtain ⟨record', hg', -, rfl⟩ := (roster_eq_some _).1 hr'
    obtain rfl := Option.some.inj (hg.symm.trans hg')
    have hlists : (afterMoves source part).store.Lists id room p :=
      ⟨_, hr', hp p (Option.isSome_iff_exists.2 ⟨c, hcp⟩)⟩
    obtain ⟨before, target, hbefore, h⟩ := (listed_iff_connected ..).1 hlists
    exact ⟨before, target, hbefore.trans hpart, h⟩

end

/-- **Whoever is listed in a game was seated for it, or was turned away from its full room.**
    And everybody who was turned away so is listed; where no game is opened by hand,
    everybody who was seated is, too. -/
theorem listed_seated_or_turnedAway :
    ((afterMoves source ms).store.Lists id room p →
        SeatedIn source ms id room p ∨ TurnedAway source ms id room p) ∧
      (TurnedAway source ms id room p → (afterMoves source ms).store.Lists id room p) ∧
      ((∀ room, .openGame room ∉ ms) → SeatedIn source ms id room p →
        (afterMoves source ms).store.Lists id room p) := by
  rw [listed_iff_connected]
  exact ⟨Connected.seated_or_turnedAway, TurnedAway.connected, fun hms h => h.connected hms⟩

end

/-- `ada`, `bob` and `carol` connect to one room. -/
def thirdPlayer : List Move :=
  [.connect "/api/v1/ws/rooms/r/join?userId=ada", .connect "/api/v1/ws/rooms/r/join?userId=bob",
    .connect "/api/v1/ws/rooms/r/join?userId=carol"]

/-- The game of the room lists `carol`, so that she was seated or turned away. -/
theorem listed_seated_or_turnedAway_thirdPlayer :
    (afterMoves (fun _ => none) thirdPlayer).store.Lists ⟨1⟩ ⟨"r"⟩ ⟨"carol"⟩ ∧
      (SeatedIn (fun _ => none) thirdPlayer ⟨1⟩ ⟨"r"⟩ ⟨"carol"⟩ ∨
        TurnedAway (fun _ => none) thirdPlayer ⟨1⟩ ⟨"r"⟩ ⟨"carol"⟩) := by
  have hroster : (afterMoves (fun _ => none) thirdPlayer).store.roster ⟨1⟩ =
      some (⟨"r"⟩, [⟨"ada"⟩, ⟨"bob"⟩, ⟨"carol"⟩]) := by decide +kernel
  have hlists : (afterMoves (fun _ => none) thirdPlayer).store.Lists ⟨1⟩ ⟨"r"⟩ ⟨"carol"⟩ :=
    ⟨_, hroster, by decide⟩
  exact ⟨hlists, (listed_seated_or_turnedAway ..).1 hlists⟩

/-- She was never seated. -/
theorem listed_not_seated :
    (afterMoves (fun _ => none) thirdPlayer).store.Lists ⟨1⟩ ⟨"r"⟩ ⟨"carol"⟩ ∧
      ¬ SeatedIn (fun _ => none) thirdPlayer ⟨1⟩ ⟨"r"⟩ ⟨"carol"⟩ := by
  have hroster : (afterMoves (fun _ => none) thirdPlayer).store.roster ⟨1⟩ =
      some (⟨"r"⟩, [⟨"ada"⟩, ⟨"bob"⟩, ⟨"carol"⟩]) := by decide +kernel
  have hnever : ∀ part ∈ thirdPlayer.inits,
      ((afterMoves (fun _ => none) part).hub.seated? ⟨"r"⟩ ⟨"carol"⟩).isSome = false := by
    decide +kernel
  refine ⟨⟨_, hroster, by decide⟩, ?_⟩
  rintro ⟨part, hpart, -, hseated⟩
  rw [hnever part ((List.mem_inits part _).2 hpart)] at hseated
  cases hseated

end Server

end HectocDuel
