/-
  How the games on record change.

  A game keeps its room for good and its players stay in it; only registration
  adds any.  What is to be said of a run is noted step by step.

  * `noted`: the notes of a run are those of its steps, in order;
  * `Games.Coherent`: a room is mapped to a game that is on record as its own, and
    every number on record was given out;
  * `Games.Grows`: what the operations on coherent records have in common;
  * `Games.GrowsBy.bind`: so it is enough to prove it of each operation, and it holds
    of all work that is made of them.
-/
import HectocDuel.Store.Books

namespace HectocDuel

/-! ## Notes -/

section
variable {σ α β : Type}

/-- What is noted of each step of a run. -/
def noted (step : σ → α → σ) (note : σ → α → List β) (s : σ) : List α → List β
  | [] => []
  | a :: as => note s a ++ noted step note (step s a) as

theorem noted_concat (step : σ → α → σ) (note : σ → α → List β) (s : σ) (as : List α) (a : α) :
    noted step note s (as ++ [a]) = noted step note s as ++ note (as.foldl step s) a := by
  induction as generalizing s with
  | nil => exact List.append_nil _
  | cons b as ih => rw [List.cons_append, noted, noted, ih, List.append_assoc, List.foldl_cons]

end

namespace Games

/-! ## Looking up -/

section
variable (gs : Games)

/-- The room and the players of a game on record. -/
def roster (id : GameId) : Option (RoomId × List PlayerId) :=
  (gs.game id).map fun r => (r.room, r.players)

theorem roster_eq_some {id : GameId} {room : RoomId} {players : List PlayerId} :
    gs.roster id = some (room, players) ↔
      ∃ r, gs.game id = some r ∧ r.room = room ∧ r.players = players := by
  simp [roster, Option.map_eq_some_iff]

/-- The number that the next game will have. -/
def next : GameId :=
  ⟨gs.latest + 1⟩

theorem game_openGame (room : RoomId) (id : GameId) :
    (gs.openGame room).2.game id = if id = gs.next then some { room } else gs.game id :=
  gs.records.get?_insert gs.next id _

theorem gameFor_openGame (room other : RoomId) :
    (gs.openGame room).2.gameFor other = if other = room then some gs.next else gs.gameFor other :=
  gs.rooms.get?_insert room other _

theorem roster_openGame (room : RoomId) (id : GameId) :
    (gs.openGame room).2.roster id = if id = gs.next then some (room, []) else gs.roster id := by
  rw [roster, game_openGame]
  split <;> rfl

theorem gameFor_evict (room other : RoomId) :
    (evict room gs).2.gameFor other = if other = room then none else gs.gameFor other :=
  gs.rooms.get?_erase room other

variable {gs}

theorem resolve_of_gameFor {room : RoomId} {id : GameId} (h : gs.gameFor room = some id) :
    resolve room gs = (.ok id, gs) := by
  rw [resolve, h]

theorem resolve_of_autoOpen {room : RoomId} (h : gs.gameFor room = none) (ha : gs.autoOpen) :
    resolve room gs = (.ok gs.next, (gs.openGame room).2) := by
  rw [resolve, h]
  exact if_pos ha

theorem resolve_of_closed {room : RoomId} (h : gs.gameFor room = none) (ha : ¬ gs.autoOpen) :
    resolve room gs = (.error (.roomNotFound room), gs) := by
  rw [resolve, h]
  exact if_neg ha

theorem gameFor_of_resolve {room : RoomId} {id : GameId} (h : (resolve room gs).1 = .ok id) :
    (resolve room gs).2.gameFor room = some id := by
  rcases hr : gs.gameFor room with _ | id'
  · by_cases ha : gs.autoOpen
    · rw [resolve_of_autoOpen hr ha] at h ⊢
      rw [gameFor_openGame, if_pos rfl, Except.ok.inj h]
    · rw [resolve_of_closed hr ha] at h
      cases h
  · rw [resolve_of_gameFor hr] at h ⊢
    rw [hr, Except.ok.inj h]

theorem change_of_game {id : GameId} {r : GameRecord} (h : gs.game id = some r)
    (f : GameRecord → GameRecord) :
    change id f gs = (.ok (), { gs with records := gs.records.insert id (f r) }) := by
  rw [change, h]

theorem change_of_none {id : GameId} (h : gs.game id = none) (f : GameRecord → GameRecord) :
    change id f gs = (.error (.gameNotFound id), gs) := by
  rw [change, h]

theorem game_change (id other : GameId) (f : GameRecord → GameRecord) :
    (change id f gs).2.game other = if other = id then (gs.game id).map f else gs.game other := by
  rcases h : gs.game id with _ | r
  · rw [change_of_none h]
    split
    · next heq => rw [heq, h]; rfl
    · rfl
  · rw [change_of_game h]
    exact gs.records.get?_insert id other (f r)

theorem gameFor_change (id : GameId) (f : GameRecord → GameRecord) (room : RoomId) :
    (change id f gs).2.gameFor room = gs.gameFor room := by
  rw [change]
  split <;> rfl

theorem latest_change (id : GameId) (f : GameRecord → GameRecord) :
    (change id f gs).2.latest = gs.latest := by
  rw [change]
  split <;> rfl

theorem roster_register (id other : GameId) (p : PlayerId) :
    (register id p gs).2.roster other =
      if other = id then
        (gs.roster id).map fun e => (e.1, if p ∈ e.2 then e.2 else e.2 ++ [p])
      else gs.roster other := by
  rw [register, roster, game_change]
  split
  · rw [roster, Option.map_map, Option.map_map]
    congr 1
    funext r
    simp only [Function.comp_apply]
    split <;> rfl
  · rfl

theorem exists_roster_register {id other : GameId} {room : RoomId} {players : List PlayerId}
    (h : gs.roster other = some (room, players)) (p : PlayerId) :
    ∃ players', (register id p gs).2.roster other = some (room, players') := by
  rw [roster_register]
  split
  · next heq =>
    rw [← heq, h]
    exact ⟨_, rfl⟩
  · exact ⟨players, h⟩

/-- Whoever is registered is listed in the game, and nobody else is. -/
theorem roster_of_register {id other : GameId} {p : PlayerId} {room : RoomId}
    {players : List PlayerId} (h : (register id p gs).2.roster other = some (room, players)) :
    ∃ before, gs.roster other = some (room, before) ∧
      ∀ q, q ∈ players ↔ q ∈ before ∨ q = p ∧ other = id := by
  rw [roster_register] at h
  split at h
  · next heq =>
    obtain ⟨⟨_, before⟩, hb, he⟩ := Option.map_eq_some_iff.1 h
    obtain ⟨rfl, rfl⟩ := Prod.mk.inj he
    refine ⟨before, heq ▸ hb, fun q => ?_⟩
    rw [and_iff_left heq]
    split
    · next hin => exact (or_iff_left_of_imp fun hq => hq ▸ hin).symm
    · rw [List.mem_append, List.mem_singleton]
  · next hne => exact ⟨players, h, fun q => (or_iff_left fun hq => hne hq.2).symm⟩

end

/-! ## Coherent records -/

/-- Every room is mapped to a game that is on record as its own, and every number
    on record was given out. -/
structure Coherent (gs : Games) : Prop where
  mapped : ∀ room id, gs.gameFor room = some id → ∃ players, gs.roster id = some (room, players)
  numbered : ∀ id e, gs.roster id = some e → id.number ≤ gs.latest

theorem coherent_empty (autoOpen : Bool) : ({ autoOpen } : Games).Coherent :=
  ⟨fun _ _ h => (by cases h), fun _ _ h => (by cases h)⟩

theorem Coherent.roster_next {gs : Games} (hc : gs.Coherent) : gs.roster gs.next = none := by
  rcases he : gs.roster gs.next with _ | e
  · rfl
  · have : gs.latest + 1 ≤ gs.latest := hc.numbered _ e he
    omega

theorem Coherent.register {gs : Games} (hc : gs.Coherent) (id : GameId) (p : PlayerId) :
    (register id p gs).2.Coherent := by
  refine ⟨fun room other hr => ?_, fun other e he => ?_⟩
  · rw [Games.register, gameFor_change] at hr
    obtain ⟨players, hp⟩ := hc.mapped room other hr
    exact exists_roster_register hp p
  · obtain ⟨before, hb, -⟩ := roster_of_register he
    rw [Games.register, latest_change]
    exact hc.numbered other _ hb

/-- From the records `gs` come the coherent records `gs'`: all games are still there,
    with their rooms and their players, no other game has any player, and all
    rooms but the lost ones keep their games. -/
structure Grows (lost : RoomId → Prop) (gs gs' : Games) : Prop where
  coherent : gs'.Coherent
  kept : ∀ id e, gs.roster id = some e → gs'.roster id = some e
  added : ∀ id e, gs'.roster id = some e → gs.roster id = some e ∨ gs.roster id = none ∧ e.2 = []
  mapped : ∀ room id, ¬ lost room → gs.gameFor room = some id → gs'.gameFor room = some id

section
variable {lost : RoomId → Prop} {gs gs' gs'' : Games}

theorem Grows.refl (hc : gs.Coherent) : Grows lost gs gs :=
  ⟨hc, fun _ _ h => h, fun _ _ h => .inl h, fun _ _ _ h => h⟩

theorem Grows.trans (h : Grows lost gs gs') (h' : Grows lost gs' gs'') : Grows lost gs gs'' := by
  refine ⟨h'.coherent, fun id e he => h'.kept id e (h.kept id e he), fun id e he => ?_,
    fun room id hl hr => h'.mapped room id hl (h.mapped room id hl hr)⟩
  rcases h'.added id e he with he' | ⟨hn, hp⟩
  · exact h.added id e he'
  · rcases he' : gs.roster id with _ | e'
    · exact .inr ⟨rfl, hp⟩
    · rw [h.kept id e' he'] at hn
      cases hn

theorem Grows.mono {lost' : RoomId → Prop} (h : Grows lost gs gs')
    (hl : ∀ room, lost room → lost' room) : Grows lost' gs gs' :=
  { h with mapped := fun room id hr => h.mapped room id fun hlost => hr (hl room hlost) }

/-- When all rosters stay, and rooms are at most lost, the records grow. -/
theorem Grows.of_roster_eq (hc : gs.Coherent) (hroster : ∀ id, gs'.roster id = gs.roster id)
    (hlatest : gs'.latest = gs.latest)
    (hback : ∀ room id, gs'.gameFor room = some id → gs.gameFor room = some id)
    (hmapped : ∀ room id, ¬ lost room → gs.gameFor room = some id → gs'.gameFor room = some id) :
    Grows lost gs gs' where
  coherent :=
    { mapped := fun room id hr => by
        rw [hroster]
        exact hc.mapped room id (hback room id hr)
      numbered := fun id e he => by
        rw [hlatest]
        exact hc.numbered id e (hroster id ▸ he) }
  kept id e he := (hroster id).trans he
  added id e he := .inl ((hroster id).symm.trans he)
  mapped := hmapped

/-- A game opened in a room, whatever game was open there. -/
theorem grows_reopen (hc : gs.Coherent) (room : RoomId) :
    Grows (· = room) gs (gs.openGame room).2 := by
  have hnew : ∀ id e, gs.roster id = some e → id ≠ gs.next := by
    rintro id e he rfl
    rw [hc.roster_next] at he
    cases he
  have hkept : ∀ id e, gs.roster id = some e → (gs.openGame room).2.roster id = some e := by
    intro id e he
    rw [roster_openGame, if_neg (hnew id e he), he]
  refine ⟨⟨fun other id ho => ?_, fun id e he => ?_⟩, hkept, fun id e he => ?_,
    fun other id hne ho => ?_⟩
  · rw [gameFor_openGame] at ho
    split at ho
    · next heq =>
      obtain rfl := Option.some.inj ho
      exact ⟨[], by rw [roster_openGame, if_pos rfl, heq]⟩
    · obtain ⟨players, hp⟩ := hc.mapped other id ho
      exact ⟨players, hkept id _ hp⟩
  · rw [roster_openGame] at he
    show id.number ≤ gs.latest + 1
    split at he
    · next heq => rw [heq]; exact Nat.le_refl _
    · exact Nat.le_succ_of_le (hc.numbered id e he)
  · rw [roster_openGame] at he
    split at he
    · next heq =>
      obtain rfl := Option.some.inj he
      exact .inr ⟨heq ▸ hc.roster_next, rfl⟩
    · exact .inl he
  · rw [gameFor_openGame, if_neg hne, ho]

theorem grows_openGame (hc : gs.Coherent) {room : RoomId} (hr : gs.gameFor room = none) :
    Grows lost gs (gs.openGame room).2 :=
  { grows_reopen hc room with
    mapped := fun other id _ ho => (grows_reopen hc room).mapped other id (by
      rintro rfl
      rw [hr] at ho
      cases ho) ho }

theorem grows_evict (hc : gs.Coherent) (room : RoomId) :
    Grows (· = room) gs (evict room gs).2 := by
  refine .of_roster_eq hc (fun _ => rfl) rfl (fun other id ho => ?_) fun other id hne ho => ?_
  · rw [gameFor_evict] at ho
    split at ho
    · cases ho
    · exact ho
  · rw [gameFor_evict, if_neg hne, ho]

/-! ## Work that makes records grow -/

/-- Work that makes coherent records grow, also when it fails. -/
def GrowsBy {α : Type} (lost : RoomId → Prop) (work : StoreM Games α) : Prop :=
  ∀ gs : Games, gs.Coherent → Grows lost gs (work gs).2

variable {α β : Type}

theorem bind_apply {σ : Type} (x : StoreM σ α) (f : α → StoreM σ β) (s : σ) :
    (x >>= f) s = match x s with
      | (.ok a, s') => f a s'
      | (.error e, s') => (.error e, s') := by
  simp only [Bind.bind, ExceptT.bind, ExceptT.mk, StateT.bind]
  rcases x s with ⟨_ | _, _⟩ <;> rfl

theorem GrowsBy.bind {x : StoreM Games α} {f : α → StoreM Games β} (hx : GrowsBy lost x)
    (hf : ∀ a, GrowsBy lost (f a)) : GrowsBy lost (x >>= f) := by
  intro gs hc
  have hgrows := hx gs hc
  rw [bind_apply]
  generalize x gs = result at hgrows
  rcases result with ⟨_ | a, gs'⟩
  · exact hgrows
  · exact hgrows.trans (hf a gs' hgrows.coherent)

theorem growsBy_resolve (room : RoomId) : GrowsBy lost (resolve room) := by
  intro gs hc
  rcases hr : gs.gameFor room with _ | id
  · by_cases ha : gs.autoOpen
    · rw [resolve_of_autoOpen hr ha]
      exact grows_openGame hc hr
    · rw [resolve_of_closed hr ha]
      exact .refl hc
  · rw [resolve_of_gameFor hr]
    exact .refl hc

theorem growsBy_change (id : GameId) {f : GameRecord → GameRecord}
    (hf : ∀ r, (f r).room = r.room ∧ (f r).players = r.players) : GrowsBy lost (change id f) := by
  intro gs hc
  refine .of_roster_eq hc (fun other => ?_) (latest_change id f) (fun room other => ?_)
    fun room other _ => ?_
  · rw [roster, game_change]
    split
    · next heq =>
      rw [heq, Option.map_map, roster]
      congr 1
      funext r
      exact Prod.ext (hf r).1 (hf r).2
    · rfl
  · rw [gameFor_change]
    exact fun h => h
  · rw [gameFor_change]
    exact fun h => h

theorem growsBy_rating (p : PlayerId) : GrowsBy lost (rating p) := fun _ hc =>
  .refl hc

theorem growsBy_recordRatings (id : GameId) (first second : PlayerId × Int) :
    GrowsBy lost (recordRatings id first second) := by
  refine .bind (growsBy_change id fun r => ⟨rfl, rfl⟩) fun _ gs hc => ?_
  exact .of_roster_eq hc (fun _ => rfl) rfl (fun _ _ h => h) fun _ _ _ h => h

end

end Games

end HectocDuel
