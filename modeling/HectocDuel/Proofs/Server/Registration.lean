/-
  Who is listed in a game when its result is booked.

  A connection finds the game of its room, registers its player there and joins, and
  reports are booked in between.  When the room is given up at such a moment the
  player is listed in a game that is not open any more, while the hub seats it for
  another.

  * `onRecord`: a game lists those who were registered in it, and a game that was
    found stays open in its room until a report gives the room up;
  * `result_recorded_iff`: so a result is recorded in full iff winner and loser were
    registered in the game that is open in the room by then, as they were if
    nothing has given the room up since they found their games;
  * `result_without_winner`: which is not always so.
-/
import HectocDuel.Proofs.Server.Run

namespace HectocDuel.Server

open Games

section
variable [Url.HostNames]

/-! ## The store over a run -/

section
variable {source : PuzzleSource} {s : Server Games} {c : ConnectionId} {session : Session}
  {id : GameId}

theorem act_store_of_asked (hc : s.stages.get? c = some (.asked session)) :
    (act source s (.advance c)).store = (resolve session.room s.store).2 := by
  rw [act, advance, hc]
  simp only [GameStore.ofGames]
  rcases resolve session.room s.store with ⟨_ | _, store⟩ <;> rfl

theorem act_store_of_found (hc : s.stages.get? c = some (.found session id)) :
    (act source s (.advance c)).store = (register id session.player s.store).2 := by
  rw [act, advance, hc]
  rfl

/-- Unless it registers a player, an action makes the records grow, and at most the
    room of a report that is booked is given up. -/
theorem act_grows (source : PuzzleSource) (a : Action) (hc : s.store.Coherent)
    (ha : ∀ c session id, a = .advance c → s.stages.get? c ≠ some (.found session id)) :
    Grows (fun room => ∃ x ∈ (bookedBy s a).toList, x.givesUp room = true) s.store
      (act source s a).store := by
  have hturn := storeTurn source s a
  generalize (act source s a).store = store at hturn
  cases hturn with
  | keeps => exact .refl hc
  | resolves => exact growsBy_resolve _ _ hc
  | @registers c session id hfound => exact absurd hfound (ha c session id rfl)
  | @books report reports hr =>
    have hbooked : bookedBy s .takeReport = some report := by rw [bookedBy, hr]; rfl
    refine (apply_grows hc report).mono fun room hup => ⟨report, ?_, hup⟩
    rw [hbooked]
    exact List.mem_cons_self
  | opens hr => exact grows_openGame hc hr

end

variable {autoOpen : Bool} {source : PuzzleSource} {acts : List Action}

variable (autoOpen source acts) in
/-- What is on record after actions. -/
structure OnRecord : Prop where
  coherent : (after autoOpen source acts).store.Coherent
  /-- A game that was found is on record for its room. -/
  found : ∀ session id since, Found autoOpen source acts session id since →
    ∃ players, (after autoOpen source acts).store.roster id = some (session.room, players)
  /-- A game lists those who were registered in it. -/
  listed : ∀ id room players,
    (after autoOpen source acts).store.roster id = some (room, players) →
      ∀ p, p ∈ players ↔ ∃ session, Registered autoOpen source acts session id ∧
        session.player = p
  /-- A game that was found is open until its room is given up. -/
  isOpen : ∀ session id since, Found autoOpen source acts session id since →
    (∀ x ∈ since, x.givesUp session.room = false) →
      (after autoOpen source acts).store.gameFor session.room = some id

theorem OnRecord.register (ho : OnRecord autoOpen source acts) {c : ConnectionId}
    {session : Session} {id : GameId}
    (hc : (after autoOpen source acts).stages.get? c = some (.found session id)) :
    OnRecord autoOpen source (acts ++ [.advance c]) := by
  have hstore : (after autoOpen source (acts ++ [.advance c])).store = _ :=
    (congrArg Server.store (after_concat ..)).trans (act_store_of_found hc)
  refine ⟨?_, fun session' id' since hf => ?_, fun id' room players hr p => ?_,
    fun session' id' since hf hs => ?_⟩
  · exact hstore ▸ ho.coherent.register id session.player
  · obtain ⟨players, hp⟩ := ho.found session' id' since (found_of_found_concat hc hf)
    exact hstore ▸ exists_roster_register hp session.player
  · rw [hstore] at hr
    obtain ⟨before, hb, hmem⟩ := roster_of_register hr
    rw [hmem, ho.listed id' room before hb p]
    constructor
    · rintro (⟨session', h, rfl⟩ | ⟨rfl, rfl⟩)
      · exact ⟨session', (registered_concat_of_found hc).2 (.inl h), rfl⟩
      · exact ⟨session, (registered_concat_of_found hc).2 (.inr ⟨rfl, rfl⟩), rfl⟩
    · rintro ⟨session', h, rfl⟩
      rcases (registered_concat_of_found hc).1 h with h | ⟨rfl, rfl⟩
      · exact .inl ⟨session', h, rfl⟩
      · exact .inr ⟨rfl, rfl⟩
  · rw [hstore, Games.register, gameFor_change]
    exact ho.isOpen session' id' since (found_of_found_concat hc hf) hs

theorem OnRecord.act (ho : OnRecord autoOpen source acts) (a : Action) :
    OnRecord autoOpen source (acts ++ [a]) := by
  by_cases hreg : ∃ c session id, a = .advance c ∧
      (after autoOpen source acts).stages.get? c = some (.found session id)
  · obtain ⟨c, session, id, rfl, hc⟩ := hreg
    exact ho.register hc
  · have hstore : (after autoOpen source (acts ++ [a])).store = _ :=
      congrArg Server.store (after_concat ..)
    have hgrows := act_grows source a ho.coherent fun c session id ha hc =>
      hreg ⟨c, session, id, ha, hc⟩
    rw [← hstore] at hgrows
    have hsame : ∀ {session id}, Registered autoOpen source (acts ++ [a]) session id ↔
        Registered autoOpen source acts session id := by
      intro session id
      rw [registered_concat, or_iff_left]
      rintro ⟨c, ha, hc⟩
      exact hreg ⟨c, session, id, ha, hc⟩
    refine ⟨hgrows.coherent, fun session id since hf => ?_, fun id room players hr p => ?_,
      fun session id since hf hs => ?_⟩
    · rcases found_concat hf with ⟨c, rfl, hasked, hid⟩ | ⟨since', rfl, hf'⟩
      · -- The game has just been resolved.
        rw [hstore] at hgrows ⊢
        rw [act_store_of_asked hasked] at hgrows ⊢
        exact hgrows.coherent.mapped _ _ (gameFor_of_resolve hid)
      · obtain ⟨players, hp⟩ := ho.found session id since' hf'
        exact ⟨players, hgrows.kept id _ hp⟩
    · rw [exists_congr fun session => and_congr_left' hsame]
      rcases hgrows.added id _ hr with hr | ⟨hn, rfl⟩
      · exact ho.listed id room players hr p
      · -- In a game that was not on record before nobody was registered.
        refine iff_of_false List.not_mem_nil ?_
        rintro ⟨session, h, -⟩
        obtain ⟨since, hf⟩ := h.found
        obtain ⟨players, hp⟩ := ho.found session id since hf
        rw [hn] at hp
        cases hp
    · rcases found_concat hf with ⟨c, rfl, hasked, hid⟩ | ⟨since', rfl, hf'⟩
      · rw [hstore, act_store_of_asked hasked]
        exact gameFor_of_resolve hid
      · refine hgrows.mapped _ _ ?_ (ho.isOpen session id since' hf' fun x hx =>
          hs x (List.mem_append_left _ hx))
        rintro ⟨x, hx, hup⟩
        rw [hs x (List.mem_append_right _ hx)] at hup
        cases hup

/-- **In whatever order actions come**, a game lists those who were registered in it
    and a game that was found is open until its room is given up. -/
theorem onRecord (autoOpen : Bool) (source : PuzzleSource) (acts : List Action) :
    OnRecord autoOpen source acts := by
  induction acts using List.reverseRecOn with
  | nil =>
    have hnever : ∀ {session id since}, ¬ Found autoOpen source [] session id since := by
      intro session id since hf
      generalize hacts : [] = acts at hf
      cases hf <;> simp at hacts
    refine ⟨coherent_empty autoOpen, fun _ _ _ hf => (hnever hf).elim, ?_,
      fun _ _ _ hf => (hnever hf).elim⟩
    exact fun _ _ _ h => nomatch h
  | append_singleton acts a ih => exact ih.act a

/-! ## Results -/

variable (autoOpen source acts) in
/-- A player was registered in a game. -/
def EnteredIn (id : GameId) (p : PlayerId) : Prop :=
  ∃ session, Registered autoOpen source acts session id ∧ session.player = p

/-- The result that is booked next is recorded in full iff both players are listed in
    the game that is open in the room. -/
theorem recordsResult_takeReport_iff {room : RoomId} {w l : PlayerId} {rest : List Report}
    (hnext : (after autoOpen source acts).reports = .gameEnded room w l :: rest) :
    (after autoOpen source acts).store.RecordsResult
        (after autoOpen source (acts ++ [.takeReport])).store room w l ↔
      ∃ id players, (after autoOpen source acts).store.gameFor room = some id ∧
        (after autoOpen source acts).store.roster id = some (room, players) ∧
        w ∈ players ∧ l ∈ players := by
  have hbooked : (after autoOpen source (acts ++ [.takeReport])).store =
      GameStore.ofGames.apply (after autoOpen source acts).store (.gameEnded room w l) := by
    rw [after_concat, act, takeReport, hnext]
  have hne := ((traced autoOpen source acts).ended room w l (hnext ▸ List.mem_cons_self)).1
  rw [hbooked, recordsResult_iff (onRecord autoOpen source acts).coherent hne]

/-- **When the result of a game is recorded in full.**  In whatever order actions
    came, let the end of a game in a room be what is booked next.  Then winner and
    loser are two players who came to the room on connections on which they were
    registered; the result is recorded in full iff both were registered in the game
    that is open in the room by now; and so it is if no report that was booked since
    both found their games has given the room up. -/
theorem result_recorded_iff (autoOpen : Bool) (source : PuzzleSource) (acts : List Action)
    (room : RoomId) (w l : PlayerId) (rest : List Report)
    (hnext : (after autoOpen source acts).reports = .gameEnded room w l :: rest) :
    let store := (after autoOpen source acts).store
    let store' := (after autoOpen source (acts ++ [.takeReport])).store
    (w ≠ l ∧ Came autoOpen source acts room w ∧ Came autoOpen source acts room l) ∧
      (store.RecordsResult store' room w l ↔ ∃ id, store.gameFor room = some id ∧
        EnteredIn autoOpen source acts id w ∧ EnteredIn autoOpen source acts id l) ∧
      ∀ s₁ s₂ id₁ id₂ since₁ since₂,
        Registered autoOpen source acts s₁ id₁ → Registered autoOpen source acts s₂ id₂ →
        Found autoOpen source acts s₁ id₁ since₁ → Found autoOpen source acts s₂ id₂ since₂ →
        s₁.room = room ∧ s₁.player = w → s₂.room = room ∧ s₂.player = l →
        (∀ x ∈ since₁ ++ since₂, x.givesUp room = false) → store.RecordsResult store' room w l := by
  have ho := onRecord autoOpen source acts
  have hended := (traced autoOpen source acts).ended room w l (hnext ▸ List.mem_cons_self)
  have hiff : (after autoOpen source acts).store.RecordsResult
      (after autoOpen source (acts ++ [.takeReport])).store room w l ↔
      ∃ id, (after autoOpen source acts).store.gameFor room = some id ∧
        EnteredIn autoOpen source acts id w ∧ EnteredIn autoOpen source acts id l := by
    rw [recordsResult_takeReport_iff hnext]
    refine exists_congr fun id => ⟨?_, ?_⟩
    · rintro ⟨players, hr, hp, hw, hl⟩
      exact ⟨hr, (ho.listed id room players hp w).1 hw, (ho.listed id room players hp l).1 hl⟩
    · rintro ⟨hr, hw, hl⟩
      obtain ⟨players, hp⟩ := ho.coherent.mapped room id hr
      exact ⟨players, hr, hp, (ho.listed id room players hp w).2 hw,
        (ho.listed id room players hp l).2 hl⟩
  refine ⟨hended, hiff, ?_⟩
  rintro s₁ s₂ id₁ id₂ since₁ since₂ hreg₁ hreg₂ hf₁ hf₂ ⟨rfl, rfl⟩ ⟨hroom, rfl⟩ hsince
  have h₁ := ho.isOpen s₁ id₁ since₁ hf₁ fun x hx => hsince x (List.mem_append_left _ hx)
  have h₂ := ho.isOpen s₂ id₂ since₂ hf₂ fun x hx =>
    hroom ▸ hsince x (List.mem_append_right _ hx)
  obtain rfl : id₁ = id₂ := Option.some.inj (h₁.symm.trans (hroom ▸ h₂))
  exact hiff.2 ⟨id₁, h₁, ⟨s₁, hreg₁, rfl⟩, ⟨s₂, hreg₂, rfl⟩⟩

end

/-! ### Two runs -/

/-- The frame with an answer that is worth a hundred. -/
def winningFrame : List UInt8 :=
  Message.encode ⟨.text .submit "1+1*9*9+9+9", ⟨"r"⟩, none⟩

/-- Two players come, everything is booked as it happens, and the first one wins. -/
def plainDuel : List Action :=
  [.openGame ⟨"r"⟩,
    .accept "/api/v1/ws/rooms/r/join?userId=ada", .advance ⟨1⟩, .advance ⟨1⟩, .advance ⟨1⟩,
    .accept "/api/v1/ws/rooms/r/join?userId=bob", .advance ⟨2⟩, .advance ⟨2⟩, .advance ⟨2⟩,
    .takeEvent, .takeEvent, .takeReport,
    .receive ⟨1⟩ (.frame winningFrame), .takeEvent, .takeReport]

/-- The result of such a duel is recorded in full. -/
theorem result_recorded_plainDuel :
    (after false (fun _ => none) plainDuel).reports = [.gameEnded ⟨"r"⟩ ⟨"ada"⟩ ⟨"bob"⟩] ∧
      (after false (fun _ => none) plainDuel).store.RecordsResult
        (after false (fun _ => none) (plainDuel ++ [.takeReport])).store ⟨"r"⟩ ⟨"ada"⟩ ⟨"bob"⟩ := by
  have hrun : (after false (fun _ => none) plainDuel).reports =
        [.gameEnded ⟨"r"⟩ ⟨"ada"⟩ ⟨"bob"⟩] ∧
      (after false (fun _ => none) plainDuel).store.gameFor ⟨"r"⟩ = some ⟨1⟩ ∧
      (after false (fun _ => none) plainDuel).store.roster ⟨1⟩ =
        some (⟨"r"⟩, [⟨"ada"⟩, ⟨"bob"⟩]) := by decide +kernel
  obtain ⟨hnext, hgame, hroster⟩ := hrun
  have hlisted := (onRecord false (fun _ => none) plainDuel).listed ⟨1⟩ _ _ hroster
  obtain ⟨-, hiff, -⟩ := result_recorded_iff false _ plainDuel ⟨"r"⟩ ⟨"ada"⟩ ⟨"bob"⟩ [] hnext
  exact ⟨hnext, hiff.2 ⟨⟨1⟩, hgame, (hlisted _).1 (by simp), (hlisted _).1 (by simp)⟩⟩

/-- `ada` leaves a room alone.  Before that is booked, `carol` finds the game of the
    room and is registered in it; then the room is given up, `carol` is seated, and
    `dan` finds another game.  They play, and `carol` wins. -/
def lateEviction : List Action :=
  [.openGame ⟨"r"⟩,
    .accept "/api/v1/ws/rooms/r/join?userId=ada", .advance ⟨1⟩, .advance ⟨1⟩, .advance ⟨1⟩,
    .takeEvent, .receive ⟨1⟩ .closed, .takeEvent,
    .accept "/api/v1/ws/rooms/r/join?userId=carol", .advance ⟨2⟩, .advance ⟨2⟩,
    .takeReport, .advance ⟨2⟩, .takeEvent,
    .openGame ⟨"r"⟩,
    .accept "/api/v1/ws/rooms/r/join?userId=dan", .advance ⟨3⟩, .advance ⟨3⟩, .advance ⟨3⟩,
    .takeEvent, .receive ⟨2⟩ (.frame winningFrame), .takeEvent, .takeReport, .takeReport]

/-- The winner is not listed in the game in which the result is recorded, whether
    rooms open games by themselves or not. -/
theorem result_without_winner :
    ((after true (fun _ => none) lateEviction).reports = [.gameEnded ⟨"r"⟩ ⟨"carol"⟩ ⟨"dan"⟩] ∧
      (after true (fun _ => none) lateEviction).store.gameFor ⟨"r"⟩ = some ⟨2⟩ ∧
      (after true (fun _ => none) lateEviction).store.roster ⟨2⟩ = some (⟨"r"⟩, [⟨"dan"⟩]) ∧
      ¬ (after true (fun _ => none) lateEviction).store.RecordsResult
        (after true (fun _ => none) (lateEviction ++ [.takeReport])).store
        ⟨"r"⟩ ⟨"carol"⟩ ⟨"dan"⟩) ∧
    ((after false (fun _ => none) lateEviction).reports = [.gameEnded ⟨"r"⟩ ⟨"carol"⟩ ⟨"dan"⟩] ∧
      (after false (fun _ => none) lateEviction).store.gameFor ⟨"r"⟩ = some ⟨2⟩ ∧
      (after false (fun _ => none) lateEviction).store.roster ⟨2⟩ = some (⟨"r"⟩, [⟨"dan"⟩]) ∧
      ¬ (after false (fun _ => none) lateEviction).store.RecordsResult
        (after false (fun _ => none) (lateEviction ++ [.takeReport])).store
        ⟨"r"⟩ ⟨"carol"⟩ ⟨"dan"⟩) := by
  have hrun : ∀ autoOpen,
      (after autoOpen (fun _ => none) lateEviction).reports =
          [.gameEnded ⟨"r"⟩ ⟨"carol"⟩ ⟨"dan"⟩] ∧
        (after autoOpen (fun _ => none) lateEviction).store.gameFor ⟨"r"⟩ = some ⟨2⟩ ∧
        (after autoOpen (fun _ => none) lateEviction).store.roster ⟨2⟩ =
          some (⟨"r"⟩, [⟨"dan"⟩]) := by decide +kernel
  have hnot : ∀ autoOpen, ¬ (after autoOpen (fun _ => none) lateEviction).store.RecordsResult
      (after autoOpen (fun _ => none) (lateEviction ++ [.takeReport])).store
      ⟨"r"⟩ ⟨"carol"⟩ ⟨"dan"⟩ := by
    intro autoOpen hrecords
    obtain ⟨hnext, hgame, hroster⟩ := hrun autoOpen
    obtain ⟨id, players, hid, hp, hw, -⟩ := (recordsResult_takeReport_iff hnext).1 hrecords
    obtain rfl := Option.some.inj (hgame.symm.trans hid)
    obtain ⟨-, rfl⟩ := Prod.mk.inj (Option.some.inj (hroster.symm.trans hp))
    simp at hw
  obtain ⟨hreports, hgame, hroster⟩ := hrun true
  obtain ⟨hreports', hgame', hroster'⟩ := hrun false
  exact ⟨⟨hreports, hgame, hroster, hnot true⟩, hreports', hgame', hroster', hnot false⟩

end HectocDuel.Server
