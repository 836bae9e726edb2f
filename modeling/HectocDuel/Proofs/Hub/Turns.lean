/-
  What a client hears of one event.

  `ClientTurn` lists, by the phase that a client is in, what it can hear of an
  event: it is turned away, or seated; it waits, or plays; and its seat ends.

  * `SitsIn.turn`: a client who is seated hears of every event one of these things;
  * `Sound.turn_join`: and so does a client who joins.
-/
import HectocDuel.Proofs.Hub.Signals

namespace HectocDuel

/-! ## Phases -/

/-- How far a client has come. -/
inductive Phase where
  /-- It has not joined. -/
  | outside
  /-- It is seated alone. -/
  | waiting
  /-- It is given a puzzle with these digits, as its opponent is. -/
  | active (digits : Digits)
  /-- It was turned away, or its seat has ended. -/
  | ended
  deriving DecidableEq

/-- The phase of a client who is seated. -/
def Phase.IsSeated : Phase → Prop
  | waiting | active _ => True
  | outside | ended => False

/-- What was heard last in a phase, besides messages. -/
def Phase.ending : Phase → List Signal
  | ended => [.closed]
  | outside | waiting | active _ => []

/-- The phase of the clients of a room. -/
def Room.phase (r : Room) : Phase :=
  match r.puzzle with
  | none => .waiting
  | some z => .active z.digits

theorem Room.isSeated_phase (r : Room) : r.phase.IsSeated := by
  rw [phase]
  split <;> trivial

theorem Room.phase_of_none {r : Room} (hz : r.puzzle = none) : r.phase = .waiting := by
  rw [phase, hz]

theorem Room.phase_of_some {r : Room} {z : Puzzle} (hz : r.puzzle = some z) :
    r.phase = .active z.digits := by
  rw [phase, hz]

/-- What the hub says to a client. -/
def Client.said (c : Client) (body : Body) : Signal :=
  .told (Notice.inRoom c.room body)

/-- A client is given the digits of a puzzle. -/
def Client.assigned (c : Client) (digits : Digits) : Signal :=
  .told { body := .puzzleAssign digits, room := c.room, sender := some c.player }

namespace Hub

/-! ## What a client hears of an event -/

/-- The client `c` hears `signals` of an event in the hub `h`, which takes it from
    one phase to another. -/
inductive ClientTurn (h : Hub) (c : Client) : Phase → Event → List Signal → Phase → Prop where
  /-- It hears nothing. -/
  | silent {φ : Phase} {e : Event} : ClientTurn h c φ e [] φ
  /-- It opens the room. -/
  | opens : h.rooms.get? c.room = none →
      ClientTurn h c .outside (.join c) [c.said Notice.roomCreated] .waiting
  /-- It is turned away because its player is seated. -/
  | duplicate : (h.seated? c.room c.player).isSome →
      ClientTurn h c .outside (.join c)
        [c.said (Notice.rejected (.alreadyInRoom c.player c.room)), .closed] .ended
  /-- It is turned away because there is no place. -/
  | crowded {r : Room} : h.rooms.get? c.room = some r → r.isFull →
      ClientTurn h c .outside (.join c) [c.said Notice.roomFull, .closed] .ended
  /-- It finds an opponent, and both are given a puzzle. -/
  | enters {d : Digits} : (h.rooms.get? c.room).isSome →
      ClientTurn h c .outside (.join c) [c.said Notice.joinSuccess, c.assigned d] (.active d)
  /-- An opponent comes, and both are given a puzzle. -/
  | joined {o : Client} {d : Digits} : o.room = c.room → o.player ≠ c.player →
      ClientTurn h c .waiting (.join o) [c.assigned d] (.active d)
  /-- It answers before there is a puzzle. -/
  | unassigned {text : String} :
      ClientTurn h c .waiting (.submit c.room c.player c.connection text)
        [c.said (Notice.rejected .puzzleNotAssigned)] .waiting
  /-- Its answer does not use the digits of the puzzle. -/
  | mismatched {d : Digits} {text : String} :
      ClientTurn h c (.active d) (.submit c.room c.player c.connection text)
        [c.said Notice.invalidFormat] (.active d)
  /-- Its answer has no value. -/
  | unverified {d : Digits} {text : String} {e : ExpressionError} :
      ClientTurn h c (.active d) (.submit c.room c.player c.connection text)
        [c.said (Notice.unverified e)] (.active d)
  /-- Its answer is not worth the target. -/
  | wrong {d : Digits} {text : String} :
      ClientTurn h c (.active d) (.submit c.room c.player c.connection text)
        [c.said Notice.incorrectSubmission] (.active d)
  /-- Somebody in its room has a message for all. -/
  | hears {φ : Phase} {k : ConnectionId} {m : Message} : φ.IsSeated → m.room = c.room →
      ClientTurn h c φ (.broadcast k m) [.told m] φ
  /-- Its opponent leaves. -/
  | deserted {d : Digits} {p : PlayerId} {k : ConnectionId} : p ≠ c.player →
      ClientTurn h c (.active d) (.leave c.room p k) [c.said Notice.opponentLeft] .waiting
  /-- It leaves. -/
  | leaves {φ : Phase} : φ.IsSeated →
      ClientTurn h c φ (.leave c.room c.player c.connection)
        [c.said Notice.leaveSuccess, .closed] .ended
  /-- It solves the puzzle. -/
  | wins {d : Digits} {text : String} :
      ClientTurn h c (.active d) (.submit c.room c.player c.connection text)
        [c.said Notice.correctSubmission, .closed] .ended
  /-- Its opponent solves the puzzle. -/
  | loses {d : Digits} {p : PlayerId} {k : ConnectionId} {text : String} : p ≠ c.player →
      ClientTurn h c (.active d) (.submit c.room p k text)
        [c.said Notice.gameOver, .closed] .ended

/-- The phase of a client is that of its seat. -/
inductive Fits (h : Hub) (c : Client) : Phase → Prop where
  | seated {r : Room} : h.rooms.get? c.room = some r → r.clients.get? c.player = some c →
      Fits h c r.phase
  | unseated {φ : Phase} : ¬ φ.IsSeated → h.seated? c.room c.player ≠ some c → Fits h c φ

theorem Fits.isSeated_iff {h : Hub} {c : Client} {φ : Phase} (hf : h.Fits c φ) :
    φ.IsSeated ↔ h.seated? c.room c.player = some c := by
  cases hf with
  | @seated r hr hc => exact iff_of_true r.isSeated_phase ((seated?_of_get? hr _).trans hc)
  | unseated hn hc => exact iff_of_false hn hc

theorem Fits.eq_phase {h : Hub} {c : Client} {φ : Phase} (hf : h.Fits c φ) {r : Room}
    (hr : h.rooms.get? c.room = some r) (hc : r.clients.get? c.player = some c) :
    φ = r.phase := by
  cases hf with
  | seated hr' => rw [Option.some.inj (hr.symm.trans hr')]
  | unseated _ hn => exact absurd ((seated?_of_get? hr _).trans hc) hn

theorem Fits.ended_of_get?_eq_none {h : Hub} {c : Client} (hr : h.rooms.get? c.room = none) :
    h.Fits c .ended := by
  refine .unseated id ?_
  rw [seated?, hr]
  simp

/-- The client `c`, who alone has the queue `q`, sits in the room `r`. -/
structure SitsIn (h : Hub) (c : Client) (q : QueueId) (r : Room) : Prop where
  sound : h.Sound
  get?_room : h.rooms.get? c.room = some r
  get?_client : r.clients.get? c.player = some c
  outbound : c.outbound = some q
  own : ∀ room d, h.seated? room d.player = some d → d.outbound = some q → d = c

section
variable {source : PuzzleSource} {h h' : Hub} {e : Event} {effects : List Effect} {c : Client}
  {q : QueueId} {r : Room}

/-! ### A client who is seated -/

namespace SitsIn

theorem id_eq (hc : h.SitsIn c q r) : r.id = c.room :=
  (hc.sound _ _ hc.get?_room).1

theorem room_sound (hc : h.SitsIn c q r) : r.Sound :=
  (hc.sound _ _ hc.get?_room).2

theorem eq_room (hc : h.SitsIn c q r) {r' : Room} (hr : h.rooms.get? c.room = some r') : r = r' :=
  Option.some.inj (hc.get?_room.symm.trans hr)

theorem fits (hc : h.SitsIn c q r) : h.Fits c r.phase :=
  .seated hc.get?_room hc.get?_client

theorem outbound_ne (hc : h.SitsIn c q r) {p : PlayerId} {d : Client}
    (hd : r.clients.get? p = some d) (hne : d ≠ c) : d.outbound ≠ some q := by
  obtain rfl := (hc.room_sound.seats p d hd).1
  exact fun hdq => hne (hc.own _ d ((seated?_of_get? hc.get?_room _).trans hd) hdq)

/-- Whoever sits in the room of a client is that client, or a player with another
    queue. -/
theorem own_or_other (hc : h.SitsIn c q r) {p : PlayerId} {k : ConnectionId} {d : Client}
    (hd : r.clientOn p k = some d) :
    (p = c.player ∧ k = c.connection ∧ d = c) ∨ (p ≠ c.player ∧ d.outbound ≠ some q) := by
  obtain ⟨hdp, rfl⟩ := Room.clientOn_eq_some.1 hd
  by_cases hp : p = c.player
  · obtain rfl : c = d := Option.some.inj (hc.get?_client.symm.trans (hp ▸ hdp))
    exact .inl ⟨hp, rfl, rfl⟩
  · have hne : d ≠ c := fun heq => hp ((hc.room_sound.seats p d hdp).1 ▸ heq ▸ rfl)
    exact .inr ⟨hp, hc.outbound_ne hdp hne⟩

theorem signalsTo_flatMap (hc : h.SitsIn c q r) {f : Client → List Effect}
    (hf : ∀ d, d.outbound ≠ some q → signalsTo q (f d) = []) :
    signalsTo q (r.clients.values.flatMap f) = signalsTo q (f c) :=
  hc.room_sound.seats.signalsTo_flatMap hc.get?_client fun d hd hne =>
    hf d (hc.outbound_ne hd hne)

theorem signalsTo_deliver_values (hc : h.SitsIn c q r) (m : Client → Message) :
    signalsTo q (r.clients.values.flatMap fun d => d.deliver (m d)) = [.told (m c)] := by
  rw [hc.signalsTo_flatMap fun d hd => ?_, signalsTo_deliver, if_pos hc.outbound]
  rw [signalsTo_deliver, if_neg hd]

theorem signalsTo_closing_values (hc : h.SitsIn c q r) :
    signalsTo q (r.clients.values.flatMap Client.closing) = [.closed] := by
  rw [hc.signalsTo_flatMap fun d hd => ?_, signalsTo_closing, if_pos hc.outbound]
  rw [signalsTo_closing, if_neg hd]

theorem signalsTo_remove (hc : h.SitsIn c q r) (p : PlayerId) (m : Message) :
    signalsTo q ((r.remove p).deliverAll m) = if p = c.player then [] else [.told m] := by
  have hseats := hc.room_sound.seats.remove p
  have hother : ∀ d, (r.remove p).clients.get? d.player = some d → d ≠ c →
      signalsTo q (d.deliver m) = [] := by
    intro d hd hne
    rw [signalsTo_deliver, if_neg (hc.outbound_ne (Room.get?_remove_eq_some.1 hd).2 hne)]
  split
  · next hp =>
    refine signalsTo_flatMap_eq_nil fun d hd => ?_
    have hd := (Room.mem_values_iff hseats).1 hd
    exact hother d hd fun heq => (Room.get?_remove_eq_some.1 hd).1 (heq ▸ hp.symm)
  · next hp =>
    have hstays := Room.get?_remove_eq_some.2 ⟨Ne.symm hp, hc.get?_client⟩
    rw [Room.deliverAll, hseats.signalsTo_flatMap hstays hother, signalsTo_deliver,
      if_pos hc.outbound]

theorem turn_join (hc : h.SitsIn c q r) {o : Client} (hroom : o.room = c.room)
    (ho : o.outbound ≠ some q) (ht : Transition source h (.join o) h' effects) :
    ∃ φ, ClientTurn h c r.phase (.join o) (signalsTo q effects) φ ∧ h'.Fits c φ := by
  cases ht with
  | opened hr =>
    rw [hroom, hc.get?_room] at hr
    cases hr
  | duplicate | crowded =>
    rw [signalsTo_farewell, if_neg ho]
    exact ⟨_, .silent, hc.fits⟩
  | waiting hf hr hp hw => exact absurd (hc.sound.filled hr hf hp).2 hw
  | @started _ r' hf hr hp =>
    obtain rfl := hc.eq_room (hroom ▸ hr)
    have h1 := (hc.sound.filled hr hf hp).1
    have hz : r.puzzle = none := by
      rw [← Option.not_isSome_iff_eq_none, hc.room_sound.puzzle_iff, h1]
      decide
    have hne : c.player ≠ o.player := fun heq =>
      hp (by rw [Room.contains, Table.contains, ← heq, hc.get?_client]; rfl)
    have hv : (r.seat o hf).clients.values = [c, o] := by
      rw [Room.values_seat hf hp, Table.values, Room.Sound.alone h1 hc.get?_client]
      rfl
    have hsig : signalsTo q (o.deliver (Notice.inRoom o.room Notice.joinSuccess) ++
        (h.start source (r.seat o hf)).2) =
          [c.assigned ((source h.draws).getD unsolvedPuzzle).digits] := by
      rw [signalsTo_append, signalsTo_start, hv]
      simp [signalsTo_append, signalsTo_deliver, ho, hc.outbound, Client.assigned, Room.seat,
        hc.id_eq]
    have hget : (h.start source (r.seat o hf)).1.rooms.get? c.room = some _ :=
      (get?_setRoom h _ c.room).trans (if_pos hc.id_eq.symm)
    rw [hsig, Room.phase_of_none hz]
    exact ⟨_, .joined hroom hne.symm,
      .seated hget ((Room.get?_seat hf c.player).trans ((if_neg hne).trans hc.get?_client))⟩

theorem turn_leave (hc : h.SitsIn c q r) {p : PlayerId} {k : ConnectionId}
    (ht : Transition source h (.leave c.room p k) h' effects) :
    ∃ φ, ClientTurn h c r.phase (.leave c.room p k) (signalsTo q effects) φ ∧ h'.Fits c φ := by
  cases ht with
  | absent => exact ⟨_, .silent, hc.fits⟩
  | @emptied _ _ _ r' d hr hd he =>
    obtain rfl := hc.eq_room hr
    have h1 : r.clients.size = 1 := by rw [← Room.size_remove hd, (Room.isEmpty_iff _).1 he]
    obtain ⟨hdp, rfl⟩ := Room.clientOn_eq_some.1 hd
    have hone := (Room.Sound.alone h1 hc.get?_client).symm.trans (Room.Sound.alone h1 hdp)
    obtain ⟨rfl, rfl⟩ : c.player = p ∧ c = d := by simpa using hone
    rw [signalsTo_append, signalsTo_farewell, if_pos hc.outbound]
    refine ⟨_, .leaves r.isSeated_phase, Fits.ended_of_get?_eq_none ?_⟩
    rw [get?_dropRoom, if_pos rfl]
  | @abandoned _ _ _ r' d hr hd he =>
    obtain rfl := hc.eq_room hr
    have hget := (get?_setRoom h { r.remove p with puzzle := none } c.room).trans
      (if_pos hc.id_eq.symm)
    rw [signalsTo_append, signalsTo_farewell, hc.signalsTo_remove]
    rcases hc.own_or_other hd with ⟨rfl, rfl, rfl⟩ | ⟨hp, ho⟩
    · -- The client leaves.
      rw [if_pos hc.outbound, if_pos rfl]
      refine ⟨_, .leaves r.isSeated_phase, .unseated id ?_⟩
      rw [seated?_of_get? hget]
      simp [Room.get?_remove]
    · -- Its opponent leaves, and it stays behind.
      have h2 : r.clients.size = 2 := by
        have hsize := Room.size_remove hd
        rw [Room.isEmpty_iff] at he
        rcases hc.room_sound.size with h | h <;> omega
      obtain ⟨z, hz⟩ := Option.isSome_iff_exists.1 (hc.room_sound.puzzle_iff.2 h2)
      rw [if_neg ho, if_neg hp, Room.phase_of_some hz]
      exact ⟨_, .deserted hp,
        .seated hget (Room.get?_remove_eq_some.2 ⟨Ne.symm hp, hc.get?_client⟩)⟩

theorem turn_broadcast (hc : h.SitsIn c q r) {k : ConnectionId} {m : Message}
    (hroom : m.room = c.room) (ht : Transition source h (.broadcast k m) h' effects) :
    ∃ φ, ClientTurn h c r.phase (.broadcast k m) (signalsTo q effects) φ ∧ h'.Fits c φ := by
  cases ht with
  | relayed hr =>
    rw [hroom] at hr
    obtain rfl := hc.eq_room hr
    rw [Room.deliverAll, hc.signalsTo_deliver_values]
    exact ⟨_, .hears r.isSeated_phase hroom, hc.fits⟩
  | unrelayed => exact ⟨_, .silent, hc.fits⟩

theorem turn_submit (hc : h.SitsIn c q r) {p : PlayerId} {k : ConnectionId} {text : String}
    (ht : Transition source h (.submit c.room p k text) h' effects) :
    ∃ φ, ClientTurn h c r.phase (.submit c.room p k text) (signalsTo q effects) φ ∧
      h'.Fits c φ := by
  -- A reply is heard by the client who answers, and by nobody else.
  have hreply : ∀ {d : Client} {body : Body}, r.clientOn p k = some d →
      ClientTurn h c r.phase (.submit c.room c.player c.connection text) [c.said body] r.phase →
        ∃ φ, ClientTurn h c r.phase (.submit c.room p k text)
          (signalsTo q (d.deliver (Notice.inRoom c.room body))) φ ∧ h.Fits c φ := by
    intro d body hd hturn
    rw [signalsTo_deliver]
    rcases hc.own_or_other hd with ⟨rfl, rfl, rfl⟩ | ⟨-, ho⟩
    · rw [if_pos hc.outbound]
      exact ⟨_, hturn, hc.fits⟩
    · rw [if_neg ho]
      exact ⟨_, .silent, hc.fits⟩
  cases ht with
  | unseated => exact ⟨_, .silent, hc.fits⟩
  | unassigned hr hd hz =>
    obtain rfl := hc.eq_room hr
    exact hreply hd (Room.phase_of_none hz ▸ .unassigned)
  | mismatched hr hd hz =>
    obtain rfl := hc.eq_room hr
    exact hreply hd (Room.phase_of_some hz ▸ .mismatched)
  | unverified hr hd hz =>
    obtain rfl := hc.eq_room hr
    exact hreply hd (Room.phase_of_some hz ▸ .unverified)
  | wrong hr hd hz =>
    obtain rfl := hc.eq_room hr
    rw [signalsTo_report]
    exact hreply hd (Room.phase_of_some hz ▸ .wrong)
  | solved hr hd hz =>
    obtain rfl := hc.eq_room hr
    have hsig : signalsTo q (h.finish r p).2 =
        [c.said (if c.player = p then Notice.correctSubmission else Notice.gameOver), .closed] := by
      rw [signalsTo_finish, hc.signalsTo_deliver_values, hc.signalsTo_closing_values, hc.id_eq]
      rfl
    have hended : (h.finish r p).1.Fits c .ended :=
      Fits.ended_of_get?_eq_none ((get?_dropRoom h r.id c.room).trans (if_pos hc.id_eq.symm))
    rw [signalsTo_report, hsig, Room.phase_of_some hz]
    rcases hc.own_or_other hd with ⟨rfl, rfl, -⟩ | ⟨hp, -⟩
    · rw [if_pos rfl]
      exact ⟨_, .wins, hended⟩
    · rw [if_neg (Ne.symm hp)]
      exact ⟨_, .loses hp, hended⟩

/-- **A client who is seated hears of every event one of these things**, and its
    phase is then again that of its seat. -/
theorem turn (hc : h.SitsIn c q r) (hjoin : ∀ o, e = .join o → o.outbound ≠ some q)
    (ht : Transition source h e h' effects) :
    ∃ φ, ClientTurn h c r.phase e (signalsTo q effects) φ ∧ h'.Fits c φ := by
  by_cases hroom : e.room? = some c.room
  · cases e with
    | join o => exact hc.turn_join (Option.some.inj hroom) (hjoin o rfl) ht
    | leave room p k =>
      obtain rfl := Option.some.inj hroom
      exact hc.turn_leave ht
    | broadcast k m => exact hc.turn_broadcast (Option.some.inj hroom) ht
    | submit room p k text =>
      obtain rfl := Option.some.inj hroom
      exact hc.turn_submit ht
    | info | count =>
      cases ht
      exact ⟨_, .silent, hc.fits⟩
  · have hn : signalsTo q effects = [] := by
      refine hc.sound.unheard ht hjoin fun room d he hd hdq => hroom ?_
      -- Whoever hears has the queue of the client, and so is that client.
      obtain rfl := hc.own room d hd hdq
      rw [he, (hc.sound.of_seated hd).2.1]
    rw [hn]
    exact ⟨_, .silent, .seated ((hc.sound.elsewhere ht hroom).trans hc.get?_room) hc.get?_client⟩

end SitsIn

/-! ### A client who joins -/

/-- **A client who joins is seated or turned away**, when nobody who is seated has
    its queue. -/
theorem Sound.turn_join (hs : h.Sound) (ho : c.outbound = some q)
    (hown : ∀ room d, h.seated? room d.player = some d → d.outbound ≠ some q)
    (ht : Transition source h (.join c) h' effects) :
    ∃ φ, ClientTurn h c .outside (.join c) (signalsTo q effects) φ ∧ h'.Fits c φ ∧
      φ ≠ .outside := by
  have hopen : c.isClosed = false := by rw [Client.isClosed, ho]; rfl
  have hended : h.Fits c .ended := .unseated id fun hc => hown _ _ hc ho
  cases ht with
  | opened hr =>
    rw [signalsTo_deliver, if_pos ho]
    have hget := (get?_setRoom h (({ id := c.room } : Room).seat c (Room.not_isFull_new _))
      c.room).trans (if_pos rfl)
    exact ⟨_, .opens hr, .seated hget ((Room.get?_seat _ _).trans (if_pos rfl)), by simp⟩
  | duplicate hr hc =>
    rw [signalsTo_farewell, if_pos ho]
    refine ⟨_, .duplicate ?_, hended, by simp⟩
    rw [seated?_of_get? hr]
    exact hc
  | crowded hr _ hf =>
    rw [signalsTo_farewell, if_pos ho]
    exact ⟨_, .crowded hr hf, hended, by simp⟩
  | waiting hf hr hp hw => exact absurd (hs.filled hr hf hp).2 hw
  | @started _ r hf hr hp =>
    obtain ⟨hid, hrs⟩ := hs _ _ hr
    have hc : (r.seat c hf).clients.get? c.player = some c :=
      (Room.get?_seat hf _).trans (if_pos rfl)
    have hother : ∀ d, (r.seat c hf).clients.get? d.player = some d → d ≠ c →
        d.outbound ≠ some q := by
      intro d hd hne
      rw [Room.get?_seat] at hd
      split at hd
      · exact absurd (Option.some.inj hd).symm hne
      · exact hown _ d ((seated?_of_get? hr _).trans hd)
    have hsig : signalsTo q (h.start source (r.seat c hf)).2 =
        [c.assigned ((source h.draws).getD unsolvedPuzzle).digits] := by
      have hseats := hrs.seats.seat hf hid.symm hopen
      rw [signalsTo_start, hseats.signalsTo_flatMap hc fun d hd hne => ?_, signalsTo_deliver,
        if_pos ho]
      · simp [Client.assigned, Room.seat, hid]
      · rw [signalsTo_deliver, if_neg (hother d hd hne)]
    rw [signalsTo_append, signalsTo_deliver, if_pos ho, hsig]
    have hget : (h.start source (r.seat c hf)).1.rooms.get? c.room = some _ :=
      (get?_setRoom h _ c.room).trans (if_pos hid.symm)
    exact ⟨_, .enters (by rw [hr]; rfl), .seated hget hc, by simp⟩

end

end Hub

end HectocDuel
