/-
  The table of rooms between two events.

  A room is sound when it holds one or two clients, each stored under its own
  player, of this room and with an open queue, and has a puzzle iff it holds
  two.  The hub is sound when every room is, and is stored under its own name.
  Inside an event this is broken for a while: a second client is seated before
  there is a puzzle, and a client is removed before the puzzle is.

  * `Sound.transition`: an event restores soundness, whatever the source of puzzles
    gives, provided that joining clients are new (`Event.Fresh`);
  * `run_sound`: so every run keeps it; no client is seated in a full room, and
    all that is told about a room is one player waiting without digits or two
    players with digits.
-/
import HectocDuel.Proofs.Hub.Transition
import HectocDuel.Proofs.Table

namespace HectocDuel

/-! ## What reaches a client -/

namespace Client

theorem mem_deliver {c : Client} {m : Message} {x : Effect} :
    x ∈ c.deliver m ↔ ∃ q, c.outbound = some q ∧ x = .deliver q m := by
  rw [deliver, Option.mem_toList, Option.map_eq_some_iff]
  simp only [eq_comm]

theorem mem_closing {c : Client} {x : Effect} :
    x ∈ c.closing ↔ ∃ q, c.outbound = some q ∧ x = .close q := by
  rw [closing, Option.mem_toList, Option.map_eq_some_iff]
  simp only [eq_comm]

end Client

/-! ## Rooms -/

namespace Room

/-- Every client is stored under its player, belongs to the room and has an
    open queue. -/
def Seats (r : Room) : Prop :=
  ∀ p c, r.clients.get? p = some c → c.player = p ∧ c.room = r.id ∧ c.isClosed = false

/-- A room between two events. -/
structure Sound (r : Room) : Prop where
  size : r.clients.size = 1 ∨ r.clients.size = 2
  seats : r.Seats
  puzzle_iff : r.puzzle.isSome ↔ r.clients.size = 2

theorem isFull_iff (r : Room) : r.isFull ↔ 2 ≤ r.clients.size :=
  decide_eq_true_iff

theorem isEmpty_iff (r : Room) : r.isEmpty ↔ r.clients.size = 0 := by
  simp [isEmpty]

theorem clientOn_eq_some {r : Room} {p : PlayerId} {k : ConnectionId} {c : Client} :
    r.clientOn p k = some c ↔ r.clients.get? p = some c ∧ c.connection = k := by
  simp [clientOn, Option.filter_eq_some_iff]

theorem get?_remove (r : Room) (p q : PlayerId) :
    (r.remove p).clients.get? q = if q = p then none else r.clients.get? q :=
  r.clients.get?_erase p q

theorem size_remove {r : Room} {p : PlayerId} {k : ConnectionId} {c : Client}
    (hc : r.clientOn p k = some c) : (r.remove p).clients.size + 1 = r.clients.size :=
  r.clients.size_erase (clientOn_eq_some.1 hc).1

theorem size_seat {r : Room} {c : Client} (hr : ¬ r.isFull) (hc : ¬ r.contains c.player) :
    (r.seat c hr).clients.size = r.clients.size + 1 :=
  r.clients.size_insert (Option.not_isSome_iff_eq_none.1 hc) c

theorem seats_new (id : RoomId) : ({ id } : Room).Seats := by
  intro p c hc
  simp at hc

theorem Seats.seat {r : Room} (hs : r.Seats) {c : Client} (hr : ¬ r.isFull) (hc : c.room = r.id)
    (ho : c.isClosed = false) : (r.seat c hr).Seats := by
  intro p c' hc'
  rw [Room.seat, Table.get?_insert] at hc'
  split at hc'
  · next hp =>
    obtain rfl := Option.some.inj hc'
    exact ⟨hp.symm, hc, ho⟩
  · exact hs p c' hc'

theorem Seats.remove {r : Room} (hs : r.Seats) (p : PlayerId) : (r.remove p).Seats := by
  intro q c hc
  rw [get?_remove] at hc
  split at hc
  · cases hc
  · exact hs q c hc

end Room

/-! ## Snapshots -/

/-- What is seen of a sound room: one player waits and there are no digits, or
    two players, in the order of their names, play with some. -/
def RoomInfo.Coherent (i : RoomInfo) : Prop :=
  (∃ p, i.state = .waiting ∧ i.players = [p] ∧ i.digits = none) ∨
    ∃ p q d, i.state = .active ∧ i.players = [p, q] ∧ p ≠ q ∧ p.text ≤ q.text ∧ i.digits = some d

theorem Room.info_players (r : Room) :
    r.info.players.Perm r.clients.keys ∧ r.info.players.Pairwise (·.text ≤ ·.text) := by
  refine ⟨List.mergeSort_perm _ _, ?_⟩
  refine (List.pairwise_mergeSort (fun a b c hab hbc => ?_) (fun a b => ?_) _).imp fun h => ?_
  · exact decide_eq_true (String.le_trans (of_decide_eq_true hab) (of_decide_eq_true hbc))
  · rcases String.le_total a.text b.text with h | h
    · simp [h]
    · simp [h]
  · exact of_decide_eq_true h

theorem Room.Sound.info_coherent {r : Room} (hs : r.Sound) : r.info.Coherent := by
  obtain ⟨hp, ho⟩ := r.info_players
  have hl : r.info.players.length = r.clients.size := by
    rw [hp.length_eq, Table.keys, List.length_map, Table.size]
  rcases hs.size with h1 | h2
  · obtain ⟨p, hp⟩ := List.length_eq_one_iff.1 (hl.trans h1)
    have hn : r.puzzle = none := by
      rw [← Option.not_isSome_iff_eq_none, hs.puzzle_iff, h1]
      decide
    exact .inl ⟨p, by simp [info, state, hn], hp, by simp [info, hn]⟩
  · obtain ⟨p, q, hpq⟩ := List.length_eq_two.1 (hl.trans h2)
    obtain ⟨z, hz⟩ := Option.isSome_iff_exists.1 (hs.puzzle_iff.2 h2)
    have hd : r.info.players.Nodup := hp.nodup_iff.2 r.clients.nodup_keys
    rw [hpq] at hd ho
    refine .inr ⟨p, q, z.digits, by simp [info, state, hz], hpq, ?_, ?_, by simp [info, hz]⟩
    · simpa using hd
    · simpa using ho

/-! ## The hub -/

/-- The client of a joining event is new. -/
def Event.Fresh : Event → Prop
  | .join c => ∃ p k room q, c = Client.new p k room q
  | _ => True

namespace Hub

/-- **The invariant of the table of rooms.** -/
def Sound (h : Hub) : Prop :=
  ∀ room r, h.rooms.get? room = some r → r.id = room ∧ r.Sound

theorem sound_empty : ({} : Hub).Sound := by
  intro room r hr
  simp at hr

theorem get?_setRoom (h : Hub) (r : Room) (room : RoomId) :
    (h.setRoom r).rooms.get? room = if room = r.id then some r else h.rooms.get? room :=
  h.rooms.get?_insert r.id room r

theorem get?_dropRoom (h : Hub) (dropped room : RoomId) :
    (h.dropRoom dropped).rooms.get? room =
      if room = dropped then none else h.rooms.get? room :=
  h.rooms.get?_erase dropped room

theorem Sound.setRoom {h : Hub} (hs : h.Sound) {r : Room} (hr : r.Sound) :
    (h.setRoom r).Sound := by
  intro room r' hr'
  rw [get?_setRoom] at hr'
  split at hr'
  · next heq =>
    obtain rfl := Option.some.inj hr'
    exact ⟨heq.symm, hr⟩
  · exact hs room r' hr'

theorem Sound.dropRoom {h : Hub} (hs : h.Sound) (room : RoomId) : (h.dropRoom room).Sound := by
  intro room' r hr
  rw [get?_dropRoom] at hr
  split at hr
  · cases hr
  · exact hs room' r hr

/-- Only the number of draws tells the hub after a start from one in which the
    room was given its puzzle. -/
theorem Sound.start {h : Hub} (hs : h.Sound) (source : PuzzleSource) {r : Room}
    (hr : Room.Sound { r with puzzle := some ((source h.draws).getD unsolvedPuzzle) }) :
    (h.start source r).1.Sound :=
  Sound.setRoom hs hr

section
variable {source : PuzzleSource} {h h' : Hub} {effects : List Effect}

theorem Sound.join (hs : h.Sound) {c : Client} (hc : c.isClosed = false)
    (ht : Transition source h (.join c) h' effects) : h'.Sound := by
  cases ht with
  | opened hr =>
    have h1 : (({ id := c.room } : Room).seat c (Room.not_isFull_new _)).clients.size = 1 :=
      Room.size_seat (Room.not_isFull_new c.room) (by simp [Room.contains, Table.contains])
    refine hs.setRoom ⟨.inl h1, (Room.seats_new c.room).seat _ rfl hc, ?_⟩
    rw [h1]
    simp [Room.seat]
  | duplicate | crowded => exact hs
  | waiting hf hr hp hw =>
    -- A sound room has a client, so the second one fills it.
    have h2 := Room.size_seat hf hp
    rw [Room.isFull_iff] at hf hw
    rcases (hs _ _ hr).2.size with h | h <;> omega
  | @started _ r hf hr hp hw =>
    obtain ⟨hid, hrs⟩ := hs _ _ hr
    have h2 : (r.seat c hf).clients.size = 2 := by
      have h1 := Room.size_seat hf hp
      rw [Room.isFull_iff] at hf
      rcases hrs.size with h | h <;> omega
    exact hs.start source ⟨.inr h2, hrs.seats.seat hf hid.symm hc, by simp [h2]⟩

theorem Sound.leave (hs : h.Sound) {room : RoomId} {p : PlayerId} {k : ConnectionId}
    (ht : Transition source h (.leave room p k) h' effects) : h'.Sound := by
  cases ht with
  | absent => exact hs
  | emptied => exact hs.dropRoom room
  | @abandoned _ _ _ r _ hr hc he =>
    obtain ⟨hid, hrs⟩ := hs _ _ hr
    have h1 : (r.remove p).clients.size = 1 := by
      have h2 := Room.size_remove hc
      rw [Room.isEmpty_iff] at he
      rcases hrs.size with h | h <;> omega
    exact hs.setRoom ⟨.inl h1, hrs.seats.remove p, by simp [h1]⟩

/-- **An event restores soundness**, if a client who joins by it is new. -/
theorem Sound.transition (hs : h.Sound) {e : Event} (he : e.Fresh)
    (ht : Transition source h e h' effects) : h'.Sound := by
  cases e with
  | join c =>
    obtain ⟨p, k, room, q, rfl⟩ := he
    exact hs.join rfl ht
  | leave room p k => exact hs.leave ht
  | submit room p k expression =>
    cases ht with
    | solved => exact hs.dropRoom _
    | _ => exact hs
  | broadcast | info | count => cases ht <;> exact hs

end

/-! ## Who is seated after an event -/

theorem seated?_setRoom (h : Hub) (r : Room) (room : RoomId) (p : PlayerId) :
    (h.setRoom r).seated? room p = if room = r.id then r.clients.get? p else h.seated? room p := by
  rw [seated?, get?_setRoom]
  split <;> rfl

theorem seated?_dropRoom (h : Hub) (dropped room : RoomId) (p : PlayerId) :
    (h.dropRoom dropped).seated? room p = if room = dropped then none else h.seated? room p := by
  rw [seated?, get?_dropRoom]
  split <;> rfl

theorem seated?_start (source : PuzzleSource) (h : Hub) (r : Room) (room : RoomId)
    (p : PlayerId) :
    (h.start source r).1.seated? room p =
      if room = r.id then r.clients.get? p else h.seated? room p :=
  seated?_setRoom h _ room p

theorem seated?_of_get? {h : Hub} {room : RoomId} {r : Room} (hr : h.rooms.get? room = some r)
    (p : PlayerId) : h.seated? room p = r.clients.get? p := by
  rw [seated?, hr]
  rfl

section
variable {source : PuzzleSource} {h h' : Hub} {effects : List Effect} {e : Event}

theorem Sound.not_isFull_of_seated (hs : h.Sound) (ht : Transition source h e h' effects)
    {room : RoomId} {r : Room} {p : PlayerId} {c : Client} (hr : h.rooms.get? room = some r)
    (hafter : h'.seated? room p = some c) (hbefore : h.seated? room p ≠ some c) :
    ¬ r.isFull := by
  -- A room that is put back with one more client is the one that had a place.
  have hseat : ∀ {c' r'} (hf : ¬ r'.isFull), h.rooms.get? c'.room = some r' →
      (if room = r'.id then (r'.seat c' hf).clients.get? p else h.seated? room p) = some c →
        ¬ r.isFull := by
    intro c' r' hf hr' hafter
    split at hafter
    · next heq =>
      obtain rfl : room = c'.room := heq.trans (hs _ _ hr').1
      obtain rfl : r = r' := Option.some.inj (hr.symm.trans hr')
      exact hf
    · exact absurd hafter hbefore
  have hdrop : ∀ {room'}, (h.dropRoom room').seated? room p ≠ some c := by
    intro room' hafter
    rw [seated?_dropRoom] at hafter
    split at hafter
    · cases hafter
    · exact hbefore hafter
  cases ht with
  | @opened c' hr' =>
    rw [seated?_setRoom] at hafter
    split at hafter
    · next heq =>
      obtain rfl : room = c'.room := heq
      rw [hr] at hr'
      cases hr'
    · exact absurd hafter hbefore
  | waiting hf hr' => exact hseat hf hr' ((seated?_setRoom _ _ _ _).symm.trans hafter)
  | started hf hr' => exact hseat hf hr' ((seated?_start _ _ _ _ _).symm.trans hafter)
  | emptied => exact absurd hafter hdrop
  | solved => exact absurd hafter hdrop
  | @abandoned room' p' _ r' _ hr' hc he =>
    rw [seated?_setRoom] at hafter
    split at hafter
    · next heq =>
      obtain rfl : room = room' := heq.trans (hs _ _ hr').1
      -- Whoever is left was seated before.
      change (r'.remove p').clients.get? p = some c at hafter
      rw [Room.get?_remove] at hafter
      split at hafter
      · cases hafter
      · exact absurd ((seated?_of_get? hr' p).trans hafter) hbefore
    · exact absurd hafter hbefore
  | _ => exact absurd hafter hbefore

theorem Sound.tellInfo_coherent (hs : h.Sound) (ht : Transition source h e h' effects)
    {i : RoomInfo} (hi : Effect.tellInfo (some i) ∈ effects) : i.Coherent := by
  cases ht with
  | informed =>
    rw [List.mem_singleton, Effect.tellInfo.injEq, info?, eq_comm, Option.map_eq_some_iff] at hi
    obtain ⟨r, hr, rfl⟩ := hi
    exact (hs _ _ hr).2.info_coherent
  | solved =>
    simp only [finish, List.mem_cons, List.mem_append, List.mem_flatMap, Client.mem_deliver,
      Client.mem_closing] at hi
    split at hi <;> simp at hi
  | _ => simp [Client.mem_deliver, Client.mem_closing, Room.deliverAll, Hub.start] at hi

end

/-! ## Runs -/

/-- **The table of rooms is sound after every event of every run.**  Whatever
    the source of puzzles gives or fails to give, and in whatever order new
    clients join, leave, talk and answer: the hub is sound; the next event seats
    nobody in a full room; and every snapshot that was given is coherent. -/
theorem run_sound (source : PuzzleSource) (es : List Event) (hes : ∀ e ∈ es, e.Fresh) :
    (after source es).Sound ∧
      (∀ e room r p c, (after source es).rooms.get? room = some r →
        ((after source es).step source e).1.seated? room p = some c →
        (after source es).seated? room p ≠ some c → ¬ r.isFull) ∧
      ∀ i, Effect.tellInfo (some i) ∈ done source es → i.Coherent := by
  have hkeep : ∀ h e, Sound h → e.Fresh → (h.step source e).1.Sound := fun h e hs he =>
    hs.transition he (step_transition source h e)
  have htell : ∀ h e, Sound h → e.Fresh → ∀ x ∈ (h.step source e).2,
      ∀ i, x = Effect.tellInfo (some i) → i.Coherent := by
    rintro h e hs - x hx i rfl
    exact hs.tellInfo_coherent (step_transition source h e) hx
  obtain ⟨hs, hd⟩ := run_induction hkeep htell sound_empty hes
  refine ⟨hs, fun e room r p c hr hafter hbefore => ?_, fun i hi => hd _ hi i rfl⟩
  exact hs.not_isFull_of_seated (step_transition source _ e) hr hafter hbefore

/-- Two players in a room whose puzzle could not be drawn. -/
theorem run_sound_two_players :
    let es : List Event :=
      [.join (.new ⟨"ada"⟩ ⟨1⟩ ⟨"r"⟩ ⟨"a"⟩), .join (.new ⟨"bob"⟩ ⟨2⟩ ⟨"r"⟩ ⟨"b"⟩), .info ⟨"r"⟩]
    let source : PuzzleSource := fun _ => none
    (∀ e ∈ es, e.Fresh) ∧ (after source es).Sound ∧
      (∀ e room r p c, (after source es).rooms.get? room = some r →
        ((after source es).step source e).1.seated? room p = some c →
        (after source es).seated? room p ≠ some c → ¬ r.isFull) ∧
      ∀ i, Effect.tellInfo (some i) ∈ done source es → i.Coherent := by
  intro es source
  have hes : ∀ e ∈ es, e.Fresh := by
    simp only [es, List.forall_mem_cons]
    exact ⟨⟨_, _, _, _, rfl⟩, ⟨_, _, _, _, rfl⟩, trivial, by simp⟩
  exact ⟨hes, run_sound source es hes⟩

end Hub

end HectocDuel
