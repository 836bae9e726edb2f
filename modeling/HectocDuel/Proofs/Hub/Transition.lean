/-
  What one event can do to the hub.

  `Transition source h e h' effects` lists the outcomes of an event `e` in the
  hub `h`, one rule for each, with all that holds when the outcome is taken.

  * `step_transition`: every step takes one of them, so that what a rule keeps
    for each outcome is kept by every step;
  * `run_induction`: what every step keeps is kept by every run.
-/
import HectocDuel.Hub.Step

namespace HectocDuel.Hub

/-- The client seated as a player in a room. -/
def seated? (h : Hub) (room : RoomId) (player : PlayerId) : Option Client :=
  (h.rooms.get? room).bind (·.clients.get? player)

/-- The client seated as a player in a room, if it is on the given connection. -/
def seatedOn? (h : Hub) (room : RoomId) (player : PlayerId) (connection : ConnectionId) :
    Option Client :=
  (h.rooms.get? room).bind (·.clientOn player connection)

/-! ## The outcomes of an event -/

/-- The hub `h` takes the event `e`, becomes `h'` and does `effects`. -/
inductive Transition (source : PuzzleSource) (h : Hub) : Event → Hub → List Effect → Prop where
  /-- A client opens a room. -/
  | opened {c : Client} : h.rooms.get? c.room = none →
      Transition source h (.join c)
        (h.setRoom (({ id := c.room } : Room).seat c (Room.not_isFull_new _)))
        (c.deliver (Notice.inRoom c.room Notice.roomCreated))
  /-- A client is turned away because its player is seated. -/
  | duplicate {c : Client} {r : Room} : h.rooms.get? c.room = some r → r.contains c.player →
      Transition source h (.join c) h
        (c.deliver (Notice.inRoom c.room (Notice.rejected (.alreadyInRoom c.player c.room))) ++
          c.closing)
  /-- A client is turned away because there is no place. -/
  | crowded {c : Client} {r : Room} : h.rooms.get? c.room = some r → ¬ r.contains c.player →
      r.isFull →
      Transition source h (.join c) h
        (c.deliver (Notice.inRoom c.room Notice.roomFull) ++ c.closing)
  /-- A client is seated and waits on. -/
  | waiting {c : Client} {r : Room} (hr : ¬ r.isFull) : h.rooms.get? c.room = some r →
      ¬ r.contains c.player → ¬ (r.seat c hr).isFull →
      Transition source h (.join c) (h.setRoom (r.seat c hr))
        (c.deliver (Notice.inRoom c.room Notice.joinSuccess))
  /-- A client is seated and the game starts. -/
  | started {c : Client} {r : Room} (hr : ¬ r.isFull) : h.rooms.get? c.room = some r →
      ¬ r.contains c.player → (r.seat c hr).isFull →
      Transition source h (.join c) (h.start source (r.seat c hr)).1
        (c.deliver (Notice.inRoom c.room Notice.joinSuccess) ++ (h.start source (r.seat c hr)).2)
  /-- Somebody who is not seated leaves. -/
  | absent {room : RoomId} {p : PlayerId} {k : ConnectionId} : h.seatedOn? room p k = none →
      Transition source h (.leave room p k) h []
  /-- The last player leaves. -/
  | emptied {room : RoomId} {p : PlayerId} {k : ConnectionId} {r : Room} {c : Client} :
      h.rooms.get? room = some r → r.clientOn p k = some c → (r.remove p).isEmpty →
      Transition source h (.leave room p k) (h.dropRoom room)
        (c.deliver (Notice.inRoom room Notice.leaveSuccess) ++ c.closing ++
          [.report (.roomEmpty room)])
  /-- A player leaves another one behind. -/
  | abandoned {room : RoomId} {p : PlayerId} {k : ConnectionId} {r : Room} {c : Client} :
      h.rooms.get? room = some r → r.clientOn p k = some c → ¬ (r.remove p).isEmpty →
      Transition source h (.leave room p k) (h.setRoom { r.remove p with puzzle := none })
        (c.deliver (Notice.inRoom room Notice.leaveSuccess) ++ c.closing ++
          (r.remove p).deliverAll (Notice.inRoom room Notice.opponentLeft))
  /-- A message goes to everybody in its room. -/
  | relayed {k : ConnectionId} {m : Message} {p : PlayerId} {r : Room} {c : Client} :
      h.rooms.get? m.room = some r → m.sender = some p → r.clientOn p k = some c →
      Transition source h (.broadcast k m) h (r.deliverAll m)
  /-- A message is dropped because its sender is not seated. -/
  | unrelayed {k : ConnectionId} {m : Message} :
      (∀ p, m.sender = some p → h.seatedOn? m.room p k = none) →
      Transition source h (.broadcast k m) h []
  /-- Somebody who is not seated answers. -/
  | unseated {room : RoomId} {p : PlayerId} {k : ConnectionId} {expression : String} :
      h.seatedOn? room p k = none →
      Transition source h (.submit room p k expression) h []
  /-- A player answers before there is a puzzle. -/
  | unassigned {room : RoomId} {p : PlayerId} {k : ConnectionId} {expression : String} {r : Room}
      {c : Client} : h.rooms.get? room = some r → r.clientOn p k = some c → r.puzzle = none →
      Transition source h (.submit room p k expression) h
        (c.deliver (Notice.inRoom room (Notice.rejected .puzzleNotAssigned)))
  /-- A player does not use the digits of the puzzle. -/
  | mismatched {room : RoomId} {p : PlayerId} {k : ConnectionId} {expression : String} {r : Room}
      {c : Client} {puzzle : Puzzle} : h.rooms.get? room = some r → r.clientOn p k = some c →
      r.puzzle = some puzzle → ¬ puzzle.digits.matchesSubmission expression →
      Transition source h (.submit room p k expression) h
        (c.deliver (Notice.inRoom room Notice.invalidFormat))
  /-- A player gives an expression that has no value. -/
  | unverified {room : RoomId} {p : PlayerId} {k : ConnectionId} {expression : String} {r : Room}
      {c : Client} {puzzle : Puzzle} {e : ExpressionError} : h.rooms.get? room = some r →
      r.clientOn p k = some c → r.puzzle = some puzzle →
      puzzle.digits.matchesSubmission expression → verify expression = .error e →
      Transition source h (.submit room p k expression) h
        (c.deliver (Notice.inRoom room (Notice.unverified e)))
  /-- A player gives an expression that is not worth the target. -/
  | wrong {room : RoomId} {p : PlayerId} {k : ConnectionId} {expression : String} {r : Room}
      {c : Client} {puzzle : Puzzle} : h.rooms.get? room = some r →
      r.clientOn p k = some c → r.puzzle = some puzzle →
      puzzle.digits.matchesSubmission expression → verify expression = .ok false →
      Transition source h (.submit room p k expression) h
        (.report (.submission room ⟨p, expression, false⟩) ::
          c.deliver (Notice.inRoom room Notice.incorrectSubmission))
  /-- A player solves the puzzle. -/
  | solved {room : RoomId} {p : PlayerId} {k : ConnectionId} {expression : String} {r : Room}
      {c : Client} {puzzle : Puzzle} : h.rooms.get? room = some r →
      r.clientOn p k = some c → r.puzzle = some puzzle →
      puzzle.digits.matchesSubmission expression → verify expression = .ok true →
      Transition source h (.submit room p k expression) (h.finish r p).1
        (.report (.submission room ⟨p, expression, true⟩) :: (h.finish r p).2)
  /-- A question about a room is answered. -/
  | informed {room : RoomId} : Transition source h (.info room) h [.tellInfo (h.info? room)]
  /-- The question for the number of rooms is answered. -/
  | counted : Transition source h .count h [.tellCount h.rooms.size]

theorem seatedOn?_eq_none {h : Hub} {room : RoomId} (hr : h.rooms.get? room = none)
    (p : PlayerId) (k : ConnectionId) : h.seatedOn? room p k = none := by
  rw [seatedOn?, hr]
  rfl

theorem seatedOn?_of_get? {h : Hub} {room : RoomId} {r : Room} (hr : h.rooms.get? room = some r)
    (p : PlayerId) (k : ConnectionId) : h.seatedOn? room p k = r.clientOn p k := by
  rw [seatedOn?, hr]
  rfl

theorem join_transition (source : PuzzleSource) (h : Hub) (c : Client) :
    Transition source h (.join c) (h.join source c).1 (h.join source c).2 := by
  rw [join]
  split
  · next hr => exact .opened hr
  · next r hr =>
    split
    · next hc => exact .duplicate hr hc
    · next hc =>
      split
      · next hf => exact .crowded hr hc hf
      · next hf =>
        simp only
        split
        · next hs => exact .started hf hr hc hs
        · next hs => exact .waiting hf hr hc hs

theorem leave_transition (source : PuzzleSource) (h : Hub) (room : RoomId) (p : PlayerId)
    (k : ConnectionId) :
    Transition source h (.leave room p k) (h.leave room p k).1 (h.leave room p k).2 := by
  rw [leave]
  split
  · next hr => exact .absent (seatedOn?_eq_none hr p k)
  · next r hr =>
    split
    · next hc => exact .absent ((seatedOn?_of_get? hr p k).trans hc)
    · next c hc =>
      simp only
      split
      · next he => exact .emptied hr hc he
      · next he => exact .abandoned hr hc he

theorem broadcast_transition (source : PuzzleSource) (h : Hub) (k : ConnectionId) (m : Message) :
    Transition source h (.broadcast k m) (h.broadcast k m).1 (h.broadcast k m).2 := by
  rw [broadcast]
  split
  · next r p hr hp =>
    split
    · next hc =>
      obtain ⟨c, hc⟩ := Option.isSome_iff_exists.1 hc
      exact .relayed hr hp hc
    · next hc =>
      refine .unrelayed fun q hq => ?_
      obtain rfl : q = p := Option.some.inj (hq.symm.trans hp)
      rw [seatedOn?_of_get? hr]
      exact Option.not_isSome_iff_eq_none.1 hc
  · next hn =>
    refine .unrelayed fun q hq => ?_
    rcases hr : h.rooms.get? m.room with _ | r
    · exact seatedOn?_eq_none hr q k
    · exact absurd hq (hn r q hr)

theorem submit_transition (source : PuzzleSource) (h : Hub) (room : RoomId) (p : PlayerId)
    (k : ConnectionId) (expression : String) :
    Transition source h (.submit room p k expression) (h.submit room p k expression).1
      (h.submit room p k expression).2 := by
  rw [submit]
  split
  · next hr => exact .unseated (seatedOn?_eq_none hr p k)
  · next r hr =>
    split
    · next hc => exact .unseated ((seatedOn?_of_get? hr p k).trans hc)
    · next c hc =>
      simp only
      split
      · next hp => exact .unassigned hr hc hp
      · next puzzle hp =>
        split
        · next hm =>
          split
          · next e hv => exact .unverified hr hc hp hm hv
          · next correct hv =>
            cases correct with
            | true => exact .solved hr hc hp hm hv
            | false => exact .wrong hr hc hp hm hv
        · next hm => exact .mismatched hr hc hp hm

/-- **Every step takes one of the outcomes.** -/
theorem step_transition (source : PuzzleSource) (h : Hub) (e : Event) :
    Transition source h e (h.step source e).1 (h.step source e).2 := by
  cases e with
  | join c => exact join_transition source h c
  | leave room p k => exact leave_transition source h room p k
  | broadcast k m => exact broadcast_transition source h k m
  | submit room p k expression => exact submit_transition source h room p k expression
  | info room => exact .informed
  | count => exact .counted

/-! ## Runs -/

/-- The hub after events, from the start. -/
def after (source : PuzzleSource) (es : List Event) : Hub :=
  (({} : Hub).run source es).1

/-- All that the hub does on events, from the start. -/
def done (source : PuzzleSource) (es : List Event) : List Effect :=
  (({} : Hub).run source es).2

theorem run_nil (source : PuzzleSource) (h : Hub) : h.run source [] = (h, []) :=
  rfl

theorem run_cons (source : PuzzleSource) (h : Hub) (e : Event) (es : List Event) :
    h.run source (e :: es) =
      (((h.step source e).1.run source es).1,
        (h.step source e).2 ++ ((h.step source e).1.run source es).2) :=
  rfl

/-- What every step keeps, for the events that `ok` admits, is kept by every
    run of such events; and what every step does from such a hub is all that
    the run does. -/
theorem run_induction {source : PuzzleSource} {Inv : Hub → Prop} {ok : Event → Prop}
    {does : Effect → Prop}
    (hkeep : ∀ h e, Inv h → ok e → Inv (h.step source e).1)
    (hdoes : ∀ h e, Inv h → ok e → ∀ x ∈ (h.step source e).2, does x) :
    ∀ {h : Hub} {es : List Event}, Inv h → (∀ e ∈ es, ok e) →
      Inv (h.run source es).1 ∧ ∀ x ∈ (h.run source es).2, does x
  | h, [], hi, _ => ⟨hi, by simp [run_nil]⟩
  | h, e :: es, hi, hok => by
    obtain ⟨he, hes⟩ := List.forall_mem_cons.1 hok
    obtain ⟨hi', hd⟩ := run_induction hkeep hdoes (hkeep h e hi he) hes
    rw [run_cons]
    refine ⟨hi', fun x hx => ?_⟩
    rcases List.mem_append.1 hx with hx | hx
    · exact hdoes h e hi he x hx
    · exact hd x hx

end HectocDuel.Hub
