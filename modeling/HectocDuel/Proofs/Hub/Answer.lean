/-
  What an answer to a puzzle does.

  An answer is admitted when its player is seated on its connection, the room has
  a puzzle, and the decimal digits of the answer are those of the puzzle.  It
  solves the puzzle when, besides, it is worth the target.

  * `verify_eq_ok_true_iff`: to be worth the target is to have that very double as
    value;
  * `submit_outcome`: an answer ends the game iff it solves the puzzle, is
    reported iff it is admitted and has a value, and else changes nothing and is
    heard of by nobody but its player.
-/
import HectocDuel.Proofs.Decimal.Equality
import HectocDuel.Proofs.Hub.Seats
import HectocDuel.Proofs.Puzzle.Digits

namespace HectocDuel

/-! ## The target -/

theorem verify_eq_ok_true_iff {text : String} :
    verify text = .ok true ↔ calculate text = .ok 100.0 := by
  have h0 : (target == 0) = false := by decide +kernel
  have h1 : (target == target) = true := by decide +kernel
  rw [verify]
  cases calculate text with
  | error e => simp [Except.map]
  | ok v =>
    simp only [Except.map, Except.ok.injEq]
    exact ⟨fun h => Decimal.eq_of_beq h h0, fun h => h ▸ h1⟩

theorem verify_eq_ok_iff {text : String} {correct : Bool} :
    verify text = .ok correct ↔ ∃ v, calculate text = .ok v ∧ (v == target) = correct := by
  rw [verify]
  cases calculate text <;> simp [Except.map]

theorem verify_eq_error_iff {text : String} {e : ExpressionError} :
    verify text = .error e ↔ calculate text = .error e := by
  rw [verify]
  cases calculate text <;> simp [Except.map]

/-! ## What may be said of an answer -/

/-- A checked answer that is reported. -/
def Effect.submission? : Effect → Option (RoomId × Submission)
  | .report (.submission room s) => some (room, s)
  | _ => none

namespace Hub

/-- An answer is admitted: its player is seated on its connection, the room has a
    puzzle, and the decimal digits of the answer are those of the puzzle. -/
def Admits (h : Hub) (room : RoomId) (p : PlayerId) (k : ConnectionId) (text : String) : Prop :=
  ∃ r c z, h.rooms.get? room = some r ∧ r.clientOn p k = some c ∧ r.puzzle = some z ∧
    text.toList.filter Char.isDigit = z.digits.text.toList

/-- An answer solves the puzzle: it is admitted and worth exactly 100. -/
def Solves (h : Hub) (room : RoomId) (p : PlayerId) (k : ConnectionId) (text : String) : Prop :=
  h.Admits room p k text ∧ calculate text = .ok 100.0

/-- The game in a room is ended by an answer: the room is gone and all others are
    as before; the winner is told so and the other player that the game is over;
    the queues of both are closed; and the end is reported. -/
def EndsBy (h : Hub) (room : RoomId) (p : PlayerId) (k : ConnectionId) (text : String) (h' : Hub)
    (effects : List Effect) : Prop :=
  ∃ winner loser qw ql,
    h.seatedOn? room p k = some winner ∧ winner.outbound = some qw ∧
    h.seated? room loser.player = some loser ∧ loser.outbound = some ql ∧ loser.player ≠ p ∧
    (∀ room', h'.rooms.get? room' = if room' = room then none else h.rooms.get? room') ∧
    ∃ told closed,
      effects = .report (.submission room ⟨p, text, true⟩) :: (told ++ closed ++
        [.report (.gameEnded room p loser.player)]) ∧
      told.Perm [.deliver qw (Notice.inRoom room Notice.correctSubmission),
        .deliver ql (Notice.inRoom room Notice.gameOver)] ∧
      closed.Perm [.close qw, .close ql]

/-- An answer goes without consequence: the hub is as before, and all that is
    done is a report of the answer and what its player is told. -/
def PassesBy (h : Hub) (room : RoomId) (p : PlayerId) (k : ConnectionId) (h' : Hub)
    (effects : List Effect) : Prop :=
  h' = h ∧ ∀ x ∈ effects, x.submission?.isSome ∨
    ∃ c q m, h.seatedOn? room p k = some c ∧ c.outbound = some q ∧ x = .deliver q m

section
variable {source : PuzzleSource} {h h' : Hub} {effects : List Effect} {room : RoomId}
  {p : PlayerId} {k : ConnectionId} {text : String}

theorem Sound.finish (hs : h.Sound) {r : Room} {c : Client} (hr : h.rooms.get? room = some r)
    (hc : r.clientOn p k = some c) (hz : r.puzzle.isSome) :
    h.EndsBy room p k text (h.finish r p).1
      (.report (.submission room ⟨p, text, true⟩) :: (h.finish r p).2) := by
  obtain ⟨rfl, hrs⟩ := hs _ _ hr
  have hcp := (Room.clientOn_eq_some.1 hc).1
  obtain ⟨d, hd, hdp, hv⟩ := hrs.opponent hz hcp
  obtain rfl : c.player = p := (hrs.seats _ c hcp).1
  obtain ⟨qw, hqw⟩ := hrs.outbound hcp
  obtain ⟨ql, hql⟩ := hrs.outbound hdp
  refine ⟨c, d, qw, ql, (seatedOn?_of_get? hr _ k).trans hc, hqw,
    (seated?_of_get? hr _).trans hdp, hql, hd, get?_dropRoom h r.id, ?_⟩
  -- The two players are told, and their queues closed, in the order of the table.
  rcases hv with hv | hv
  · refine ⟨[_, _], [_, _], ?_, .refl _, .refl _⟩
    simp [Hub.finish, hv, hd, Client.deliver, Client.closing, hqw, hql]
  · refine ⟨[_, _], [_, _], ?_, .swap _ _ _, .swap _ _ _⟩
    simp [Hub.finish, hv, hd, Client.deliver, Client.closing, hqw, hql]

theorem submission?_deliver {c : Client} {m : Message} :
    (c.deliver m).filterMap Effect.submission? = [] := by
  simp only [Client.deliver]
  cases c.outbound <;> rfl

theorem EndsBy.submissions (he : h.EndsBy room p k text h' effects) :
    effects.filterMap Effect.submission? = [(room, ⟨p, text, true⟩)] := by
  obtain ⟨w, l, qw, ql, -, -, -, -, -, -, told, closed, rfl, ht, hc⟩ := he
  have ht := (ht.filterMap Effect.submission?).eq_nil
  have hc := (hc.filterMap Effect.submission?).eq_nil
  simp [Effect.submission?, List.filterMap_append, ht, hc]

theorem EndsBy.not_passesBy (he : h.EndsBy room p k text h' effects) :
    ¬ h.PassesBy room p k h' effects := by
  obtain ⟨w, -, -, -, hw, -, -, -, -, hr, -⟩ := he
  rintro ⟨rfl, -⟩
  have hn : h'.rooms.get? room = none := by simpa using hr room
  rw [seatedOn?, hn] at hw
  cases hw

theorem not_admits_of_not_seated (hn : h.seatedOn? room p k = none) :
    ¬ h.Admits room p k text := by
  rintro ⟨r, c, z, hr, hc, -⟩
  rw [seatedOn?_of_get? hr, hc] at hn
  cases hn

theorem admits_iff {r : Room} {c : Client} (hr : h.rooms.get? room = some r)
    (hc : r.clientOn p k = some c) :
    h.Admits room p k text ↔ ∃ z, r.puzzle = some z ∧ z.digits.matchesSubmission text := by
  constructor
  · rintro ⟨r', c', z, hr', -, hz, hm⟩
    obtain rfl : r = r' := Option.some.inj (hr.symm.trans hr')
    exact ⟨z, hz, (Digits.matchesSubmission_iff _ _).2 hm⟩
  · rintro ⟨z, hz, hm⟩
    exact ⟨r, c, z, hr, hc, hz, (Digits.matchesSubmission_iff _ _).1 hm⟩

theorem passesBy_deliver {r : Room} {c : Client} (hr : h.rooms.get? room = some r)
    (hc : r.clientOn p k = some c) (m : Message) : h.PassesBy room p k h (c.deliver m) := by
  refine ⟨rfl, fun x hx => .inr ?_⟩
  obtain ⟨q, hq, rfl⟩ := Client.mem_deliver.1 hx
  exact ⟨c, q, m, (seatedOn?_of_get? hr p k).trans hc, hq, rfl⟩

/-- **What becomes of an answer.**  It solves the puzzle and ends the game; or it
    passes by, reported as wrong if it is admitted and has another value than 100,
    and not reported if it is not admitted or has no value. -/
theorem Sound.answer (hs : h.Sound)
    (ht : Transition source h (.submit room p k text) h' effects) :
    (h.Solves room p k text ∧ h.EndsBy room p k text h' effects) ∨
      (h.PassesBy room p k h' effects ∧
        ((∃ v, h.Admits room p k text ∧ calculate text = .ok v ∧ v ≠ 100.0 ∧
            effects.filterMap Effect.submission? = [(room, ⟨p, text, false⟩)]) ∨
          (¬ (h.Admits room p k text ∧ ∃ v, calculate text = .ok v) ∧
            effects.filterMap Effect.submission? = []))) := by
  cases ht with
  | unseated hn =>
    exact .inr ⟨⟨rfl, by simp⟩, .inr ⟨fun h => not_admits_of_not_seated hn h.1, rfl⟩⟩
  | unassigned hr hc hz =>
    refine .inr ⟨passesBy_deliver hr hc _, .inr ⟨fun h => ?_, submission?_deliver⟩⟩
    obtain ⟨z, hz', -⟩ := (admits_iff hr hc).1 h.1
    rw [hz] at hz'
    cases hz'
  | mismatched hr hc hz hm =>
    refine .inr ⟨passesBy_deliver hr hc _, .inr ⟨fun h => hm ?_, submission?_deliver⟩⟩
    obtain ⟨z, hz', hm'⟩ := (admits_iff hr hc).1 h.1
    obtain rfl := Option.some.inj (hz.symm.trans hz')
    exact hm'
  | unverified hr hc hz hm hv =>
    refine .inr ⟨passesBy_deliver hr hc _, .inr ⟨?_, submission?_deliver⟩⟩
    rintro ⟨-, v, hv'⟩
    rw [verify_eq_error_iff.1 hv] at hv'
    cases hv'
  | wrong hr hc hz hm hv =>
    obtain ⟨v, hv', hne⟩ := verify_eq_ok_iff.1 hv
    refine .inr ⟨⟨rfl, fun x hx => ?_⟩, .inl ⟨v, (admits_iff hr hc).2 ⟨_, hz, hm⟩, hv', ?_, ?_⟩⟩
    · rcases List.mem_cons.1 hx with rfl | hx
      · exact .inl rfl
      · exact (passesBy_deliver hr hc _).2 x hx
    · rintro rfl
      rw [verify_eq_ok_true_iff.2 hv'] at hv
      cases hv
    · rw [List.filterMap_cons, submission?_deliver]
      rfl
  | solved hr hc hz hm hv =>
    exact .inl ⟨⟨(admits_iff hr hc).2 ⟨_, hz, hm⟩, verify_eq_ok_true_iff.1 hv⟩,
      hs.finish hr hc (by rw [hz]; rfl)⟩

end

/-- **Who wins.**  In every hub that a run reaches, an answer ends the game iff it
    is admitted and worth exactly 100.  It is reported, once, as it is and with the
    truth of its being worth 100, iff it is admitted and has a value.  And when
    the game is not ended, the hub is as before and nobody but the player is told
    anything. -/
theorem submit_outcome (source : PuzzleSource) (es : List Event) (hes : ∀ e ∈ es, e.Fresh)
    (room : RoomId) (p : PlayerId) (k : ConnectionId) (text : String) :
    let h := after source es
    let next := h.step source (.submit room p k text)
    (h.EndsBy room p k text next.1 next.2 ↔ h.Solves room p k text) ∧
    (∀ v, h.Admits room p k text → calculate text = .ok v →
      ∃ correct, (correct = true ↔ v = 100.0) ∧
        next.2.filterMap Effect.submission? = [(room, ⟨p, text, correct⟩)]) ∧
    (¬ (h.Admits room p k text ∧ ∃ v, calculate text = .ok v) →
      next.2.filterMap Effect.submission? = []) ∧
    (¬ h.EndsBy room p k text next.1 next.2 → h.PassesBy room p k next.1 next.2) := by
  intro h next
  have hs : h.Sound := sound_after source hes
  rcases hs.answer (step_transition source h (.submit room p k text)) with
    ⟨hsolves, hends⟩ | ⟨hpasses, ⟨v, ha, hv, hne, hsub⟩ | ⟨hn, hsub⟩⟩
  · refine ⟨iff_of_true hends hsolves, fun v _ hv => ⟨true, ?_, hends.submissions⟩, ?_, ?_⟩
    · exact iff_of_true rfl (Except.ok.inj (hv.symm.trans hsolves.2))
    · exact fun hn => absurd ⟨hsolves.1, _, hsolves.2⟩ hn
    · exact fun hn => absurd hends hn
  · have hnot : ¬ calculate text = .ok 100.0 := fun h100 => hne (Except.ok.inj (hv.symm.trans h100))
    refine ⟨iff_of_false (fun he => he.not_passesBy hpasses) fun hsol => hnot hsol.2,
      fun v' _ hv' => ⟨false, ?_, hsub⟩, fun hn => absurd ⟨ha, v, hv⟩ hn, fun _ => hpasses⟩
    obtain rfl := Except.ok.inj (hv.symm.trans hv')
    exact iff_of_false Bool.false_ne_true hne
  · exact ⟨iff_of_false (fun he => he.not_passesBy hpasses) fun hsol => hn ⟨hsol.1, _, hsol.2⟩,
      fun v ha hv => absurd ⟨ha, v, hv⟩ hn, fun _ => hsub, fun _ => hpasses⟩

/-- The second player solves the puzzle. -/
theorem submit_outcome_solved :
    let es : List Event :=
      [.join (.new ⟨"ada"⟩ ⟨1⟩ ⟨"r"⟩ ⟨"a"⟩), .join (.new ⟨"bob"⟩ ⟨2⟩ ⟨"r"⟩ ⟨"b"⟩)]
    let source : PuzzleSource := fun _ => none
    let next := (after source es).step source (.submit ⟨"r"⟩ ⟨"bob"⟩ ⟨2⟩ "1+1*9*9+9+9")
    (∀ e ∈ es, e.Fresh) ∧
      (after source es).EndsBy ⟨"r"⟩ ⟨"bob"⟩ ⟨2⟩ "1+1*9*9+9+9" next.1 next.2 := by
  intro es source next
  have hes : ∀ e ∈ es, e.Fresh := by decide
  refine ⟨hes, (submit_outcome source es hes _ _ _ _).1.2 ⟨⟨_, _, _, rfl, rfl, rfl, ?_⟩, ?_⟩⟩
  · decide +kernel
  · exact verify_eq_ok_true_iff.1 (by decide +kernel)

end Hub

end HectocDuel
