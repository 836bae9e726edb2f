/-
  What one client hears from joining to the end of its queue.

  * `Stay`: what a client hears in a run, turn by turn, and the phase it leads to;
  * `run_comesTo`: whoever joins has such a stay, its queue is closed once, by the
    last thing that is heard, and two players in a game have the same digits.
-/
import HectocDuel.Proofs.Hub.Turns
import Mathlib.Data.List.Pairwise

namespace HectocDuel

/-! ## Runs -/

/-- The queue with which a client joins. -/
def Event.queue? : Event → Option QueueId
  | .join c => c.outbound
  | _ => none

/-- Every client that joins comes with a queue of its own: queues are made together
    with clients. -/
def OwnQueues (es : List Event) : Prop :=
  (es.filterMap Event.queue?).Nodup

instance (es : List Event) : Decidable (OwnQueues es) :=
  inferInstanceAs (Decidable (List.Nodup _))

theorem OwnQueues.append_left {es es' : List Event} (ho : OwnQueues (es ++ es')) :
    OwnQueues es := by
  rw [OwnQueues, List.filterMap_append] at ho
  exact ho.of_append_left

theorem OwnQueues.eq_of_join {es : List Event} (ho : OwnQueues es) {c d : Client} {q : QueueId}
    (hc : .join c ∈ es) (hd : .join d ∈ es) (hcq : c.outbound = some q)
    (hdq : d.outbound = some q) : c = d := by
  have hsymm : Std.Symm fun e e' : Event =>
      ∀ b, e.queue? = some b → ∀ b', e'.queue? = some b' → b ≠ b' :=
    ⟨fun _ _ h b hb b' hb' => (h b' hb' b hb).symm⟩
  by_contra hne
  exact (List.pairwise_filterMap.1 ho).forall hc hd (fun h => hne (Event.join.inj h)) q hcq q hdq
    rfl

theorem OwnQueues.not_mem {es : List Event} {c : Client} {q : QueueId}
    (ho : OwnQueues (es ++ [.join c])) (hq : c.outbound = some q) : .join c ∉ es := by
  intro hm
  rw [OwnQueues, List.filterMap_append, List.nodup_append] at ho
  exact ho.2.2 q (List.mem_filterMap.2 ⟨.join c, hm, hq⟩) q
    (List.mem_filterMap.2 ⟨.join c, by simp, hq⟩) rfl

namespace Hub

/-- What the client `c` with the queue `q` hears in the course of events, turn by
    turn, and the phase to which it leads. -/
inductive Stay (source : PuzzleSource) (c : Client) (q : QueueId) : List Event → Phase → Prop where
  | start : Stay source c q [] .outside
  | turn {es : List Event} {e : Event} {φ φ' : Phase} : Stay source c q es φ →
      ClientTurn (after source es) c φ e (signalsTo q ((after source es).step source e).2) φ' →
      Stay source c q (es ++ [e]) φ'

section
variable {source : PuzzleSource} {es : List Event} {c : Client} {q : QueueId}

theorem ClientTurn.ne_outside {h : Hub} {e : Event} {signals : List Signal} {φ φ' : Phase}
    (ht : ClientTurn h c φ e signals φ') (hφ : φ ≠ .outside) : φ' ≠ .outside := by
  cases ht <;> first | exact hφ | simp

/-- Every client with a queue of its own has a stay, which leads to the phase of
    its seat. -/
theorem exists_stay (hes : ∀ e ∈ es, e.Fresh) (ho : OwnQueues es) (hq : c.outbound = some q)
    (hown : ∀ d, .join d ∈ es → d.outbound = some q → d = c) :
    ∃ φ, Stay source c q es φ ∧ (after source es).Fits c φ ∧ (φ = .outside ↔ .join c ∉ es) := by
  induction es using List.reverseRecOn with
  | nil => exact ⟨.outside, .start, .unseated id (by simp [after, run_nil, seated?]), by simp⟩
  | append_singleton es e ih =>
    have hes' : ∀ e ∈ es, e.Fresh := fun e he => hes e (List.mem_append_left _ he)
    have hown' : ∀ d, .join d ∈ es → d.outbound = some q → d = c := fun d hd =>
      hown d (List.mem_append_left _ hd)
    obtain ⟨φ, hstay, hfits, hout⟩ := ih hes' ho.append_left hown'
    have hs := sound_after source hes'
    have ht := step_transition source (after source es) e
    rw [after_concat]
    have hseated : ∀ room d, (after source es).seated? room d.player = some d →
        d.outbound = some q → d = c := fun room d hd hdq =>
      hown' d (joined_of_seated hes' hd) hdq
    by_cases hjoin : e = .join c
    · subst hjoin
      have hnot := ho.not_mem hq
      obtain rfl := hout.2 hnot
      obtain ⟨φ', hturn, hfits', hne⟩ := hs.turn_join hq
        (fun room d hd hdq => hnot (hseated room d hd hdq ▸ joined_of_seated hes' hd)) ht
      exact ⟨φ', hstay.turn hturn, hfits', iff_of_false hne (by simp)⟩
    · have hother : ∀ o, e = .join o → o.outbound ≠ some q := by
        rintro o rfl hoq
        exact hjoin (congrArg Event.join (hown o (by simp) hoq))
      have hmem : .join c ∉ es ++ [e] ↔ .join c ∉ es := by
        simp [Ne.symm hjoin]
      cases hfits with
      | @seated r hr hc =>
        obtain ⟨φ', hturn, hfits'⟩ := SitsIn.turn ⟨hs, hr, hc, hq, hseated⟩ hother ht
        have hne : r.phase ≠ .outside := fun h => (h ▸ r.isSeated_phase : Phase.outside.IsSeated)
        exact ⟨φ', hstay.turn hturn, hfits',
          iff_of_false (hturn.ne_outside hne) (by rw [hmem, ← hout]; exact hne)⟩
      | unseated hφ hc =>
        have hn : signalsTo q ((after source es).step source e).2 = [] :=
          hs.unheard ht hother fun room d _ hd hdq => by
            obtain rfl := hseated room d hd hdq
            exact hc ((hs.of_seated hd).2.1 ▸ hd)
        refine ⟨φ, hstay.turn (hn ▸ .silent), .unseated hφ fun hc' => ?_, hout.trans hmem.symm⟩
        rcases ht.seated_before hs hc' with hc' | rfl
        · exact hc hc'
        · exact hjoin rfl

end

end Hub

/-! ## What is heard in all -/

/-- What the hub itself has to say at an event: a relayed message is left out. -/
def Event.notices (signals : List Signal) : Event → List Signal
  | .broadcast _ _ => []
  | _ => signals

/-- The digits of a puzzle that are heard. -/
def Signal.digits? : Signal → Option Digits
  | .told ⟨.puzzleAssign digits, _, _⟩ => some digits
  | _ => none

/-- The digits that were heard last. -/
def lastAssigned? (signals : List Signal) : Option Digits :=
  (signals.filterMap Signal.digits?).getLast?

theorem lastAssigned?_append_of_none {xs ys : List Signal} (h : ∀ y ∈ ys, y.digits? = none) :
    lastAssigned? (xs ++ ys) = lastAssigned? xs := by
  rw [lastAssigned?, List.filterMap_append, List.filterMap_eq_nil_iff.2 h, List.append_nil]
  rfl

theorem lastAssigned?_concat (xs : List Signal) (c : Client) (d : Digits) :
    lastAssigned? (xs ++ [c.assigned d]) = some d := by
  simp [lastAssigned?, List.filterMap_append, Client.assigned, Signal.digits?]

namespace Hub

/-- What the hub itself says to a queue in the course of events. -/
def notices (source : PuzzleSource) (q : QueueId) (h : Hub) : List Event → List Signal
  | [] => []
  | e :: es =>
    let (h, effects) := h.step source e
    e.notices (signalsTo q effects) ++ h.notices source q es

section
variable {source : PuzzleSource} {es : List Event} {c : Client} {q : QueueId}

theorem notices_concat (h : Hub) (es : List Event) (e : Event) :
    h.notices source q (es ++ [e]) =
      h.notices source q es ++ e.notices (signalsTo q ((h.run source es).1.step source e).2) := by
  induction es generalizing h with
  | nil => exact List.append_nil _
  | cons e' es ih =>
    simp only [List.cons_append, notices, ih, List.append_assoc]
    rfl

theorem ClientTurn.lastAssigned {h : Hub} {e : Event} {signals before : List Signal} {φ : Phase}
    {d : Digits} (ht : ClientTurn h c φ e signals (.active d))
    (hb : φ = .active d → lastAssigned? before = some d) :
    lastAssigned? (before ++ e.notices signals) = some d := by
  cases ht with
  | silent =>
    have hn : e.notices [] = [] := by cases e <;> rfl
    rw [hn, List.append_nil]
    exact hb rfl
  | enters =>
    exact List.append_cons before _ [c.assigned d] ▸ lastAssigned?_concat _ c d
  | joined => exact lastAssigned?_concat before c d
  | hears =>
    rw [Event.notices, List.append_nil]
    exact hb rfl
  | mismatched | unverified | wrong =>
    refine (lastAssigned?_append_of_none ?_).trans (hb rfl)
    simp [Event.notices, Client.said, Notice.inRoom, Signal.digits?, Notice.invalidFormat,
      Notice.unverified, Notice.incorrectSubmission]

theorem Stay.lastAssigned {φ : Phase} (hstay : Stay source c q es φ) {d : Digits}
    (hφ : φ = .active d) : lastAssigned? (({} : Hub).notices source q es) = some d := by
  induction hstay with
  | start => cases hφ
  | turn _ hturn ih =>
    subst hφ
    rw [notices_concat]
    exact hturn.lastAssigned ih

/-- A turn brings messages, and the end of the queue iff it is the last. -/
theorem ClientTurn.signals {h : Hub} {e : Event} {signals : List Signal} {φ φ' : Phase}
    (ht : ClientTurn h c φ e signals φ') :
    ∃ ms : List Message, φ.ending ++ signals = ms.map .told ++ φ'.ending := by
  have hnone : ∀ {φ : Phase}, φ.IsSeated → φ.ending = [] := by
    intro φ hφ
    cases φ <;> first | rfl | exact hφ.elim
  cases ht with
  | silent => exact ⟨[], List.append_nil _⟩
  | enters => exact ⟨[_, _], rfl⟩
  | hears hφ =>
    rw [hnone hφ]
    exact ⟨[_], rfl⟩
  | leaves hφ =>
    rw [hnone hφ]
    exact ⟨[_], rfl⟩
  | _ => exact ⟨[_], rfl⟩

theorem Stay.signals {φ : Phase} (hstay : Stay source c q es φ) :
    ∃ ms : List Message, signalsTo q (done source es) = ms.map .told ++ φ.ending := by
  induction hstay with
  | start => exact ⟨[], rfl⟩
  | turn _ hturn ih =>
    obtain ⟨ms, hms⟩ := ih
    obtain ⟨ms', hms'⟩ := hturn.signals
    refine ⟨ms ++ ms', ?_⟩
    rw [done_concat, signalsTo_append, hms, List.append_assoc, hms', List.map_append,
      List.append_assoc]

end

/-- The client `c` with the queue `q` is in a game for the given digits after the
    events `es`. -/
structure InPlay (source : PuzzleSource) (es : List Event) (c : Client) (q : QueueId)
    (digits : Digits) : Prop where
  /-- They are those that it was given last. -/
  assigned : lastAssigned? (({} : Hub).notices source q es) = some digits
  /-- They are those that answers are compared with. -/
  puzzle : ∃ r z, (after source es).rooms.get? c.room = some r ∧ r.puzzle = some z ∧
    z.digits = digits
  /-- They are those that are seen of the room. -/
  info : ∃ i, (after source es).info? c.room = some i ∧ i.digits = some digits
  /-- Its opponent is in a game too, and was given the same digits last. -/
  opponent : ∃ o qo, o.player ≠ c.player ∧
    (after source es).seated? c.room o.player = some o ∧ o.outbound = some qo ∧
    Stay source o qo es (.active digits) ∧
    lastAssigned? (({} : Hub).notices source qo es) = some digits

/-- The client `c` with the queue `q` has come to a phase in the course of the
    events `es`. -/
structure ComesTo (source : PuzzleSource) (es : List Event) (c : Client) (q : QueueId)
    (φ : Phase) : Prop where
  /-- Turn by turn, it has heard what there is to hear in its phase. -/
  stay : Stay source c q es φ
  /-- It is seated while it waits or plays. -/
  isSeated_iff : φ.IsSeated ↔ (after source es).seated? c.room c.player = some c
  /-- Its queue is closed iff its stay has ended, and nothing comes after that. -/
  signals : ∃ ms : List Message, signalsTo q (done source es) = ms.map .told ++ φ.ending
  /-- All agree on the digits of a game. -/
  in_play : ∀ digits, φ = .active digits → InPlay source es c q digits

/-- **What a client hears from joining to the end of its queue.**  In every run in
    which each client comes with a queue of its own, whoever has joined has come
    to a phase in the order of turns. -/
theorem run_comesTo (source : PuzzleSource) (es : List Event) (hes : ∀ e ∈ es, e.Fresh)
    (ho : OwnQueues es) (c : Client) (q : QueueId) (hc : .join c ∈ es)
    (hq : c.outbound = some q) : ∃ φ, φ ≠ .outside ∧ ComesTo source es c q φ := by
  have hs := sound_after source hes
  have hstay : ∀ {d qd}, .join d ∈ es → d.outbound = some qd →
      ∃ φ, Stay source d qd es φ ∧ (after source es).Fits d φ ∧ (φ = .outside ↔ .join d ∉ es) :=
    fun hd hdq => exists_stay hes ho hdq fun _ hd' hdq' => ho.eq_of_join hd' hd hdq' hdq
  obtain ⟨φ, hφ, hfits, hout⟩ := hstay hc hq
  refine ⟨φ, fun h => hout.1 h hc, hφ, hfits.isSeated_iff, hφ.signals, ?_⟩
  rintro d rfl
  have hseated := hfits.isSeated_iff.1 trivial
  obtain ⟨r, hr, hcr⟩ := Option.bind_eq_some_iff.1 hseated
  have hphase := hfits.eq_phase hr hcr
  obtain ⟨z, hz⟩ : ∃ z, r.puzzle = some z := by
    rw [← Option.ne_none_iff_exists']
    intro hz
    rw [Room.phase_of_none hz] at hphase
    cases hphase
  obtain rfl : d = z.digits := by simpa [Room.phase_of_some hz] using hphase
  obtain ⟨hid, hrs⟩ := hs _ _ hr
  obtain ⟨o, hne, hor, -⟩ := hrs.opponent (by rw [hz]; rfl) hcr
  obtain ⟨qo, hqo⟩ := hrs.outbound hor
  have hoseated := (seated?_of_get? hr o.player).trans hor
  -- The opponent has a stay of its own, which fits the same room.
  obtain ⟨φo, hφo, hfo, -⟩ := hstay (joined_of_seated hes hoseated) hqo
  have hroom : o.room = c.room := (hs.of_seated hoseated).2.1
  obtain rfl : φo = .active z.digits :=
    (hfo.eq_phase (hroom ▸ hr) hor).trans (Room.phase_of_some hz)
  exact
    { assigned := hφ.lastAssigned rfl
      puzzle := ⟨r, z, hr, hz, rfl⟩
      info := ⟨r.info, by rw [info?, hr]; rfl, by rw [Room.info, hz]; rfl⟩
      opponent := ⟨o, qo, hne, hoseated, hqo, hφo, hφo.lastAssigned rfl⟩ }

/-- A player answers too early, is left behind in one game and is in another. -/
theorem run_comesTo_second_game :
    let c : Client := .new ⟨"ada"⟩ ⟨1⟩ ⟨"r"⟩ ⟨"a"⟩
    let es : List Event :=
      [.join c, .submit ⟨"r"⟩ ⟨"ada"⟩ ⟨1⟩ "100", .join (.new ⟨"bob"⟩ ⟨2⟩ ⟨"r"⟩ ⟨"b"⟩),
        .leave ⟨"r"⟩ ⟨"bob"⟩ ⟨2⟩, .join (.new ⟨"bob"⟩ ⟨3⟩ ⟨"r"⟩ ⟨"b2"⟩)]
    (∀ e ∈ es, e.Fresh) ∧ OwnQueues es ∧ .join c ∈ es ∧ c.outbound = some ⟨"a"⟩ ∧
      ∃ φ, φ ≠ .outside ∧ ComesTo (fun _ => none) es c ⟨"a"⟩ φ := by
  intro c es
  have hes : ∀ e ∈ es, e.Fresh := by decide
  have ho : OwnQueues es := by decide
  exact ⟨hes, ho, .head _, rfl, run_comesTo _ es hes ho c ⟨"a"⟩ (.head _) rfl⟩

end Hub

end HectocDuel
