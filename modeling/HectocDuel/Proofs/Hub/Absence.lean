/-
  Connections on which nobody is seated.

  Events name a player together with the connection from which they come.  From a
  connection on which nobody is seated only joining does anything.

  * `Vacant.step_eq`: in one step;
  * `Vacant.run_filter`: so the events of such a connection can be left out of a run;
  * `Sound.seated_or_closed`: whoever gives up a seat has its queue closed;
  * `run_without_absent`: a client who is turned away is heard of by nobody but
    itself, and once the queue of a client is closed its connection does nothing
    more, whoever is seated in its place by then.
-/
import HectocDuel.Proofs.Hub.Reports
import HectocDuel.Proofs.Hub.Signals

namespace HectocDuel

/-- Whether an event comes from a connection. -/
def Event.isFrom (k : ConnectionId) : Event → Bool
  | .join c => c.connection = k
  | .leave _ _ k' | .broadcast k' _ | .submit _ _ k' _ => k' = k
  | .info _ | .count => false

/-- The events that do not come from a connection. -/
def eventsBut (k : ConnectionId) (es : List Event) : List Event :=
  es.filter fun e => !e.isFrom k

/-- Whether an effect answers a question. -/
def Effect.isAnswer : Effect → Bool
  | .tellInfo _ | .tellCount _ => true
  | .deliver _ _ | .close _ | .report _ => false

namespace Hub

/-! ## Vacant connections -/

/-- Nobody is seated on a connection. -/
def Vacant (h : Hub) (k : ConnectionId) : Prop :=
  ∀ room p c, h.seated? room p = some c → c.connection ≠ k

theorem vacant_empty (k : ConnectionId) : ({} : Hub).Vacant k := by
  intro room p c hc
  cases hc

section
variable {source : PuzzleSource} {h h' : Hub} {k : ConnectionId} {e : Event}
  {effects : List Effect}

/-- From a vacant connection only joining does anything. -/
theorem Vacant.transition (hv : h.Vacant k) (ht : Transition source h e h' effects)
    (he : e.isFrom k) (hj : ∀ c, e ≠ .join c) : h' = h ∧ effects = [] := by
  have hnone : ∀ {room r p c k'}, h.rooms.get? room = some r → r.clientOn p k' = some c →
      k' ≠ k := by
    rintro room r p c k' hr hc rfl
    obtain ⟨hcp, hck⟩ := Room.clientOn_eq_some.1 hc
    exact hv room p c ((seated?_of_get? hr p).trans hcp) hck
  cases ht with
  | opened | duplicate | crowded | waiting | started => exact absurd rfl (hj _)
  | absent | unrelayed | unseated => exact ⟨rfl, rfl⟩
  | informed | counted => cases he
  | relayed hr _ hc => exact absurd (of_decide_eq_true he) (hnone hr hc)
  | emptied hr hc | abandoned hr hc | unassigned hr hc | mismatched hr hc | unverified hr hc
  | wrong hr hc | solved hr hc => exact absurd (of_decide_eq_true he) (hnone hr hc)

theorem Vacant.step_eq (hv : h.Vacant k) (source : PuzzleSource) (he : e.isFrom k)
    (hj : ∀ c, e ≠ .join c) : h.step source e = (h, []) := by
  obtain ⟨hh, hx⟩ := hv.transition (step_transition source h e) he hj
  exact Prod.ext hh hx

theorem Vacant.run {es : List Event} (hv : h.Vacant k) (hn : h.Named)
    (hes : ∀ c, .join c ∈ es → c.connection ≠ k) : (h.run source es).1.Vacant k :=
  hn.forall_seated hv hes

theorem Vacant.step (hv : h.Vacant k) (hn : h.Named)
    (he : ∀ c, e = .join c → c.connection ≠ k) : (h.step source e).1.Vacant k :=
  show (h.run source [e]).1.Vacant k from
    hv.run hn fun c hc => he c (List.mem_singleton.1 hc).symm

/-- The events of a vacant connection on which nobody joins can be left out. -/
theorem Vacant.run_filter {es : List Event} (hv : h.Vacant k) (hn : h.Named)
    (hes : ∀ c, .join c ∈ es → c.connection ≠ k) :
    h.run source (eventsBut k es) = h.run source es := by
  induction es generalizing h with
  | nil => rfl
  | cons e es ih =>
    have hes' : ∀ c, .join c ∈ es → c.connection ≠ k := fun c hc =>
      hes c (List.mem_cons_of_mem e hc)
    by_cases he : e.isFrom k
    · have hj : ∀ c, e ≠ .join c := by
        rintro c rfl
        exact hes c List.mem_cons_self (of_decide_eq_true he)
      rw [eventsBut, List.filter_cons_of_neg (by simpa using he), ← eventsBut, ih hv hn hes',
        run_cons, hv.step_eq source he hj]
      rfl
    · have hv' : (h.step source e).1.Vacant k :=
        hv.step hn fun c hc => hes c (hc ▸ List.mem_cons_self)
      have hn' := hn.transition (step_transition source h e)
      rw [eventsBut, List.filter_cons_of_pos (by simpa using he), ← eventsBut, run_cons,
        ih hv' hn' hes', run_cons]

/-! ## Turned away -/

/-- Whether a client that asks to be seated is turned away: its player is seated,
    or there is no place. -/
def turnsAway (h : Hub) (c : Client) : Bool :=
  (h.rooms.get? c.room).any fun r => r.contains c.player || r.isFull

theorem step_of_turnsAway (source : PuzzleSource) {c : Client} (hc : h.turnsAway c) :
    ∃ body, h.step source (.join c) = h.reject c body := by
  obtain ⟨r, hr, hc⟩ := Option.any_eq_true _ _ |>.1 hc
  rw [Bool.or_eq_true] at hc
  simp only [step, join, hr]
  by_cases hp : r.contains c.player
  · exact ⟨_, if_pos hp⟩
  · have hf := hc.resolve_left hp
    rw [if_neg hp, dif_pos hf]
    exact ⟨_, rfl⟩

/-! ## Closed queues -/

/-- Whoever has a queue closed is turned away or gives up a seat. -/
theorem Named.of_close (hn : h.Named) (ht : Transition source h e h' effects) {q : QueueId}
    (hq : .close q ∈ effects) :
    (∃ c, e = .join c ∧ c.outbound = some q ∧ h' = h) ∨
      ∃ room p c, h.seated? room p = some c ∧ c.outbound = some q ∧
        h'.seated? room p = none := by
  have hsaid : ∀ {c : Client} {m : Message}, .close q ∉ c.deliver m := fun hm => by
    simp [Client.mem_deliver] at hm
  have hclosed : ∀ {c : Client}, .close q ∈ c.closing → c.outbound = some q := fun hm => by
    obtain ⟨q', hq', hqq⟩ := Client.mem_closing.1 hm
    rwa [Effect.close.inj hqq]
  have hall : ∀ {cs : List Client} {f : Client → Message},
      .close q ∉ cs.flatMap fun c => c.deliver (f c) := fun hm => by
    obtain ⟨c, -, hm⟩ := List.mem_flatMap.1 hm
    exact hsaid hm
  have hseat : ∀ {room r p k c}, h.rooms.get? room = some r → r.clientOn p k = some c →
      h.seated? room p = some c := fun hr hc =>
    (seated?_of_get? hr _).trans (Room.clientOn_eq_some.1 hc).1
  cases ht with
  | opened | waiting | unassigned | mismatched | unverified => exact absurd hq hsaid
  | relayed => exact absurd hq hall
  | wrong => exact absurd ((List.mem_cons.1 hq).resolve_left (by simp)) hsaid
  | absent | unrelayed | unseated => cases hq
  | informed | counted => simp at hq
  | duplicate | crowded =>
    exact .inl ⟨_, rfl, hclosed ((List.mem_append.1 hq).resolve_left hsaid), rfl⟩
  | started =>
    have hm := (List.mem_append.1 hq).resolve_left hsaid
    rcases List.mem_append.1 hm with hm | hm
    · exact absurd hm hall
    · simp at hm
  | emptied hr hc =>
    have hm := (List.mem_append.1 hq).resolve_right (by simp)
    refine .inr ⟨_, _, _, hseat hr hc, hclosed ((List.mem_append.1 hm).resolve_left hsaid), ?_⟩
    rw [seated?_dropRoom, if_pos rfl]
  | @abandoned room p _ r _ hr hc =>
    have hm := (List.mem_append.1 hq).resolve_right hall
    refine .inr ⟨_, _, _, hseat hr hc, hclosed ((List.mem_append.1 hm).resolve_left hsaid), ?_⟩
    rw [seated?_setRoom]
    exact (if_pos (hn _ _ hr).symm).trans ((Room.get?_remove r p p).trans (if_pos rfl))
  | @solved room p _ _ r _ _ hr =>
    -- The queues of all clients are closed, so any of them may be meant.
    have hm := (List.mem_cons.1 hq).resolve_left (by simp)
    have hmem : .close q ∈ r.clients.values.flatMap Client.closing := by
      rcases List.mem_append.1 hm with hm | hm
      · exact (List.mem_append.1 hm).resolve_left hall
      · split at hm <;> simp at hm
    obtain ⟨c, hc, hm⟩ := List.mem_flatMap.1 hmem
    obtain ⟨⟨p', _⟩, he, rfl⟩ := List.mem_map.1 hc
    refine .inr ⟨room, p', _, (seated?_of_get? hr p').trans (r.clients.get?_eq_some_iff.2 he),
      hclosed hm, ?_⟩
    exact (seated?_dropRoom h r.id room p').trans (if_pos (hn _ _ hr).symm)

theorem Sound.seated_or_closed (hs : h.Sound) (ht : Transition source h e h' effects)
    {room : RoomId} {p : PlayerId} {c : Client} {q : QueueId} (hc : h.seated? room p = some c)
    (hq : c.outbound = some q) : h'.seated? room p = some c ∨ .close q ∈ effects := by
  have hclosing : .close q ∈ c.closing := Client.mem_closing.2 ⟨q, hq, rfl⟩
  have hown : ∀ {r}, h.rooms.get? room = some r → r.clients.get? p = some c := fun hr => by
    rwa [seated?_of_get? hr] at hc
  have hleaver : ∀ {r k c'}, h.rooms.get? room = some r → r.clientOn p k = some c' → c' = c :=
    fun hr hc' => Option.some.inj ((Room.clientOn_eq_some.1 hc').1.symm.trans (hown hr))
  -- A new client takes no place but its own.
  have hseat : ∀ {c' r} (hf : ¬ r.isFull), h.rooms.get? c'.room = some r →
      ¬ r.contains c'.player →
        (if room = r.id then (r.seat c' hf).clients.get? p else h.seated? room p) = some c := by
    intro c' r hf hr hn
    split
    · next hid =>
      obtain rfl : room = c'.room := hid.trans (hs _ _ hr).1
      rw [Room.get?_seat, if_neg, hown hr]
      rintro rfl
      exact hn (Option.isSome_iff_exists.2 ⟨c, hown hr⟩)
    · exact hc
  cases ht with
  | opened hr =>
    refine .inl ?_
    rw [seated?_setRoom, if_neg, hc]
    rintro rfl
    obtain ⟨r, hr', -⟩ := Option.bind_eq_some_iff.1 hc
    cases hr.symm.trans hr'
  | waiting hf hr hn => exact .inl ((seated?_setRoom _ _ _ _).trans (hseat hf hr hn))
  | started hf hr hn => exact .inl ((seated?_start _ _ _ _ _).trans (hseat hf hr hn))
  | emptied hr hc' he =>
    rw [seated?_dropRoom]
    split
    · next hroom =>
      subst hroom
      obtain rfl := Room.eq_of_isEmpty_remove he (hown hr)
      obtain rfl := hleaver hr hc'
      exact .inr (by simp [hclosing])
    · exact .inl hc
  | @abandoned room' p' _ r _ hr hc' =>
    rw [seated?_setRoom]
    change (if room = r.id then (r.remove p').clients.get? p else _) = _ ∨ _
    split
    · next hid =>
      obtain rfl : room = room' := hid.trans (hs _ _ hr).1
      rw [Room.get?_remove]
      by_cases hp : p = p'
      · subst hp
        obtain rfl := hleaver hr hc'
        exact .inr (by simp [hclosing])
      · exact .inl ((if_neg hp).trans (hown hr))
    · exact .inl hc
  | @solved _ _ _ _ r _ _ hr =>
    -- The queues of all clients of the room are closed.
    obtain rfl := (hs _ _ hr).1
    change (h.dropRoom r.id).seated? room p = some c ∨ _
    rw [seated?_dropRoom]
    split
    · next hroom =>
      subst hroom
      have hmem : c ∈ r.clients.values :=
        List.mem_map.2 ⟨(p, c), r.clients.get?_eq_some_iff.1 (hown hr), rfl⟩
      have hall : .close q ∈ r.clients.values.flatMap Client.closing :=
        List.mem_flatMap.2 ⟨c, hmem, hclosing⟩
      exact .inr (List.mem_cons_of_mem _ (List.mem_append_left _ (List.mem_append_right _ hall)))
    · exact .inl hc
  | _ => exact .inl hc

theorem Sound.joined_or_closed (hs : h.Sound) {c : Client} {q : QueueId}
    (ht : Transition source h (.join c) h' effects) (hq : c.outbound = some q) :
    h'.seated? c.room c.player = some c ∨ .close q ∈ effects := by
  have hclosing : .close q ∈ c.closing := Client.mem_closing.2 ⟨q, hq, rfl⟩
  have hseat : ∀ {r : Room} (hf : ¬ r.isFull), r.id = c.room →
      (if c.room = r.id then (r.seat c hf).clients.get? c.player
        else h.seated? c.room c.player) = some c := fun hf hid => by
    rw [if_pos hid.symm, Room.get?_seat, if_pos rfl]
  cases ht with
  | opened =>
    exact .inl ((seated?_setRoom _ _ _ _).trans (hseat (Room.not_isFull_new c.room) rfl))
  | waiting hf hr => exact .inl ((seated?_setRoom _ _ _ _).trans (hseat hf (hs _ _ hr).1))
  | started hf hr => exact .inl ((seated?_start _ _ _ _ _).trans (hseat hf (hs _ _ hr).1))
  | duplicate | crowded => exact .inr (List.mem_append_right _ hclosing)

theorem exists_step_of_mem_run {es : List Event} {x : Effect} (hx : x ∈ (h.run source es).2) :
    ∃ before e later, es = before ++ e :: later ∧
      x ∈ ((h.run source before).1.step source e).2 := by
  induction es generalizing h with
  | nil => cases hx
  | cons e es ih =>
    rw [run_cons] at hx
    rcases List.mem_append.1 hx with hx | hx
    · exact ⟨[], e, es, rfl, hx⟩
    · obtain ⟨before, e', later, rfl, hx'⟩ := ih hx
      exact ⟨e :: before, e', later, rfl, hx'⟩

/-- Whoever is seated on the connection of a client, or with a given queue, has the
    place of that client. -/
def OnlyPlace (h : Hub) (c : Client) (q : QueueId) : Prop :=
  ∀ room p d, h.seated? room p = some d → d.connection = c.connection ∨ d.outbound = some q →
    room = c.room ∧ p = c.player

section
variable {c : Client} {q : QueueId}

theorem onlyPlace_empty (c : Client) (q : QueueId) : ({} : Hub).OnlyPlace c q := by
  intro room p d hd
  cases hd

theorem OnlyPlace.run (hp : h.OnlyPlace c q) (hn : h.Named) {es : List Event}
    (hes : ∀ d, .join d ∈ es → d = c ∨ d.connection ≠ c.connection ∧ d.outbound ≠ some q) :
    (h.run source es).1.OnlyPlace c q := by
  refine hn.forall_seated hp fun d hd hk => ?_
  rcases hes d hd with rfl | ⟨hc, hq⟩
  · exact ⟨rfl, rfl⟩
  · exact (hk.elim hc hq).elim

theorem OnlyPlace.step (hp : h.OnlyPlace c q) (hn : h.Named)
    (he : ∀ d, e = .join d → d = c ∨ d.connection ≠ c.connection ∧ d.outbound ≠ some q) :
    (h.step source e).1.OnlyPlace c q :=
  show (h.run source [e]).1.OnlyPlace c q from
    hp.run hn fun d hd => he d (List.mem_singleton.1 hd).symm

/-- When the queue is closed, and not because somebody is turned away, the
    connection becomes vacant. -/
theorem OnlyPlace.vacant_of_close (hp : h.OnlyPlace c q) (hp' : h'.OnlyPlace c q) (hn : h.Named)
    (ht : Transition source h e h' effects) (hq : .close q ∈ effects)
    (hj : ∀ d, e = .join d → d.outbound = some q → h.Vacant c.connection) :
    h'.Vacant c.connection := by
  rcases hn.of_close ht hq with ⟨d, rfl, hdq, rfl⟩ | ⟨room, p, d, hd, hdq, hgone⟩
  · exact hj d rfl hdq
  · intro room' p' d' hd' hk
    obtain ⟨rfl, rfl⟩ := hp room p d hd (.inr hdq)
    obtain ⟨rfl, rfl⟩ := hp' room' p' d' hd' (.inl hk)
    rw [hgone] at hd'
    cases hd'

theorem vacant_of_close {before mid : List Event}
    (hone : ∀ d, .join d ∈ before ++ mid → d.connection ≠ c.connection)
    (hown : ∀ d, .join d ∈ before ++ mid → d.outbound ≠ some q)
    (hq : .close q ∈ ((after source before).run source (.join c :: mid)).2) :
    (after source (before ++ .join c :: mid)).Vacant c.connection := by
  have hmid : ∀ d, .join d ∈ mid → d.connection ≠ c.connection ∧ d.outbound ≠ some q := fun d hd =>
    ⟨hone d (List.mem_append_right _ hd), hown d (List.mem_append_right _ hd)⟩
  have hn : (after source before).Named := named_empty.run source before
  have hp : (after source before).OnlyPlace c q :=
    (onlyPlace_empty c q).run named_empty fun d hd =>
      .inr ⟨hone d (List.mem_append_left _ hd), hown d (List.mem_append_left _ hd)⟩
  have ht := step_transition source (after source before) (.join c)
  have hp' : ((after source before).step source (.join c)).1.OnlyPlace c q :=
    hp.step hn fun d hd => .inl (Event.join.inj hd).symm
  have hn' := hn.transition ht
  rw [after_append, run_cons]
  rw [run_cons] at hq
  rcases List.mem_append.1 hq with hq | hq
  · -- The client was turned away.
    have hv : (after source before).Vacant c.connection :=
      (vacant_empty _).run named_empty fun d hd => hone d (List.mem_append_left _ hd)
    have hv' := hp.vacant_of_close hp' hn ht hq fun _ _ _ => hv
    exact hv'.run hn' fun d hd => (hmid d hd).1
  · obtain ⟨es, e, later, rfl, hx⟩ := exists_step_of_mem_run hq
    have he : ∀ d, e = .join d → d.connection ≠ c.connection ∧ d.outbound ≠ some q := by
      rintro d rfl
      exact hmid d (List.mem_append_right es List.mem_cons_self)
    have hpe : (run source _ es).1.OnlyPlace c q :=
      hp'.run hn' fun d hd => .inr (hmid d (List.mem_append_left _ hd))
    have hne := hn'.run source es
    have hpe' : (step source _ e).1.OnlyPlace c q := hpe.step hne fun d hd => .inr (he d hd)
    have hv := hpe.vacant_of_close hpe' hne (step_transition source _ e) hx
      fun d hd hdq => absurd hdq (he d hd).2
    rw [run_append, run_cons]
    exact hv.run (hne.transition (step_transition source _ e)) fun d hd =>
      (hmid d (List.mem_append_right _ (List.mem_cons_of_mem e hd))).1

end

end

/-! ## Runs without the events of a connection -/

/-- The run over `es'` comes to the same as the run over `es`, except for what the
    client `c` hears. -/
structure SameToOthers (source : PuzzleSource) (c : Client) (es es' : List Event) : Prop where
  /-- The rooms, and how many puzzles were drawn. -/
  hub : after source es' = after source es
  /-- All that is reported, in order. -/
  reports : reportsOf (done source es') = reportsOf (done source es)
  /-- All answers to questions, in order. -/
  answers : (done source es').filter Effect.isAnswer = (done source es).filter Effect.isAnswer
  /-- All that is heard on every other queue, in order. -/
  signals : ∀ q, c.outbound ≠ some q →
    signalsTo q (done source es') = signalsTo q (done source es)

theorem filter_isAnswer_farewell (c : Client) (m : Message) :
    (c.deliver m ++ c.closing).filter Effect.isAnswer = [] := by
  rw [Client.deliver, Client.closing]
  cases c.outbound <;> rfl

section
variable {source : PuzzleSource} {before later : List Event} {c : Client}

/-- What a client does who is turned away, and where no other joins on its
    connection, is heard of by nobody else. -/
theorem sameToOthers_of_turnsAway
    (hone : ∀ d, .join d ∈ before ++ later → d.connection ≠ c.connection)
    (hc : (after source before).turnsAway c) :
    SameToOthers source c (before ++ .join c :: later)
      (eventsBut c.connection (before ++ .join c :: later)) := by
  have hbefore : ∀ d, .join d ∈ before → d.connection ≠ c.connection := fun d hd =>
    hone d (List.mem_append_left _ hd)
  have hlater : ∀ d, .join d ∈ later → d.connection ≠ c.connection := fun d hd =>
    hone d (List.mem_append_right _ hd)
  have hn : (after source before).Named := named_empty.run source before
  have hv : (after source before).Vacant c.connection :=
    (vacant_empty _).run named_empty hbefore
  obtain ⟨body, hstep⟩ := step_of_turnsAway source hc
  have hbut : eventsBut c.connection (before ++ .join c :: later) =
      eventsBut c.connection before ++ eventsBut c.connection later := by
    simp [eventsBut, Event.isFrom]
  have hrun : run source {} (eventsBut c.connection before) = run source {} before :=
    (vacant_empty c.connection).run_filter named_empty hbefore
  have hafter : after source (eventsBut c.connection before) = after source before := by
    rw [after, hrun, after]
  have hdone : done source (eventsBut c.connection before) = done source before := by
    rw [done, hrun, done]
  -- Both runs, with what the client is told in between.
  have hes : after source (before ++ .join c :: later) =
        after source (eventsBut c.connection (before ++ .join c :: later)) ∧
      done source (before ++ .join c :: later) = done source before ++
        ((c.deliver (Notice.inRoom c.room body) ++ c.closing) ++
          ((after source before).run source later).2) ∧
      done source (eventsBut c.connection (before ++ .join c :: later)) =
        done source before ++ ((after source before).run source later).2 := by
    rw [hbut, after_append, after_append, done_append, done_append, run_cons, hstep, hafter, hdone,
      hv.run_filter hn hlater]
    exact ⟨rfl, rfl, rfl⟩
  obtain ⟨hhub, hd, hd'⟩ := hes
  refine ⟨hhub.symm, ?_, ?_, fun q hq => ?_⟩
  · rw [hd, hd']
    simp only [reportsOf_append, reportsOf_deliver, reportsOf_closing, List.nil_append]
  · rw [hd, hd', List.filter_append, List.filter_append, List.filter_append,
      filter_isAnswer_farewell, List.nil_append]
  · rw [hd, hd', signalsTo_append, signalsTo_append, signalsTo_append, signalsTo_farewell,
      if_neg hq, List.nil_append]

/-- Once the queue of a client is closed, and where no other joins on its
    connection, the events that still come from there do nothing. -/
theorem run_eventsBut_of_close {mid rest : List Event} {q : QueueId}
    (hone : ∀ d, .join d ∈ before ++ (mid ++ rest) → d.connection ≠ c.connection)
    (hown : ∀ d, .join d ∈ before ++ mid → d.outbound ≠ some q)
    (hq : .close q ∈ ((after source before).run source (.join c :: mid)).2) :
    (after source (before ++ .join c :: mid)).run source (eventsBut c.connection rest) =
      (after source (before ++ .join c :: mid)).run source rest := by
  have hn : (after source (before ++ .join c :: mid)).Named := named_empty.run source _
  rw [← List.append_assoc] at hone
  exact (vacant_of_close (fun d hd => hone d (List.mem_append_left _ hd)) hown hq).run_filter hn
    fun d hd => hone d (List.mem_append_right _ hd)

end

/-- **A connection on which nobody is seated influences nothing.**  In every run in
    which `c` is the only client who joins on its connection:

    * if `c` is turned away, all events from its connection can be left out, and
      nobody but `c` can tell;
    * if the queue of `c`, which is its own, is closed in the course of `mid`, the
      events that come from its connection in `rest` can be left out, and not even
      `c` can tell, whoever is seated by then in its room or under its name. -/
theorem run_without_absent (source : PuzzleSource) (before later : List Event) (c : Client)
    (hone : ∀ d, .join d ∈ before ++ later → d.connection ≠ c.connection) :
    ((after source before).turnsAway c →
      SameToOthers source c (before ++ .join c :: later)
        (eventsBut c.connection (before ++ .join c :: later))) ∧
    ∀ q mid rest, later = mid ++ rest → c.outbound = some q →
      (∀ d, .join d ∈ before ++ later → d.outbound ≠ some q) →
      .close q ∈ ((after source before).run source (.join c :: mid)).2 →
      after source (before ++ .join c :: mid ++ eventsBut c.connection rest) =
          after source (before ++ .join c :: later) ∧
        done source (before ++ .join c :: mid ++ eventsBut c.connection rest) =
          done source (before ++ .join c :: later) := by
  refine ⟨sameToOthers_of_turnsAway hone, ?_⟩
  rintro q mid rest rfl - hown hq
  have hown' : ∀ d, .join d ∈ before ++ mid → d.outbound ≠ some q := fun d hd =>
    hown d (by rw [← List.append_assoc]; exact List.mem_append_left _ hd)
  have hrun := run_eventsBut_of_close hone hown' hq
  have hes : before ++ .join c :: (mid ++ rest) = before ++ .join c :: mid ++ rest := by simp
  rw [hes]
  constructor
  · rw [after_append _ _ rest, ← hrun, ← after_append]
  · rw [done_append _ _ rest, ← hrun, ← done_append]

/-- A third player who talks from a full room, and a player who answers from the
    connection it left, while it is seated there again on another one. -/
theorem run_without_absent_second_visit :
    let ada : Client := .new ⟨"ada"⟩ ⟨1⟩ ⟨"r"⟩ ⟨"a"⟩
    let cyd : Client := .new ⟨"cyd"⟩ ⟨3⟩ ⟨"r"⟩ ⟨"c"⟩
    let bob : Event := .join (.new ⟨"bob"⟩ ⟨2⟩ ⟨"r"⟩ ⟨"b"⟩)
    let leaves : Event := .leave ⟨"r"⟩ ⟨"ada"⟩ ⟨1⟩
    let answers : Event := .submit ⟨"r"⟩ ⟨"ada"⟩ ⟨1⟩ "1+1*9*9+9+9"
    let returns : Event := .join (.new ⟨"ada"⟩ ⟨4⟩ ⟨"r"⟩ ⟨"a2"⟩)
    let talks : Event := .broadcast ⟨3⟩ ⟨.leave, ⟨"r"⟩, some ⟨"cyd"⟩⟩
    let source : PuzzleSource := fun _ => none
    (after source [.join ada, bob]).turnsAway cyd ∧
      SameToOthers source cyd [.join ada, bob, .join cyd, talks] [.join ada, bob] ∧
      .close ⟨"a"⟩ ∈ (({} : Hub).run source [.join ada, leaves]).2 ∧
      after source [.join ada, leaves, returns, bob] =
        after source [.join ada, leaves, returns, bob, answers] ∧
      done source [.join ada, leaves, returns, bob] =
        done source [.join ada, leaves, returns, bob, answers] := by
  intro ada cyd bob leaves answers returns talks source
  have hcyd : (after source [.join ada, bob]).turnsAway cyd := by decide +kernel
  have hada : .close ⟨"a"⟩ ∈ (({} : Hub).run source [.join ada, leaves]).2 := by decide +kernel
  have hthird := (run_without_absent source [.join ada, bob] [talks] cyd
    (by simp [bob, ada, cyd, talks, Client.new])).1 hcyd
  have hback := (run_without_absent source [] [leaves, returns, bob, answers] ada
    (by simp [leaves, returns, bob, answers, ada, Client.new])).2 ⟨"a"⟩ [leaves]
      [returns, bob, answers] rfl rfl (by simp [leaves, returns, bob, answers, Client.new]) hada
  exact ⟨hcyd, hthird, hada, hback⟩

end Hub

end HectocDuel
