/-
  Nobody stays behind in a room.

  A seat belongs to a connection.  As long as the session of the connection goes on, the
  player may stay; the session ends by putting in line that the player leaves, and puts
  nothing in line after that.

  * `LineTurn` lists what an action does to the hub, to the line before it and to the
    sessions;
  * `Attended`: so whoever is seated, or waits to be, has a session that goes on, or its
    leaving comes later in the line;
  * `inLine_of_joined`: whoever has joined waits to be seated, is seated, or has had its
    queue closed;
  * `ended_leaves_no_seat`: when the hub has taken all that an ended connection asked,
    nobody is seated on it; when all connections have ended and nothing waits there are no
    rooms and all queues are closed.
-/
import HectocDuel.Proofs.Hub.Absence
import HectocDuel.Proofs.Server.Speech

namespace HectocDuel

/-- The session of a connection that was not turned away. -/
def Stage.session? : Stage → Option Session
  | asked session | found session _ | registered session | begun session => some session
  | ended => none

/-- A session goes on unless its player leaves. -/
theorem Session.react_of_ends (s : Session) {i : Incoming} (h : (s.react i).2 = false) :
    (s.react i).1 = s.leaving := by
  cases i with
  | frame text =>
    rw [react] at h ⊢
    cases hm : Message.decode text with
    | error e => rfl
    | ok m =>
      rw [hm] at h
      simp only at h ⊢
      by_cases hb : m.body = .leave
      · rw [hb]
        rfl
      · rw [s.reactTo_of_ne hb] at h
        cases h
  | closed => rfl
  | failed => rfl

theorem Hub.Sound.not_seated_of_leave {h : Hub} (hs : h.Sound) (source : PuzzleSource)
    {room : RoomId} {p : PlayerId} {c : Client} (hc : h.seated? room p = some c) :
    (h.step source (.leave c.room c.player c.connection)).1.seated? room p ≠ some c := by
  obtain ⟨rfl, rfl, -⟩ := hs.of_seated hc
  have ht := step_transition source h (.leave c.room c.player c.connection)
  generalize (h.step source (.leave c.room c.player c.connection)).1 = h' at ht
  generalize (h.step source (.leave c.room c.player c.connection)).2 = effects at ht
  intro hc'
  cases ht with
  | absent hn =>
    obtain ⟨r, hr, hrc⟩ := Option.bind_eq_some_iff.1 hc
    rw [seatedOn?_of_get? hr, Room.clientOn_eq_some.2 ⟨hrc, rfl⟩] at hn
    cases hn
  | emptied =>
    rw [seated?_dropRoom, if_pos rfl] at hc'
    cases hc'
  | @abandoned _ _ _ r _ hr =>
    rw [seated?_setRoom] at hc'
    change (if c.room = r.id then (r.remove c.player).clients.get? c.player else _) = some c at hc'
    rw [if_pos (hs _ _ hr).1.symm] at hc'
    exact (Room.get?_remove_eq_some.1 hc').1 rfl

theorem Hub.Sound.size_eq_zero {h : Hub} (hs : h.Sound)
    (hnone : ∀ room p c, h.seated? room p ≠ some c) : h.rooms.size = 0 := by
  by_contra hsize
  obtain ⟨⟨room, r⟩, hr⟩ := List.exists_mem_of_length_pos (Nat.pos_of_ne_zero hsize)
  have hroom := h.rooms.get?_eq_some_iff.2 hr
  have hclients : 0 < r.clients.size := by
    have := (hs room r hroom).2.size
    omega
  obtain ⟨⟨p, c⟩, hc⟩ := List.exists_mem_of_length_pos hclients
  exact hnone room p c ((seated?_of_get? hroom p).trans (r.clients.get?_eq_some_iff.2 hc))

namespace Server

section
variable [Url.HostNames] (source : PuzzleSource)

/-! ## Who joins, and what is sent -/

/-- The session that begins by an action. -/
def joinedBy (s : Server Games) : Action → List Session
  | .advance c =>
    match s.stages.get? c with
    | some (.registered session) => [session]
    | _ => []
  | _ => []

/-- What is sent and closed by an action. -/
def effectsOf (s : Server Games) : Action → List Effect
  | .accept target => (s.accept target).2.2
  | .advance c => (s.advance .ofGames c).2
  | .takeEvent => (s.takeEvent source).2
  | .receive _ _ | .takeReport | .openGame _ => []

/-- The sessions that begin in the course of actions, from the start. -/
def joined (autoOpen : Bool) (acts : List Action) : List Session :=
  noted (act source) joinedBy { store := { autoOpen } } acts

/-- What is sent and closed in the course of actions, from the start. -/
def effects (autoOpen : Bool) (acts : List Action) : List Effect :=
  noted (act source) (effectsOf source) { store := { autoOpen } } acts

section
variable {source}

/-! ## What an action does to the line -/

/-- The server `s` becomes `s'` by an action: what this means for the hub, for the line
    before it and for the sessions that go on. -/
inductive LineTurn (source : PuzzleSource) (s : Server Games) : Action → Server Games → Prop where
  /-- Nothing. -/
  | quiet {a : Action} {s' : Server Games} : s'.hub = s.hub → s'.intake = s.intake →
      (∀ c session, s.stages.get? c = some (.begun session) →
        s'.stages.get? c = some (.begun session)) →
      LineTurn source s a s'
  /-- A session begins. -/
  | begins {c : ConnectionId} {session : Session} {s' : Server Games} :
      s.stages.get? c = some (.registered session) → s'.hub = s.hub →
      s'.intake = s.intake ++ [session.joining] →
      (∀ k, s'.stages.get? k = if k = c then some (.begun session) else s.stages.get? k) →
      LineTurn source s (.advance c) s'
  /-- A session goes on. -/
  | speaks {c : ConnectionId} {i : Incoming} {session : Session} {s' : Server Games} :
      s.stages.get? c = some (.begun session) → s'.hub = s.hub →
      s'.intake = s.intake ++ [(session.react i).1] → s'.stages = s.stages →
      LineTurn source s (.receive c i) s'
  /-- A session ends. -/
  | ends {c : ConnectionId} {i : Incoming} {session : Session} {s' : Server Games} :
      s.stages.get? c = some (.begun session) → s'.hub = s.hub →
      s'.intake = s.intake ++ [session.leaving] →
      (∀ k, s'.stages.get? k = if k = c then some .ended else s.stages.get? k) →
      LineTurn source s (.receive c i) s'
  /-- The hub takes an event. -/
  | takes {e : Event} {intake : List Event} {s' : Server Games} : s.intake = e :: intake →
      s'.hub = (s.hub.step source e).1 → s'.intake = intake → s'.stages = s.stages →
      LineTurn source s .takeEvent s'

/-- Every session belongs to its connection, which was accepted. -/
def OwnStages (s : Server Games) : Prop :=
  ∀ c stage session, s.stages.get? c = some stage → stage.session? = some session →
    session.connection = c ∧ c.number ≤ s.accepted

variable {s : Server Games}

omit [Url.HostNames] in
theorem OwnStages.setStage (ho : s.OwnStages) {s' : Server Games} {c : ConnectionId}
    {stage : Stage} (hs : s'.stages = s.stages) (hle : s.accepted ≤ s'.accepted)
    (hown : ∀ session, stage.session? = some session →
      session.connection = c ∧ c.number ≤ s'.accepted) : (s'.setStage c stage).OwnStages := by
  intro c' stage' session hc hsession
  rw [get?_setStage, hs] at hc
  split at hc
  · next heq =>
    obtain rfl := Option.some.inj hc
    exact heq ▸ hown session hsession
  · obtain ⟨hconnection, hnumber⟩ := ho c' stage' session hc hsession
    exact ⟨hconnection, Nat.le_trans hnumber hle⟩

theorem OwnStages.act (ho : s.OwnStages) (a : Action) : (act source s a).OwnStages := by
  have hturn := actionTurn source s a
  generalize Server.act source s a = s' at *
  cases hturn with
  | rests | speaks | takes | books | opens => exact ho
  | asks hconnection =>
    refine ho.setStage rfl (Nat.le_succ _) fun session hs => ?_
    obtain rfl := Option.some.inj hs
    exact ⟨hconnection, Nat.le_refl _⟩
  | refuses => exact ho.setStage rfl (Nat.le_succ _) nofun
  | finds hc | registers hc | begins hc =>
    exact ho.setStage rfl (Nat.le_refl _) fun session hs => ho _ _ session hc hs
  | misses | ends => exact ho.setStage rfl (Nat.le_refl _) nofun

omit [Url.HostNames] in
/-- A session that goes on is not touched by what happens to other connections. -/
theorem get?_setStage_of_begun {s' : Server Games} {c k : ConnectionId} {stage : Stage}
    {session : Session} (hs : s'.stages = s.stages)
    (hc : ∀ session, s.stages.get? c ≠ some (.begun session))
    (hk : s.stages.get? k = some (.begun session)) :
    (s'.setStage c stage).stages.get? k = some (.begun session) := by
  rw [get?_setStage, if_neg, hs, hk]
  rintro rfl
  exact hc session hk

theorem OwnStages.lineTurn (ho : s.OwnStages) (source : PuzzleSource) (a : Action) :
    LineTurn source s a (Server.act source s a) := by
  have hnew : ∀ session, s.stages.get? ⟨s.accepted + 1⟩ ≠ some (.begun session) :=
    fun session hc => absurd (ho _ _ session hc rfl).2 (Nat.not_succ_le_self _)
  have hturn := actionTurn source s a
  generalize Server.act source s a = s' at *
  cases hturn with
  | rests | books | opens => exact .quiet rfl rfl fun _ _ hk => hk
  | asks | refuses => exact .quiet rfl rfl fun _ _ => get?_setStage_of_begun rfl hnew
  | finds hc | misses hc | registers hc =>
    exact .quiet rfl rfl fun _ _ => get?_setStage_of_begun rfl fun _ hb => by
      cases hc.symm.trans hb
  | begins hc => exact .begins hc rfl rfl fun k => get?_setStage _ _ k _
  | speaks hc => exact .speaks hc rfl rfl rfl
  | @ends _ _ session hc hgo =>
    rw [session.react_of_ends hgo]
    exact .ends hc rfl rfl fun k => get?_setStage _ _ k _
  | takes he => exact .takes he rfl rfl rfl

/-! ## Seats that are given up -/

/-- A client will leave: its session goes on, or its leaving waits. -/
def WillLeave (s : Server Games) (waiting : List Event) (c : Client) : Prop :=
  (∃ session, s.stages.get? c.connection = some (.begun session) ∧ session.client = c) ∨
    .leave c.room c.player c.connection ∈ waiting

/-- Whoever is seated, or waits to be, will leave after that. -/
structure Attended (s : Server Games) : Prop where
  sound : s.hub.Sound
  own : s.OwnStages
  fresh : ∀ c, .join c ∈ s.intake → (Event.join c).Fresh
  waits : ∀ before c later, s.intake = before ++ .join c :: later → s.WillLeave later c
  seated : ∀ room p c, s.hub.seated? room p = some c → s.WillLeave s.intake c

omit [Url.HostNames] in
theorem WillLeave.keeps {s' : Server Games} {waiting waiting' : List Event} {c : Client}
    (h : s.WillLeave waiting c)
    (hbegun : ∀ session, s.stages.get? c.connection = some (.begun session) →
      s'.stages.get? c.connection = some (.begun session))
    (hwaiting : ∀ e ∈ waiting, e ∈ waiting') : s'.WillLeave waiting' c := by
  rcases h with ⟨session, hsession, rfl⟩ | h
  · exact .inl ⟨session, hbegun session hsession, rfl⟩
  · exact .inr (hwaiting _ h)

omit [Url.HostNames] in
/-- When a session ends, its client leaves by what is put in line then. -/
theorem WillLeave.ends {s' : Server Games} {waiting : List Event} {c : Client} {k : ConnectionId}
    {session : Session} (h : s.WillLeave waiting c)
    (hk : s.stages.get? k = some (.begun session))
    (hstages : ∀ k', s'.stages.get? k' = if k' = k then some .ended else s.stages.get? k') :
    s'.WillLeave (waiting ++ [session.leaving]) c := by
  rcases h with ⟨session', hsession, rfl⟩ | h
  · by_cases heq : session'.client.connection = k
    · obtain rfl : session' = session := by
        rw [heq, hk] at hsession
        exact (Stage.begun.inj (Option.some.inj hsession)).symm
      exact .inr (List.mem_append_right _ List.mem_cons_self)
    · exact .inl ⟨session', by rw [hstages, if_neg heq, hsession], rfl⟩
  · exact .inr (List.mem_append_left _ h)

omit [Url.HostNames] in
/-- Whoever waits in a line to which something was added is what was added, or has waited
    before. -/
theorem split_concat {intake before later : List Event} {e e' : Event}
    (h : intake ++ [e'] = before ++ e :: later) :
    (e = e' ∧ later = []) ∨ ∃ later', later = later' ++ [e'] ∧ intake = before ++ e :: later' := by
  rcases List.eq_nil_or_concat later with rfl | ⟨later', e'', rfl⟩
  · obtain ⟨-, heq⟩ := List.append_inj' h rfl
    exact .inl ⟨(List.singleton_inj.1 heq).symm, rfl⟩
  · have h' : intake ++ [e'] = (before ++ e :: later') ++ [e''] := by simpa using h
    obtain ⟨hintake, heq⟩ := List.append_inj' h' rfl
    obtain rfl := List.singleton_inj.1 heq
    exact .inr ⟨later', List.concat_eq_append, hintake⟩

omit [Url.HostNames] in
/-- Nothing is put in line but by sessions, each of which leaves at the end. -/
theorem Attended.put (h : s.Attended) {s' : Server Games} {e : Event} (hown : s'.OwnStages)
    (hhub : s'.hub = s.hub) (hintake : s'.intake = s.intake ++ [e])
    (hjoin : ∀ c, e = .join c → e.Fresh ∧ s'.WillLeave [] c)
    (hkeeps : ∀ waiting c, s.WillLeave waiting c → s'.WillLeave (waiting ++ [e]) c) :
    s'.Attended := by
  refine ⟨hhub ▸ h.sound, hown, fun c hc => ?_, fun before c later hl => ?_, fun room p c hc => ?_⟩
  · rw [hintake] at hc
    rcases List.mem_append.1 hc with hc | hc
    · exact h.fresh c hc
    · obtain rfl := List.mem_singleton.1 hc
      exact (hjoin c rfl).1
  · rw [hintake] at hl
    rcases split_concat hl with ⟨heq, rfl⟩ | ⟨later', rfl, hbefore⟩
    · exact (hjoin c heq.symm).2
    · exact hkeeps _ c (h.waits before c later' hbefore)
  · rw [hintake]
    exact hkeeps _ c (h.seated room p c (hhub ▸ hc))

/-- **Every action keeps it so that all who are seated will leave.** -/
theorem Attended.act (h : s.Attended) (a : Action) : (act source s a).Attended := by
  have hown : (Server.act source s a).OwnStages := h.own.act a
  have hturn := h.own.lineTurn source a
  generalize Server.act source s a = s' at hown hturn
  have hlater : ∀ {e : Event} {waiting : List Event}, ∀ x ∈ waiting, x ∈ waiting ++ [e] :=
    fun _ hx => List.mem_append_left _ hx
  cases hturn with
  | quiet hhub hintake hbegun =>
    have hkeeps : ∀ {waiting c}, s.WillLeave waiting c → s'.WillLeave waiting c := fun hw =>
      hw.keeps (hbegun _) fun _ he => he
    refine ⟨hhub ▸ h.sound, hown, fun c hc => h.fresh c (hintake ▸ hc), fun before c later hl => ?_,
      fun room p c hc => ?_⟩
    · exact hkeeps (h.waits before c later (hintake ▸ hl))
    · rw [hintake]
      exact hkeeps (h.seated room p c (hhub ▸ hc))
  | @begins k session _ hk hhub hintake hstages =>
    refine h.put hown hhub hintake (fun c hc => ?_) fun waiting c hw => hw.keeps ?_ hlater
    · obtain rfl := Event.join.inj hc
      refine ⟨⟨_, _, _, _, rfl⟩, .inl ⟨session, ?_, rfl⟩⟩
      exact (hstages _).trans (if_pos (h.own k _ session hk rfl).1)
    · intro session' hc
      rw [hstages, if_neg, hc]
      rintro rfl
      cases hc.symm.trans hk
  | @speaks k i session _ hk hhub hintake hstages =>
    refine h.put hown hhub hintake (fun c hc => absurd hc (react_ne_join session i c)) ?_
    exact fun waiting c hw => hw.keeps (fun _ hc => hstages ▸ hc) hlater
  | ends hk hhub hintake hstages =>
    exact h.put hown hhub hintake nofun fun waiting c hw => hw.ends hk hstages
  | @takes e intake _ he hhub hintake hstages =>
    have hfresh : e.Fresh := by
      cases e with
      | join c => exact h.fresh c (he ▸ List.mem_cons_self)
      | _ => trivial
    have hkeeps : ∀ {waiting c}, s.WillLeave waiting c → s'.WillLeave waiting c := fun hw =>
      hw.keeps (fun _ hc => hstages ▸ hc) fun _ he => he
    refine ⟨hhub ▸ h.sound.step source hfresh, hown, fun c hc => h.fresh c ?_,
      fun before c later hl => ?_, fun room p c hc => ?_⟩
    · exact he ▸ List.mem_cons_of_mem e (hintake ▸ hc)
    · exact hkeeps (h.waits (e :: before) c later (by rw [he, ← hintake, hl, List.cons_append]))
    · rw [hhub] at hc
      rw [hintake]
      rcases (Hub.step_transition source s.hub e).seated_before h.sound hc with hb | rfl
      · rcases h.seated room p c hb with hw | hw
        · exact hkeeps (.inl hw)
        · rw [he] at hw
          rcases List.mem_cons.1 hw with rfl | hw
          · exact absurd hc (h.sound.not_seated_of_leave source hb)
          · exact hkeeps (.inr hw)
      · exact hkeeps (h.waits [] c intake he)

theorem attended (autoOpen : Bool) (source : PuzzleSource) (acts : List Action) :
    (after autoOpen source acts).Attended := by
  induction acts using List.reverseRecOn with
  | nil =>
    refine ⟨Hub.sound_empty, ?_, nofun, fun before c later h => ?_, ?_⟩
    · exact fun _ _ _ h => nomatch h
    · exact nomatch (List.append_eq_nil_iff.1 (Eq.symm h : before ++ .join c :: later = [])).2
    · exact fun _ _ _ h => nomatch h
  | append_singleton acts a ih =>
    rw [after_concat]
    exact ih.act a

/-! ## Queues that are closed -/

variable {autoOpen : Bool} {acts : List Action}

theorem joined_concat (a : Action) :
    joined source autoOpen (acts ++ [a]) =
      joined source autoOpen acts ++ joinedBy (after autoOpen source acts) a :=
  noted_concat ..

theorem effects_concat (a : Action) :
    effects source autoOpen (acts ++ [a]) =
      effects source autoOpen acts ++ effectsOf source (after autoOpen source acts) a :=
  noted_concat ..

omit [Url.HostNames] in
theorem mem_joinedBy {a : Action} {session : Session} (h : session ∈ joinedBy s a) :
    ∃ c, a = .advance c ∧ s.stages.get? c = some (.registered session) := by
  cases a with
  | advance c =>
    rw [joinedBy] at h
    split at h
    · next session' hc =>
      obtain rfl := List.mem_singleton.1 h
      exact ⟨c, rfl, hc⟩
    · cases h
  | _ => cases h

variable (source autoOpen acts) in
/-- A session that has begun: its client waits to be seated, is seated, or has had its queue
    closed. -/
def InLine (session : Session) : Prop :=
  .join session.client ∈ (after autoOpen source acts).intake ∨
    (after autoOpen source acts).hub.seated? session.room session.player = some session.client ∨
    .close session.connection.queue ∈ effects source autoOpen acts

theorem InLine.act {session : Session} (h : InLine source autoOpen acts session) (a : Action) :
    InLine source autoOpen (acts ++ [a]) session := by
  have hs := attended autoOpen source acts
  have hturn := hs.own.lineTurn source a
  rw [InLine, effects_concat, List.mem_append, after_concat]
  -- Unless the hub takes an event the line only grows.
  have hgrows : ∀ {s' : Server Games}, s'.hub = (after autoOpen source acts).hub →
      (∀ e ∈ (after autoOpen source acts).intake, e ∈ s'.intake) →
      .join session.client ∈ s'.intake ∨
        s'.hub.seated? session.room session.player = some session.client ∨
        .close session.connection.queue ∈ effects source autoOpen acts ∨
        .close session.connection.queue ∈ effectsOf source (after autoOpen source acts) a := by
    intro s' hhub hintake
    rcases h with h | h | h
    · exact .inl (hintake _ h)
    · exact .inr (.inl (hhub ▸ h))
    · exact .inr (.inr (.inl h))
  generalize Server.act source (after autoOpen source acts) a = s' at hturn ⊢
  cases hturn with
  | quiet hhub hintake => exact hgrows hhub fun _ he => hintake ▸ he
  | begins _ hhub hintake | speaks _ hhub hintake | ends _ hhub hintake =>
    exact hgrows hhub fun _ he => hintake ▸ List.mem_append_left _ he
  | @takes e intake _ he hhub hintake =>
    have ht := Hub.step_transition source (after autoOpen source acts).hub e
    have heffects : effectsOf source (after autoOpen source acts) .takeEvent =
        ((after autoOpen source acts).hub.step source e).2 := by
      rw [effectsOf, takeEvent, he]
    rw [hhub, hintake, heffects]
    rcases h with h | h | h
    · rw [he] at h
      rcases List.mem_cons.1 h with rfl | h
      · exact .inr ((hs.sound.joined_or_closed ht rfl).imp_right .inr)
      · exact .inl h
    · exact .inr ((hs.sound.seated_or_closed ht h rfl).imp_right .inr)
    · exact .inr (.inr (.inl h))

theorem inLine_of_joined {session : Session} (h : session ∈ joined source autoOpen acts) :
    InLine source autoOpen acts session := by
  induction acts using List.reverseRecOn with
  | nil => cases h
  | append_singleton acts a ih =>
    rw [joined_concat] at h
    rcases List.mem_append.1 h with h | h
    · exact (ih h).act a
    · obtain ⟨c, rfl, hc⟩ := mem_joinedBy h
      refine .inl ?_
      rw [after_concat, Server.act, advance, hc]
      exact List.mem_append_right _ List.mem_cons_self

end

/-! ## Nobody stays -/

variable (autoOpen : Bool)

/-- **Nobody stays seated on a connection that has ended.**  In whatever order actions come:
    once the hub has taken every event that a connection has put in line whose session has
    ended, nobody is seated on that connection.  And when all connections have ended and no
    event waits, there are no rooms, and every client that ever joined has had its queue
    closed. -/
theorem ended_leaves_no_seat (acts : List Action) :
    let s := after autoOpen source acts
    (∀ c, s.stages.get? c = some .ended → (∀ e ∈ s.intake, ¬ e.isFrom c) → s.hub.Vacant c) ∧
      ((∀ c stage, s.stages.get? c = some stage → stage = .ended) → s.intake = [] →
        s.hub.rooms.size = 0 ∧
          ∀ session ∈ joined source autoOpen acts,
            .close session.connection.queue ∈ effects source autoOpen acts) := by
  intro s
  have hs : s.Attended := attended autoOpen source acts
  have hvacant : ∀ c, s.stages.get? c = some .ended → (∀ e ∈ s.intake, ¬ e.isFrom c) →
      s.hub.Vacant c := by
    rintro c hended hnone room p client hc rfl
    rcases hs.seated room p client hc with ⟨session, hbegun, -⟩ | hw
    · cases hended.symm.trans hbegun
    · exact hnone _ hw (decide_eq_true rfl)
  refine ⟨hvacant, fun hended hintake => ?_⟩
  have hseats : ∀ room p client, s.hub.seated? room p ≠ some client := by
    intro room p client hc
    rcases hs.seated room p client hc with ⟨session, hbegun, -⟩ | hw
    · cases hended _ _ hbegun
    · rw [hintake] at hw
      cases hw
  refine ⟨hs.sound.size_eq_zero hseats, fun session hjoined => ?_⟩
  rcases inLine_of_joined hjoined with hwaits | hseated | hclosed
  · rw [show (after autoOpen source acts).intake = [] from hintake] at hwaits
    cases hwaits
  · exact absurd hseated (hseats _ _ _)
  · exact hclosed

end

/-- `ada` comes twice and `cyd` is one too many; then all go, `ada` while `bob` stays. -/
theorem ended_leaves_no_seat_four_visits :
    let visit (name : String) (k : Nat) : List Action :=
      .accept ("/api/v1/ws/rooms/r/join?userId=" ++ name) :: List.replicate 3 (.advance ⟨k⟩)
    let come : List Action := visit "ada" 1 ++ visit "ada" 2 ++ visit "bob" 3 ++ visit "cyd" 4 ++
      [.receive ⟨2⟩ .closed, .receive ⟨4⟩ .failed, .receive ⟨1⟩ .closed] ++
      List.replicate 7 .takeEvent
    let acts := come ++ [.receive ⟨3⟩ .closed, .takeEvent]
    let s := after true (fun _ => none) come
    (s.hub.Vacant ⟨1⟩ ∧ s.hub.rooms.size = 1) ∧
      (after true (fun _ => none) acts).hub.rooms.size = 0 ∧
        (joined (fun _ => none) true acts).map (·.player.text) = ["ada", "ada", "bob", "cyd"] ∧
        ∀ session ∈ joined (fun _ => none) true acts,
          .close session.connection.queue ∈ effects (fun _ => none) true acts := by
  intro visit come acts s
  have hended : ∀ c stage, (after true (fun _ => none) acts).stages.get? c = some stage →
      stage = .ended := fun c stage hc =>
    have hall : ∀ e ∈ (after true (fun _ => none) acts).stages.entries, e.2 = .ended := by
      decide +kernel
    hall _ ((Table.get?_eq_some_iff _).1 hc)
  have hgone := (ended_leaves_no_seat (fun _ => none) true come).1 ⟨1⟩ (by decide +kernel)
    (by decide +kernel)
  obtain ⟨hrooms, hclosed⟩ :=
    (ended_leaves_no_seat (fun _ => none) true acts).2 hended (by decide +kernel)
  exact ⟨⟨hgone, by decide +kernel⟩, hrooms, by decide +kernel, hclosed⟩

end Server

end HectocDuel
