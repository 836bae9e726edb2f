/-
  Relayed messages and the notices of the hub.

  Anything may be relayed, also a text that reads like a notice of the hub.  What tells
  the two apart is the sender: a relayed message names the player who sent it, and a
  notice of the hub names nobody, or the player it is for.

  * `IsNotice` lists what the hub itself says to a client, `Says.isNotice`: it says
    nothing else;
  * `Relays` says when a message is relayed, `signalsTo_broadcast` to whom;
  * `relayed_unlike_notices`: nobody hears anything from another player that the hub
    itself could have said.
-/
import HectocDuel.Proofs.Hub.Reports
import HectocDuel.Proofs.Hub.Stay
import HectocDuel.Proofs.Wire.RoundTrip

namespace HectocDuel

/-! ## What the hub itself says -/

/-- The messages with which the hub itself turns to a player in a room. -/
inductive IsNotice (player : PlayerId) (room : RoomId) : Message → Prop where
  /-- It has something to say. -/
  | said {k : TextKind} {text : String} : IsNotice player room (Notice.inRoom room (.text k text))
  /-- It gives the player a puzzle. -/
  | assigned {digits : Digits} :
      IsNotice player room { body := .puzzleAssign digits, room, sender := some player }

theorem IsNotice.sender {player : PlayerId} {room : RoomId} {n : Message}
    (h : IsNotice player room n) :
    n.sender = if n.body.kind = .puzzleAssign then some player else none := by
  cases h with
  | said => rfl
  | assigned => rfl

theorem IsNotice.sender_ne {player p : PlayerId} {room : RoomId} {n : Message}
    (h : IsNotice player room n) (hp : p ≠ player) : n.sender ≠ some p := by
  rw [h.sender]
  split
  · exact fun heq => hp (Option.some.inj heq).symm
  · exact nofun

namespace Hub

section
variable {source : PuzzleSource} {es : List Event} {c : Client} {q : QueueId}

/-- All that a client hears of an event, but for messages that are relayed, are notices. -/
theorem ClientTurn.isNotice {h : Hub} {e : Event} {signals : List Signal} {φ φ' : Phase}
    (ht : ClientTurn h c φ e signals φ') (he : ∀ k m, e ≠ .broadcast k m) {n : Message}
    (hn : .told n ∈ signals) : IsNotice c.player c.room n := by
  have hsaid : ∀ {k text}, Signal.told n = c.said (.text k text) → IsNotice c.player c.room n :=
    fun h => Signal.told.inj h ▸ .said
  have hassigned : ∀ {d}, Signal.told n = c.assigned d → IsNotice c.player c.room n :=
    fun h => Signal.told.inj h ▸ .assigned
  cases ht with
  | silent => cases hn
  | hears => exact absurd rfl (he _ _)
  | joined => exact hassigned (List.mem_singleton.1 hn)
  | opens | unassigned | mismatched | unverified | wrong | deserted =>
    exact hsaid (List.mem_singleton.1 hn)
  | enters =>
    rcases List.mem_cons.1 hn with hn | hn
    · exact hsaid hn
    · exact hassigned (List.mem_singleton.1 hn)
  | duplicate | crowded | leaves | wins | loses =>
    rcases List.mem_cons.1 hn with hn | hn
    · exact hsaid hn
    · cases List.mem_singleton.1 hn

theorem Stay.turn_of_concat {e : Event} {φ' : Phase} (hstay : Stay source c q (es ++ [e]) φ') :
    ∃ φ, ClientTurn (after source es) c φ e (signalsTo q ((after source es).step source e).2)
      φ' := by
  generalize hl : es ++ [e] = l at hstay
  cases hstay with
  | start => simp at hl
  | turn hstay hturn =>
    obtain ⟨rfl, he⟩ := List.append_inj' hl rfl
    obtain rfl := List.singleton_inj.1 he
    exact ⟨_, hturn⟩

end

/-- The hub itself says something to a player in a room: in some run, at an event that is
    not a message to be relayed, a client of this player in this room is told so. -/
inductive Says : PlayerId → RoomId → Message → Prop where
  | intro {source : PuzzleSource} {es : List Event} {e : Event} {c : Client} {q : QueueId}
      {n : Message} (hes : ∀ e' ∈ es ++ [e], e'.Fresh) (ho : OwnQueues (es ++ [e]))
      (he : ∀ k m, e ≠ .broadcast k m) (hc : .join c ∈ es ++ [e]) (hq : c.outbound = some q)
      (hn : .told n ∈ signalsTo q ((after source es).step source e).2) :
      Says c.player c.room n

theorem Says.isNotice {player : PlayerId} {room : RoomId} {n : Message}
    (h : Says player room n) : IsNotice player room n := by
  cases h with
  | intro hes ho he hc hq hn =>
    obtain ⟨φ, hstay, -, -⟩ := exists_stay hes ho hq fun d hd hdq => ho.eq_of_join hd hc hdq hq
    obtain ⟨_, hturn⟩ := hstay.turn_of_concat
    exact hturn.isNotice he hn

/-! ## What is relayed -/

/-- A message on a connection is relayed: the player it names is seated in the room it
    names, on this connection. -/
def Relays (h : Hub) (k : ConnectionId) (m : Message) : Prop :=
  ∃ p, m.sender = some p ∧ (h.seatedOn? m.room p k).isSome

variable {source : PuzzleSource} {h : Hub} {k : ConnectionId} {m : Message}

variable (source) in
theorem step_of_relays (hr : h.Relays k m) :
    ∃ r, h.rooms.get? m.room = some r ∧ h.step source (.broadcast k m) = (h, r.deliverAll m) := by
  obtain ⟨p, hp, hseat⟩ := hr
  rw [seatedOn?] at hseat
  cases hroom : h.rooms.get? m.room with
  | none => simp [hroom] at hseat
  | some r =>
    rw [hroom, Option.bind_some] at hseat
    refine ⟨r, rfl, ?_⟩
    rw [step, broadcast, hroom, hp]
    exact if_pos hseat

theorem step_of_not_relays (hr : ¬ h.Relays k m) : h.step source (.broadcast k m) = (h, []) := by
  rw [step, broadcast]
  split
  · next r p hroom hp =>
    refine if_neg fun hseat => hr ⟨p, hp, ?_⟩
    rw [seatedOn?, hroom]
    exact hseat
  · rfl

theorem Sound.mem_broadcast (hs : h.Sound) {x : Effect}
    (hx : x ∈ (h.step source (.broadcast k m)).2) :
    ∃ c q, h.seated? m.room c.player = some c ∧ c.outbound = some q ∧ x = .deliver q m := by
  by_cases hr : h.Relays k m
  · obtain ⟨r, hroom, hstep⟩ := step_of_relays source hr
    rw [hstep] at hx
    obtain ⟨c, hc, hx⟩ := List.mem_flatMap.1 hx
    obtain ⟨q, hq, rfl⟩ := Client.mem_deliver.1 hx
    have hc := (Room.mem_values_iff (hs _ _ hroom).2.seats).1 hc
    exact ⟨c, q, (seated?_of_get? hroom _).trans hc, hq, rfl⟩
  · rw [step_of_not_relays hr] at hx
    cases hx

/-- Every client who is seated in the room hears a message that is relayed, once. -/
theorem Sound.signalsTo_broadcast (hs : h.Sound) {c : Client} {q : QueueId}
    (hq : c.outbound = some q)
    (hown : ∀ room d, h.seated? room d.player = some d → d.outbound = some q → d = c)
    (hr : h.Relays k m) :
    signalsTo q (h.step source (.broadcast k m)).2 =
      if h.seated? m.room c.player = some c then [.told m] else [] := by
  obtain ⟨r, hroom, hstep⟩ := step_of_relays source hr
  rw [hstep]
  split
  · next hc =>
    have hcr : m.room = c.room := (hs.of_seated hc).2.1.symm
    have hsits : h.SitsIn c q r :=
      ⟨hs, hcr ▸ hroom, (seated?_of_get? hroom _).symm.trans hc, hq, hown⟩
    exact hsits.signalsTo_deliver_values fun _ => m
  · next hc =>
    refine signalsTo_flatMap_eq_nil fun d hd => ?_
    have hd := (Room.mem_values_iff (hs _ _ hroom).2.seats).1 hd
    have hseated := (seated?_of_get? hroom d.player).trans hd
    rw [signalsTo_deliver, if_neg]
    intro hdq
    obtain rfl := hown _ d hseated hdq
    exact hc hseated

/-- **The notices of the hub cannot be forged against another player.**  Let any message
    come on any connection.

    * No room changes, and nothing is reported.
    * Unless the player it names is seated in the room it names, on this connection,
      nobody hears of it; else every client seated there hears it once, and nobody else.
    * Who hears it from another player can tell it from all that the hub itself ever says
      to a player of this name, in this run or any other: those messages name nobody, or
      give a puzzle to the player they name, and they are other messages and are sent as
      other texts. -/
theorem relayed_unlike_notices (source : PuzzleSource) (es : List Event)
    (hes : ∀ e ∈ es, e.Fresh) (ho : OwnQueues es) (k : ConnectionId) (m : Message) :
    let h := after source es
    let next := h.step source (.broadcast k m)
    next.1 = h ∧ reportsOf next.2 = [] ∧
      (¬ h.Relays k m → next.2 = []) ∧
      (h.Relays k m → ∀ c q, .join c ∈ es → c.outbound = some q →
        signalsTo q next.2 = if h.seated? m.room c.player = some c then [.told m] else []) ∧
      (∀ x ∈ next.2, ∃ c q, h.seated? m.room c.player = some c ∧ c.outbound = some q ∧
        x = .deliver q m) ∧
      ∀ c q, .join c ∈ es → c.outbound = some q → .told m ∈ signalsTo q next.2 →
        m.sender ≠ some c.player →
        ∃ p, m.sender = some p ∧ p ≠ c.player ∧
          ∀ room n, Says c.player room n →
            n.sender = (if n.body.kind = .puzzleAssign then some c.player else none) ∧
            n ≠ m ∧ n.encode ≠ m.encode := by
  intro h next
  have hs : h.Sound := sound_after source hes
  have hsilent : ¬ h.Relays k m → next = (h, []) := step_of_not_relays
  have hkeeps : next.1 = h ∧ reportsOf next.2 = [] := by
    by_cases hr : h.Relays k m
    · obtain ⟨r, -, hstep⟩ := step_of_relays source hr
      have hnext : next = (h, r.deliverAll m) := hstep
      rw [hnext]
      exact ⟨rfl, reportsOf_deliverAll r m⟩
    · rw [hsilent hr]
      exact ⟨rfl, rfl⟩
  refine ⟨hkeeps.1, hkeeps.2, fun hr => congrArg Prod.snd (hsilent hr), ?_,
    fun x hx => hs.mem_broadcast hx, ?_⟩
  · intro hr c q hc hq
    exact hs.signalsTo_broadcast hq
      (fun room d hd hdq => ho.eq_of_join (joined_of_seated hes hd) hc hdq hq) hr
  · intro c q hc hq hm hne
    have hr : h.Relays k m := by
      by_contra hr
      rw [hsilent hr] at hm
      cases hm
    obtain ⟨p, hp, -⟩ := hr
    have hpc : p ≠ c.player := fun heq => hne (hp.trans (congrArg some heq))
    refine ⟨p, hp, hpc, ?_⟩
    intro room n hn
    have hnm : n ≠ m := fun heq => hn.isNotice.sender_ne hpc (heq ▸ hp)
    exact ⟨hn.isNotice.sender, hnm, fun heq => hnm (Message.encode_injective heq)⟩

/-- A puzzle that a player passes on in the name of the hub, and the one that the hub has
    given to the opponent. -/
theorem relayed_unlike_notices_puzzle :
    let ada : Client := .new ⟨"ada"⟩ ⟨1⟩ ⟨"r"⟩ ⟨"a"⟩
    let bob : Client := .new ⟨"bob"⟩ ⟨2⟩ ⟨"r"⟩ ⟨"b"⟩
    let es : List Event := [.join ada, .join bob]
    let forged : Message :=
      { body := .puzzleAssign unsolvedPuzzle.digits, room := ⟨"r"⟩, sender := some ⟨"bob"⟩ }
    let real : Message :=
      { body := .puzzleAssign unsolvedPuzzle.digits, room := ⟨"r"⟩, sender := some ⟨"ada"⟩ }
    (∀ e ∈ es, e.Fresh) ∧ OwnQueues es ∧
      .told forged ∈ signalsTo ⟨"a"⟩
        ((after (fun _ => none) es).step (fun _ => none) (.broadcast ⟨2⟩ forged)).2 ∧
      forged.sender ≠ some ada.player ∧ Says ada.player ⟨"r"⟩ real ∧
      real ≠ forged ∧ real.encode ≠ forged.encode := by
  intro ada bob es forged real
  have hes : ∀ e ∈ es, e.Fresh := by decide
  have ho : OwnQueues es := by decide
  have hheard : .told forged ∈ signalsTo ⟨"a"⟩
      ((after (fun _ => none) es).step (fun _ => none) (.broadcast ⟨2⟩ forged)).2 := by
    decide +kernel
  have hne : forged.sender ≠ some ada.player := by decide
  have hsays : Says ada.player ⟨"r"⟩ real :=
    @Says.intro (fun _ => none) [.join ada] (.join bob) ada ⟨"a"⟩ real hes ho nofun
      List.mem_cons_self rfl (by decide +kernel)
  obtain ⟨-, -, -, -, -, hunlike⟩ := relayed_unlike_notices (fun _ => none) es hes ho ⟨2⟩ forged
  obtain ⟨p, -, -, hnotices⟩ := hunlike ada ⟨"a"⟩ List.mem_cons_self rfl hheard hne
  exact ⟨hes, ho, hheard, hne, hsays, (hnotices _ _ hsays).2⟩

end Hub

end HectocDuel
