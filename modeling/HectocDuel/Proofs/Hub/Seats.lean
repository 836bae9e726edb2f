/-
  Who sits in a sound room, and who is seated by an event.

  * `Room.Sound.alone` and `Room.Sound.pair`: the clients of a room, listed;
  * `Hub.Sound.filled`: whoever finds a place fills the room;
  * `Hub.Sound.elsewhere`: an event leaves all rooms but its own as they are;
  * `Hub.Named.seated_before`: whoever is seated after an event was seated before
    it, or joined by it;
  * `Hub.joined_of_seated`: so whoever is seated has joined.
-/
import HectocDuel.Proofs.Hub.Sound
import Mathlib.Data.List.Induction

namespace HectocDuel

/-! ## The clients of a room -/

namespace Room

theorem get?_seat {r : Room} {c : Client} (hr : ¬ r.isFull) (p : PlayerId) :
    (r.seat c hr).clients.get? p = if p = c.player then some c else r.clients.get? p :=
  r.clients.get?_insert c.player p c

theorem contains_seat {r : Room} {c : Client} (hr : ¬ r.isFull) (p : PlayerId) :
    (r.seat c hr).contains p ↔ p = c.player ∨ r.contains p := by
  rw [contains, Table.contains, get?_seat]
  split
  · next heq => exact iff_of_true rfl (.inl heq)
  · next hne => exact (or_iff_right hne).symm

theorem values_seat {r : Room} {c : Client} (hr : ¬ r.isFull) (hc : ¬ r.contains c.player) :
    (r.seat c hr).clients.values = r.clients.values ++ [c] := by
  have := r.clients.entries_insert (Option.not_isSome_iff_eq_none.1 hc) c
  rw [Table.values, seat, this, List.map_append]
  rfl

theorem get?_remove_eq_some {r : Room} {p q : PlayerId} {c : Client} :
    (r.remove p).clients.get? q = some c ↔ q ≠ p ∧ r.clients.get? q = some c := by
  rw [get?_remove]
  split <;> simp [*]

theorem eq_of_isEmpty_remove {r : Room} {p q : PlayerId} {c : Client}
    (he : (r.remove p).isEmpty) (hc : r.clients.get? q = some c) : q = p := by
  by_contra hne
  have hm := (r.remove p).clients.get?_eq_some_iff.1 (get?_remove_eq_some.2 ⟨hne, hc⟩)
  have hpos := List.length_pos_of_mem hm
  rw [isEmpty_iff, Table.size] at he
  omega

theorem mem_values_iff {r : Room} (hs : r.Seats) {c : Client} :
    c ∈ r.clients.values ↔ r.clients.get? c.player = some c := by
  rw [Table.values, List.mem_map, Table.get?_eq_some_iff]
  constructor
  · rintro ⟨⟨p, c'⟩, he, rfl⟩
    rwa [(hs p c' (r.clients.get?_eq_some_iff.2 he)).1]
  · exact fun he => ⟨_, he, rfl⟩

namespace Sound

variable {r : Room} {p : PlayerId} {c : Client}

theorem alone (h1 : r.clients.size = 1) (hc : r.clients.get? p = some c) :
    r.clients.entries = [(p, c)] := by
  obtain ⟨e, he⟩ := List.length_eq_one_iff.1 h1
  have hm := r.clients.get?_eq_some_iff.1 hc
  rw [he, List.mem_singleton] at hm
  rw [he, hm]

theorem pair (hs : r.Sound) (h2 : r.clients.size = 2) (hc : r.clients.get? p = some c) :
    ∃ d, d.player ≠ p ∧ (r.clients.entries = [(p, c), (d.player, d)] ∨
      r.clients.entries = [(d.player, d), (p, c)]) := by
  obtain ⟨⟨p₁, c₁⟩, ⟨p₂, c₂⟩, he⟩ := List.length_eq_two.1 h2
  have hd := r.clients.nodup_keys
  have hm := r.clients.get?_eq_some_iff.1 hc
  have hkey : ∀ q d, (q, d) ∈ r.clients.entries → d.player = q := fun q d hq =>
    (hs.seats q d (r.clients.get?_eq_some_iff.2 hq)).1
  rw [he] at hd hm hkey
  have hne : p₁ ≠ p₂ := by simpa using hd
  obtain rfl : c₁.player = p₁ := hkey p₁ c₁ (by simp)
  obtain rfl : c₂.player = p₂ := hkey p₂ c₂ (by simp)
  rcases List.mem_pair.1 hm with h | h <;> obtain ⟨rfl, rfl⟩ := Prod.mk.inj h
  · exact ⟨c₂, hne.symm, .inl he⟩
  · exact ⟨c₁, hne, .inr he⟩

theorem opponent (hs : r.Sound) (hz : r.puzzle.isSome) (hc : r.clients.get? p = some c) :
    ∃ d, d.player ≠ p ∧ r.clients.get? d.player = some d ∧
      (r.clients.values = [c, d] ∨ r.clients.values = [d, c]) := by
  obtain ⟨d, hd, he⟩ := hs.pair (hs.puzzle_iff.1 hz) hc
  refine ⟨d, hd, r.clients.get?_eq_some_iff.2 ?_, ?_⟩
  · rcases he with he | he <;> simp [he]
  · rcases he with he | he <;> simp [Table.values, he]

theorem outbound (hs : r.Sound) (hc : r.clients.get? p = some c) : ∃ q, c.outbound = some q := by
  have := (hs.seats p c hc).2.2
  rwa [Client.isClosed, Option.isNone_eq_false_iff, Option.isSome_iff_exists] at this

end Sound

end Room

/-! ## Seats over a run -/

theorem Event.fresh_join_iff {c : Client} : (Event.join c).Fresh ↔ c.isClosed = false := by
  constructor
  · rintro ⟨p, k, room, q, rfl⟩
    rfl
  · intro hc
    obtain ⟨p, k, room, _ | q⟩ := c
    · cases hc
    · exact ⟨p, k, room, q, rfl⟩

instance : DecidablePred Event.Fresh
  | .join _ => decidable_of_iff _ Event.fresh_join_iff.symm
  | .leave .. | .broadcast .. | .submit .. | .info _ | .count => .isTrue trivial

/-- The room that an event is about. -/
def Event.room? : Event → Option RoomId
  | .join c => some c.room
  | .leave room _ _ | .submit room _ _ _ | .info room => some room
  | .broadcast _ m => some m.room
  | .count => none

namespace Hub

theorem Sound.of_seated {h : Hub} (hs : h.Sound) {room : RoomId} {p : PlayerId} {c : Client}
    (hc : h.seated? room p = some c) : c.player = p ∧ c.room = room ∧ c.isClosed = false := by
  obtain ⟨r, hr, hcp⟩ := Option.bind_eq_some_iff.1 hc
  obtain ⟨rfl, hrs⟩ := hs _ _ hr
  exact hrs.seats p c hcp

/-- A sound room in which there is a place has one client, so that the next one
    fills it. -/
theorem Sound.filled {h : Hub} (hs : h.Sound) {room : RoomId} {r : Room} {c : Client}
    (hr : h.rooms.get? room = some r) (hf : ¬ r.isFull) (hc : ¬ r.contains c.player) :
    r.clients.size = 1 ∧ (r.seat c hf).isFull := by
  have h2 := Room.size_seat hf hc
  rw [Room.isFull_iff] at hf ⊢
  rcases (hs _ _ hr).2.size with h | h <;> omega

section
variable {source : PuzzleSource} {h h' : Hub} {effects : List Effect} {e : Event}

theorem Sound.elsewhere (hs : h.Sound) (ht : Transition source h e h' effects) {room : RoomId}
    (hroom : e.room? ≠ some room) : h'.rooms.get? room = h.rooms.get? room := by
  have hne : ∀ {own}, e.room? = some own → room ≠ own := fun he hr => hroom (hr ▸ he)
  have hput : ∀ {own r r'}, e.room? = some own → h.rooms.get? own = some r → r'.id = r.id →
      (h.setRoom r').rooms.get? room = h.rooms.get? room := fun he hr hid => by
    rw [get?_setRoom, if_neg (hid.trans (hs _ _ hr).1 ▸ hne he)]
  cases ht with
  | opened => exact (get?_setRoom _ _ _).trans (if_neg (hne rfl))
  | waiting _ hr | started _ hr | abandoned hr => exact hput rfl hr rfl
  | emptied => exact (get?_dropRoom _ _ _).trans (if_neg (hne rfl))
  | solved hr =>
    have hid := (hs _ _ hr).1
    exact (get?_dropRoom _ _ _).trans (if_neg (hid ▸ hne rfl))
  | _ => rfl

/-! ### Rooms under their own names -/

/-- Every room is stored under its own name. -/
def Named (h : Hub) : Prop :=
  ∀ room r, h.rooms.get? room = some r → r.id = room

theorem Sound.named (hs : h.Sound) : h.Named := fun room r hr =>
  (hs room r hr).1

theorem named_empty : ({} : Hub).Named :=
  sound_empty.named

theorem Named.setRoom (hn : h.Named) (r : Room) : (h.setRoom r).Named := by
  intro room r' hr'
  rw [get?_setRoom] at hr'
  split at hr'
  · next hid => exact (Option.some.inj hr').symm ▸ hid.symm
  · exact hn room r' hr'

theorem Named.dropRoom (hn : h.Named) (room : RoomId) : (h.dropRoom room).Named := by
  intro room' r hr
  rw [get?_dropRoom] at hr
  split at hr
  · cases hr
  · exact hn room' r hr

theorem Named.transition (hn : h.Named) (ht : Transition source h e h' effects) : h'.Named := by
  cases ht with
  | opened | waiting | abandoned => exact hn.setRoom _
  | started => exact fun room r hr => hn.setRoom _ room r hr
  | emptied | solved => exact hn.dropRoom _
  | _ => exact hn

/-- Whoever is seated after an event was seated before it, or joined by it and has
    its own place. -/
theorem Named.seated_before (hn : h.Named) (ht : Transition source h e h' effects)
    {room : RoomId} {p : PlayerId} {c : Client} (hc : h'.seated? room p = some c) :
    h.seated? room p = some c ∨ e = .join c ∧ room = c.room ∧ p = c.player := by
  have hseat : ∀ {c' r} (hf : ¬ r.isFull), h.rooms.get? c'.room = some r →
      (if room = r.id then (r.seat c' hf).clients.get? p else h.seated? room p) = some c →
        h.seated? room p = some c ∨ Event.join c' = .join c ∧ room = c.room ∧ p = c.player := by
    intro c' r hf hr hc
    split at hc
    · next hid =>
      rw [Room.get?_seat] at hc
      split at hc
      · next hp =>
        obtain rfl := Option.some.inj hc
        exact .inr ⟨rfl, hid.trans (hn _ _ hr), hp⟩
      · rw [hid, hn _ _ hr, seated?_of_get? hr]
        exact .inl hc
    · exact .inl hc
  have hdrop : ∀ {room'}, (h.dropRoom room').seated? room p = some c →
      h.seated? room p = some c := by
    intro room' hc
    rw [seated?_dropRoom] at hc
    split at hc
    · cases hc
    · exact hc
  cases ht with
  | @opened c' hr =>
    rw [seated?_setRoom, Room.get?_seat] at hc
    split at hc
    · next hroom =>
      split at hc
      · next hp =>
        obtain rfl := Option.some.inj hc
        exact .inr ⟨rfl, hroom, hp⟩
      · cases hc
    · exact .inl hc
  | waiting hf hr => exact hseat hf hr ((seated?_setRoom _ _ _ _).symm.trans hc)
  | started hf hr => exact hseat hf hr ((seated?_start _ _ _ _ _).symm.trans hc)
  | emptied => exact .inl (hdrop hc)
  | solved => exact .inl (hdrop hc)
  | @abandoned _ p' _ r _ hr =>
    rw [seated?_setRoom] at hc
    split at hc
    · next hid =>
      change (r.remove p').clients.get? p = some c at hc
      rw [Room.get?_remove] at hc
      split at hc
      · cases hc
      · change room = r.id at hid
        rw [hid, hn _ _ hr, seated?_of_get? hr]
        exact .inl hc
    · exact .inl hc
  | _ => exact .inl hc

theorem Transition.seated_before (hs : h.Sound) (ht : Transition source h e h' effects)
    {room : RoomId} {p : PlayerId} {c : Client} (hc : h'.seated? room p = some c) :
    h.seated? room p = some c ∨ e = .join c :=
  (hs.named.seated_before ht hc).imp_right And.left

end

theorem run_append (source : PuzzleSource) (h : Hub) (es es' : List Event) :
    h.run source (es ++ es') =
      (((h.run source es).1.run source es').1,
        (h.run source es).2 ++ ((h.run source es).1.run source es').2) := by
  induction es generalizing h with
  | nil => rfl
  | cons e es ih => rw [List.cons_append, run_cons, ih, run_cons, List.append_assoc]

theorem after_append (source : PuzzleSource) (es es' : List Event) :
    after source (es ++ es') = ((after source es).run source es').1 := by
  rw [after, run_append]
  rfl

theorem done_append (source : PuzzleSource) (es es' : List Event) :
    done source (es ++ es') = done source es ++ ((after source es).run source es').2 := by
  rw [done, run_append]
  rfl

theorem after_concat (source : PuzzleSource) (es : List Event) (e : Event) :
    after source (es ++ [e]) = ((after source es).step source e).1 :=
  after_append source es [e]

theorem done_concat (source : PuzzleSource) (es : List Event) (e : Event) :
    done source (es ++ [e]) = done source es ++ ((after source es).step source e).2 := by
  rw [done_append, run_cons, run_nil, List.append_nil]

theorem Sound.step {h : Hub} (hs : h.Sound) (source : PuzzleSource) {e : Event} (he : e.Fresh) :
    (h.step source e).1.Sound :=
  hs.transition he (step_transition source h e)

theorem Sound.run {h : Hub} (hs : h.Sound) (source : PuzzleSource) {es : List Event}
    (hes : ∀ e ∈ es, e.Fresh) : (h.run source es).1.Sound :=
  (run_induction (fun _ _ hs he => hs.step source he) (fun _ _ _ _ _ _ => trivial) hs hes).1

theorem sound_after (source : PuzzleSource) {es : List Event} (hes : ∀ e ∈ es, e.Fresh) :
    (after source es).Sound :=
  sound_empty.run source hes

theorem joined_of_seated {source : PuzzleSource} {es : List Event} (hes : ∀ e ∈ es, e.Fresh)
    {room : RoomId} {p : PlayerId} {c : Client}
    (hc : (after source es).seated? room p = some c) : .join c ∈ es := by
  induction es using List.reverseRecOn with
  | nil => cases hc
  | append_singleton es e ih =>
    have hes' : ∀ e ∈ es, e.Fresh := fun e he => hes e (List.mem_append_left _ he)
    rw [after_concat] at hc
    rcases (step_transition source _ e).seated_before (sound_after source hes') hc with hb | rfl
    · exact List.mem_append_left _ (ih hes' hb)
    · exact List.mem_append_right _ List.mem_cons_self

theorem Named.run {h : Hub} (hn : h.Named) (source : PuzzleSource) (es : List Event) :
    (h.run source es).1.Named := by
  have hkeep : ∀ (h : Hub) (e : Event), h.Named → True → (h.step source e).1.Named :=
    fun h e hn _ => hn.transition (step_transition source h e)
  exact (run_induction hkeep (fun _ _ _ _ _ _ => trivial) hn fun _ _ => trivial).1

/-- What holds of all who are seated, and of all who join in their own places,
    holds of all who are seated afterwards. -/
theorem Named.forall_seated {h : Hub} (hn : h.Named) {source : PuzzleSource} {es : List Event}
    {P : RoomId → PlayerId → Client → Prop}
    (hP : ∀ room p c, h.seated? room p = some c → P room p c)
    (hes : ∀ c, .join c ∈ es → P c.room c.player c) :
    ∀ room p c, (h.run source es).1.seated? room p = some c → P room p c := by
  have hkeep : ∀ (h : Hub) e, (h.Named ∧ ∀ room p c, h.seated? room p = some c → P room p c) →
      (∀ c, e = .join c → P c.room c.player c) →
      (h.step source e).1.Named ∧
        ∀ room p c, (h.step source e).1.seated? room p = some c → P room p c := by
    rintro h e ⟨hn, hP⟩ he
    have ht := step_transition source h e
    refine ⟨hn.transition ht, fun room p c hc => ?_⟩
    rcases hn.seated_before ht hc with hb | ⟨rfl, rfl, rfl⟩
    · exact hP room p c hb
    · exact he c rfl
  exact (run_induction hkeep (fun _ _ _ _ _ _ => trivial) ⟨hn, hP⟩
    fun e he c hc => hes c (hc ▸ he)).1.2

end Hub

end HectocDuel
