/-
  What is heard on a queue.

  A queue hears the messages it is sent and that it is closed.

  * `signalsTo` lists what effects bring to a queue;
  * `Sound.unheard`: an event is heard of only by the client who joins by it and
    by those who are seated in its room;
  * `Room.Seats.signalsTo_flatMap`: what is sent to all clients of a room comes to
    each queue once.
-/
import HectocDuel.Proofs.Hub.Seats

namespace HectocDuel

/-! ## Signals -/

/-- Something that is heard on a queue. -/
inductive Signal where
  /-- A message. -/
  | told (m : Message)
  /-- The end of the queue. -/
  | closed
  deriving DecidableEq

/-- What an effect brings to a queue. -/
def Effect.signal? (q : QueueId) : Effect → Option Signal
  | .deliver q' m => if q' = q then some (.told m) else none
  | .close q' => if q' = q then some .closed else none
  | _ => none

/-- What effects bring to a queue, in order. -/
def signalsTo (q : QueueId) (effects : List Effect) : List Signal :=
  effects.filterMap (·.signal? q)

section
variable {q : QueueId}

@[simp] theorem signalsTo_nil : signalsTo q [] = [] :=
  rfl

theorem signalsTo_append (xs ys : List Effect) :
    signalsTo q (xs ++ ys) = signalsTo q xs ++ signalsTo q ys :=
  List.filterMap_append

@[simp] theorem signalsTo_report (r : Report) (xs : List Effect) :
    signalsTo q (.report r :: xs) = signalsTo q xs :=
  rfl

theorem signalsTo_deliver (c : Client) (m : Message) :
    signalsTo q (c.deliver m) = if c.outbound = some q then [.told m] else [] := by
  rw [Client.deliver]
  rcases c.outbound with _ | q'
  · rfl
  · by_cases h : q' = q <;> simp [signalsTo, Effect.signal?, h]

theorem signalsTo_closing (c : Client) :
    signalsTo q c.closing = if c.outbound = some q then [.closed] else [] := by
  rw [Client.closing]
  rcases c.outbound with _ | q'
  · rfl
  · by_cases h : q' = q <;> simp [signalsTo, Effect.signal?, h]

theorem signalsTo_farewell (c : Client) (m : Message) :
    signalsTo q (c.deliver m ++ c.closing) =
      if c.outbound = some q then [.told m, .closed] else [] := by
  rw [signalsTo_append, signalsTo_deliver, signalsTo_closing]
  split <;> rfl

theorem signalsTo_flatMap_eq_nil {cs : List Client} {f : Client → List Effect}
    (h : ∀ c ∈ cs, signalsTo q (f c) = []) : signalsTo q (cs.flatMap f) = [] := by
  rw [signalsTo, List.filterMap_flatMap, List.flatMap_eq_nil_iff]
  exact h

end

namespace Room

theorem nodup_values {r : Room} (hs : r.Seats) : r.clients.values.Nodup := by
  have hk : r.clients.values.map Client.player = r.clients.keys := by
    rw [Table.values, Table.keys, List.map_map]
    exact List.map_congr_left fun e he => (hs e.1 e.2 (r.clients.get?_eq_some_iff.2 he)).1
  exact .of_map Client.player (hk ▸ r.clients.nodup_keys)

/-- What is done for every client of a room comes to the queue of one of them as
    far as it is done for that client. -/
theorem Seats.signalsTo_flatMap {r : Room} (hs : r.Seats) {q : QueueId} {c : Client}
    {f : Client → List Effect} (hc : r.clients.get? c.player = some c)
    (ho : ∀ d, r.clients.get? d.player = some d → d ≠ c → signalsTo q (f d) = []) :
    signalsTo q (r.clients.values.flatMap f) = signalsTo q (f c) := by
  have hnd := nodup_values hs
  have ho' : ∀ d ∈ r.clients.values, d ≠ c → signalsTo q (f d) = [] := fun d hd =>
    ho d ((mem_values_iff hs).1 hd)
  obtain ⟨before, later, hv⟩ := List.append_of_mem ((mem_values_iff hs).2 hc)
  rw [hv] at hnd ho' ⊢
  have hmem := List.nodup_middle.1 hnd
  rw [List.nodup_cons, List.mem_append, not_or] at hmem
  rw [List.flatMap_append, List.flatMap_cons, signalsTo_append, signalsTo_append,
    signalsTo_flatMap_eq_nil fun d hd => ho' d (by simp [hd]) fun h => hmem.1.1 (h ▸ hd),
    signalsTo_flatMap_eq_nil fun d hd => ho' d (by simp [hd]) fun h => hmem.1.2 (h ▸ hd),
    List.nil_append, List.append_nil]

end Room

/-! ## Who hears of an event -/

namespace Hub

theorem signalsTo_start (q : QueueId) (source : PuzzleSource) (h : Hub) (r : Room) :
    signalsTo q (h.start source r).2 =
      signalsTo q (r.clients.values.flatMap fun c => c.deliver
        { body := .puzzleAssign ((source h.draws).getD unsolvedPuzzle).digits, room := r.id,
          sender := some c.player }) := by
  rw [start, signalsTo_append, signalsTo_report, signalsTo_nil, List.append_nil]

theorem signalsTo_finish (q : QueueId) (h : Hub) (r : Room) (winner : PlayerId) :
    signalsTo q (h.finish r winner).2 =
      signalsTo q (r.clients.values.flatMap fun c => c.deliver <| Notice.inRoom r.id <|
        if c.player = winner then Notice.correctSubmission else Notice.gameOver) ++
      signalsTo q (r.clients.values.flatMap Client.closing) := by
  simp only [finish]
  split <;> simp [signalsTo_append]

/-- Nobody hears of an event but the client who joins by it and those who are
    seated in its room. -/
theorem Sound.unheard {source : PuzzleSource} {h h' : Hub} {e : Event} {effects : List Effect}
    (hs : h.Sound) (ht : Transition source h e h' effects) {q : QueueId}
    (hjoin : ∀ c, e = .join c → c.outbound ≠ some q)
    (hseated : ∀ room c, e.room? = some room → h.seated? room c.player = some c →
      c.outbound ≠ some q) :
    signalsTo q effects = [] := by
  have hon : ∀ {room p k r c}, e.room? = some room → h.rooms.get? room = some r →
      r.clientOn p k = some c → c.outbound ≠ some q := by
    intro room p k r c he hr hc
    have hcp := (Room.clientOn_eq_some.1 hc).1
    have hp : c.player = p := ((hs _ _ hr).2.seats p c hcp).1
    exact hseated room c he ((seated?_of_get? hr _).trans (hp ▸ hcp))
  have hall : ∀ {room r}, e.room? = some room → h.rooms.get? room = some r →
      ∀ c ∈ r.clients.values, c.outbound ≠ some q := by
    intro room r he hr c hc
    exact hseated room c he
      ((seated?_of_get? hr _).trans ((Room.mem_values_iff (hs _ _ hr).2.seats).1 hc))
  have hdeaf : ∀ {cs : List Client} {m : Client → Message},
      (∀ c ∈ cs, c.outbound ≠ some q) → signalsTo q (cs.flatMap fun c => c.deliver (m c)) = [] :=
    fun h => signalsTo_flatMap_eq_nil fun c hc => by rw [signalsTo_deliver, if_neg (h c hc)]
  cases ht with
  | opened | waiting => rw [signalsTo_deliver, if_neg (hjoin _ rfl)]
  | duplicate | crowded =>
    rw [signalsTo_farewell, if_neg (hjoin _ rfl)]
  | @started c r hf hr hp =>
    have hv : ∀ d ∈ (r.seat c hf).clients.values, d.outbound ≠ some q := by
      intro d hd
      rw [Room.values_seat hf hp, List.mem_append, List.mem_singleton] at hd
      rcases hd with hd | rfl
      · exact hall rfl hr d hd
      · exact hjoin d rfl
    rw [signalsTo_append, signalsTo_deliver, if_neg (hjoin c rfl), signalsTo_start, hdeaf hv]
    rfl
  | emptied hr hc =>
    rw [signalsTo_append, signalsTo_farewell, if_neg (hon rfl hr hc)]
    rfl
  | @abandoned room p k r c hr hc =>
    have hv : ∀ d ∈ (r.remove p).clients.values, d.outbound ≠ some q := fun d hd =>
      hall rfl hr d (List.map_subset _ (List.filter_subset_self _) hd)
    rw [signalsTo_append, signalsTo_farewell, if_neg (hon rfl hr hc), Room.deliverAll, hdeaf hv]
    rfl
  | relayed hr => exact hdeaf (hall rfl hr)
  | unassigned hr hc | mismatched hr hc | unverified hr hc =>
    rw [signalsTo_deliver, if_neg (hon rfl hr hc)]
  | wrong hr hc => rw [signalsTo_report, signalsTo_deliver, if_neg (hon rfl hr hc)]
  | solved hr hc =>
    have hv := hall rfl hr
    rw [signalsTo_report, signalsTo_finish, hdeaf hv, signalsTo_flatMap_eq_nil]
    · rfl
    · exact fun d hd => by rw [signalsTo_closing, if_neg (hv d hd)]
  | absent | unrelayed | unseated | informed | counted => rfl

end Hub

end HectocDuel
