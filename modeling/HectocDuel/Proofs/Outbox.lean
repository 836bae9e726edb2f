/-
  What a reader gets of what is sent to its queue.

  * `Outbox.use` is what a reader does: it takes one message or all that waits, or goes
    away;
  * `Outbox.Conveys` says what was read from a queue, and what waits in it, after it
    heard some signals;
  * `Conveys.heed` and `Conveys.use`: the hub and the reader keep to it.
-/
import HectocDuel.Outbox
import HectocDuel.Proofs.Hub.Signals

namespace HectocDuel

/-! ## What is sent -/

/-- The messages among signals, up to the end of the queue. -/
def messagesOf : List Signal → List Message
  | .told m :: ss => m :: messagesOf ss
  | _ => []

theorem messagesOf_append (ss ss' : List Signal) :
    messagesOf (ss ++ ss') =
      if .closed ∈ ss then messagesOf ss else messagesOf ss ++ messagesOf ss' := by
  induction ss with
  | nil => simp [messagesOf]
  | cons s ss ih =>
    cases s with
    | told m =>
      rw [List.cons_append, messagesOf, messagesOf, ih]
      by_cases h : Signal.closed ∈ ss <;> simp [h]
    | closed => simp [messagesOf]

namespace Outbox

/-! ## What happens to a queue -/

/-- The queue after a signal. -/
def heed (o : Outbox) : Signal → Outbox
  | .told m => o.send m
  | .closed => o.close

/-- Reads one message, or the end of the queue if nothing waits. -/
def receive (o : Outbox) : Reading × Outbox :=
  match o.isAbandoned, o.waiting with
  | false, m :: ms => (⟨[m], false⟩, { o with waiting := ms })
  | _, _ => o.drain

/-- Something a reader does. -/
inductive Use where
  /-- It takes one message. -/
  | receive
  /-- It takes all that waits. -/
  | drain
  /-- It goes away. -/
  | abandon
  deriving DecidableEq

/-- What a reader finds, and the queue after it. -/
def use (o : Outbox) : Use → Reading × Outbox
  | .receive => o.receive
  | .drain => o.drain
  | .abandon => ({}, o.abandon)

variable {o : Outbox}

theorem drain_of_present (ha : o.isAbandoned = false) :
    o.drain =
      (⟨o.waiting, o.isClosed && !o.isEnded⟩, { o with waiting := [], isEnded := o.isClosed }) := by
  rw [drain, if_neg (by simp [ha])]

theorem send_of_dropped {m : Message}
    (h : o.isClosed = true ∨ o.isAbandoned = true ∨ o.capacity ≤ o.waiting.length) :
    o.send m = o := by
  rw [send, if_pos (by simpa [or_assoc] using h)]

theorem send_of_taken {m : Message} (hc : o.isClosed = false) (ha : o.isAbandoned = false)
    (hw : o.waiting.length < o.capacity) :
    o.send m = { o with waiting := o.waiting ++ [m] } := by
  rw [send, if_neg (by simpa [hc, ha] using hw)]

theorem heed_of_closed (hc : o.isClosed = true) (s : Signal) : o.heed s = o := by
  cases s with
  | told m => exact send_of_dropped (.inl hc)
  | closed => rw [heed, close, ← hc]

theorem heed_all_of_closed (hc : o.isClosed = true) (ss : List Signal) : ss.foldl heed o = o := by
  induction ss with
  | nil => rfl
  | cons s ss ih => rw [List.foldl_cons, heed_of_closed hc, ih]

/-- A reader who stays finds what waits, from its beginning, and changes nothing else. -/
theorem use_stays {u : Use} (hu : u ≠ .abandon) :
    ∃ rest isEnded, o.waiting = (o.use u).1.messages ++ rest ∧
      (o.use u).2 = { o with waiting := rest, isEnded } := by
  have hdrain : ∃ rest isEnded, o.waiting = o.drain.1.messages ++ rest ∧
      o.drain.2 = { o with waiting := rest, isEnded } := by
    by_cases ha : o.isAbandoned = true
    · rw [drain, if_pos ha]
      exact ⟨o.waiting, o.isEnded, rfl, rfl⟩
    · rw [drain_of_present (Bool.eq_false_iff.2 ha)]
      exact ⟨[], o.isClosed, (List.append_nil _).symm, rfl⟩
  cases u with
  | receive =>
    rw [use, receive]
    split
    · next m ms _ hw => exact ⟨ms, o.isEnded, hw, rfl⟩
    · exact hdrain
  | drain => exact hdrain
  | abandon => exact absurd rfl hu

/-! ## What is read -/

/-- The queue, made for `n` messages, heard `signals`, and `read` was read from it. -/
structure Conveys (n : Nat) (signals : List Signal) (read : List Message) (o : Outbox) : Prop where
  capacity : o.capacity = max n 1
  /-- There are never more messages than places. -/
  bounded : o.waiting.length ≤ max n 1
  closed_iff : o.isClosed = true ↔ .closed ∈ signals
  /-- Messages come in the order in which they were sent before the end, each at most
      once. -/
  sublist : (read ++ o.waiting).Sublist (messagesOf signals)
  /-- As long as there are places and a reader, none is lost. -/
  complete : o.isAbandoned = false → (messagesOf signals).length ≤ max n 1 →
    read ++ o.waiting = messagesOf signals

theorem conveys_ofCapacity (n : Nat) : (ofCapacity n).Conveys n [] [] where
  capacity := rfl
  bounded := Nat.zero_le _
  closed_iff := by simp [ofCapacity]
  sublist := List.nil_sublist _
  complete _ _ := rfl

namespace Conveys

variable {n : Nat} {signals : List Signal} {read : List Message}

theorem heed_of_closed (h : o.Conveys n signals read) (hc : .closed ∈ signals) (s : Signal) :
    (o.heed s).Conveys n (signals ++ [s]) read := by
  have hclosed := h.closed_iff.2 hc
  have hm : messagesOf (signals ++ [s]) = messagesOf signals := by rw [messagesOf_append, if_pos hc]
  rw [Outbox.heed_of_closed hclosed]
  exact ⟨h.capacity, h.bounded, by simp [hclosed, hc], hm ▸ h.sublist, hm ▸ h.complete⟩

theorem dropped (h : o.Conveys n signals read) (hc : .closed ∉ signals) {m : Message}
    (hd : o.isAbandoned = true ∨ o.capacity ≤ o.waiting.length) :
    (o.send m).Conveys n (signals ++ [.told m]) read := by
  have hm : messagesOf (signals ++ [.told m]) = messagesOf signals ++ [m] := by
    rw [messagesOf_append, if_neg hc]
    rfl
  rw [send_of_dropped (.inr hd)]
  refine ⟨h.capacity, h.bounded, by simpa using h.closed_iff, ?_, fun ha hle => ?_⟩
  · rw [hm]
    exact h.sublist.trans (List.sublist_append_left _ _)
  · -- The queue is full, so with this message more were sent than there are places.
    have hfull : o.capacity ≤ o.waiting.length := hd.resolve_left (by simp [ha])
    have hsent := h.sublist.length_le
    rw [h.capacity] at hfull
    simp only [hm, List.length_append, List.length_singleton] at hle hsent
    omega

theorem taken (h : o.Conveys n signals read) (hc : .closed ∉ signals) {m : Message}
    (ha : o.isAbandoned = false) (hw : o.waiting.length < o.capacity) :
    (o.send m).Conveys n (signals ++ [.told m]) read := by
  have hopen : o.isClosed = false := Bool.eq_false_iff.2 fun h' => hc (h.closed_iff.1 h')
  have hm : messagesOf (signals ++ [.told m]) = messagesOf signals ++ [m] := by
    rw [messagesOf_append, if_neg hc]
    rfl
  rw [send_of_taken hopen ha hw]
  refine ⟨h.capacity, ?_, by simpa using h.closed_iff, ?_, fun _ hle => ?_⟩
  · rw [List.length_append, List.length_singleton]
    exact h.capacity ▸ hw
  · rw [hm, ← List.append_assoc]
    exact h.sublist.append_right [m]
  · rw [hm, List.length_append] at hle
    rw [hm, ← List.append_assoc, h.complete ha (Nat.le_trans (Nat.le_add_right _ _) hle)]

theorem heed (h : o.Conveys n signals read) (s : Signal) :
    (o.heed s).Conveys n (signals ++ [s]) read := by
  by_cases hc : .closed ∈ signals
  · exact h.heed_of_closed hc s
  cases s with
  | told m =>
    by_cases hd : o.isAbandoned = true ∨ o.capacity ≤ o.waiting.length
    · exact h.dropped hc hd
    · obtain ⟨ha, hw⟩ := not_or.1 hd
      exact h.taken hc (Bool.eq_false_iff.2 ha) (Nat.not_le.1 hw)
  | closed =>
    have hm : messagesOf (signals ++ [.closed]) = messagesOf signals := by
      simp [messagesOf_append, messagesOf]
    exact ⟨h.capacity, h.bounded, by simp [Outbox.heed, close], hm ▸ h.sublist, hm ▸ h.complete⟩

theorem heed_all (h : o.Conveys n signals read) (ss : List Signal) :
    (ss.foldl Outbox.heed o).Conveys n (signals ++ ss) read := by
  induction ss using List.reverseRecOn with
  | nil => rwa [List.append_nil]
  | append_singleton ss s ih =>
    rw [List.foldl_concat, ← List.append_assoc]
    exact ih.heed s

theorem use (h : o.Conveys n signals read) (u : Use) :
    (o.use u).2.Conveys n signals (read ++ (o.use u).1.messages) := by
  by_cases hu : u = .abandon
  · subst hu
    refine ⟨h.capacity, Nat.zero_le _, h.closed_iff, ?_, fun ha => absurd ha Bool.noConfusion⟩
    have hread : read.Sublist (messagesOf signals) :=
      (List.sublist_append_left read o.waiting).trans h.sublist
    simpa [Outbox.use, abandon] using hread
  · obtain ⟨rest, isEnded, hw, ho⟩ := o.use_stays hu
    have hread : read ++ (o.use u).1.messages ++ rest = read ++ o.waiting := by
      rw [List.append_assoc, ← hw]
    have hrest : rest.length ≤ o.waiting.length := by
      rw [hw, List.length_append]
      exact Nat.le_add_left _ _
    rw [ho]
    exact ⟨h.capacity, Nat.le_trans hrest h.bounded, h.closed_iff, hread ▸ h.sublist,
      hread ▸ h.complete⟩

end Conveys

end Outbox

end HectocDuel
