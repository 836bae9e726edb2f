/-
  What a session asks of the hub.

  * `spoken` lists what is said in frames before the session ends;
  * `Session.run_frames`: a session joins, says this and leaves, once;
  * `Session.speaksFor_of_mem_run`: it speaks for its own player in its own room, and for
    nobody else;
  * `spoken_congr`: what frames name as room and sender does not matter.
-/
import HectocDuel.Proofs.Wire.Address
import HectocDuel.Session
import Mathlib.Data.List.Forall2

namespace HectocDuel

/-! ## What is said -/

/-- What is said in frames, up to one that leaves or that cannot be read. -/
def spoken : List (List UInt8) → List Body
  | [] => []
  | text :: texts =>
    match Message.decode text with
    | .ok m => if m.body = .leave then [] else m.body :: spoken texts
    | .error _ => []

theorem spoken_congr {texts texts' : List (List UInt8)}
    (h : texts.Forall₂ (fun t t' => t' = t ∨ SameSaying t t') texts') :
    spoken texts' = spoken texts := by
  induction h with
  | nil => rfl
  | @cons t t' ts ts' ht _ ih =>
    rcases ht with rfl | ht
    · rw [spoken, spoken, ih]
    · obtain ⟨m, hm⟩ := ht.decodes
      obtain ⟨m', hm'⟩ := ht.decodes'
      rw [spoken, spoken, hm, hm']
      simp only [ht.body_eq hm hm', ih]

namespace Session

/-- The event for something that is said. -/
def saying (s : Session) : Body → Event
  | .text .submit expression => .submit s.room s.player s.connection expression
  | body => .broadcast s.connection { body, room := s.room, sender := some s.player }

variable (s : Session)

theorem reactTo_of_ne {body : Body} (h : body ≠ .leave) :
    s.reactTo body = (s.saying body, true) := by
  cases body with
  | text k text => cases k <;> rfl
  | leave => exact absurd rfl h
  | puzzleAssign => rfl

/-- What frames ask of the hub, up to the end of the session, if the connection is closed
    or lost after them at the latest. -/
theorem events_frames (texts : List (List UInt8)) {last : Incoming}
    (hlast : ∀ text, last ≠ .frame text) :
    s.events (texts.map .frame ++ [last]) = (spoken texts).map s.saying ++ [s.leaving] := by
  induction texts with
  | nil =>
    cases last with
    | frame text => exact absurd rfl (hlast text)
    | closed => rfl
    | failed => rfl
  | cons text texts ih =>
    rw [List.map_cons, List.cons_append, events, react, spoken]
    cases Message.decode text with
    | error e => rfl
    | ok m =>
      simp only
      by_cases hm : m.body = .leave
      · rw [hm]
        rfl
      · rw [s.reactTo_of_ne hm, if_neg hm, List.map_cons, List.cons_append, ← ih]
        rfl

/-- A session joins, says what it has to say and leaves, once. -/
theorem run_frames (texts : List (List UInt8)) {last : Incoming}
    (hlast : ∀ text, last ≠ .frame text) :
    s.run (texts.map .frame ++ [last]) =
      s.joining :: ((spoken texts).map s.saying ++ [s.leaving]) := by
  rw [run, s.events_frames texts hlast]

/-! ## For whom it is said -/

/-- The event speaks for the player of a session, in its room and on its connection. -/
def SpeaksFor (s : Session) : Event → Prop
  | .join c => c.room = s.room ∧ c.player = s.player ∧ c.connection = s.connection
  | .leave room player connection | .submit room player connection _ =>
    room = s.room ∧ player = s.player ∧ connection = s.connection
  | .broadcast connection m =>
    m.room = s.room ∧ m.sender = some s.player ∧ connection = s.connection
  | .info _ | .count => False

theorem speaksFor_saying (body : Body) : s.SpeaksFor (s.saying body) := by
  cases body with
  | text k text => cases k <;> exact ⟨rfl, rfl, rfl⟩
  | leave => exact ⟨rfl, rfl, rfl⟩
  | puzzleAssign => exact ⟨rfl, rfl, rfl⟩

theorem speaksFor_react (i : Incoming) : s.SpeaksFor (s.react i).1 := by
  cases i with
  | frame text =>
    rw [react]
    cases Message.decode text with
    | error e => exact ⟨rfl, rfl, rfl⟩
    | ok m =>
      simp only
      by_cases hm : m.body = .leave
      · rw [hm]
        exact ⟨rfl, rfl, rfl⟩
      · rw [s.reactTo_of_ne hm]
        exact s.speaksFor_saying m.body
  | closed => exact ⟨rfl, rfl, rfl⟩
  | failed => exact ⟨rfl, rfl, rfl⟩

theorem events_cons (i : Incoming) (is : List Incoming) :
    s.events (i :: is) = (s.react i).1 :: if (s.react i).2 then s.events is else [] :=
  rfl

theorem speaksFor_of_mem_events {is : List Incoming} {e : Event} (he : e ∈ s.events is) :
    s.SpeaksFor e := by
  induction is with
  | nil => cases he
  | cons i is ih =>
    rw [events_cons] at he
    rcases List.mem_cons.1 he with rfl | he
    · exact s.speaksFor_react i
    · by_cases hgo : (s.react i).2 = true
      · rw [if_pos hgo] at he
        exact ih he
      · rw [if_neg hgo] at he
        cases he

/-- A session speaks for nobody else, whatever arrives. -/
theorem speaksFor_of_mem_run {is : List Incoming} {e : Event} (he : e ∈ s.run is) :
    s.SpeaksFor e := by
  rcases List.mem_cons.1 he with rfl | he
  · exact ⟨rfl, rfl, rfl⟩
  · exact s.speaksFor_of_mem_events he

end Session

end HectocDuel
