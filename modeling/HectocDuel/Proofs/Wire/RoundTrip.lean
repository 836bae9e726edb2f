/-
  Messages survive the wire.

  * `Body.ofParts_eq_error_iff` and `Body.of_ofParts`: what a kind and a content
    make together;
  * `Message.wire_round_trip`: every message is read back from its text, and kinds
    and contents are refused or taken as they should be.
-/
import HectocDuel.Proofs.Json.Encoding
import HectocDuel.Proofs.Puzzle.Digits
import HectocDuel.Wire.Frame

namespace HectocDuel

open Json

/-! ## Kinds -/

theorem Kind.mem_all (k : Kind) : k ∈ Kind.all := by
  rcases k with k | _ | _
  · cases k <;> decide
  · decide
  · decide

theorem Kind.ofName?_name (k : Kind) : Kind.ofName? k.name = some k := by
  rcases k with k | _ | _
  · cases k <;> decide
  · decide
  · decide

theorem Kind.ofJson_name (k : Kind) : Kind.ofJson (.ofText k.name) = .ok k := by
  have hv : variant (Kind.all.map Kind.name) (.ofText k.name) = .ok k.name := by
    rw [Tree.ofText, variant, readText_spell]
    exact if_pos (List.mem_map_of_mem k.mem_all)
  simp only [Kind.ofJson, hv, bind, Except.bind, Kind.ofName?_name]
  rfl

/-! ## Bodies -/

theorem Body.ofParts_eq_error_iff {kind : Kind} {content : String} :
    (∃ e, Body.ofParts kind content = .error e) ↔
      kind = .puzzleAssign ∧ ¬ Digits.Written content := by
  rcases kind with k | _ | _
  · simp [ofParts]
  · simp [ofParts]
  · rw [← Digits.parse_eq_error_iff, ofParts]
    cases Digits.parse content <;> simp

/-- A body has the kind and the content it was made of, except that leaving
    drops what is said. -/
theorem Body.of_ofParts {kind : Kind} {content : String} {body : Body}
    (h : Body.ofParts kind content = .ok body) :
    body.kind = kind ∧ body.content = if kind = .leave then "" else content := by
  rcases kind with k | _ | _
  · obtain rfl := Except.ok.inj h
    exact ⟨rfl, rfl⟩
  · obtain rfl := Except.ok.inj h
    exact ⟨rfl, rfl⟩
  · rw [ofParts] at h
    split at h
    · next digits hd =>
      obtain rfl := Except.ok.inj h
      exact ⟨rfl, Digits.parse_eq_ok_iff.1 hd⟩
    · cases h

theorem Body.ofParts_kind_content (b : Body) : Body.ofParts b.kind b.content = .ok b := by
  rcases b with ⟨k, s⟩ | _ | ds
  · rfl
  · rfl
  · rw [kind, content, ofParts, Digits.parse_eq_ok_iff.2 rfl]

/-! ## Frames -/

/-- The frame with all that a message says. -/
def Message.frame (m : Message) : Frame where
  kind := some m.body.kind
  content := some (some m.body.content)
  room := some m.room.text
  sender := m.sender.map (some ·.text)

theorem Message.fills (m : Message) :
    Frame.shape.Fills {}
      ([("type", .ofText m.body.kind.name), ("content", .ofText m.body.content),
        ("roomId", .ofText m.room.text)] ++
        match m.sender with
        | some p => [("senderId", .ofText p.text)]
        | none => []) m.frame := by
  refine .of rfl rfl (Kind.ofJson_name _) <| .of rfl rfl (nullable_ofText _) <|
    .of rfl rfl (string_ofText _) ?_
  rcases m with ⟨body, room, _ | p⟩
  · exact .done _
  · exact .of rfl rfl (nullable_ofText _) (.done _)

theorem Message.read_toJson (m : Message) : Frame.shape.read m.toJson = .ok m.frame :=
  Shape.read_ofEntries m.fills rfl

theorem Message.written_toJson (m : Message) : m.toJson.Written := by
  refine .entries ?_
  rcases m with ⟨body, room, _ | p⟩ <;> simp [Tree.Written.text]

theorem Message.message_frame (m : Message) : m.frame.message = .ok m := by
  rcases m with ⟨body, room, _ | p⟩ <;> simp [frame, Frame.message, Body.ofParts_kind_content]

theorem Message.ofJson_eq_ok_iff {t : Tree} {m : Message} :
    Message.ofJson t = .ok m ↔ ∃ f, Frame.shape.read t = .ok f ∧ f.message = .ok m := by
  rw [ofJson]
  cases Frame.shape.read t with
  | error e => exact ⟨nofun, fun ⟨_, hf, _⟩ => nomatch hf⟩
  | ok f => exact ⟨fun h => ⟨f, rfl, h⟩, fun ⟨_, hf, h⟩ => Except.ok.inj hf ▸ h⟩

/-! ## The round trip -/

theorem Message.decode_encode (m : Message) : Message.decode m.encode = .ok m := by
  rw [Message.decode, Message.encode, Json.decode_encode _ m.written_toJson, Message.ofJson,
    m.read_toJson]
  exact m.message_frame

theorem Message.encode_injective : Function.Injective Message.encode := by
  intro m n h
  exact Except.ok.inj ((m.decode_encode).symm.trans (h ▸ n.decode_encode))

/-- **Every message is read back from its text**, whatever its texts hold.  And
    a kind and a content are refused only where digits are asked for and six
    characters from `1` to `9` are not given; else they make the body of that
    kind and content, except that leaving drops what is said. -/
theorem Message.wire_round_trip (m : Message) :
    Message.decode m.encode = .ok m ∧
      ∀ (kind : Kind) (content : String),
        ((∃ e, Body.ofParts kind content = .error e) ↔
          kind = .puzzleAssign ∧
            ¬ (content.toList.length = 6 ∧ ∀ c ∈ content.toList, '1' ≤ c ∧ c ≤ '9')) ∧
        ∀ body, Body.ofParts kind content = .ok body →
          body.kind = kind ∧ body.content = if kind = .leave then "" else content := by
  exact ⟨m.decode_encode, fun kind content =>
    ⟨Body.ofParts_eq_error_iff, fun body => Body.of_ofParts⟩⟩

end HectocDuel
