/-
  A frame tells where it ends.

  * `Message.decode_cut`: no message is read from a part of a frame;
  * `Message.decode_append`: behind a frame there is nothing but blanks;
  * `Message.encode_delimited`: so a frame that was cut short, or joined to another text, is
    taken for no message at all;
  * `Message.encode_prefix_free`: and no frame is the beginning of another.
-/
import HectocDuel.Proofs.Json.Cut
import HectocDuel.Proofs.Wire.RoundTrip

namespace HectocDuel

open Json

theorem Frame.fill_broken : ∀ field ∈ shape.fields, ∀ f,
    field.fill .broken f = .error .malformed := by
  intro field hfield f
  simp only [shape, fields, List.mem_cons, List.not_mem_nil, or_false] at hfield
  rcases hfield with rfl | rfl | rfl | rfl <;> rfl

namespace Message

theorem toJson_eq (m : Message) : ∃ es, m.toJson = .object es .closed ∧ OfTexts es ∧
    es.foldlM Frame.shape.readEntry {} = .ok m.frame := by
  refine ⟨_, rfl, List.forall_mem_map.2 fun e he => ⟨spelled_spell e.1, ?_⟩, m.fills.foldlM⟩
  have htext : ∃ s, e.2 = .ofText s := by
    rcases m with ⟨body, room, _ | p⟩ <;> simp at he <;> rcases he with rfl | rfl | rfl | rfl <;>
      exact ⟨_, rfl⟩
  obtain ⟨s, hs⟩ := htext
  exact ⟨spell s, spelled_spell s, hs⟩

theorem decode_cut (m : Message) {p q : List UInt8} (h : m.encode = p ++ q) (hq : q ≠ []) :
    Message.decode p = .error .malformed := by
  obtain ⟨es, hjson, htexts, hread⟩ := m.toJson_eq
  have htorn : Torn es (parse (lex p)).1 :=
    torn_of_cut htexts (congrArg Json.encode hjson) h hq
  have hmalformed : Message.ofJson (parse (lex p)).1 = .error .malformed := by
    rw [ofJson, Shape.read_torn hread Frame.fill_broken htorn]
    rfl
  rw [Message.decode, Json.decode]
  simp only [hmalformed]

theorem decode_append (m : Message) (tail : List UInt8) :
    Message.decode (m.encode ++ tail) =
      if tail.all isBlankByte then .ok m else .error .malformed := by
  obtain ⟨es, hjson, htexts, -⟩ := m.toJson_eq
  have hlex : lex (m.encode ++ tail) = m.toJson.lexemes ++ lex tail := by
    refine lex_render_append (fun l hl => ?_) tail
    exact (htexts.plain l (hjson ▸ hl)).sealed
  have hofJson : Message.ofJson m.toJson = .ok m :=
    ofJson_eq_ok_iff.2 ⟨m.frame, m.read_toJson, m.message_frame⟩
  split
  · next hblank =>
    have hnil : lex tail = [] := lex_eq_nil_iff.2 (List.all_eq_true.1 hblank)
    refine decode_eq_ok_iff.2 ⟨m.toJson, ?_, hofJson⟩
    rw [hlex, hnil, List.append_nil, parse_lexemes m.written_toJson.wellFormed]
  · next hblank =>
    have hne : lex tail ≠ [] := fun h => hblank (List.all_eq_true.2 (lex_eq_nil_iff.1 h))
    rw [Message.decode, Json.decode, hlex, parse_append m.written_toJson.wellFormed hne]
    simp only [hofJson]
    rfl

/-- **A frame tells where it ends.**  Cut it anywhere, also within an escape or a character:
    what comes before the cut is malformed.  Blanks behind it do not matter, and with any
    other bytes behind it the text is malformed. -/
theorem encode_delimited (m : Message) :
    (∀ p q, m.encode = p ++ q → q ≠ [] → Message.decode p = .error .malformed) ∧
      (∀ tail, (∀ b ∈ tail, isBlankByte b) → Message.decode (m.encode ++ tail) = .ok m) ∧
      ∀ tail, ¬ (∀ b ∈ tail, isBlankByte b) →
        Message.decode (m.encode ++ tail) = .error .malformed :=
  ⟨fun _ _ => m.decode_cut,
    fun tail h => (m.decode_append tail).trans (if_pos (List.all_eq_true.2 h)),
    fun tail h => (m.decode_append tail).trans (if_neg fun ha => h (List.all_eq_true.1 ha))⟩

theorem encode_prefix_free {m n : Message} {tail : List UInt8}
    (h : n.encode = m.encode ++ tail) : n = m := by
  have hdecode := h ▸ n.decode_encode
  rw [decode_append] at hdecode
  split at hdecode
  · exact (Except.ok.inj hdecode).symm
  · cases hdecode

/-- A frame that is cut within its `é`, one with a line behind it, and two in a row. -/
theorem encode_delimited_accent :
    let m : Message := ⟨.text .submit "é\n", ⟨"r"⟩, none⟩
    Message.decode (m.encode.take 29) = .error .malformed ∧
      Message.decode (m.encode ++ [byte '\r', byte '\n']) = .ok m ∧
      Message.decode (m.encode ++ m.encode) = .error .malformed := by
  intro m
  obtain ⟨hcut, hblank, hjoined⟩ := encode_delimited m
  refine ⟨hcut _ (m.encode.drop 29) (List.take_append_drop 29 m.encode).symm (by decide +kernel),
    hblank _ (by decide +kernel), hjoined _ (by decide +kernel)⟩

end Message

end HectocDuel
