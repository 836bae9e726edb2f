/-
  Which bytes are taken as a lexeme.

  A string is taken up to its closing quote, a word and a mark as far as they go, whatever
  follows them (`Lexeme.Sealed`).  A number goes on as long as it can and ends in front of a
  mark (`Lexed.number`).

  * `Spelled` and `scanString_eq_some_iff`: what may stand between the quotes of a string;
  * `Lexeme.wellFormed_of_mem_lex`: a text is cut into well-formed lexemes, up to a fault;
  * `lex_render_append`: sealed lexemes are cut off in front of any text;
  * `lex_eq_nil_iff`: only blanks have no lexemes.
-/
import HectocDuel.Proofs.Json.Escape
import HectocDuel.Proofs.Json.Numeral

namespace HectocDuel.Json

/-! ## Strings -/

/-- What may stand between the quotes of a string. -/
inductive Spelled : List UInt8 → Prop where
  | nil : Spelled []
  | plain {b : UInt8} {bs : List UInt8} : b ≠ byte '"' → b ≠ byte '\\' → ¬ b < 0x20 →
      Spelled bs → Spelled (b :: bs)
  | letter {e : UInt8} {bs : List UInt8} : isEscapeByte e → Spelled bs →
      Spelled (byte '\\' :: e :: bs)
  | number {h₁ h₂ h₃ h₄ : UInt8} {bs : List UInt8} :
      isHexByte h₁ ∧ isHexByte h₂ ∧ isHexByte h₃ ∧ isHexByte h₄ → Spelled bs →
      Spelled (byte '\\' :: byte 'u' :: h₁ :: h₂ :: h₃ :: h₄ :: bs)

theorem Spelled.scanString {body : List UInt8} (h : Spelled body) (rest : List UInt8) :
    scanString (body ++ byte '"' :: rest) = some (body, rest) := by
  induction h with
  | nil => exact scanString_quote rest
  | plain hq hb hs _ ih =>
    rw [scanString.eq_def]
    simp only [List.cons_append, if_neg hq, if_neg hb, if_neg hs, ih]
    rfl
  | @letter e _ he _ ih =>
    have hu : e ≠ byte 'u' := by
      rintro rfl
      revert he
      decide
    rw [scanString.eq_def]
    simp only [List.cons_append, if_neg hu, he, if_true, ih]
    rfl
  | number hh _ ih =>
    rw [scanString.eq_def]
    simp only [List.cons_append, hh.1, hh.2.1, hh.2.2.1, hh.2.2.2, Bool.and_self, if_true, ih]
    rfl

/-- **A string is scanned up to its first quote that is not escaped.** -/
theorem scanString_eq_some_iff {bs body rest : List UInt8} :
    scanString bs = some (body, rest) ↔ Spelled body ∧ bs = body ++ byte '"' :: rest := by
  refine ⟨fun h => ?_, fun ⟨h, hbs⟩ => hbs ▸ h.scanString rest⟩
  fun_induction scanString bs generalizing body rest with
  | case2 =>
    obtain ⟨rfl, rfl⟩ := Prod.mk.inj (Option.some.inj h)
    exact ⟨.nil, rfl⟩
  | case4 h₁ h₂ h₃ h₄ bs hhex _ ih =>
    obtain ⟨⟨body', rest'⟩, h', heq⟩ := Option.map_eq_some_iff.1 h
    obtain ⟨rfl, rfl⟩ := Prod.mk.inj heq
    obtain ⟨hs, rfl⟩ := ih h'
    simp only [Bool.and_eq_true, and_assoc] at hhex
    exact ⟨.number hhex hs, rfl⟩
  | case7 e bs _ he _ ih =>
    obtain ⟨⟨body', rest'⟩, h', heq⟩ := Option.map_eq_some_iff.1 h
    obtain ⟨rfl, rfl⟩ := Prod.mk.inj heq
    obtain ⟨hs, rfl⟩ := ih h'
    exact ⟨.letter he hs, rfl⟩
  | case10 b bs hq hb hlow ih =>
    obtain ⟨⟨body', rest'⟩, h', heq⟩ := Option.map_eq_some_iff.1 h
    obtain ⟨rfl, rfl⟩ := Prod.mk.inj heq
    obtain ⟨hs, rfl⟩ := ih h'
    exact ⟨.plain hq hb hlow hs, rfl⟩
  | _ => cases h

theorem spelled_spell (s : String) : Spelled (spell s) :=
  (scanString_eq_some_iff.1 (scanString_escape (Text.bytesOf s) [])).1

/-! ## Lexemes -/

/-- A lexeme is read as it is written, whatever follows it. -/
def Lexeme.Sealed (l : Lexeme) : Prop :=
  ∀ rest, ∃ b bs, l.render ++ rest = b :: bs ∧ isBlankByte b = false ∧
    scanLexeme b bs = some (l, rest)

namespace Lexeme

/-- Whether a lexeme is a mark. -/
def isMark (l : Lexeme) : Prop :=
  ∃ b, l.render = [b] ∧ mark? b = some l

theorem isMark_openBrace : openBrace.isMark :=
  ⟨_, rfl, by decide⟩

theorem isMark_closeBrace : closeBrace.isMark :=
  ⟨_, rfl, by decide⟩

theorem isMark_openBracket : openBracket.isMark :=
  ⟨_, rfl, by decide⟩

theorem isMark_closeBracket : closeBracket.isMark :=
  ⟨_, rfl, by decide⟩

theorem isMark_colon : colon.isMark :=
  ⟨_, rfl, by decide⟩

theorem isMark_comma : comma.isMark :=
  ⟨_, rfl, by decide⟩

theorem isMark.sealed {l : Lexeme} (h : l.isMark) : l.Sealed := by
  obtain ⟨b, hr, hm⟩ := h
  intro rest
  refine ⟨b, rest, by rw [hr, List.singleton_append], ?_, ?_⟩
  · exact (mark?_spec (Option.isSome_iff_exists.2 ⟨l, hm⟩)).1
  · rw [scanLexeme, hm]

theorem sealed_string {body : List UInt8} (h : Spelled body) : (string body).Sealed := by
  intro rest
  refine ⟨byte '"', body ++ byte '"' :: rest, by simp [render], by decide, ?_⟩
  have hm : mark? (byte '"') = none := by decide
  rw [scanLexeme, hm, if_pos rfl, h.scanString]
  rfl

theorem sealed_bool (b : Bool) : (bool b).Sealed := by
  intro rest
  cases b with
  | false => exact ⟨_, _, rfl, by decide, rfl⟩
  | true => exact ⟨_, _, rfl, by decide, rfl⟩

theorem sealed_null : null.Sealed :=
  fun _ => ⟨_, _, rfl, by decide, rfl⟩

/-- A lexeme that a text can have. -/
def WellFormed : Lexeme → Prop
  | number n => n.WellFormed
  | string body => Spelled body
  | fault => False
  | _ => True

end Lexeme

theorem wellFormed_of_mark {b : UInt8} {l : Lexeme} (h : mark? b = some l) : l.WellFormed := by
  rw [mark?] at h
  iterate 6
    split at h
    · obtain rfl := Option.some.inj h
      trivial
  cases h

theorem wellFormed_of_scanWord {l l' : Lexeme} {letters : List Char} {bs rest : List UInt8}
    (h : scanWord l letters bs = some (l', rest)) (hl : l.WellFormed) : l'.WellFormed := by
  rw [scanWord] at h
  split at h
  · exact (Prod.mk.inj (Option.some.inj h)).1 ▸ hl
  · cases h

theorem wellFormed_of_scanLexeme {b : UInt8} {bs rest : List UInt8} {l : Lexeme}
    (h : scanLexeme b bs = some (l, rest)) : l.WellFormed := by
  have hnumber : ∀ {negative bs}, scanNumber negative bs = some (l, rest) → l.WellFormed := by
    intro negative bs h
    obtain ⟨n, rfl, hn⟩ := wellFormed_of_scanNumber h
    exact hn
  rw [scanLexeme] at h
  split at h
  · next hmark => exact (Prod.mk.inj (Option.some.inj h)).1 ▸ wellFormed_of_mark hmark
  split at h
  · obtain ⟨⟨body, rest'⟩, hs, heq⟩ := Option.map_eq_some_iff.1 h
    obtain ⟨rfl, rfl⟩ := Prod.mk.inj heq
    exact (scanString_eq_some_iff.1 hs).1
  iterate 3
    split at h
    · exact wellFormed_of_scanWord h trivial
  split at h
  · exact hnumber h
  split at h
  · exact hnumber h
  · cases h

/-! ## Texts -/

theorem lex_blank {b : UInt8} (hb : isBlankByte b = true) (bs : List UInt8) :
    lex (b :: bs) = lex bs := by
  rw [lex, if_pos hb]

theorem lex_cons {b : UInt8} {bs rest : List UInt8} {l : Lexeme} (hb : isBlankByte b = false)
    (hs : scanLexeme b bs = some (l, rest)) : lex (b :: bs) = l :: lex rest := by
  rw [lex, hb, if_neg Bool.false_ne_true]
  split
  · next h =>
    obtain ⟨rfl, rfl⟩ := Prod.mk.inj (Option.some.inj (hs.symm.trans h))
    rfl
  · next h => rw [hs] at h; cases h

theorem lex_fault {b : UInt8} {bs : List UInt8} (hb : isBlankByte b = false)
    (hs : scanLexeme b bs = none) : lex (b :: bs) = [.fault] := by
  rw [lex, hb, if_neg Bool.false_ne_true]
  split
  · next h => rw [hs] at h; cases h
  · rfl

/-- **A text is cut into well-formed lexemes, up to a fault.** -/
theorem Lexeme.wellFormed_of_mem_lex {bs : List UInt8} {l : Lexeme} (h : l ∈ lex bs) :
    l.WellFormed ∨ l = .fault := by
  induction bs using lex.induct with
  | case1 => rw [lex] at h; cases h
  | case2 b bs hb ih => exact ih (lex_blank hb bs ▸ h)
  | case3 b bs hb l' rest hs ih =>
    rw [lex_cons (Bool.not_eq_true _ ▸ hb) hs] at h
    rcases List.mem_cons.1 h with rfl | h
    · exact .inl (wellFormed_of_scanLexeme hs)
    · exact ih h
  | case4 b bs hb hs =>
    rw [lex_fault (Bool.not_eq_true _ ▸ hb) hs] at h
    exact .inr (List.mem_singleton.1 h)

/-- **Only blanks have no lexemes.** -/
theorem lex_eq_nil_iff {bs : List UInt8} : lex bs = [] ↔ ∀ b ∈ bs, isBlankByte b = true := by
  induction bs using lex.induct with
  | case1 => exact iff_of_true (by rw [lex]) nofun
  | case2 b bs hb ih => rw [lex_blank hb, ih, List.forall_mem_cons, and_iff_right hb]
  | case3 b bs hb l rest hs ih =>
    rw [lex_cons (Bool.not_eq_true _ ▸ hb) hs]
    exact iff_of_false (List.cons_ne_nil l _) fun h => hb (h b List.mem_cons_self)
  | case4 b bs hb hs =>
    rw [lex_fault (Bool.not_eq_true _ ▸ hb) hs]
    exact iff_of_false (List.cons_ne_nil _ _) fun h => hb (h b List.mem_cons_self)

section
variable {l : Lexeme} {ls : List Lexeme}

theorem render_cons (l : Lexeme) (ls : List Lexeme) : render (l :: ls) = l.render ++ render ls :=
  List.flatMap_cons

theorem Lexeme.Sealed.lex_append (h : l.Sealed) (bs : List UInt8) :
    lex (l.render ++ bs) = l :: lex bs := by
  obtain ⟨b, bs', heq, hb, hs⟩ := h bs
  rw [heq, lex_cons hb hs]

/-- **Sealed lexemes are cut off in front of any text.** -/
theorem lex_render_append (h : ∀ l ∈ ls, l.Sealed) (bs : List UInt8) :
    lex (render ls ++ bs) = ls ++ lex bs := by
  induction ls with
  | nil => rfl
  | cons l ls ih =>
    obtain ⟨hl, hls⟩ := List.forall_mem_cons.1 h
    rw [render_cons, List.append_assoc, hl.lex_append, ih hls, List.cons_append]

/-- Lexemes are cut where they were joined. -/
def Lexed (ls : List Lexeme) : Prop :=
  lex (render ls) = ls

theorem lexed_nil : Lexed [] := by
  rw [Lexed, render, List.flatMap_nil, lex]

theorem Lexed.sealed (h : Lexed ls) (hl : l.Sealed) : Lexed (l :: ls) := by
  rw [Lexed, render_cons, hl.lex_append, h]

theorem Lexed.number (h : Lexed ls) (hmark : ∀ l ∈ ls.head?, l.isMark) {n : Numeral}
    (hn : n.WellFormed) : Lexed (.number n :: ls) := by
  have hdelimits : Delimits (render ls) := by
    cases ls with
    | nil => exact nofun
    | cons l ls =>
      obtain ⟨b, hl, hb⟩ := hmark l rfl
      rw [render_cons, hl, List.singleton_append]
      exact fun b' hb' => Option.isSome_iff_exists.2 ⟨l, Option.some.inj hb' ▸ hb⟩
  have hscan := scanNumber_render hn hdelimits
  have hrender : render (.number n :: ls) = (if n.negative then [byte '-'] else []) ++
      (n.whole.map digitByte ++
        (fractionText n.fraction ++ (exponentText n.exponent ++ render ls))) := by
    rw [render_cons, Lexeme.render, Numeral.render_eq]
    simp only [List.append_assoc]
  rw [Lexed, hrender]
  cases hnegative : n.negative with
  | true =>
    rw [hnegative] at hscan
    rw [if_pos rfl, List.singleton_append,
      lex_cons (by decide) ((scanLexeme_minus _).trans hscan), h]
  | false =>
    rw [hnegative] at hscan
    obtain ⟨d, ds, hds, -⟩ := hn.isWhole
    have hd : d < 10 := hn.whole d (hds ▸ List.mem_cons_self)
    rw [hds, List.map_cons, List.cons_append] at hscan ⊢
    rw [if_neg Bool.false_ne_true, List.nil_append, lex_cons (digitByte_spec hd).2.2
      ((scanLexeme_digitByte hd _).trans hscan), h]

end

end HectocDuel.Json
