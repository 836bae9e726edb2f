/-
  Spelling a string and reading its spelling.

  A byte is spelled in one of three ways (`Spelling`): as itself, by a letter
  behind a backslash, or by number.

  * `unescape_escape` and `text?_spell`: the spelling of a string names that
    string, whatever characters it has;
  * `scanString_escape`: a spelling holds no quote of its own, so that a scan
    ends at the quote behind it.
-/
import HectocDuel.Json.Escape

namespace HectocDuel.Json

/-! ## How a byte is spelled -/

/-- The ways to spell a byte. -/
inductive Spelling (b : UInt8) : List UInt8 → Prop where
  /-- As itself. -/
  | plain : b ≠ byte '"' → b ≠ byte '\\' → ¬ b < 0x20 → Spelling b [b]
  /-- By a letter. -/
  | letter {e : UInt8} : e ≠ byte 'u' → isEscapeByte e → escapedByte? e = some b →
      Spelling b [byte '\\', e]
  /-- By number. -/
  | number {h l : UInt8} : isHexByte h → isHexByte l →
      codeUnit (byte '0') (byte '0') h l = b.toNat → b < 0x20 →
      Spelling b [byte '\\', byte 'u', byte '0', byte '0', h, l]

theorem forall_lt_space {p : UInt8 → Prop} (h : ∀ n < 32, p (UInt8.ofNat n)) {b : UInt8}
    (hb : b < 0x20) : p b := by
  have := h b.toNat hb
  rwa [UInt8.ofNat_toNat] at this

theorem spelling_number {b : UInt8} (hb : b < 0x20) :
    Spelling b (['\\', 'u', '0', '0'].map byte ++ [hexByte (b / 16), hexByte (b % 16)]) := by
  have h : isHexByte (hexByte (b / 16)) ∧ isHexByte (hexByte (b % 16)) ∧
      codeUnit (byte '0') (byte '0') (hexByte (b / 16)) (hexByte (b % 16)) = b.toNat :=
    forall_lt_space
      (p := fun b => isHexByte (hexByte (b / 16)) ∧ isHexByte (hexByte (b % 16)) ∧
        codeUnit (byte '0') (byte '0') (hexByte (b / 16)) (hexByte (b % 16)) = b.toNat)
      (by decide) hb
  exact .number h.1 h.2.1 h.2.2 hb

theorem spelling_escapeByte (b : UInt8) : Spelling b (escapeByte b) := by
  rw [escapeByte]
  split
  · next h => rcases h with rfl | rfl <;> exact .letter (by decide) (by decide) (by decide)
  · next hq =>
    rw [not_or] at hq
    -- The letters, one by one.
    iterate 5
      split
      · next h => subst h; exact .letter (by decide) (by decide) (by decide)
    split
    · next hb => exact spelling_number hb
    · next hb => exact .plain hq.1 hq.2 hb

/-! ## Reading -/

theorem unescape_plain {b : UInt8} (hb : b ≠ byte '\\') (bs : List UInt8) :
    unescape (b :: bs) = (unescape bs).map (b :: ·) := by
  rw [unescape.eq_def]
  exact if_neg hb

theorem unescape_letter {e c : UInt8} (he : e ≠ byte 'u') (hc : escapedByte? e = some c)
    (bs : List UInt8) : unescape (byte '\\' :: e :: bs) = (unescape bs).map (c :: ·) := by
  rw [unescape.eq_def]
  simp only [if_neg he, hc, if_true]

theorem unescape_number {h₁ h₂ h₃ h₄ : UInt8} (hn : codeUnit h₁ h₂ h₃ h₄ < 0xd800)
    (bs : List UInt8) :
    unescape (byte '\\' :: byte 'u' :: h₁ :: h₂ :: h₃ :: h₄ :: bs) =
      (unescape bs).map (String.utf8EncodeChar (Char.ofNat (codeUnit h₁ h₂ h₃ h₄)) ++ ·) := by
  have hh : isHighUnit (codeUnit h₁ h₂ h₃ h₄) = false := by simp [isHighUnit]; omega
  have hl : isLowUnit (codeUnit h₁ h₂ h₃ h₄) = false := by simp [isLowUnit]; omega
  rw [unescape, if_pos rfl]
  simp [hh, hl]

theorem unescape_spelling {b : UInt8} {spelled : List UInt8} (h : Spelling b spelled)
    (bs : List UInt8) : unescape (spelled ++ bs) = (unescape bs).map (b :: ·) := by
  cases h with
  | plain _ hb _ => exact unescape_plain hb bs
  | letter hu _ hc => exact unescape_letter hu hc bs
  | @number h l _ _ hn hb =>
    have hlt : b.toNat < 32 := hb
    have hc : String.utf8EncodeChar (Char.ofNat b.toNat) = [b] :=
      forall_lt_space (p := fun b => String.utf8EncodeChar (Char.ofNat b.toNat) = [b])
        (by decide) hb
    have hlow : codeUnit (byte '0') (byte '0') h l < 0xd800 := by omega
    have := unescape_number hlow bs
    rwa [hn, hc] at this

theorem escape_cons (b : UInt8) (bs : List UInt8) : escape (b :: bs) = escapeByte b ++ escape bs :=
  List.flatMap_cons

/-- **Spelling a list of bytes loses nothing.** -/
theorem unescape_escape (bs : List UInt8) : unescape (escape bs) = some bs := by
  induction bs with
  | nil => rfl
  | cons b bs ih => rw [escape_cons, unescape_spelling (spelling_escapeByte b), ih]; rfl

theorem ofBytes?_bytesOf (s : String) : Text.ofBytes? (Text.bytesOf s) = some s := by
  rw [Text.ofBytes?, Text.bytesOf, Array.toArray_toList]
  exact dif_pos s.isValidUTF8

/-- **The spelling of a string names that string.** -/
theorem text?_spell (s : String) : text? (spell s) = some s := by
  rw [text?, spell, unescape_escape]
  exact ofBytes?_bytesOf s

/-! ## Scanning -/

theorem scanString_quote (bs : List UInt8) : scanString (byte '"' :: bs) = some ([], bs) := by
  rw [scanString.eq_def]
  rfl

theorem scanString_spelling {b : UInt8} {spelled : List UInt8} (h : Spelling b spelled)
    (bs : List UInt8) :
    scanString (spelled ++ bs) =
      (scanString bs).map fun (body, rest) => (spelled ++ body, rest) := by
  cases h with
  | plain hq hb hs =>
    rw [scanString.eq_def]
    simp only [List.singleton_append, if_neg hq, if_neg hb, if_neg hs]
  | letter hu he _ =>
    rw [scanString.eq_def]
    simp only [List.cons_append, List.nil_append, if_neg hu, he, if_true]
    rfl
  | number hh hl _ _ =>
    have h0 : isHexByte (byte '0') = true := by decide
    rw [scanString.eq_def]
    simp only [List.cons_append, List.nil_append, h0, hh, hl, Bool.and_self, if_true]
    rfl

/-- **A string ends at the first quote behind its spelling.** -/
theorem scanString_escape (bs rest : List UInt8) :
    scanString (escape bs ++ byte '"' :: rest) = some (escape bs, rest) := by
  induction bs with
  | nil => exact scanString_quote rest
  | cons b bs ih =>
    rw [escape_cons, List.append_assoc, scanString_spelling (spelling_escapeByte b), ih]
    rfl

end HectocDuel.Json
