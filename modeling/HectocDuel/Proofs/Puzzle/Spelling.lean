/-
  The digits of an answer and the numbers that it computes with.

  The rule on answers looks at the text and knows no numbers; the scanner looks for
  numbers and knows no rule.  They see the same digits: all digits of a text stand in
  its literals, and a literal comes out of each stage as it is written.  The only
  numbers that nobody has written are the `-1` of signs, which have a sign themselves.

  * `matchesSubmission_iff_bytes`: the rule looks at bytes or at characters alike;
  * `Segmented.filter_isDigit`: the digits of a text are those of its numbers;
  * `digits_of_tokenize`: so an answer fits a puzzle iff its numbers are spelled with
    the digits of the puzzle, at the end of the stages as in the text.
-/
import HectocDuel.Proofs.Expr.Stages
import HectocDuel.Proofs.Puzzle.Digits
import HectocDuel.Proofs.Text.Bytes

namespace HectocDuel

/-! ## Digits among bytes -/

/-- Whether a byte is a decimal digit. -/
def isDigitByte (b : UInt8) : Bool :=
  0x30 ≤ b && b ≤ 0x39

theorem isDigitByte_ofNat {n : Nat} (hn : n < 0x100) :
    isDigitByte (UInt8.ofNat n) = decide (0x30 ≤ n ∧ n ≤ 0x39) := by
  simp [isDigitByte, UInt8.le_iff_toNat_le, Nat.mod_eq_of_lt hn]

theorem isDigit_eq_decide (c : Char) :
    c.isDigit = decide (0x30 ≤ c.toNat ∧ c.toNat ≤ 0x39) := by
  simp [Char.isDigit, UInt32.le_iff_toNat_le]

theorem isDigitByte_of_mem {c : Char} (h : 0x80 ≤ c.toNat) {b : UInt8}
    (hb : b ∈ String.utf8EncodeChar c) : isDigitByte b = false := by
  have hlow := Text.le_of_mem_utf8 h hb
  rw [isDigitByte, Bool.and_eq_false_iff, decide_eq_false_iff_not, decide_eq_false_iff_not]
  exact .inr fun hhigh => absurd (UInt8.le_trans hlow hhigh) (by decide)

/-- A digit is one byte, and other characters have no byte that is one. -/
theorem filter_utf8EncodeChar (c : Char) : (String.utf8EncodeChar c).filter isDigitByte =
    if c.isDigit then [UInt8.ofNat c.toNat] else [] := by
  by_cases h : c.toNat < 0x80
  · rw [Text.utf8_eq_of_lt h, List.filter_singleton, isDigitByte_ofNat (by omega),
      ← isDigit_eq_decide, Bool.cond_eq_ite]
  · have hd : c.isDigit = false := by
      rw [isDigit_eq_decide, decide_eq_false_iff_not]
      omega
    have hnone : (String.utf8EncodeChar c).filter isDigitByte = [] := by
      rw [List.filter_eq_nil_iff]
      intro b hb
      rw [isDigitByte_of_mem (Nat.not_lt.1 h) hb]
      exact Bool.false_ne_true
    rw [hnone, hd]
    rfl

/-- The digit bytes of a text are its digits. -/
theorem filter_bytesOf (s : String) : (Text.bytesOf s).filter isDigitByte =
    (s.toList.filter Char.isDigit).map fun c => UInt8.ofNat c.toNat := by
  rw [Text.bytesOf_eq, List.filter_flatMap]
  simp only [filter_utf8EncodeChar]
  induction s.toList with
  | nil => rfl
  | cons c cs ih =>
    rw [List.flatMap_cons, ih, List.filter_cons]
    split <;> rfl

/-- **The rule on answers may look at bytes or at characters.** -/
theorem Digits.matchesSubmission_iff_bytes (ds : Digits) (s : String) :
    ds.matchesSubmission s ↔
      ((Text.bytesOf s).filter isDigitByte).map (fun b => (b - 0x30).toNat) = ds.values := by
  have hvalue : ∀ c ∈ s.toList.filter Char.isDigit,
      (UInt8.ofNat c.toNat - 0x30).toNat = digitValue c := by
    intro c hc
    have hd := (List.mem_filter.1 hc).2
    rw [isDigit_eq_decide, decide_eq_true_eq] at hd
    have hle : (0x30 : UInt8) ≤ UInt8.ofNat c.toNat := by
      simp [UInt8.le_iff_toNat_le]
      omega
    rw [UInt8.toNat_sub_of_le _ _ hle, UInt8.toNat_ofNat', Nat.mod_eq_of_lt (by omega)]
    rfl
  rw [matchesSubmission, beq_iff_eq, filter_bytesOf, List.map_map]
  exact Eq.congr_left (List.map_congr_left hvalue).symm

/-! ## Digits of a text -/

/-- The digits that numbers are spelled with, one number behind the other. -/
def spelledDigits (ls : List String) : List Char :=
  ls.flatMap fun l => l.toList.filter Char.isDigit

/-- The spellings of the numbers that have no sign, in their order. -/
def unsigned (ts : List Token) : List String :=
  (literals ts).filter fun l => l.toList.head? ≠ some '-'

theorem unsigned_append (ts us : List Token) :
    unsigned (ts ++ us) = unsigned ts ++ unsigned us := by
  rw [unsigned, literals_append, List.filter_append]
  rfl

theorem IsLiteral.head?_ne_minus {cs : List Char} (h : IsLiteral cs) : cs.head? ≠ some '-' := by
  intro hc
  rcases h.numeric _ (List.mem_of_mem_head? hc) with hd | hd
  · cases hd
  · cases hd

theorem Segment.Fits.filter_isDigit {before : Before} {rest : List Char} {s : Segment}
    (h : s.Fits before rest) : s.text.filter Char.isDigit = spelledDigits (unsigned s.tokens) := by
  cases s with
  | literal cs =>
    have hl : unsigned (literal cs).tokens = [String.ofList cs] := by
      rw [unsigned]
      exact List.filter_eq_self.2 fun l hl => by
        obtain rfl := List.mem_singleton.1 hl
        simpa using h.1.head?_ne_minus
    rw [hl, spelledDigits, List.flatMap_singleton, String.toList_ofList]
    rfl
  | blank c =>
    have hd : ¬ c.isDigit := by
      intro hd
      have hn : IsNumeric c := .inl hd
      rw [Fits, hn.not_isBlank] at h
      cases h
    simp [text, hd, tokens, unsigned, literals, spelledDigits]
  | operator op => cases op <;> rfl
  | leftParen | rightParen | minus | plus => rfl

/-- **The digits of a text are those of its unsigned numbers.** -/
theorem Segmented.filter_isDigit {before : Before} {ss : List Segment} (h : Segmented before ss) :
    (ss.flatMap Segment.text).filter Char.isDigit =
      spelledDigits (unsigned (ss.flatMap Segment.tokens)) := by
  induction ss generalizing before with
  | nil => rfl
  | cons s ss ih =>
    rw [List.flatMap_cons, List.flatMap_cons, List.filter_append, unsigned_append, spelledDigits,
      List.flatMap_append, h.1.filter_isDigit, ih h.2]
    rfl

/-- The numbers that begin with a sign are those of signs, which are `-1`. -/
theorem Segment.Fits.head?_eq_minus_iff {before : Before} {rest : List Char} {s : Segment}
    (h : s.Fits before rest) {literal : String} (hm : .number literal ∈ s.tokens) :
    (literal.toList.head? = some '-' ↔ s = .minus) ∧ (s = .minus → literal = "-1") := by
  rcases h.number_cases hm with ⟨rfl, rfl⟩ | ⟨hl, rfl⟩
  · simp
  · simp [hl.head?_ne_minus]

/-! ## Answers -/

/-- **The rule on answers and the scanner read the same digits.**  A text that has tokens
    falls into segments in one way, and the numbers that begin with `-` are just the
    `-1` that stand for signs.  Without them, the digits of the numbers are those of
    the text, among the tokens as well as among what the machine computes with; so an
    answer fits a puzzle, by its bytes as well as by its characters, iff the numbers
    spell it. -/
theorem digits_of_tokenize {text : String} {ts : List Token} (h : tokenize text = .ok ts) :
    (∃ ss, Segmented .start ss ∧ ss.flatMap Segment.text = text.toList ∧
      (∀ ss', Segmented .start ss' → ss'.flatMap Segment.text = text.toList → ss' = ss) ∧
      ss.flatMap Segment.tokens = ts ∧
      ∀ s ∈ ss, ∀ literal, .number literal ∈ s.tokens →
        (literal.toList.head? = some '-' ↔ s = .minus) ∧ (s = .minus → literal = "-1")) ∧
    text.toList.filter Char.isDigit = spelledDigits (unsigned ts) ∧
    ∃ out, toPostfix ts = .ok out ∧
      calculate text = (evaluate doubles out).mapError .evaluation ∧
      ∀ ds : Digits,
        (ds.matchesSubmission text ↔
          ((Text.bytesOf text).filter isDigitByte).map (fun b => (b - 0x30).toNat) = ds.values) ∧
        (ds.matchesSubmission text ↔ spelledDigits (unsigned out) = ds.text.toList) := by
  obtain ⟨ss, hss, htext, rfl⟩ := scan_eq_ok_iff.1 (tokenize_eq_ok_iff.1 h).1
  have hdigits := htext ▸ hss.filter_isDigit
  obtain ⟨out, ho⟩ := exists_toPostfix_of_tokenize h
  refine ⟨⟨ss, hss, htext, fun ss' hss' ht => hss'.unique hss (ht.trans htext.symm), rfl, ?_⟩,
    hdigits, out, ho, ?_, fun ds => ⟨ds.matchesSubmission_iff_bytes text, ?_⟩⟩
  · intro s hs literal hm
    obtain ⟨_, _, hfits⟩ := hss.fits_of_mem hs
    exact hfits.head?_eq_minus_iff hm
  · rw [calculate, calculateWith_of_tokenize h, ho]
    rfl
  · rw [ds.matchesSubmission_iff, hdigits, unsigned, unsigned, literals_reorder ho]

/-- Two signs, a point, and a number of two digits. -/
theorem digits_of_tokenize_signs :
    let text := "-11*9.9 - (-9 + 9)"
    let ts : List Token := [.number "-1", .operator .mul, .number "11", .operator .mul,
      .number "9.9", .operator .sub, .leftParen, .number "-1", .operator .mul, .number "9",
      .operator .add, .number "9", .rightParen]
    tokenize text = .ok ts ∧ unsigned ts = ["11", "9.9", "9", "9"] ∧
      text.toList.filter Char.isDigit = spelledDigits (unsigned ts) ∧
      ∃ out, toPostfix ts = .ok out ∧
        ∀ ds : Digits, ds.matchesSubmission text ↔
          spelledDigits (unsigned out) = ds.text.toList := by
  intro text ts
  have ht : tokenize text = .ok ts := eq_ok_of_toOption (by decide +kernel)
  obtain ⟨-, hdigits, out, ho, -, hfits⟩ := digits_of_tokenize ht
  exact ⟨ht, by decide, hdigits, out, ho, fun ds => (hfits ds).2⟩

end HectocDuel
