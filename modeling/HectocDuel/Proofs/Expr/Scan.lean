/-
  How texts are scanned, piece by piece.

  A text is given as its pieces, with blanks before, between and after them
  (`Spaced`).  For each kind of piece there is one rule: blanks are skipped
  (`scan_blanks`), a literal is taken whole if nothing behind it continues it
  (`scan_literal`), parentheses and operators are tokens by themselves
  (`scan_leftParen`, `scan_rightParen`, `scan_symbol`).
-/
import HectocDuel.Expr.Tokens

namespace HectocDuel

/-! ## Pieces -/

/-- Blanks only. -/
def Blanks (cs : List Char) : Prop :=
  ∀ c ∈ cs, Text.isBlank c = true

/-- The pieces one after the other, with blanks before, between and after them. -/
inductive Spaced : List (List Char) → List Char → Prop
  | nil (ws : List Char) (hw : Blanks ws) : Spaced [] ws
  | cons (ws : List Char) {piece : List Char} {pieces : List (List Char)} {rest : List Char}
      (hw : Blanks ws) (h : Spaced pieces rest) : Spaced (piece :: pieces) (ws ++ (piece ++ rest))

/-- A character of a number literal. -/
def IsNumeric (c : Char) : Prop :=
  c.isDigit ∨ c = '.'

/-- A number literal: digits, with at most one point. -/
structure IsLiteral (cs : List Char) : Prop where
  nonempty : cs ≠ []
  numeric : ∀ c ∈ cs, IsNumeric c
  points : cs.count '.' ≤ 1

/-- A literal in front of the text is not continued by it. -/
def EndsLiteral (cs : List Char) : Prop :=
  ∀ c ∈ cs.head?, ¬ IsNumeric c

theorem IsNumeric.not_isBlank {c : Char} (h : IsNumeric c) : Text.isBlank c = false := by
  rcases h with h | rfl
  · simp only [Char.isDigit, Bool.and_eq_true, decide_eq_true_eq, ge_iff_le,
      UInt32.le_iff_toNat_le] at h
    obtain ⟨h1, h2⟩ : 48 ≤ c.toNat ∧ c.toNat ≤ 57 := h
    simp only [Text.isBlank, Bool.or_eq_false_iff, Bool.and_eq_false_iff, decide_eq_false_iff_not,
      beq_eq_false_iff_ne]
    omega
  · rfl

theorem endsLiteral_append {ws cs : List Char} (hw : Blanks ws) (h : EndsLiteral cs) :
    EndsLiteral (ws ++ cs) := by
  cases ws with
  | nil => exact h
  | cons w ws =>
    intro c hc hn
    obtain rfl : w = c := by simpa using hc
    have := hw w (List.mem_cons_self ..)
    rw [hn.not_isBlank] at this
    cases this

theorem endsLiteral_symbol (op : Operator) : EndsLiteral [op.symbol] := by
  cases op <;> simp [EndsLiteral, IsNumeric, Operator.symbol, Char.isDigit]

theorem Spaced.endsLiteral {pieces : List (List Char)} {text : List Char} (h : Spaced pieces text)
    (hp : ∀ p ∈ pieces.head?, p ≠ [] ∧ EndsLiteral p) : EndsLiteral text := by
  cases h with
  | nil ws hw =>
    have hnil : EndsLiteral [] := by simp [EndsLiteral]
    have := endsLiteral_append hw hnil
    rwa [List.append_nil] at this
  | @cons ws piece pieces rest hw h =>
    obtain ⟨hne, hp⟩ := hp piece rfl
    refine endsLiteral_append hw ?_
    cases piece with
    | nil => exact absurd rfl hne
    | cons c cs => exact hp

/-! ## Scanning -/

theorem scan_blanks {ws : List Char} (hw : Blanks ws) (before : Before) (cs : List Char) :
    scan before (ws ++ cs) = scan before cs := by
  induction ws with
  | nil => rfl
  | cons w ws ih =>
    rw [List.cons_append, scan, if_pos (hw w (List.mem_cons_self ..))]
    exact ih fun c hc => hw c (List.mem_cons_of_mem w hc)

theorem Spaced.scan_nil {text : List Char} (h : Spaced [] text) (before : Before) :
    scan before text = .ok [] := by
  cases h with
  | nil ws hw =>
    have := scan_blanks hw before []
    rwa [List.append_nil, scan] at this

theorem Spaced.scan_cons {piece : List Char} {pieces : List (List Char)} {text : List Char}
    (h : Spaced (piece :: pieces) text) (before : Before) :
    ∃ rest, Spaced pieces rest ∧ scan before text = scan before (piece ++ rest) := by
  cases h with
  | cons ws hw h => exact ⟨_, h, scan_blanks hw before _⟩

/-- What `spanLiteral` takes, when `pointed` says that a point came before: numeric
    characters, one point at most with the one before, and as many as it can. -/
theorem spanLiteral_spec (pointed : Bool) (cs : List Char) :
    (∀ c ∈ (spanLiteral pointed cs).1, IsNumeric c) ∧
      (spanLiteral pointed cs).1.count '.' + pointed.toNat ≤ 1 ∧
      ∀ c ∈ (spanLiteral pointed cs).2.head?, ¬ c.isDigit ∧
        (c = '.' → (spanLiteral pointed cs).1.count '.' + pointed.toNat = 1) := by
  fun_induction spanLiteral pointed cs with
  | case1 pointed =>
    cases pointed <;> simp
  | case2 pointed c cs hd literal rest hs ih =>
    have hne : c ≠ '.' := by rintro rfl; cases hd
    rw [hs] at ih
    refine ⟨List.forall_mem_cons.2 ⟨.inl hd, ih.1⟩, ?_⟩
    simpa only [List.count_cons_of_ne hne] using ih.2
  | case3 pointed c cs hd hp literal rest hs ih =>
    obtain ⟨rfl, rfl⟩ := hp
    rw [hs] at ih
    refine ⟨List.forall_mem_cons.2 ⟨.inr rfl, ih.1⟩, ?_⟩
    simpa only [List.count_cons_self, Bool.toNat_true, Bool.toNat_false, Nat.add_zero] using ih.2
  | case4 pointed c cs hd hp =>
    cases pointed <;> simp_all

theorem spanLiteral_of_numeric : ∀ {pointed : Bool} {cs rest : List Char},
    (∀ c ∈ cs, IsNumeric c) → cs.count '.' + pointed.toNat ≤ 1 →
      (∀ c ∈ rest.head?, ¬ c.isDigit ∧ (c = '.' → cs.count '.' + pointed.toNat = 1)) →
        spanLiteral pointed (cs ++ rest) = (cs, rest)
  | _, [], [], _, _, _ => rfl
  | pointed, [], c :: rest, _, _, hr => by
    obtain ⟨hd, hp⟩ := hr c rfl
    have hp : ¬ (c = '.' ∧ pointed = false) := by
      rintro ⟨rfl, rfl⟩
      cases hp rfl
    rw [List.nil_append, spanLiteral, if_neg hd, if_neg hp]
  | pointed, c :: cs, rest, hn, hp, hr => by
    obtain ⟨hc, hns⟩ := List.forall_mem_cons.1 hn
    rw [List.cons_append, spanLiteral]
    by_cases hd : c.isDigit
    · have hne : c ≠ '.' := by rintro rfl; cases hd
      simp only [List.count_cons_of_ne hne] at hp hr
      rw [if_pos hd, spanLiteral_of_numeric hns hp hr]
    · obtain rfl := hc.resolve_left hd
      simp only [List.count_cons_self] at hp hr
      cases pointed with
      | true => simp at hp
      | false =>
        have hp : cs.count '.' + true.toNat ≤ 1 := hp
        rw [if_neg hd, if_pos ⟨rfl, rfl⟩, spanLiteral_of_numeric hns hp hr]

/-- A literal is not continued by what would be a second point, or no numeric
    character. -/
theorem IsLiteral.not_concat_iff {cs : List Char} (h : IsLiteral cs) {c : Char} :
    ¬ IsLiteral (cs ++ [c]) ↔ ¬ c.isDigit ∧ (c = '.' → cs.count '.' = 1) := by
  have hiff : IsLiteral (cs ++ [c]) ↔ IsNumeric c ∧ (cs ++ [c]).count '.' ≤ 1 := by
    constructor
    · intro hc
      exact ⟨hc.numeric c (by simp), hc.points⟩
    · rintro ⟨hc, hp⟩
      exact ⟨by simp, List.forall_mem_append.2 ⟨h.numeric, by simpa using hc⟩, hp⟩
  have hp := h.points
  rw [hiff, List.count_append, IsNumeric]
  by_cases hd : c = '.'
  · subst hd
    simp [Char.isDigit]
    omega
  · simp [hd, hp]

/-- A literal is read whole if no longer one stands there. -/
theorem scan_longest_literal {cs rest : List Char} (h : IsLiteral cs)
    (hr : ∀ c ∈ rest.head?, ¬ IsLiteral (cs ++ [c])) (before : Before) :
    scan before (cs ++ rest) = (scan .operand rest).map (.number (String.ofList cs) :: ·) := by
  simp only [h.not_concat_iff] at hr
  obtain ⟨hne, hn, hp⟩ := h
  match cs, hne with
  | c :: cs, _ =>
    obtain ⟨hc, hns⟩ := List.forall_mem_cons.1 hn
    have hcount : (c :: cs).count '.' = cs.count '.' + (decide (c = '.')).toNat := by
      by_cases hd : c = '.' <;> simp [hd]
    rw [hcount] at hp hr
    have hspan := spanLiteral_of_numeric hns hp hr
    have hc' : c.isDigit ∨ c = '.' := hc
    rw [List.cons_append, scan, if_neg (by simp [hc.not_isBlank]), if_pos hc', hspan]

theorem scan_literal {cs rest : List Char} (h : IsLiteral cs) (hr : EndsLiteral rest)
    (before : Before) : scan before (cs ++ rest) =
      (scan .operand rest).map (.number (String.ofList cs) :: ·) :=
  scan_longest_literal h (fun c hc hl => hr c hc (hl.numeric c (by simp))) before

theorem scan_leftParen (before : Before) (cs : List Char) :
    scan before ('(' :: cs) = (scan .leftParen cs).map (.leftParen :: ·) := by
  rw [scan]
  rfl

theorem scan_rightParen (before : Before) (cs : List Char) :
    scan before (')' :: cs) = (scan .operand cs).map (.rightParen :: ·) := by
  rw [scan]
  rfl

theorem scan_symbol (before : Before) (op : Operator) (cs : List Char) :
    scan before (op.symbol :: cs) =
      (scan (signTokens before op).2 cs).map ((signTokens before op).1 ++ ·) := by
  rw [scan]
  cases op <;> rfl

theorem signTokens_operand (op : Operator) :
    signTokens .operand op = ([.operator op], .operator) := by
  cases op <;> rfl

theorem scan_minus {before : Before} (h : before ≠ .operand) (cs : List Char) :
    scan before ('-' :: cs) =
      (scan .operator cs).map ([.number "-1", .operator .mul] ++ ·) := by
  have hs : signTokens before .sub = ([.number "-1", .operator .mul], .operator) :=
    if_pos ⟨rfl, h⟩
  have := scan_symbol before .sub cs
  rwa [hs] at this

end HectocDuel
