/-
  A minus sign in front of the right operand.

  The sign becomes `-1 *` before any operator has found its operands.  In
  `a op -b` the new `*` therefore competes with `op` for the operand `-1`, and
  `op` gets it unless it binds less tightly:

      a + -b   is   a + (-1 * b)
      a / -b   is   (a / -1) * b

  `calculate_sign_iff`: so the sign negates its operand behind `+`, `-` and, since
  doubles keep their magnitude under it, behind `*`; behind `/` and `^` only if the
  two groupings happen to be worth the same.  Mostly they are not: `6 / -3` is worth
  `-18`, and `6 / (-3)` is worth `-2` (`quotient_regrouped`).
-/
import HectocDuel.Proofs.Decimal.Literal
import HectocDuel.Proofs.Decimal.Negation
import HectocDuel.Proofs.Expr.Scan
import HectocDuel.Proofs.Expr.Sentence

namespace HectocDuel

/-! ## What is scanned -/

theorem scan_bare {a b text : List Char} (ha : IsLiteral a) (hb : IsLiteral b) (op : Operator)
    (h : Spaced [a, [op.symbol], ['-'], b] text) :
    scan .start text = .ok [.number (String.ofList a), .operator op, .number "-1", .operator .mul,
      .number (String.ofList b)] := by
  obtain ⟨t₁, h₁, e₁⟩ := h.scan_cons .start
  obtain ⟨t₂, h₂, e₂⟩ := h₁.scan_cons .operand
  obtain ⟨t₃, h₃, e₃⟩ := h₂.scan_cons .operator
  obtain ⟨t₄, h₄, e₄⟩ := h₃.scan_cons .operator
  have hend := h₁.endsLiteral (by simpa using endsLiteral_symbol op)
  rw [e₁, scan_literal ha hend, e₂, List.singleton_append, scan_symbol, signTokens_operand, e₃,
    List.singleton_append, scan_minus (by decide), e₄, scan_literal hb (h₄.endsLiteral (by simp)),
    h₄.scan_nil]
  rfl

theorem scan_grouped {a b text : List Char} (ha : IsLiteral a) (hb : IsLiteral b) (op : Operator)
    (h : Spaced [a, [op.symbol], ['('], ['-'], b, [')']] text) :
    scan .start text = .ok [.number (String.ofList a), .operator op, .leftParen, .number "-1",
      .operator .mul, .number (String.ofList b), .rightParen] := by
  obtain ⟨t₁, h₁, e₁⟩ := h.scan_cons .start
  obtain ⟨t₂, h₂, e₂⟩ := h₁.scan_cons .operand
  obtain ⟨t₃, h₃, e₃⟩ := h₂.scan_cons .operator
  obtain ⟨t₄, h₄, e₄⟩ := h₃.scan_cons .leftParen
  obtain ⟨t₅, h₅, e₅⟩ := h₄.scan_cons .operator
  obtain ⟨t₆, h₆, e₆⟩ := h₅.scan_cons .operand
  have hend := h₁.endsLiteral (by simpa using endsLiteral_symbol op)
  have hend' := h₅.endsLiteral (by simp [EndsLiteral, IsNumeric, Char.isDigit])
  rw [e₁, scan_literal ha hend, e₂, List.singleton_append, scan_symbol, signTokens_operand, e₃,
    List.singleton_append, scan_leftParen, e₄, List.singleton_append, scan_minus (by decide), e₅,
    scan_literal hb hend', e₆, List.singleton_append, scan_rightParen, h₆.scan_nil]
  rfl

/-! ## What is computed -/

/-- The operator on `a` and the negated `b`. -/
def negatedRight (op : Operator) (a b : String) : ParseTree :=
  .node op (.leaf a) (.node .mul (.leaf "-1") (.leaf b))

/-- The operator on `a` and the `-1` of the sign, and `b` times that. -/
def regrouped (op : Operator) (a b : String) : ParseTree :=
  .node .mul (.node op (.leaf a) (.leaf "-1")) (.leaf b)

theorem exists_product {op : Operator} (hop : ¬ (op = .add ∨ op = .sub)) (l r : Infix .atom) :
    ∃ e : Infix .product, e.tokens = l.tokens ++ .operator op :: r.tokens ∧
      e.tree = .node op l.tree r.tree := by
  cases op with
  | add => exact absurd (.inl rfl) hop
  | sub => exact absurd (.inr rfl) hop
  | mul => exact ⟨.times (.ofPower (.ofAtom l)) .mul (.inl rfl) (.ofAtom r), rfl, rfl⟩
  | div => exact ⟨.times (.ofPower (.ofAtom l)) .div (.inr rfl) (.ofAtom r), rfl, rfl⟩
  | pow => exact ⟨.ofPower (.pow l (.ofAtom r)), rfl, rfl⟩

section
variable {α : Type} (A : Arithmetic α) {a b : List Char} {op : Operator} {text : String}

/-- Between parentheses the sign applies to `b` alone. -/
theorem calculateWith_grouped (ha : IsLiteral a) (hb : IsLiteral b)
    (h : Spaced [a, [op.symbol], ['('], ['-'], b, [')']] text.toList) :
    calculateWith A text =
      ((negatedRight op (String.ofList a) (String.ofList b)).eval A).mapError .evaluation := by
  have hs := scan_grouped ha hb op h
  let l : Infix .atom := .number (String.ofList a)
  let r : Infix .atom := .paren (.ofProduct (.times (.ofPower (.ofAtom (.number "-1"))) .mul
    (.inl rfl) (.ofAtom (.number (String.ofList b)))))
  by_cases hop : op = .add ∨ op = .sub
  · let e : Infix .sum := .plus (.ofProduct (.ofPower (.ofAtom l))) op hop (.ofPower (.ofAtom r))
    exact calculateWith_of_scan A (e := e) hs
  · obtain ⟨e, he, ht⟩ := exists_product hop l r
    have := calculateWith_of_scan A (e := .ofProduct e) (by rw [hs, Infix.tokens, he]; rfl)
    rwa [Infix.tree, ht] at this

/-- Behind `+` and `-` the sign applies to `b` alone. -/
theorem calculateWith_bare_of_sum (ha : IsLiteral a) (hb : IsLiteral b)
    (hop : op = .add ∨ op = .sub) (h : Spaced [a, [op.symbol], ['-'], b] text.toList) :
    calculateWith A text =
      ((negatedRight op (String.ofList a) (String.ofList b)).eval A).mapError .evaluation :=
  calculateWith_of_scan A (e := .plus (.ofProduct (.ofPower (.ofAtom (.number (String.ofList a)))))
    op hop (.times (.ofPower (.ofAtom (.number "-1"))) .mul (.inl rfl)
      (.ofAtom (.number (String.ofList b))))) (scan_bare ha hb op h)

/-- Behind all other operators, the operator takes the `-1` of the sign. -/
theorem calculateWith_bare_of_product (ha : IsLiteral a) (hb : IsLiteral b)
    (hop : ¬ (op = .add ∨ op = .sub)) (h : Spaced [a, [op.symbol], ['-'], b] text.toList) :
    calculateWith A text =
      ((regrouped op (String.ofList a) (String.ofList b)).eval A).mapError .evaluation := by
  obtain ⟨e, he, ht⟩ := exists_product hop (.number (String.ofList a)) (.number "-1")
  have := calculateWith_of_scan A
    (e := .ofProduct (.times e .mul (.inl rfl) (.ofAtom (.number (String.ofList b)))))
    (by rw [scan_bare ha hb op h, Infix.tokens, Infix.tokens, he]; rfl)
  rwa [Infix.tree, Infix.tree, ht] at this

end

/-! ## Where the groupings agree -/

theorem apply_negOne (op : Operator) (x : Float) : ∃ q, doubles.apply op x (-1) = .ok q := by
  have h : ((-1 : Float) == 0.0) = false := by decide +kernel
  cases op with
  | div =>
    have hd : doubles.apply .div x (-1) =
      if (-1 : Float) == 0.0 then .error .divisionByZero else .ok (x / -1) := rfl
    exact ⟨x / -1, by rw [hd, h]; rfl⟩
  | _ => exact ⟨_, rfl⟩

theorem mapError_evaluation_inj {α : Type} {x y : Except EvaluationError α} :
    x.mapError ExpressionError.evaluation = y.mapError .evaluation ↔ x = y := by
  cases x <;> cases y <;> simp [Except.mapError]

/-- The two groupings agree if a literal is no number, or else if they do on the
    numbers. -/
theorem eval_regrouped_eq_iff {op : Operator} {a b : String} :
    (regrouped op a b).eval doubles = (negatedRight op a b).eval doubles ↔
      ∀ x y, doubles.literal a = some x → doubles.literal b = some y →
        (doubles.apply op x (-1)).map (· * y) = doubles.apply op x (-1 * y) := by
  simp only [regrouped, negatedRight, ParseTree.eval, literal_negOne]
  cases doubles.literal a with
  | none => simp [bind, Except.bind]
  | some x =>
    obtain ⟨q, hq⟩ := apply_negOne op x
    cases doubles.literal b with
    | none => simp [bind, Except.bind, hq]
    | some y =>
      have hmul : ∀ u v, doubles.apply .mul u v = .ok (u * v) := fun _ _ => rfl
      simp [bind, Except.bind, hq, hmul, Except.map]

/-- **The sign negates its operand behind `+`, `-` and `*`, and else by chance.**
    For literals `a` and `b`, with any blanks between the pieces, `a op -b` and
    `a op (-b)` have the same value or the same error if the operator is neither
    `/` nor `^`.  Behind these two they have it just if `a op -1`, times `b`, is
    what the operator makes of `a` and `-1 * b`, or if a literal is no number. -/
theorem calculate_sign_iff {a b : List Char} (op : Operator) {bare grouped : String}
    (ha : IsLiteral a) (hb : IsLiteral b)
    (hbare : Spaced [a, [op.symbol], ['-'], b] bare.toList)
    (hgrouped : Spaced [a, [op.symbol], ['('], ['-'], b, [')']] grouped.toList) :
    calculate bare = calculate grouped ↔ op ≠ .div ∧ op ≠ .pow ∨
      ∀ x y, doubles.literal (String.ofList a) = some x →
        doubles.literal (String.ofList b) = some y →
          (doubles.apply op x (-1)).map (· * y) = doubles.apply op x (-1 * y) := by
  rw [calculate, calculate, calculateWith_grouped doubles ha hb hgrouped]
  by_cases hop : op = .add ∨ op = .sub
  · rw [calculateWith_bare_of_sum doubles ha hb hop hbare]
    refine iff_of_true rfl (.inl ?_)
    rcases hop with rfl | rfl <;> decide
  · rw [calculateWith_bare_of_product doubles ha hb hop hbare, mapError_evaluation_inj,
      eval_regrouped_eq_iff]
    refine ⟨.inr, fun h => h.elim (fun hne x y _ _ => ?_) id⟩
    obtain rfl : op = .mul := by cases op <;> simp_all
    exact congrArg Except.ok (Decimal.mul_neg_one_mul x y)

/-- `2 * -.5` is worth what `2*(-.5)` is. -/
theorem product_not_regrouped : IsLiteral ['2'] ∧ IsLiteral ['.', '5'] ∧
    calculate "2 * -.5" = calculate "2*(-.5)" := by
  have ha : IsLiteral ['2'] := ⟨by decide, by simp [IsNumeric, Char.isDigit], by decide⟩
  have hb : IsLiteral ['.', '5'] := ⟨by decide, by simp [IsNumeric, Char.isDigit], by decide⟩
  have hn : Blanks [] := by simp [Blanks]
  have hs : Blanks [' '] := by simp [Blanks, Text.isBlank]
  refine ⟨ha, hb, (calculate_sign_iff .mul ha hb ?_ ?_).2 (.inl ⟨by decide, by decide⟩)⟩
  · exact .cons [] hn (.cons [' '] hs (.cons [' '] hs (.cons [] hn (.nil [] hn))))
  · exact .cons [] hn (.cons [] hn (.cons [] hn (.cons [] hn (.cons [] hn (.cons [] hn
      (.nil [] hn))))))

/-- Behind `/` the sign regroups: `6` over minus `3` is read as `-6` times `3`. -/
theorem quotient_regrouped :
    calculate "6/-3" = .ok (-18) ∧ calculate "6/(-3)" = .ok (-2) ∧
      calculate "6/-3" ≠ calculate "6/(-3)" := by
  have h1 : calculate "6/-3" = .ok (-18) := eq_ok_of_toOption (by decide +kernel)
  have h2 : calculate "6/(-3)" = .ok (-2) := eq_ok_of_toOption (by decide +kernel)
  refine ⟨h1, h2, fun h => ?_⟩
  rw [h1, h2, Except.ok.injEq] at h
  exact absurd h (by decide +kernel)

end HectocDuel
