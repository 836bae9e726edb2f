/-
  What each stage of an expression leaves to the next.

  Validation lets no parentheses pass that do not pair up, so that reordering does not
  fail on a text; reordering drops the parentheses, so that the stack machine meets
  none; and all literals are written by the player or by the sign rule, so that only a
  point alone is no number.

  * `calculateWith_eq_error`: the tokens of a text are rejected by validation or by the
    stack machine, never by reordering;
  * `stages_agree`: reordering fails just where the parentheses do not pair up, it moves
    operators only, and three of the errors never reach a player, or only for `.`.
-/
import HectocDuel.Proofs.Decimal.Literal
import HectocDuel.Proofs.Expr.Balance
import HectocDuel.Proofs.Expr.Listing
import HectocDuel.Proofs.Expr.Segments
import HectocDuel.Proofs.Expr.Sentence

namespace HectocDuel

/-! ## From the text to the tokens -/

theorem eq_invalidCharacter_of_scan {before : Before} {cs : List Char} {e : ValidationError}
    (h : scan before cs = .error e) : ∃ c, e = .invalidCharacter c := by
  fun_induction scan before cs with
  | case1 => cases h
  | case2 before c cs hb ih => exact ih h
  | case6 before c => exact ⟨c, (Except.error.inj h).symm⟩
  | case3 before c cs hb hn ih => exact ih (map_eq_error_iff.1 h)
  | case4 before cs hb hn ih => exact ih (map_eq_error_iff.1 h)
  | case5 before cs hb hn ho ih => exact ih (map_eq_error_iff.1 h)
  | case7 before c cs hb hn ho hc op hop ih => exact ih (map_eq_error_iff.1 h)

theorem firstClash_ne_mismatched (ts : List Token) :
    firstClash ts ≠ some .mismatchedParentheses := by
  fun_induction firstClash ts <;> simp_all

theorem checkParens_ne_mismatched (depth : Nat) (ts : List Token) :
    checkParens depth ts ≠ .error .mismatchedParentheses := by
  fun_induction checkParens depth ts <;> simp_all

theorem validate_ne_mismatched (ts : List Token) :
    validate ts ≠ .error .mismatchedParentheses := by
  rw [validate]
  have hclash := firstClash_ne_mismatched ts
  have hparens := checkParens_ne_mismatched 0 ts
  split
  · next first last _ _ =>
    cases h : firstClash ts with
    | some e => simp_all
    | none => cases first <;> cases last <;> simp_all
  · simp

/-- Validation has an error of its own for each fault of the parentheses. -/
theorem tokenize_ne_mismatched (text : String) :
    tokenize text ≠ .error .mismatchedParentheses := by
  intro h
  rw [tokenize] at h
  cases hs : scan .start text.toList with
  | error e =>
    obtain ⟨c, rfl⟩ := eq_invalidCharacter_of_scan hs
    simp [hs, bind, Except.bind] at h
  | ok ts =>
    have hv := validate_ne_mismatched ts
    cases hval : validate ts <;> simp_all [bind, Except.bind, pure, Except.pure]

theorem exists_toPostfix_of_tokenize {text : String} {ts : List Token}
    (h : tokenize text = .ok ts) : ∃ out, toPostfix ts = .ok out :=
  exists_toPostfix_iff.2 (checkParens_of_validate (tokenize_eq_ok_iff.1 h).2)

/-! ## From the tokens to the value -/

section
variable {α : Type} {A : Arithmetic α}

theorem evaluate_fault {ts : List Token} {e : EvaluationError} (h : evaluate A ts = .error e) :
    Fault A ts e ∨ ∃ n, e = .leftoverOperands n := by
  rw [evaluate] at h
  split at h
  · cases h
  · exact .inr ⟨_, (Except.error.inj h).symm⟩
  · next e' hs =>
    obtain rfl := Except.error.inj h
    exact .inl (runStack_fault hs)

/-- **A text is rejected by validation or by the stack machine.** -/
theorem calculateWith_eq_error {text : String} {e : ExpressionError}
    (h : calculateWith A text = .error e) :
    (∃ e', tokenize text = .error e' ∧ e = .validation e') ∨
      ∃ ts out e', tokenize text = .ok ts ∧ toPostfix ts = .ok out ∧
        evaluate A out = .error e' ∧ e = .evaluation e' := by
  cases ht : tokenize text with
  | error e' =>
    rw [calculateWith, ht] at h
    exact .inl ⟨e', rfl, (Except.error.inj h).symm⟩
  | ok ts =>
    obtain ⟨out, ho⟩ := exists_toPostfix_of_tokenize ht
    rw [calculateWith_of_tokenize ht, ho] at h
    cases he : evaluate A out with
    | ok v => simp [he, Except.mapError, bind, Except.bind] at h
    | error e' =>
      simp [he, Except.mapError, bind, Except.bind] at h
      exact .inr ⟨ts, out, e', rfl, ho, he, h.symm⟩

end

/-! ## What the machine meets -/

/-- The machine meets no token that was not there before, and no parenthesis. -/
theorem mem_of_mem_toPostfix {ts out : List Token} (ho : toPostfix ts = .ok out) {t : Token}
    (hm : t ∈ out) : t ∈ ts ∧ t.isPlain :=
  List.mem_filter.1 ((toPostfix_perm ho).subset hm)

theorem number_of_mem_toPostfix {text : String} {ts out : List Token} (ht : tokenize text = .ok ts)
    (ho : toPostfix ts = .ok out) {literal : String} (hm : .number literal ∈ out) :
    literal = "-1" ∨ IsLiteral literal.toList :=
  number_of_mem_scan (tokenize_eq_ok_iff.1 ht).1 (mem_of_mem_toPostfix ho hm).1

/-- **Of the machine's objections to a text, none is to a parenthesis, and only a point
    alone is no number.** -/
theorem evaluation_error_of_calculate {text : String} {e : EvaluationError}
    (h : calculate text = .error (.evaluation e)) :
    e ≠ .strayParenthesis ∧ ∀ literal, e = .invalidNumber literal → literal = "." := by
  rcases calculateWith_eq_error h with ⟨e', -, he⟩ | ⟨ts, out, e', ht, ho, hev, he⟩
  · cases he
  · obtain rfl := ExpressionError.evaluation.inj he
    rcases evaluate_fault hev with hf | ⟨n, rfl⟩
    · cases hf with
      | operator hm ha =>
        obtain rfl := Operator.eq_divisionByZero_of_apply ha
        simp
      | operands hm => simp
      | paren hm =>
        rcases hm with hm | hm
        · cases (mem_of_mem_toPostfix ho hm).2
        · cases (mem_of_mem_toPostfix ho hm).2
      | literal hm hl =>
        refine ⟨by simp, fun literal heq => ?_⟩
        obtain rfl := EvaluationError.invalidNumber.inj heq
        rcases number_of_mem_toPostfix ht ho hm with rfl | hlit
        · rw [literal_negOne] at hl
          cases hl
        · exact (Decimal.readDouble?_eq_none_iff hlit).1 hl
    · simp

/-- **The stages agree on what can go wrong.**  Reordering fails just where the count of
    open parentheses falls below zero or does not end there, which is where the count of
    validation fails; if it does not, it has only moved tokens, dropped the parentheses
    and left the numbers in their order.  So no text is told of mismatched parentheses by
    reordering or of a parenthesis by the machine, and none of a literal that is no
    number, save of the point alone. -/
theorem stages_agree :
    (∀ ts : List Token,
      ((∃ e, toPostfix ts = .error e) ↔
        (∃ p, p <+: ts ∧ parenCount p < 0) ∨ parenCount ts ≠ 0) ∧
      ((∃ e, toPostfix ts = .error e) ↔ ∃ e, checkParens 0 ts = .error e) ∧
      ∀ out, toPostfix ts = .ok out →
        out.Perm (ts.filter Token.isPlain) ∧ literals out = literals ts) ∧
    ∀ text : String,
      calculate text ≠ .error (.validation .mismatchedParentheses) ∧
      calculate text ≠ .error (.evaluation .strayParenthesis) ∧
      ∀ literal, calculate text = .error (.evaluation (.invalidNumber literal)) →
        literal = "." := by
  refine ⟨fun ts => ⟨?_, ?_, fun out ho => ⟨toPostfix_perm ho, literals_reorder ho⟩⟩,
    fun text => ⟨fun h => ?_, fun h => ?_, fun literal h => ?_⟩⟩
  · rw [exists_toPostfix_error_iff, ne_eq, checkParens_eq_ok_iff]
    simp only [Nat.cast_zero, zero_add, not_and_or, not_forall, Int.not_le, exists_prop,
      ne_eq]
  · rw [exists_toPostfix_error_iff]
    cases checkParens 0 ts <;> simp
  · rcases calculateWith_eq_error h with ⟨e, ht, he⟩ | ⟨_, _, _, -, -, -, he⟩
    · obtain rfl := ExpressionError.validation.inj he
      exact tokenize_ne_mismatched text ht
    · cases he
  · exact (evaluation_error_of_calculate h).1 rfl
  · exact (evaluation_error_of_calculate h).2 literal rfl

end HectocDuel
