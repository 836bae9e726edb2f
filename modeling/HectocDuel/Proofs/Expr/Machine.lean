/-
  The stack machine and the postorders of trees.

  On the postorder of a tree the machine does what the value of the tree says
  (`runStack_postorder`).  The other way round, every value on its stack is that
  of a tree, and the tokens so far list these trees in postorder, the oldest
  first (`runStack_listing`).

  * `evaluate_eq_ok_iff`: the machine gives a value exactly to the postorders of
    trees that have it;
  * `runStack_fault`: it stops only at a fault of the tokens;
  * `calculateWith_eq_ok_iff`: so does `calculateWith` to the texts whose tokens
    are put in such an order.
-/
import HectocDuel.Proofs.Expr.Grammar
import Mathlib.Data.List.Forall2

namespace HectocDuel

variable {α : Type} (A : Arithmetic α)

/-! ## From a tree to its value -/

/-- The stack machine on a postorder puts the value of the tree on the stack, or
    ends with its error. -/
theorem runStack_postorder (t : ParseTree) : ∀ (stack : List α) (rest : List Token),
    runStack A stack (t.postorder ++ rest) =
      t.eval A >>= fun v => runStack A (v :: stack) rest := by
  induction t with
  | leaf literal =>
    intro stack rest
    rw [ParseTree.postorder, List.singleton_append, runStack, stackStep, ParseTree.eval]
    cases A.literal literal <;> rfl
  | node op l r ihl ihr =>
    intro stack rest
    rw [ParseTree.postorder, List.append_assoc, List.append_assoc, ihl, ParseTree.eval]
    rcases l.eval A with e | lhs
    · rfl
    · change runStack A (lhs :: stack) _ = (r.eval A >>= _) >>= _
      rw [ihr]
      rcases r.eval A with e | rhs
      · rfl
      · change runStack A (rhs :: lhs :: stack) (.operator op :: rest) = A.apply op lhs rhs >>= _
        rw [runStack, stackStep]
        cases A.apply op lhs rhs <;> rfl

theorem evaluate_postorder (t : ParseTree) : evaluate A t.postorder = t.eval A := by
  have h := runStack_postorder A t [] []
  rw [List.append_nil] at h
  rw [evaluate, h]
  cases t.eval A <;> rfl

/-! ## From the values on the stack to trees -/

/-- The trees on a stack in postorder, the oldest first. -/
def listing (trees : List ParseTree) : List Token :=
  trees.reverse.flatMap ParseTree.postorder

theorem listing_cons (t : ParseTree) (trees : List ParseTree) :
    listing (t :: trees) = listing trees ++ t.postorder := by
  simp [listing]

/-- The stack holds the values of the trees. -/
def Values (trees : List ParseTree) (stack : List α) : Prop :=
  List.Forall₂ (fun t v => t.eval A = .ok v) trees stack

variable {A}

/-- A token makes one more tree, out of the newest two if it is an operator. -/
theorem stackStep_listing {trees : List ParseTree} {stack stack' : List α} {t : Token}
    (hv : Values A trees stack) (hs : stackStep A stack t = .ok stack') :
    ∃ trees', Values A trees' stack' ∧ listing trees' = listing trees ++ [t] := by
  cases t with
  | number literal =>
    rw [stackStep] at hs
    rcases hl : A.literal literal with _ | v
    · simp [hl] at hs
    · simp only [hl, Except.ok.injEq] at hs
      subst hs
      exact ⟨.leaf literal :: trees, .cons (by simp [ParseTree.eval, hl]) hv, listing_cons _ _⟩
  | operator op =>
    match trees, stack, hv with
    | [], _, .nil => simp [stackStep] at hs
    | [_], _, .cons _ .nil => simp [stackStep] at hs
    | tr :: tl :: trees, rhs :: lhs :: stack, .cons hr (.cons hl hv) =>
      rw [stackStep] at hs
      rcases ha : A.apply op lhs rhs with e | v
      · simp [ha, Except.map] at hs
      · simp only [ha, Except.map, Except.ok.injEq] at hs
        subst hs
        refine ⟨.node op tl tr :: trees, .cons ?_ hv, ?_⟩
        · rw [ParseTree.eval, hl, hr]
          exact ha
        · simp only [listing_cons, ParseTree.postorder, List.append_assoc]
  | leftParen => simp [stackStep] at hs
  | rightParen => simp [stackStep] at hs

theorem runStack_listing : ∀ {ts : List Token} {trees : List ParseTree} {stack stack' : List α},
    Values A trees stack → runStack A stack ts = .ok stack' →
      ∃ trees', Values A trees' stack' ∧ listing trees' = listing trees ++ ts
  | [], trees, stack, stack', hv, hs => by
    rw [runStack, Except.ok.injEq] at hs
    subst hs
    exact ⟨trees, hv, (List.append_nil _).symm⟩
  | t :: ts, trees, stack, stack', hv, hs => by
    rw [runStack] at hs
    split at hs
    · next stack₁ h₁ =>
      obtain ⟨trees₁, hv₁, hl₁⟩ := stackStep_listing hv h₁
      obtain ⟨trees', hv', hl'⟩ := runStack_listing hv₁ hs
      exact ⟨trees', hv', by rw [hl', hl₁, List.append_assoc, List.singleton_append]⟩
    · cases hs

/-- **The machine gives a value exactly to the postorders of trees that have
    it.** -/
theorem evaluate_eq_ok_iff {ts : List Token} {v : α} :
    evaluate A ts = .ok v ↔ ∃ t : ParseTree, t.postorder = ts ∧ t.eval A = .ok v := by
  constructor
  · intro h
    rw [evaluate] at h
    split at h
    · next v' hs =>
      obtain rfl := Except.ok.inj h
      have h0 : Values A [] [] := .nil
      obtain ⟨trees, hv, hl⟩ := runStack_listing h0 hs
      match trees, hv with
      | [t], .cons ht .nil => exact ⟨t, by simpa [listing] using hl, ht⟩
    · cases h
    · cases h
  · rintro ⟨t, rfl, ht⟩
    rw [evaluate_postorder, ht]

/-! ## What can go wrong -/

/-- What the machine may object to in tokens: a literal that is no number, an operator
    without operands or at odds with them, a parenthesis. -/
inductive Fault (A : Arithmetic α) (ts : List Token) : EvaluationError → Prop
  | literal {literal : String} (hm : .number literal ∈ ts) (hl : A.literal literal = none) :
      Fault A ts (.invalidNumber literal)
  | operands {op : Operator} (hm : .operator op ∈ ts) : Fault A ts (.insufficientOperands op)
  | operator {op : Operator} {lhs rhs : α} {e : EvaluationError} (hm : .operator op ∈ ts)
      (ha : A.apply op lhs rhs = .error e) : Fault A ts e
  | paren (hm : .leftParen ∈ ts ∨ .rightParen ∈ ts) : Fault A ts .strayParenthesis

theorem Fault.mono {ts us : List Token} {e : EvaluationError} (h : Fault A ts e) (hs : ts ⊆ us) :
    Fault A us e := by
  cases h with
  | literal hm hl => exact .literal (hs hm) hl
  | operands hm => exact .operands (hs hm)
  | operator hm ha => exact .operator (hs hm) ha
  | paren hm => exact .paren (hm.imp (@hs _) (@hs _))

theorem stackStep_fault {stack : List α} {t : Token} {e : EvaluationError}
    (h : stackStep A stack t = .error e) : Fault A [t] e := by
  cases t with
  | number literal =>
    rw [stackStep] at h
    cases hl : A.literal literal with
    | some v => simp [hl] at h
    | none =>
      simp only [hl, Except.error.injEq] at h
      exact h ▸ .literal (List.mem_singleton_self _) hl
  | operator op =>
    match stack, h with
    | [], h | [_], h =>
      obtain rfl := Except.error.inj h
      exact .operands (List.mem_singleton_self _)
    | rhs :: lhs :: rest, h =>
      rw [stackStep] at h
      cases ha : A.apply op lhs rhs with
      | ok v => simp [ha, Except.map] at h
      | error e' =>
        simp only [ha, Except.map, Except.error.injEq] at h
        exact h ▸ .operator (List.mem_singleton_self _) ha
  | leftParen =>
    obtain rfl := Except.error.inj h
    exact .paren (.inl (List.mem_singleton_self _))
  | rightParen =>
    obtain rfl := Except.error.inj h
    exact .paren (.inr (List.mem_singleton_self _))

/-- **The machine stops at a fault of its tokens only.** -/
theorem runStack_fault {ts : List Token} {e : EvaluationError} :
    ∀ {stack : List α}, runStack A stack ts = .error e → Fault A ts e := by
  induction ts with
  | nil => intro stack h; cases h
  | cons t ts ih =>
    intro stack h
    rw [runStack] at h
    split at h
    · exact (ih h).mono (List.subset_cons_self t ts)
    · next e' hs =>
      obtain rfl := Except.error.inj h
      exact (stackStep_fault hs).mono (by simp)

/-! ## The value of a text -/

theorem calculateWith_of_tokenize {expression : String} {ts : List Token}
    (ht : tokenize expression = .ok ts) : calculateWith A expression =
      (toPostfix ts).mapError .validation >>= fun ps => (evaluate A ps).mapError .evaluation := by
  rw [calculateWith, ht]
  rfl

theorem exists_tokenize_of_calculateWith {expression : String} {v : α}
    (h : calculateWith A expression = .ok v) : ∃ ts, tokenize expression = .ok ts := by
  cases ht : tokenize expression with
  | ok ts => exact ⟨ts, rfl⟩
  | error e =>
    rw [calculateWith, ht] at h
    cases h

/-- The texts that have a value are those whose tokens are put in the postorder
    of a tree that has it. -/
theorem calculateWith_eq_ok_iff {expression : String} {ts : List Token} {v : α}
    (ht : tokenize expression = .ok ts) : calculateWith A expression = .ok v ↔
      ∃ t : ParseTree, toPostfix ts = .ok t.postorder ∧ t.eval A = .ok v := by
  rw [calculateWith_of_tokenize ht]
  rcases toPostfix ts with e | ps
  · constructor
    · rintro ⟨⟩
    · rintro ⟨t, ⟨⟩, -⟩
  · have hm : (evaluate A ps).mapError ExpressionError.evaluation = .ok v ↔
        evaluate A ps = .ok v := by
      cases evaluate A ps <;> simp [Except.mapError]
    refine hm.trans (evaluate_eq_ok_iff.trans (exists_congr fun t => ?_))
    rw [Except.ok.injEq, eq_comm]

end HectocDuel
