/-
  Which token lists the stack machine accepts.

  The values on the stack are those of the trees that the tokens list in
  postorder.  Which trees these are does not depend on the numbers: with trees
  for numbers the machine puts the listed trees themselves on the stack
  (`runStack_treeArithmetic`), so that no two lists of trees share a listing.

  * `runStack_eq_ok_iff`: the stacks that the machine ends with are the values of
    the listed trees;
  * `evaluate_eq_leftover_iff`: operands are left over exactly by listings of some
    other number of trees than one;
  * `evaluate_exact`: both for doubles, with the trees unique.
-/
import HectocDuel.Proofs.Expr.Machine

namespace HectocDuel

/-! ## Listings and stacks -/

section
variable {α : Type} {A : Arithmetic α}

/-- The machine on a listing, behind what is on the stack. -/
theorem runStack_of_values {trees : List ParseTree} {values : List α}
    (hv : Values A trees values) : ∀ (stack : List α) (rest : List Token),
      runStack A stack (listing trees ++ rest) = runStack A (values ++ stack) rest := by
  induction hv with
  | nil => intro stack rest; rfl
  | cons ht _ ih =>
    intro stack rest
    rw [listing_cons, List.append_assoc, ih, runStack_postorder, ht]
    rfl

/-- **The machine ends with a stack exactly on the listings of trees that have
    its values.** -/
theorem runStack_eq_ok_iff {ts : List Token} {stack : List α} :
    runStack A [] ts = .ok stack ↔ ∃ trees, Values A trees stack ∧ listing trees = ts := by
  constructor
  · intro h
    obtain ⟨trees, hv, hl⟩ := runStack_listing (A := A) .nil h
    exact ⟨trees, hv, hl⟩
  · rintro ⟨trees, hv, rfl⟩
    have := runStack_of_values hv [] []
    rwa [List.append_nil, List.append_nil, runStack] at this

/-! ## The trees of a listing -/

/-- Trees as the numbers of an arithmetic: a literal is worth its leaf, an
    operator builds a node. -/
def treeArithmetic : Arithmetic ParseTree where
  literal literal := some (.leaf literal)
  apply op l r := .ok (.node op l r)

theorem eval_treeArithmetic (t : ParseTree) : t.eval treeArithmetic = .ok t := by
  induction t with
  | leaf literal => rfl
  | node op l r ihl ihr =>
    rw [ParseTree.eval, ihl, ihr]
    rfl

theorem runStack_treeArithmetic (trees : List ParseTree) :
    runStack treeArithmetic [] (listing trees) = .ok trees :=
  runStack_eq_ok_iff.2
    ⟨trees, List.forall₂_same.2 fun t _ => eval_treeArithmetic t, rfl⟩

theorem listing_injective : Function.Injective listing := by
  intro trees trees' h
  have := runStack_treeArithmetic trees
  rw [h, runStack_treeArithmetic] at this
  exact (Except.ok.inj this).symm

theorem flatMap_postorder_injective :
    Function.Injective fun trees : List ParseTree => trees.flatMap ParseTree.postorder := by
  intro trees trees' h
  refine List.reverse_injective (listing_injective ?_)
  simpa [listing] using h

/-- **A postorder tells its tree.** -/
theorem postorder_injective : Function.Injective ParseTree.postorder := by
  intro t t' h
  have : [t] = [t'] := flatMap_postorder_injective (by simpa using h)
  exact List.singleton_inj.1 this

/-! ## Operands left over -/

/-- Operands are found left over at the end only, if no operator claims that they are. -/
theorem runStack_ne_leftover (hA : ∀ op x y n, A.apply op x y ≠ .error (.leftoverOperands n))
    (stack : List α) (ts : List Token) (n : Nat) :
    runStack A stack ts ≠ .error (.leftoverOperands n) := by
  intro h
  cases runStack_fault h with
  | operator _ ha => exact hA _ _ _ _ ha

theorem evaluate_eq_leftover_iff
    (hA : ∀ op x y n, A.apply op x y ≠ .error (.leftoverOperands n)) {ts : List Token} {n : Nat} :
    evaluate A ts = .error (.leftoverOperands n) ↔
      n ≠ 1 ∧ ∃ stack, runStack A [] ts = .ok stack ∧ stack.length = n := by
  have hrun := runStack_ne_leftover hA [] ts n
  rw [evaluate]
  split
  · next v hs => simp [hs]; omega
  · next stack hne hs =>
    have h1 : stack.length ≠ 1 := by
      rw [ne_eq, List.length_eq_one_iff]
      rintro ⟨v, rfl⟩
      exact hne v rfl
    simp only [Except.error.injEq, EvaluationError.leftoverOperands.injEq, hs, Except.ok.injEq,
      exists_eq_left']
    exact ⟨fun h => ⟨h ▸ h1, h⟩, And.right⟩
  · next e hs => simp_all

end

/-! ## Doubles -/

/-- The only thing wrong with operands is a zero to divide by. -/
theorem Operator.eq_divisionByZero_of_apply {op : Operator} {lhs rhs : Float}
    {e : EvaluationError} (h : op.apply lhs rhs = .error e) : e = .divisionByZero := by
  cases op with
  | div =>
    rw [apply] at h
    split at h
    · exact (Except.error.inj h).symm
    · cases h
  | add | sub | mul | pow => cases h

theorem doubles_apply_ne_leftover (op : Operator) (x y : Float) (n : Nat) :
    doubles.apply op x y ≠ .error (.leftoverOperands n) := by
  intro h
  cases Operator.eq_divisionByZero_of_apply h

theorem exists_values_iff {α : Type} {A : Arithmetic α} {trees : List ParseTree} :
    (∃ stack, Values A trees stack) ↔ ∀ t ∈ trees, ∃ v, t.eval A = .ok v := by
  induction trees with
  | nil => simp [Values]
  | cons t trees ih =>
    rw [List.forall_mem_cons, ← ih]
    constructor
    · rintro ⟨_, hv⟩
      cases hv with
      | cons ht hv => exact ⟨⟨_, ht⟩, _, hv⟩
    · rintro ⟨⟨v, ht⟩, stack, hv⟩
      exact ⟨v :: stack, .cons ht hv⟩

/-- **The machine accepts exactly postfix.**  A token list is given a value just if
    it is the postorder of a tree that has the value, and operands are left over just
    if it lists trees one after the other, not one of them, that all have values:
    as many operands as trees.  In either case the trees are the only ones. -/
theorem evaluate_exact (ts : List Token) :
    (∀ v, evaluate doubles ts = .ok v ↔
      ∃ t : ParseTree, t.postorder = ts ∧ t.eval doubles = .ok v) ∧
    (∀ t t' : ParseTree, t.postorder = ts → t'.postorder = ts → t = t') ∧
    (∀ n, evaluate doubles ts = .error (.leftoverOperands n) ↔
      n ≠ 1 ∧ ∃ trees : List ParseTree, trees.length = n ∧
        trees.flatMap ParseTree.postorder = ts ∧ ∀ t ∈ trees, ∃ v, t.eval doubles = .ok v) ∧
    ∀ trees trees' : List ParseTree, trees.flatMap ParseTree.postorder = ts →
      trees'.flatMap ParseTree.postorder = ts → trees = trees' := by
  refine ⟨fun v => evaluate_eq_ok_iff, fun t t' ht ht' => postorder_injective (ht.trans ht'.symm),
    fun n => ?_, fun trees trees' h h' => flatMap_postorder_injective (h.trans h'.symm)⟩
  rw [evaluate_eq_leftover_iff doubles_apply_ne_leftover]
  refine and_congr_right fun _ => ?_
  constructor
  · rintro ⟨stack, hs, rfl⟩
    obtain ⟨trees, hv, rfl⟩ := runStack_eq_ok_iff.1 hs
    -- The stack has the newest tree in front, the listing the oldest.
    refine ⟨trees.reverse, by rw [List.length_reverse, hv.length_eq], rfl, fun t ht => ?_⟩
    exact exists_values_iff.1 ⟨stack, hv⟩ t (List.mem_reverse.1 ht)
  · rintro ⟨trees, rfl, rfl, hv⟩
    obtain ⟨stack, hv⟩ := exists_values_iff.2 fun t ht => hv t (List.mem_reverse.1 ht)
    refine ⟨stack, runStack_eq_ok_iff.2 ⟨_, hv, by rw [listing, List.reverse_reverse]⟩, ?_⟩
    rw [← hv.length_eq, List.length_reverse]

end HectocDuel
