/-
  Where the parentheses of tokens pair up, and what reordering does then.

  Validation counts the open parentheses; reordering keeps them among the operators
  that wait.  Both come to grief on the same tokens: those in which some parenthesis
  closes none that is open, or some parenthesis stays open.

  * `checkParens_eq_ok_iff`: the count of validation says so;
  * `reorder_eq_error_iff`: reordering fails just where the count does, whatever
    else is wrong with the tokens;
  * `literals_reorder`: if it does not fail, the numbers stay in their order.
-/
import HectocDuel.Proofs.Expr.Operands

namespace HectocDuel

/-! ## Counting parentheses -/

/-- Parentheses opened less parentheses closed. -/
def parenCount (ts : List Token) : Int :=
  ts.count .leftParen - ts.count .rightParen

@[simp] theorem parenCount_nil : parenCount [] = 0 :=
  rfl

@[simp] theorem parenCount_leftParen (ts : List Token) :
    parenCount (.leftParen :: ts) = parenCount ts + 1 := by
  simp [parenCount]
  omega

@[simp] theorem parenCount_rightParen (ts : List Token) :
    parenCount (.rightParen :: ts) = parenCount ts - 1 := by
  simp [parenCount]
  omega

@[simp] theorem parenCount_number (literal : String) (ts : List Token) :
    parenCount (.number literal :: ts) = parenCount ts := by
  simp [parenCount]

@[simp] theorem parenCount_operator (op : Operator) (ts : List Token) :
    parenCount (.operator op :: ts) = parenCount ts := by
  simp [parenCount]

theorem forall_prefix_cons {α : Type} {P : List α → Prop} {x : α} {xs : List α} :
    (∀ p, p <+: x :: xs → P p) ↔ P [] ∧ ∀ p, p <+: xs → P (x :: p) := by
  constructor
  · intro h
    exact ⟨h [] List.nil_prefix, fun p hp => h _ (List.cons_prefix_cons.2 ⟨rfl, hp⟩)⟩
  · rintro ⟨h0, h⟩ p hp
    rcases List.prefix_cons_iff.1 hp with rfl | ⟨p, rfl, hxs⟩
    · exact h0
    · exact h p hxs

/-- **Parentheses pair up if the count is never negative and ends at zero.** -/
theorem checkParens_eq_ok_iff {depth : Nat} {ts : List Token} : checkParens depth ts = .ok () ↔
    (∀ p, p <+: ts → 0 ≤ depth + parenCount p) ∧ depth + parenCount ts = 0 := by
  induction ts generalizing depth with
  | nil =>
    rw [checkParens]
    simp only [List.prefix_nil, forall_eq, parenCount_nil]
    split <;> simp <;> omega
  | cons t ts ih =>
    rw [forall_prefix_cons]
    cases t with
    | number literal | operator op =>
      rw [checkParens, ih]
      · simp
      · simp
      · simp
    | leftParen =>
      have hadd : ∀ n : Int, ((depth + 1 : Nat) : Int) + n = depth + (n + 1) := by omega
      rw [checkParens, ih]
      simp only [hadd, parenCount_leftParen, parenCount_nil]
      exact and_congr_left fun _ => (and_iff_right (by omega)).symm
    | rightParen =>
      cases depth with
      | zero =>
        -- The closing parenthesis alone brings the count below zero.
        refine iff_of_false (by simp [checkParens]) ?_
        rintro ⟨⟨-, h⟩, -⟩
        have := h [] List.nil_prefix
        simp at this
      | succ depth =>
        have hsub : ∀ n : Int, ((depth + 1 : Nat) : Int) + (n - 1) = depth + n := by omega
        rw [checkParens, ih]
        simp only [hsub, parenCount_rightParen, parenCount_nil]
        exact and_congr_left fun _ => (and_iff_right (by omega)).symm

/-! ## Reordering -/

/-- The parentheses that are open while `ws` waits. -/
def openParens (ws : List Waiting) : Nat :=
  ws.count .paren

theorem openParens_release (op : Operator) (ws : List Waiting) :
    openParens (release op ws).2 = openParens ws := by
  fun_induction release op ws <;> simp_all [openParens]

theorem openParens_closeParen (ws : List Waiting) : closeParen ws = none ∧ openParens ws = 0 ∨
    ∃ out kept, closeParen ws = some (out, kept) ∧ openParens ws = openParens kept + 1 := by
  induction ws with
  | nil => simp [closeParen, openParens]
  | cons w ws ih =>
    cases w with
    | paren => simp [closeParen, openParens]
    | operator op =>
      rcases ih with ⟨hc, ho⟩ | ⟨out, kept, hc, ho⟩ <;>
        simp_all [closeParen, openParens]

theorem drain_eq_none_iff (ws : List Waiting) : drain ws = none ↔ openParens ws ≠ 0 := by
  induction ws with
  | nil => simp [drain, openParens]
  | cons w ws ih => cases w <;> simp_all [drain, openParens]

theorem map_eq_error_iff {ε α β : Type} {x : Except ε α} {f : α → β} {e : ε} :
    x.map f = .error e ↔ x = .error e := by
  cases x <;> simp [Except.map]

/-- **Reordering fails just where the parentheses do not pair up.** -/
theorem reorder_eq_error_iff (ws : List Waiting) {ts : List Token} {e : ValidationError} :
    reorder ws ts = .error e ↔
      e = .mismatchedParentheses ∧ checkParens (openParens ws) ts ≠ .ok () := by
  induction ts generalizing ws with
  | nil =>
    rw [reorder, checkParens]
    have := drain_eq_none_iff ws
    cases h : drain ws <;> simp_all [eq_comm]
  | cons t ts ih =>
    cases t with
    | number literal => exact map_eq_error_iff.trans (ih _)
    | operator op =>
      have := ih (.operator op :: (release op ws).2)
      rw [openParens, List.count_cons_of_ne (by simp), ← openParens, openParens_release] at this
      exact map_eq_error_iff.trans this
    | leftParen =>
      have := ih (.paren :: ws)
      rwa [openParens, List.count_cons_self] at this
    | rightParen =>
      rw [reorder]
      rcases openParens_closeParen ws with ⟨hc, ho⟩ | ⟨out, kept, hc, ho⟩
      · simp [hc, ho, checkParens, eq_comm]
      · rw [hc, ho, checkParens]
        exact map_eq_error_iff.trans (ih _)

theorem exists_toPostfix_error_iff (ts : List Token) :
    (∃ e, toPostfix ts = .error e) ↔ checkParens 0 ts ≠ .ok () := by
  constructor
  · rintro ⟨e, h⟩
    exact ((reorder_eq_error_iff []).1 h).2
  · intro h
    exact ⟨_, (reorder_eq_error_iff []).2 ⟨rfl, h⟩⟩

theorem exists_toPostfix_iff {ts : List Token} :
    (∃ out, toPostfix ts = .ok out) ↔ checkParens 0 ts = .ok () := by
  have herr := exists_toPostfix_error_iff ts
  rw [← not_iff_not, ← ne_eq (checkParens 0 ts), ← herr]
  cases toPostfix ts <;> simp

/-! ## Numbers -/

/-- The spellings of the numbers among the tokens, in their order. -/
def literals (ts : List Token) : List String :=
  ts.filterMap fun
    | .number literal => some literal
    | _ => none

theorem literals_append (ts us : List Token) : literals (ts ++ us) = literals ts ++ literals us :=
  List.filterMap_append

theorem literals_operators (ops : List Operator) : literals (ops.map .operator) = [] := by
  simp [literals, List.filterMap_map]

/-- **Reordering leaves the numbers in their order.** -/
theorem literals_reorder {ws : List Waiting} {ts out : List Token} (h : reorder ws ts = .ok out) :
    literals out = literals ts := by
  induction ts generalizing ws out with
  | nil =>
    rw [reorder] at h
    split at h
    · cases h
    · next ops _ =>
      obtain rfl := Except.ok.inj h
      exact literals_operators ops
  | cons t ts ih =>
    cases t with
    | number literal =>
      obtain ⟨out, ho, rfl⟩ := map_eq_ok_iff.1 h
      exact congrArg (literal :: ·) (ih ho)
    | operator op =>
      obtain ⟨out, ho, rfl⟩ := map_eq_ok_iff.1 h
      rw [literals_append, literals_operators]
      exact ih ho
    | leftParen => exact ih (show reorder (.paren :: ws) ts = .ok out from h)
    | rightParen =>
      rw [reorder] at h
      split at h
      · cases h
      · next ops kept _ =>
        obtain ⟨out, ho, rfl⟩ := map_eq_ok_iff.1 h
        rw [literals_append, literals_operators]
        exact ih ho

end HectocDuel
