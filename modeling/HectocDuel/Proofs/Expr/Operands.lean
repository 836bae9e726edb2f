/-
  Operands and operators are counted by no stage.

  Every number adds an operand and every operator uses one up.  What is left over
  at the end is counted by `surplus`; parentheses do not count.

  * `reorder_perm`: postfix order only moves tokens, and drops the parentheses;
  * `surplus_postorder`: a tree has one number more than operators;
  * `surplus_of_calculateWith`: so have the tokens of a text with a value, wherever
    its parentheses stand.
-/
import HectocDuel.Proofs.Expr.Postorder
import Mathlib.Algebra.BigOperators.Group.List.Basic
import Mathlib.Algebra.Ring.Int.Defs

namespace HectocDuel

/-! ## Counting -/

/-- Operands that a token adds. -/
def Token.surplus : Token → Int
  | number _ => 1
  | operator _ => -1
  | leftParen | rightParen => 0

/-- Numbers less operators. -/
def surplus (ts : List Token) : Int :=
  (ts.map Token.surplus).sum

@[simp] theorem surplus_cons (t : Token) (ts : List Token) :
    surplus (t :: ts) = t.surplus + surplus ts :=
  List.sum_cons

@[simp] theorem surplus_append (ts us : List Token) :
    surplus (ts ++ us) = surplus ts + surplus us := by
  rw [surplus, List.map_append, List.sum_append]
  rfl

theorem surplus_of_perm {ts us : List Token} (h : ts.Perm us) : surplus ts = surplus us :=
  (h.map Token.surplus).sum_eq

/-- A tree has one number more than operators. -/
theorem surplus_postorder (t : ParseTree) : surplus t.postorder = 1 := by
  induction t with
  | leaf literal => rfl
  | node op l r ihl ihr =>
    simp only [ParseTree.postorder, surplus_append, ihl, ihr]
    rfl

/-! ## Postfix order -/

/-- Whether a token is no parenthesis. -/
def Token.isPlain : Token → Bool
  | number _ | operator _ => true
  | leftParen | rightParen => false

theorem surplus_filter_isPlain (ts : List Token) :
    surplus (ts.filter Token.isPlain) = surplus ts := by
  induction ts with
  | nil => rfl
  | cons t ts ih => cases t <;> simp [List.filter_cons, Token.isPlain, Token.surplus, ih]

/-- The operators that wait, newest first. -/
def waitingOperators (ws : List Waiting) : List Token :=
  ws.filterMap fun
    | .operator op => some (.operator op)
    | .paren => none

theorem waitingOperators_release (incoming : Operator) (ws : List Waiting) :
    (release incoming ws).1.map .operator ++ waitingOperators (release incoming ws).2 =
      waitingOperators ws := by
  fun_induction release incoming ws with
  | case1 op ws hop out kept hr ih =>
    rw [hr] at ih
    exact congrArg (.operator op :: ·) ih
  | case2 => rfl
  | case3 => rfl

theorem waitingOperators_closeParen {ws kept : List Waiting} {out : List Operator}
    (h : closeParen ws = some (out, kept)) :
    out.map .operator ++ waitingOperators kept = waitingOperators ws := by
  induction ws generalizing out with
  | nil => cases h
  | cons w ws ih =>
    cases w with
    | paren =>
      obtain ⟨rfl, rfl⟩ := Prod.mk.inj (Option.some.inj h)
      rfl
    | operator op =>
      obtain ⟨⟨out', kept'⟩, hc, h⟩ := Option.map_eq_some_iff.1 h
      obtain ⟨rfl, rfl⟩ := Prod.mk.inj h
      exact congrArg (.operator op :: ·) (ih hc)

theorem waitingOperators_drain {ws : List Waiting} {out : List Operator}
    (h : drain ws = some out) : out.map .operator = waitingOperators ws := by
  induction ws generalizing out with
  | nil =>
    obtain rfl := Option.some.inj h
    rfl
  | cons w ws ih =>
    cases w with
    | paren => cases h
    | operator op =>
      obtain ⟨out', hd, rfl⟩ := Option.map_eq_some_iff.1 h
      exact congrArg (.operator op :: ·) (ih hd)

/-- **Postfix order only moves tokens.**  What comes out is what waited and what
    passes by, without the parentheses. -/
theorem reorder_perm {ws : List Waiting} {ts out : List Token} (h : reorder ws ts = .ok out) :
    out.Perm (waitingOperators ws ++ ts.filter Token.isPlain) := by
  induction ts generalizing ws out with
  | nil =>
    rw [reorder] at h
    split at h
    · cases h
    · next ops hd =>
      obtain rfl := Except.ok.inj h
      rw [waitingOperators_drain hd, List.filter_nil, List.append_nil]
  | cons t ts ih =>
    cases t with
    | number literal =>
      obtain ⟨out, ho, rfl⟩ := map_eq_ok_iff.1 h
      exact ((ih ho).cons _).trans List.perm_middle.symm
    | operator op =>
      obtain ⟨out, ho, rfl⟩ := map_eq_ok_iff.1 h
      -- The operator itself is the newest that waits on.
      have hp : out.Perm (.operator op :: (waitingOperators (release op ws).2 ++
        ts.filter Token.isPlain)) := ih ho
      have hmove := (hp.append_left ((release op ws).1.map .operator)).trans List.perm_middle
      rw [← List.append_assoc, waitingOperators_release] at hmove
      exact hmove.trans List.perm_middle.symm
    | leftParen =>
      have hp := ih (show reorder (.paren :: ws) ts = .ok out from h)
      exact hp
    | rightParen =>
      rw [reorder] at h
      split at h
      · cases h
      · next ops kept hc =>
        obtain ⟨out, ho, rfl⟩ := map_eq_ok_iff.1 h
        rw [← waitingOperators_closeParen hc, List.append_assoc]
        exact (ih ho).append_left _

theorem toPostfix_perm {ts out : List Token} (h : toPostfix ts = .ok out) :
    out.Perm (ts.filter Token.isPlain) :=
  reorder_perm h

/-! ## Texts with a value -/

/-- **The tokens of a text with a value are one number more than operators.** -/
theorem surplus_of_calculateWith {α : Type} {A : Arithmetic α} {text : String} {ts : List Token}
    {v : α} (ht : tokenize text = .ok ts) (h : calculateWith A text = .ok v) :
    surplus ts = 1 := by
  obtain ⟨t, hp, -⟩ := (calculateWith_eq_ok_iff ht).1 h
  rw [← surplus_filter_isPlain, ← surplus_of_perm (toPostfix_perm hp), surplus_postorder]

end HectocDuel
