/-
  Expressions of the grammar are put in the postorder of their trees, and are
  worth what their trees are.

  While an expression is read, its tree is split in two: a beginning of its
  postorder is in the output, and the operators that are missing at the end wait,
  on top of all that waited before (`ReadsAs`).  They wait only if they bind at
  least as tightly as the level of the expression, and what waited before is not
  released by such operators (`Holds`).

  * `Infix.readsAs`: this is so for every expression;
  * `evaluate_infix`: so every expression is worth what its tree is.
-/
import HectocDuel.Proofs.Expr.Machine

namespace HectocDuel

/-! ## Which operators are released -/

namespace Operator

theorem precedence_le_three (op : Operator) : op.precedence ≤ 3 := by
  cases op <;> decide

theorem not_yieldsTo_of_lt {q op : Operator} (h : op.precedence < q.precedence) :
    ¬ q.yieldsTo op := by
  simp only [yieldsTo, Bool.or_eq_true, Bool.and_eq_true, decide_eq_true_eq, beq_iff_eq]
  omega

theorem yieldsTo_of_le {q op : Operator} (h : q.precedence ≤ op.precedence)
    (hq : q.rightAssociative = false) : q.yieldsTo op := by
  simp only [yieldsTo, hq, Bool.or_eq_true, Bool.and_eq_true, decide_eq_true_eq, beq_iff_eq,
    Bool.not_false, and_true]
  omega

end Operator

/-! ## What waits -/

/-- What waits is released by no operator that binds as tightly as `n` or more
    tightly. -/
def Holds (n : Nat) (ws : List Waiting) : Prop :=
  ∀ op : Operator, n ≤ op.precedence → release op ws = ([], ws)

theorem Holds.mono {n m : Nat} {ws : List Waiting} (h : Holds n ws) (hnm : n ≤ m) : Holds m ws :=
  fun op hop => h op (Nat.le_trans hnm hop)

theorem holds_nil (n : Nat) : Holds n [] :=
  fun _ _ => rfl

theorem holds_paren (n : Nat) (ws : List Waiting) : Holds n (.paren :: ws) :=
  fun _ _ => rfl

/-- An operator holds if none that comes with the given tightness releases it. -/
theorem holds_operator {n : Nat} {op : Operator}
    (h : ∀ q : Operator, n ≤ q.precedence → ¬ q.yieldsTo op) (ws : List Waiting) :
    Holds n (.operator op :: ws) := by
  intro q hq
  rw [release, if_neg (h q hq)]

/-- Operators on top that yield are released, down to what does not. -/
theorem release_pending {op : Operator} {ws : List Waiting} (hw : release op ws = ([], ws)) :
    ∀ {pending : List Operator}, (∀ q ∈ pending, op.yieldsTo q) →
      release op (pending.map .operator ++ ws) = (pending, ws)
  | [], _ => hw
  | q :: pending, hp => by
    obtain ⟨hq, hp⟩ := List.forall_mem_cons.1 hp
    rw [List.map_cons, List.cons_append, release, if_pos hq, release_pending hw hp]

theorem closeParen_pending (pending : List Operator) (ws : List Waiting) :
    closeParen (pending.map .operator ++ .paren :: ws) = some (pending, ws) := by
  induction pending with
  | nil => rfl
  | cons q pending ih => rw [List.map_cons, List.cons_append, closeParen, ih, Option.map_some]

theorem drain_pending (pending : List Operator) :
    drain (pending.map .operator) = some pending := by
  induction pending with
  | nil => rfl
  | cons q pending ih => rw [List.map_cons, drain, ih, Option.map_some]

/-! ## Reading an expression -/

/-- While `ws` waits, the tokens put `out` in the output and `pending` on top of
    what waits. -/
def Reads (ws : List Waiting) (ts out : List Token) (pending : List Operator) : Prop :=
  ∀ rest, reorder ws (ts ++ rest) =
    (reorder (pending.map .operator ++ ws) rest).map (out ++ ·)

theorem map_eq_ok_iff {ε α β : Type} {x : Except ε α} {f : α → β} {b : β} :
    x.map f = .ok b ↔ ∃ a, x = .ok a ∧ f a = b := by
  cases x <;> simp [Except.map]

theorem map_append_map {ε α : Type} (x : Except ε (List α)) (a b : List α) :
    (x.map (b ++ ·)).map (a ++ ·) = x.map (a ++ b ++ ·) := by
  cases x with
  | error e => rfl
  | ok ts => exact congrArg Except.ok (List.append_assoc a b ts).symm

theorem reads_number (ws : List Waiting) (literal : String) :
    Reads ws [.number literal] [.number literal] [] :=
  fun _ => rfl

/-- A parenthesis sets what waits outside apart, and takes all that waits inside
    into the output. -/
theorem Reads.paren {ws : List Waiting} {ts out : List Token} {pending : List Operator}
    (h : Reads (.paren :: ws) ts out pending) :
    Reads ws (.leftParen :: (ts ++ [.rightParen])) (out ++ pending.map .operator) [] := by
  intro rest
  have hc := closeParen_pending pending ws
  rw [List.cons_append, reorder, List.append_assoc, h, List.singleton_append, reorder, hc]
  exact map_append_map _ _ _

/-- An operator that releases what waits of its left operand, and stays for its
    right operand. -/
theorem Reads.binary {ws : List Waiting} {op : Operator} {ls rs outl outr : List Token}
    {pl pr : List Operator} (hl : Reads ws ls outl pl)
    (hop : release op (pl.map .operator ++ ws) = (pl, ws))
    (hr : Reads (.operator op :: ws) rs outr pr) :
    Reads ws (ls ++ .operator op :: rs) (outl ++ pl.map .operator ++ outr) (pr ++ [op]) := by
  intro rest
  rw [List.append_assoc, hl, List.cons_append, reorder, hop]
  simp only
  rw [hr, map_append_map, map_append_map, List.map_append, List.append_assoc, List.append_assoc]
  rfl

/-- While `ws` waits, the tokens are read as the tree: a beginning of its
    postorder is put in the output, and the operators missing at the end wait,
    all of them at least as tight as `n`. -/
def ReadsAs (ws : List Waiting) (n : Nat) (ts : List Token) (t : ParseTree) : Prop :=
  ∃ out pending, Reads ws ts out pending ∧ t.postorder = out ++ pending.map .operator ∧
    ∀ op ∈ pending, n ≤ op.precedence

theorem ReadsAs.mono {ws : List Waiting} {n m : Nat} {ts : List Token} {t : ParseTree}
    (h : ReadsAs ws n ts t) (hmn : m ≤ n) : ReadsAs ws m ts t := by
  obtain ⟨out, pending, hr, ht, hp⟩ := h
  exact ⟨out, pending, hr, ht, fun op hop => Nat.le_trans hmn (hp op hop)⟩

theorem ReadsAs.paren {ws : List Waiting} {n m : Nat} {ts : List Token} {t : ParseTree}
    (h : ReadsAs (.paren :: ws) m ts t) : ReadsAs ws n (.leftParen :: (ts ++ [.rightParen])) t := by
  obtain ⟨out, pending, hr, ht, -⟩ := h
  exact ⟨_, [], hr.paren, by simp [ht], by simp⟩

theorem ReadsAs.binary {ws : List Waiting} {n m k : Nat} {op : Operator} {ls rs : List Token}
    {l r : ParseTree} (hl : ReadsAs ws m ls l) (hr : ReadsAs (.operator op :: ws) k rs r)
    (hws : release op ws = ([], ws)) (hm : ∀ q : Operator, m ≤ q.precedence → op.yieldsTo q)
    (hk : n ≤ k) (hn : n ≤ op.precedence) :
    ReadsAs ws n (ls ++ .operator op :: rs) (.node op l r) := by
  obtain ⟨outl, pl, hl, htl, hpl⟩ := hl
  obtain ⟨outr, pr, hr, htr, hpr⟩ := hr
  have hrel := release_pending hws fun q hq => hm q (hpl q hq)
  refine ⟨_, _, hl.binary hrel hr, by simp [ParseTree.postorder, htl, htr], fun q hq => ?_⟩
  rcases List.mem_append.1 hq with hq | hq
  · exact Nat.le_trans hk (hpr q hq)
  · rwa [List.mem_singleton.1 hq]

/-- An operator that groups to the left, with operands that bind as tightly on
    the left and more tightly on the right. -/
theorem ReadsAs.left {ws : List Waiting} {op : Operator} {ls rs : List Token} {l r : ParseTree}
    (hop : op.rightAssociative = false) (hws : Holds op.precedence ws)
    (hl : ReadsAs ws op.precedence ls l)
    (hr : ∀ {ws}, Holds (op.precedence + 1) ws → ReadsAs ws (op.precedence + 1) rs r) :
    ReadsAs ws op.precedence (ls ++ .operator op :: rs) (.node op l r) :=
  hl.binary (hr (holds_operator (fun _ hq => Operator.not_yieldsTo_of_lt hq) ws))
    (hws op (Nat.le_refl _)) (fun _ hq => Operator.yieldsTo_of_le hq hop) (Nat.le_succ _)
    (Nat.le_refl _)

/-- **Every expression is read as its tree.** -/
theorem Infix.readsAs : ∀ {ℓ : Level} (e : Infix ℓ) {ws : List Waiting},
    Holds ℓ.precedence ws → ReadsAs ws ℓ.precedence e.tokens e.tree
  | _, number literal, ws, _ => ⟨_, [], reads_number ws literal, rfl, by simp⟩
  | _, paren e, ws, _ => (e.readsAs (holds_paren _ ws)).paren
  | _, ofAtom e, _, hw => (e.readsAs (hw.mono (by decide : 3 ≤ 4))).mono (by decide : 3 ≤ 4)
  | _, ofPower e, _, hw => (e.readsAs (hw.mono (by decide : 2 ≤ 3))).mono (by decide : 2 ≤ 3)
  | _, ofProduct e, _, hw => (e.readsAs (hw.mono (by decide : 1 ≤ 2))).mono (by decide : 1 ≤ 2)
  | _, pow b e, ws, hw => by
    have hpow : ∀ q : Operator, 3 ≤ q.precedence → ¬ q.yieldsTo .pow := by
      intro q
      cases q <;> decide
    -- Of the base nothing waits: no operator is as tight as an atom.
    have hatom : ∀ q : Operator, 4 ≤ q.precedence → Operator.pow.yieldsTo q := fun q hq =>
      absurd (Nat.le_trans hq q.precedence_le_three) (by decide)
    exact (b.readsAs (hw.mono (by decide : 3 ≤ 4))).binary (e.readsAs (holds_operator hpow ws))
      (hw .pow (Nat.le_refl _)) hatom (Nat.le_refl _) (Nat.le_refl _)
  | _, times l op hop r, _, hw => by
    rcases hop with rfl | rfl
    · exact (l.readsAs hw).left rfl hw r.readsAs
    · exact (l.readsAs hw).left rfl hw r.readsAs
  | _, plus l op hop r, _, hw => by
    rcases hop with rfl | rfl
    · exact (l.readsAs hw).left rfl hw r.readsAs
    · exact (l.readsAs hw).left rfl hw r.readsAs

theorem toPostfix_tokens (e : Infix .sum) : toPostfix e.tokens = .ok e.tree.postorder := by
  obtain ⟨out, pending, hr, ht, -⟩ := e.readsAs (holds_nil _)
  have := hr []
  rw [List.append_nil, List.append_nil, reorder, drain_pending] at this
  rw [toPostfix, this, ht]
  rfl

/-- **Expressions are worth what their trees are.**  Every expression of the
    grammar is put in the postorder of its tree, and the stack machine makes of
    that the value of the tree or its first error, whatever the numbers and the
    operators are. -/
theorem evaluate_infix {α : Type} (A : Arithmetic α) (e : Infix .sum) :
    toPostfix e.tokens = .ok e.tree.postorder ∧
      evaluate A e.tree.postorder = e.tree.eval A :=
  ⟨toPostfix_tokens e, evaluate_postorder A e.tree⟩

end HectocDuel
