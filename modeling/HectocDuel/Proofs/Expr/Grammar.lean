/-
  The grammar of expressions, and the trees that they stand for.

      sum     = product { ("+" | "-") product }
      product = power { ("*" | "/") power }
      power   = atom [ "^" power ]
      atom    = number | "(" sum ")"

  Sums and products group to the left, powers to the right.

  * `Infix` holds the expressions of each level of the grammar: `Infix.tokens` is
    how one is written, `Infix.tree` what it stands for;
  * `ParseTree.postorder` lists a tree with every operator after its operands, and
    `ParseTree.eval` is its value for any arithmetic.
-/
import HectocDuel.Expr.Value

namespace HectocDuel

/-! ## Trees -/

/-- What an expression stands for, all parentheses gone. -/
inductive ParseTree where
  | leaf (literal : String)
  | node (op : Operator) (left right : ParseTree)
  deriving DecidableEq, Repr

namespace ParseTree

/-- The tokens of a tree, every operator after its two operands. -/
def postorder : ParseTree → List Token
  | leaf literal => [.number literal]
  | node op l r => l.postorder ++ r.postorder ++ [.operator op]

variable {α : Type}

/-- The value of a tree: of the left operand, then of the right one, then of the
    operator on both; the first error ends it. -/
def eval (A : Arithmetic α) : ParseTree → Except EvaluationError α
  | leaf literal =>
    match A.literal literal with
    | some v => .ok v
    | none => .error (.invalidNumber literal)
  | node op l r => do
    let lhs ← l.eval A
    let rhs ← r.eval A
    A.apply op lhs rhs

end ParseTree

/-! ## The grammar -/

/-- The levels of the grammar, the loosest first. -/
inductive Level where
  | sum
  | product
  | power
  | atom
  deriving DecidableEq, Repr

/-- How tightly the operators of a level bind at least. -/
def Level.precedence : Level → Nat
  | sum => 1
  | product => 2
  | power => 3
  | atom => 4

/-- The expressions of each level. -/
inductive Infix : Level → Type where
  | number (literal : String) : Infix .atom
  | paren (e : Infix .sum) : Infix .atom
  | ofAtom (e : Infix .atom) : Infix .power
  | pow (base : Infix .atom) (exponent : Infix .power) : Infix .power
  | ofPower (e : Infix .power) : Infix .product
  | times (left : Infix .product) (op : Operator) (hop : op = .mul ∨ op = .div)
      (right : Infix .power) : Infix .product
  | ofProduct (e : Infix .product) : Infix .sum
  | plus (left : Infix .sum) (op : Operator) (hop : op = .add ∨ op = .sub)
      (right : Infix .product) : Infix .sum

namespace Infix

/-- How an expression is written. -/
def tokens : {ℓ : Level} → Infix ℓ → List Token
  | _, number literal => [.number literal]
  | _, paren e => .leftParen :: (e.tokens ++ [.rightParen])
  | _, ofAtom e => e.tokens
  | _, pow b e => b.tokens ++ .operator .pow :: e.tokens
  | _, ofPower e => e.tokens
  | _, times l op _ r => l.tokens ++ .operator op :: r.tokens
  | _, ofProduct e => e.tokens
  | _, plus l op _ r => l.tokens ++ .operator op :: r.tokens

/-- The tree of an expression. -/
def tree : {ℓ : Level} → Infix ℓ → ParseTree
  | _, number literal => .leaf literal
  | _, paren e => e.tree
  | _, ofAtom e => e.tree
  | _, pow b e => .node .pow b.tree e.tree
  | _, ofPower e => e.tree
  | _, times l op _ r => .node op l.tree r.tree
  | _, ofProduct e => e.tree
  | _, plus l op _ r => .node op l.tree r.tree

end Infix

end HectocDuel
