/-
  The tokens of an arithmetic expression.

  An expression is built from number literals, the five binary operators and
  parentheses.  A literal keeps its spelling; what it is worth is decided when
  the expression is evaluated.
-/

namespace HectocDuel

/-! ## Operators -/

/-- A binary operator. -/
inductive Operator where
  | add
  | sub
  | mul
  | div
  | pow
  deriving DecidableEq, Repr

namespace Operator

/-- The character that spells an operator. -/
def symbol : Operator → Char
  | add => '+'
  | sub => '-'
  | mul => '*'
  | div => '/'
  | pow => '^'

/-- The operator that a character spells, if it spells one. -/
def ofSymbol? (c : Char) : Option Operator :=
  if c = '+' then some add
  else if c = '-' then some sub
  else if c = '*' then some mul
  else if c = '/' then some div
  else if c = '^' then some pow
  else none

/-- How tightly an operator binds: sums least, powers most. -/
def precedence : Operator → Nat
  | add | sub => 1
  | mul | div => 2
  | pow => 3

/-- Powers group to the right, all else to the left. -/
def rightAssociative : Operator → Bool
  | pow => true
  | _ => false

/-- The symbol as a text. -/
def text (op : Operator) : String :=
  String.ofList [op.symbol]

end Operator

/-! ## Tokens -/

/-- A token of an expression. -/
inductive Token where
  /-- A number, by its spelling. -/
  | number (literal : String)
  | operator (op : Operator)
  | leftParen
  | rightParen
  deriving DecidableEq, Repr

/-- How a token is written. -/
def Token.text : Token → String
  | number literal => literal
  | operator op => op.text
  | leftParen => "("
  | rightParen => ")"

end HectocDuel
