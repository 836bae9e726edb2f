/-
  What can be wrong with an expression, and how a player is told.

  * `ValidationError`: the text is not a well-formed expression;
  * `EvaluationError`: the expression is formed but has no value;
  * `ExpressionError` says which of the two stages objected.
-/
import HectocDuel.Expr.Token

namespace HectocDuel

/-- Why a text is not a well-formed expression. -/
inductive ValidationError where
  /-- There is no token at all. -/
  | empty
  /-- A character that belongs to no token. -/
  | invalidCharacter (c : Char)
  /-- Two numbers with nothing between them. -/
  | missingOperator (left right : String)
  /-- Two operators with nothing between them. -/
  | adjacentOperators (left right : Operator)
  /-- The first token is a binary operator. -/
  | leadingOperator (op : Operator)
  /-- The last token is an operator. -/
  | trailingOperator (op : Operator)
  /-- A closing parenthesis without an opening one before it. -/
  | unmatchedClosingParen
  /-- An opening parenthesis that nothing closes. -/
  | unclosedParen
  /-- The parentheses do not pair up when the tokens are put in postfix order. -/
  | mismatchedParentheses
  deriving DecidableEq, Repr

/-- Why a formed expression has no value. -/
inductive EvaluationError where
  | divisionByZero
  /-- An operator found fewer than two values. -/
  | insufficientOperands (op : Operator)
  /-- The end came with this many values instead of one. -/
  | leftoverOperands (count : Nat)
  /-- A literal that denotes no number. -/
  | invalidNumber (literal : String)
  /-- A parenthesis among postfix tokens. -/
  | strayParenthesis
  deriving DecidableEq, Repr

/-- Why an expression was rejected, by the stage that rejected it. -/
inductive ExpressionError where
  | validation (e : ValidationError)
  | evaluation (e : EvaluationError)
  deriving DecidableEq, Repr

/-- What a player reads about a malformed expression. -/
def ValidationError.message : ValidationError → String
  | empty => "empty expression"
  | invalidCharacter c => "invalid character in expression: " ++ String.ofList [c]
  | missingOperator a b => "missing operator between numbers: " ++ a ++ " and " ++ b
  | adjacentOperators a b => "adjacent operators: " ++ a.text ++ b.text
  | leadingOperator op => "expression cannot start with a binary operator: " ++ op.text
  | trailingOperator op => "expression cannot end with an operator: " ++ op.text
  | unmatchedClosingParen => "mismatched parentheses: too many closing parentheses"
  | unclosedParen => "mismatched parentheses: unclosed opening parentheses"
  | mismatchedParentheses => "mismatched parentheses"

/-- What a player reads about an expression without a value. -/
def EvaluationError.message : EvaluationError → String
  | divisionByZero => "division by zero"
  | insufficientOperands op => "insufficient operands for operator " ++ op.text
  | leftoverOperands n => "invalid expression: " ++ toString n ++ " values left after evaluation"
  | invalidNumber literal => "invalid number: " ++ literal
  | strayParenthesis => "unexpected parenthesis in postfix expression"

/-- What a player reads about a rejected expression: the stage, then the cause. -/
def ExpressionError.message : ExpressionError → String
  | validation e => "validation error: " ++ e.message
  | evaluation e => "evaluation error: " ++ e.message

end HectocDuel
