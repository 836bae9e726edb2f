/-
  The value of an expression.

  Evaluation is a stack machine over postfix tokens.  It is written for any
  `Arithmetic`: what a literal is worth and what an operator computes are
  parameters, so that what holds of the machine holds whatever the numbers are.
  The game computes with doubles.

  * `calculateWith` is the value of an expression over any arithmetic;
  * `calculate` is its value over doubles, and `verify` compares it to the target.
-/
import HectocDuel.Decimal.Numeral
import HectocDuel.Expr.Postfix
import HectocDuel.Expr.Tokens

namespace HectocDuel

/-! ## The machine -/

/-- Numbers of type `α`, as far as expressions need them. -/
structure Arithmetic (α : Type) where
  /-- The worth of a literal, if it denotes a number. -/
  literal : String → Option α
  /-- What an operator makes of its left and right operand. -/
  apply : Operator → α → α → Except EvaluationError α

variable {α : Type}

/-- One token at work on the stack of values, the newest in front. -/
def stackStep (A : Arithmetic α) (stack : List α) : Token → Except EvaluationError (List α)
  | .number literal =>
    match A.literal literal with
    | some v => .ok (v :: stack)
    | none => .error (.invalidNumber literal)
  | .operator op =>
    match stack with
    | rhs :: lhs :: rest => (A.apply op lhs rhs).map (· :: rest)
    | _ => .error (.insufficientOperands op)
  | .leftParen | .rightParen => .error .strayParenthesis

/-- The stack after all tokens. -/
def runStack (A : Arithmetic α) : List α → List Token → Except EvaluationError (List α)
  | stack, [] => .ok stack
  | stack, t :: ts =>
    match stackStep A stack t with
    | .ok stack' => runStack A stack' ts
    | .error e => .error e

/-- The value of postfix tokens: the one value they leave. -/
def evaluate (A : Arithmetic α) (ts : List Token) : Except EvaluationError α :=
  match runStack A [] ts with
  | .ok [v] => .ok v
  | .ok stack => .error (.leftoverOperands stack.length)
  | .error e => .error e

/-- The value of an expression given as text. -/
def calculateWith (A : Arithmetic α) (expression : String) : Except ExpressionError α := do
  let ts ← (tokenize expression).mapError .validation
  let postfixed ← (toPostfix ts).mapError .validation
  (evaluate A postfixed).mapError .evaluation

/-! ## Doubles -/

/-- What an operator computes on doubles.  A division by zero of either sign
    is an error; all else follows the double format, infinities included. -/
def Operator.apply (op : Operator) (lhs rhs : Float) : Except EvaluationError Float :=
  match op with
  | add => .ok (lhs + rhs)
  | sub => .ok (lhs - rhs)
  | mul => .ok (lhs * rhs)
  | div => if rhs == 0.0 then .error .divisionByZero else .ok (lhs / rhs)
  | pow => .ok (Float.pow lhs rhs)

/-- The arithmetic of doubles. -/
def doubles : Arithmetic Float where
  literal := Decimal.readDouble?
  apply := Operator.apply

/-- The value a solution has to have. -/
def target : Float := 100.0

/-- The value of an expression over doubles. -/
def calculate (expression : String) : Except ExpressionError Float :=
  calculateWith doubles expression

/-- Whether an expression is worth exactly the target. -/
def verify (expression : String) : Except ExpressionError Bool :=
  (calculate expression).map (· == target)

end HectocDuel
