/-
  Postfix order: every operator after its two operands, no parentheses.

  The tokens pass by once.  Numbers go straight to the output; an operator
  waits until one that binds less tightly, a closing parenthesis or the end
  comes by.  What waits is kept newest first (`Waiting`).
-/
import HectocDuel.Expr.Error

namespace HectocDuel

/-- What waits while the tokens pass by: operators, and the parentheses that
    are open. -/
inductive Waiting where
  | operator (op : Operator)
  | paren
  deriving DecidableEq, Repr

/-- Whether a waiting operator goes out before `incoming`: it binds more
    tightly, or as tightly and both group to the left. -/
def Operator.yieldsTo (incoming waiting : Operator) : Bool :=
  waiting.precedence > incoming.precedence ||
    (waiting.precedence == incoming.precedence && !incoming.rightAssociative)

/-- The newest waiting operators that go out before `incoming`, and what waits
    on. -/
def release (incoming : Operator) : List Waiting → List Operator × List Waiting
  | .operator op :: ws =>
    if incoming.yieldsTo op then
      let (out, kept) := release incoming ws
      (op :: out, kept)
    else ([], .operator op :: ws)
  | ws => ([], ws)

/-- The operators waiting since the newest open parenthesis, and what waits
    outside it; nothing if no parenthesis is open. -/
def closeParen : List Waiting → Option (List Operator × List Waiting)
  | [] => none
  | .paren :: ws => some ([], ws)
  | .operator op :: ws => (closeParen ws).map fun (out, kept) => (op :: out, kept)

/-- All waiting operators, newest first; nothing if a parenthesis is open. -/
def drain : List Waiting → Option (List Operator)
  | [] => some []
  | .paren :: _ => none
  | .operator op :: ws => (drain ws).map (op :: ·)

/-- What the tokens add to the output while `ws` waits. -/
def reorder (ws : List Waiting) : List Token → Except ValidationError (List Token)
  | [] =>
    match drain ws with
    | none => .error .mismatchedParentheses
    | some out => .ok (out.map .operator)
  | .number literal :: ts => (reorder ws ts).map (.number literal :: ·)
  | .operator op :: ts =>
    (reorder (.operator op :: (release op ws).2) ts).map
      ((release op ws).1.map .operator ++ ·)
  | .leftParen :: ts => reorder (.paren :: ws) ts
  | .rightParen :: ts =>
    match closeParen ws with
    | none => .error .mismatchedParentheses
    | some (out, kept) => (reorder kept ts).map (out.map .operator ++ ·)

/-- The tokens in postfix order. -/
def toPostfix (ts : List Token) : Except ValidationError (List Token) :=
  reorder [] ts

end HectocDuel
