/-
  From the text of an expression to its tokens.

  Unary signs do not survive this stage.  A `+` at the start or after `(` is
  dropped, and a `-` where no operand stands before it becomes `-1 *`, so that
  every operator in the token list is binary.

  * `scan` reads characters into tokens and stops at the first character that
    belongs to none;
  * `validate` finds the first fault of a token list: neighbours that clash,
    an operator at either end, parentheses that do not pair up;
  * `tokenize` is the one after the other.
-/
import HectocDuel.Expr.Error
import HectocDuel.Text.Cut

namespace HectocDuel

/-! ## Scanning -/

/-- What stands before the next character, which decides whether a sign there
    is unary. -/
inductive Before where
  | start
  | leftParen
  | operator
  | operand
  deriving DecidableEq, Repr

/-- The rest of a number literal, and what follows it: digits, and one point
    unless `pointed` says that the literal has had its point. -/
def spanLiteral (pointed : Bool) : List Char → List Char × List Char
  | [] => ([], [])
  | c :: cs =>
    if c.isDigit then
      let (literal, rest) := spanLiteral pointed cs
      (c :: literal, rest)
    else if c = '.' ∧ pointed = false then
      let (literal, rest) := spanLiteral true cs
      (c :: literal, rest)
    else ([], c :: cs)

/-- A literal and what follows it make up the text. -/
theorem spanLiteral_append (pointed : Bool) (cs : List Char) :
    (spanLiteral pointed cs).1 ++ (spanLiteral pointed cs).2 = cs := by
  fun_induction spanLiteral pointed cs <;> simp_all

theorem length_spanLiteral_snd_le (pointed : Bool) (cs : List Char) :
    (spanLiteral pointed cs).2.length ≤ cs.length := by
  have h := congrArg List.length (spanLiteral_append pointed cs)
  rw [List.length_append] at h
  omega

/-- What an operator character contributes, and what then stands before the
    next character: a unary minus is a multiplication by `-1`, a unary plus at
    the start or after `(` is nothing, and all else is the operator itself. -/
def signTokens (before : Before) (op : Operator) : List Token × Before :=
  if op = .sub ∧ before ≠ .operand then ([.number "-1", .operator .mul], .operator)
  else if op = .add ∧ (before = .start ∨ before = .leftParen) then ([], before)
  else ([.operator op], .operator)

/-- The tokens of a text, when `before` stands in front of it. -/
def scan (before : Before) : List Char → Except ValidationError (List Token)
  | [] => .ok []
  | c :: cs =>
    if Text.isBlank c then scan before cs
    else if c.isDigit ∨ c = '.' then
      (scan .operand (spanLiteral (c = '.') cs).2).map
        (.number (String.ofList (c :: (spanLiteral (c = '.') cs).1)) :: ·)
    else if c = '(' then (scan .leftParen cs).map (.leftParen :: ·)
    else if c = ')' then (scan .operand cs).map (.rightParen :: ·)
    else match Operator.ofSymbol? c with
      | none => .error (.invalidCharacter c)
      | some op => (scan (signTokens before op).2 cs).map ((signTokens before op).1 ++ ·)
termination_by cs => cs.length
decreasing_by
  all_goals simp only [List.length_cons]
  all_goals first
    | omega
    | exact Nat.lt_succ_of_le (length_spanLiteral_snd_le _ cs)

/-! ## Validation -/

/-- The first two neighbours that clash: two numbers, or two operators. -/
def firstClash : List Token → Option ValidationError
  | .number a :: .number b :: _ => some (.missingOperator a b)
  | .operator a :: .operator b :: _ => some (.adjacentOperators a b)
  | _ :: ts => firstClash ts
  | [] => none

/-- Whether the parentheses pair up, when `depth` of them are open. -/
def checkParens (depth : Nat) : List Token → Except ValidationError Unit
  | [] => if depth = 0 then .ok () else .error .unclosedParen
  | .leftParen :: ts => checkParens (depth + 1) ts
  | .rightParen :: ts =>
    match depth with
    | 0 => .error .unmatchedClosingParen
    | depth + 1 => checkParens depth ts
  | _ :: ts => checkParens depth ts

/-- The first fault of a token list, in this order: no token, clashing
    neighbours, an operator in front, an operator at the end, parentheses. -/
def validate (ts : List Token) : Except ValidationError Unit :=
  match ts.head?, ts.getLast? with
  | some first, some last =>
    match firstClash ts with
    | some e => .error e
    | none =>
      match first, last with
      | .operator op, _ => .error (.leadingOperator op)
      | _, .operator op => .error (.trailingOperator op)
      | _, _ => checkParens 0 ts
  | _, _ => .error .empty

/-- The tokens of an expression, if they form one. -/
def tokenize (expression : String) : Except ValidationError (List Token) := do
  let ts ← scan .start expression.toList
  validate ts
  return ts

end HectocDuel
