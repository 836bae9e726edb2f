/-
  Puzzles and their solutions.

  A solution puts one symbol, or nothing, in front of each digit so that the
  resulting expression is worth the target.  `search` tries the symbols in a
  fixed order, digit by digit, and gives up a beginning as soon as it closes a
  parenthesis that is not open.
-/
import HectocDuel.Expr.Value
import HectocDuel.Puzzle.Digits

namespace HectocDuel

/-- What may stand in front of a digit, in the order in which it is tried. -/
def insertions : List (Option Char) :=
  [some '+', some '-', some '*', some '/', some '^', some '(', some ')', none]

/-- The number of open parentheses after an insertion, when `depth` are open
    before it; nothing if it closes one that is not open. -/
def depthAfter (depth : Nat) : Option Char → Option Nat
  | some c =>
    if c = '(' then some (depth + 1)
    else if c = ')' then if depth = 0 then none else some (depth - 1)
    else some depth
  | none => some depth

/-- Whether an expression is worth the target. -/
def isSolution (expression : String) : Bool :=
  match verify expression with
  | .ok correct => correct
  | .error _ => false

/-- The solutions that begin with `written`, in which `depth` parentheses are
    open, and go on with the digits given. -/
def search (depth : Nat) (written : List Char) : List Nat → List String
  | [] =>
    if depth = 0 && isSolution (String.ofList written) then [String.ofList written] else []
  | d :: ds =>
    insertions.flatMap fun i =>
      match depthAfter depth i with
      | some depth' => search depth' (written ++ i.toList ++ [digitChar d]) ds
      | none => []

/-- Six digits, and the expressions known to solve them. -/
structure Puzzle where
  digits : Digits
  solutions : List String
  deriving DecidableEq

namespace Puzzle

/-- The puzzle of the given digits with all its solutions, in the order of the
    search. -/
def solve (digits : Digits) : Puzzle :=
  ⟨digits, search 0 [] digits.values⟩

/-- Whether a solution is known. -/
def isSolvable (p : Puzzle) : Bool :=
  !p.solutions.isEmpty

end Puzzle

end HectocDuel
