/-
  Drawing puzzles that can be won.

  Digits are drawn until they have a solution; some sequences known to have
  none are passed over unsolved.  After `maxAttempts` draws one of five digit
  sequences known to have solutions is taken instead.
-/
import HectocDuel.Puzzle.Solve

namespace HectocDuel

/-- How many draws are made before a fallback is taken. -/
def maxAttempts : Nat := 100

/-- Digit sequences known to have no solution. -/
def hopeless : List (List Nat) :=
  [[1, 1, 2, 1, 1, 7], [1, 1, 5, 1, 1, 7], [1, 1, 7, 1, 1, 5],
   [1, 7, 8, 1, 1, 7], [7, 1, 1, 1, 1, 7], [1, 1, 1, 7, 1, 1]]

/-- Digit sequences known to have solutions. -/
def fallbacks : Vector Digits 5 :=
  #v[.ofSix 1 1 9 9 9 9 (by decide), .ofSix 9 9 9 5 4 1 (by decide),
     .ofSix 4 7 2 3 1 9 (by decide), .ofSix 3 2 7 9 2 4 (by decide),
     .ofSix 2 3 4 5 6 8 (by decide)]

/-- A drawn puzzle, and how it came about. -/
structure Drawn where
  puzzle : Puzzle
  /-- How many draws were made. -/
  draws : Nat
  /-- Whether all of them failed. -/
  isFallback : Bool

/-- The puzzle of one draw, if it can be won. -/
def puzzleOf? (digits : Digits) : Option Puzzle :=
  if digits.values ∈ hopeless then none
  else
    let puzzle := Puzzle.solve digits
    if puzzle.isSolvable then some puzzle else none

/-- Draws number `made`, `made + 1`, … until one can be won, at most `left` of
    them.  The digits in `failed` cannot be won and are not tried again. -/
def drawFrom (draws : Nat → Digits) (fallback : Fin 5) (failed : List Digits) (made : Nat) :
    Nat → Drawn
  | 0 => ⟨Puzzle.solve fallbacks[fallback], made, true⟩
  | left + 1 =>
    if draws made ∈ failed then drawFrom draws fallback failed (made + 1) left
    else
      match puzzleOf? (draws made) with
      | some p => ⟨p, made + 1, false⟩
      | none => drawFrom draws fallback (draws made :: failed) (made + 1) left

/-- A puzzle that can be won, from a sequence of drawn digits and the choice
    of a fallback. -/
def drawPuzzle (draws : Nat → Digits) (fallback : Fin 5) : Drawn :=
  drawFrom draws fallback [] 0 maxAttempts

end HectocDuel
