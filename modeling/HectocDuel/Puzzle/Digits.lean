/-
  The six digits of a puzzle.

  A puzzle is six digits from 1 to 9, to be used in order.  They are written
  as a text of six characters.

  * `Digits.parse` reads them from a text, `Digits.ofValues` takes them as
    numbers; each names the first thing wrong;
  * `Digits.matchesSubmission` is the rule on what a player may submit.
-/
import HectocDuel.Text.Quoted

namespace HectocDuel

/-- Six digits, each from 1 to 9, in the order a solution has to use them. -/
structure Digits where
  values : List Nat
  length_values : values.length = 6
  bounds : ∀ d ∈ values, 1 ≤ d ∧ d ≤ 9
  deriving DecidableEq

/-- Why something is not the digits of a puzzle. -/
inductive DigitsError where
  /-- There are not six of them. -/
  | wrongLength (count : Nat)
  /-- One is not a digit from 1 to 9; it is named by the character shown for it. -/
  | invalidDigit (shown : Char)
  deriving DecidableEq, Repr

/-- The error in words. -/
def DigitsError.message : DigitsError → String
  | wrongLength n => "expected 6 digits, got " ++ toString n
  | invalidDigit c => "invalid puzzle digit: " ++ Text.quoteChar c

/-- The character that writes a digit. -/
def digitChar (d : Nat) : Char :=
  Char.ofNat ('0'.toNat + d)

/-- The value of a digit character. -/
def digitValue (c : Char) : Nat :=
  c.toNat - '0'.toNat

/-- Whether a character writes a digit that a puzzle may hold. -/
def isPuzzleDigit (c : Char) : Bool :=
  '1' ≤ c && c ≤ '9'

theorem digitValue_bounds {c : Char} (h : isPuzzleDigit c) :
    1 ≤ digitValue c ∧ digitValue c ≤ 9 := by
  simp only [isPuzzleDigit, Bool.and_eq_true, decide_eq_true_eq] at h
  have h1 : '1'.toNat ≤ c.toNat := h.1
  have h2 : c.toNat ≤ '9'.toNat := h.2
  simp only [digitValue, show '1'.toNat = 49 from rfl, show '9'.toNat = 57 from rfl,
    show '0'.toNat = 48 from rfl] at *
  omega

namespace Digits

/-- Six digits given one by one. -/
def ofSix (a b c d e f : Nat) (bounds : ∀ x ∈ [a, b, c, d, e, f], 1 ≤ x ∧ x ≤ 9) : Digits :=
  ⟨[a, b, c, d, e, f], rfl, bounds⟩

/-- The digits that a text writes: it has six characters, each a digit from
    1 to 9. -/
def parse (s : String) : Except DigitsError Digits :=
  if hl : s.toList.length = 6 then
    match hf : s.toList.find? (!isPuzzleDigit ·) with
    | some c => .error (.invalidDigit c)
    | none => .ok
        { values := s.toList.map digitValue
          length_values := by simp [hl]
          bounds := by
            intro d hd
            obtain ⟨c, hc, rfl⟩ := List.mem_map.1 hd
            exact digitValue_bounds (by simpa using List.find?_eq_none.1 hf c hc) }
  else .error (.wrongLength s.toList.length)

/-- The digits with the given values.  A value that no digit has is shown as a
    question mark. -/
def ofValues (vs : List Nat) : Except DigitsError Digits :=
  if hl : vs.length = 6 then
    match hf : vs.find? (fun d => !(1 ≤ d && d ≤ 9)) with
    | some d => .error (.invalidDigit (if d ≤ 9 then digitChar d else '?'))
    | none => .ok
        { values := vs
          length_values := hl
          bounds := by
            intro d hd
            have := List.find?_eq_none.1 hf d hd
            simp at this
            omega }
  else .error (.wrongLength vs.length)

/-- The six characters that write the digits. -/
def text (ds : Digits) : String :=
  String.ofList (ds.values.map digitChar)

/-- Whether the decimal digits in a text, all else left out, are exactly these
    digits in this order. -/
def matchesSubmission (ds : Digits) (submission : String) : Bool :=
  (submission.toList.filter Char.isDigit).map digitValue == ds.values

end Digits

end HectocDuel
