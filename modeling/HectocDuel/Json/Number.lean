/-
  The numbers that JSON text denotes.

  A number without point and exponent that fits 64 bits is an integer.  Every
  other number is a double: its digits are gathered into 64 bits, those that no
  longer fit only count for the scale, and the result is scaled by one power of
  ten.  The double is therefore not always the nearest one.

  * `Numeral.number?` gives the number, or none if it is too large.
-/
import HectocDuel.Json.Lexeme

namespace HectocDuel.Json

/-- A number of JSON text. -/
inductive Number where
  | integer (n : Int)
  | double (x : Float)

/-! ## Digits -/

/-- The largest magnitude whose digits are all kept, plus one. -/
def significandBound : Nat :=
  UInt64.size

/-- The number that a list of digits writes. -/
def ofDigits (ds : List Nat) : Nat :=
  ds.foldl (fun n d => 10 * n + d) 0

/-- Appends digits to a significand while it fits; gives the digits left over. -/
def gather (significand : Nat) : List Nat → Nat × List Nat
  | [] => (significand, [])
  | d :: ds =>
    if 10 * significand + d < significandBound then gather (10 * significand + d) ds
    else (significand, d :: ds)

/-! ## Scaling -/

/-- Multiplies a double by a power of ten, in one step where a power of ten is
    a double, else in steps of `10 ^ 308`; none if the result is infinite. -/
def scale? (x : Float) (e : Int) : Option Float :=
  if h : e < -308 then
    if x == 0.0 then some x else scale? (x / Float.ofScientific 1 false 308) (e + 308)
  else if e < 0 then some (x / Float.ofScientific 1 false e.natAbs)
  else if e ≤ 308 then
    let y := x * Float.ofScientific 1 false e.natAbs
    if y.isInf then none else some y
  else if x == 0.0 then some x
  else none
termination_by e.natAbs
decreasing_by omega

namespace Numeral

/-- The double that a numeral denotes; none if it is infinite. -/
def double? (n : Numeral) : Option Float :=
  let (kept, extra) := gather 0 n.whole
  let (kept', extra') := gather kept n.fraction
  let exponent : Int :=
    match n.exponent with
    | none => 0
    | some (negative, ds) => if negative then -(ofDigits ds : Int) else ofDigits ds
  let e := extra.length - (n.fraction.length - extra'.length : Int) + exponent
  (scale? (Float.ofNat kept') e).map fun x => if n.negative then -x else x

/-- The number that a numeral denotes: an integer from `-2 ^ 63` to `2 ^ 64 - 1`
    where it is written as one, else a double.  There is no negative zero among
    the integers. -/
def number? (n : Numeral) : Option Number :=
  let magnitude := ofDigits n.whole
  if n.fraction = [] ∧ n.exponent = none ∧
      (if n.negative then 0 < magnitude ∧ magnitude ≤ 1 <<< 63
      else magnitude < significandBound) then
    some (.integer (if n.negative then -(magnitude : Int) else magnitude))
  else n.double?.map .double

/-- The decimal digits of a natural number. -/
def digitsOf (n : Nat) : List Nat :=
  if n < 10 then [n] else digitsOf (n / 10) ++ [n % 10]

/-- How a natural number is written. -/
def ofNat (n : Nat) : Numeral :=
  ⟨false, digitsOf n, [], none⟩

end Numeral

end HectocDuel.Json
