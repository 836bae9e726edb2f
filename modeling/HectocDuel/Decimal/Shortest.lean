/-
  The shortest decimals of doubles.

  A double stands for all reals that round to it.  Its shortest decimal is the
  multiple of the largest power of ten among them, and of two such multiples
  the one nearer to the double.  All of this is exact arithmetic on naturals: in
  a small enough unit of `10 ^ u` the double and the ends of its interval are
  naturals.

  * `Interval.coarsest` finds the decimal inside an interval;
  * `Style.text` writes a double.
-/
import HectocDuel.Decimal.Binary

namespace HectocDuel.Decimal

/-! ## Intervals -/

/-- The reals around `value` that stand for it, in some unit. -/
structure Interval where
  value : Nat
  low : Nat
  high : Nat
  /-- Whether the ends belong to it. -/
  closed : Bool
  deriving DecidableEq, Repr

namespace Interval

/-- Whether a natural number of units lies in the interval. -/
def contains (i : Interval) (n : Nat) : Bool :=
  if i.closed then i.low ≤ n && n ≤ i.high else i.low < n && n < i.high

/-- The number `k` such that `k · step` lies in the interval and is nearest to
    the value, if there is one.  It is enough to look at the two multiples
    around the value. -/
def nearestMultiple? (i : Interval) (step : Nat) : Option Nat :=
  let k := i.value / step
  match i.contains (k * step), i.contains ((k + 1) * step) with
  | true, true => some (if (k + 1) * step - i.value < i.value - k * step then k + 1 else k)
  | true, false => some k
  | false, true => some (k + 1)
  | false, false => none

/-- The decimal `digits · 10 ^ e` in the interval with the largest `e` up to the
    bound. -/
def coarsest (i : Interval) : Nat → Nat × Nat
  | 0 => (i.value, 0)
  | e + 1 =>
    match i.nearestMultiple? (Nat.pow 10 (e + 1)) with
    | some k => (k, e + 1)
    | none => i.coarsest e

end Interval

/-! ## Doubles -/

namespace Binary

/-- The interval of a double, in units of `10 ^ b.scale`.  The double below a
    power of two is half as far away as the one above it. -/
def interval (b : Binary) : Interval :=
  let unit :=
    if b.exponent < 2 then Nat.pow 5 (2 - b.exponent).toNat else 1 <<< (b.exponent - 2).toNat
  let lower := if b.mantissa = implicitBit ∧ b.exponent ≠ -1074 then 1 else 2
  ⟨4 * b.mantissa * unit, (4 * b.mantissa - lower) * unit, (4 * b.mantissa + 2) * unit,
    b.mantissa % 2 = 0⟩

/-- The power of ten that is the unit of the interval. -/
def scale (b : Binary) : Int :=
  min (b.exponent - 2) 0

/-- The shortest decimal `digits · 10 ^ e` of a double. -/
def shortest (b : Binary) : Nat × Int :=
  let (digits, e) := b.interval.coarsest (Nat.toDigits 10 b.interval.high).length
  (digits, b.scale + e)

end Binary

/-! ## Texts -/

/-- How shortest decimals are written. -/
structure Style where
  /-- The least exponent that is written with a point only. -/
  least : Int
  /-- The greatest exponent that is written with a point only. -/
  greatest : Int
  /-- The least number of digits of an exponent. -/
  exponentWidth : Nat

/-- Digits with a point where the exponent says, and a digit on both sides. -/
def positional (digits : List Char) (exponent : Int) : List Char :=
  if exponent < 0 then
    '0' :: '.' :: (List.replicate (exponent.natAbs - 1) '0' ++ digits)
  else
    let n := exponent.natAbs + 1
    if digits.length ≤ n then
      digits ++ List.replicate (n - digits.length) '0' ++ ['.', '0']
    else digits.take n ++ '.' :: digits.drop n

/-- Digits with a point behind the first, and a signed exponent. -/
def scientific (width : Nat) (digits : List Char) (exponent : Int) : List Char :=
  let size := Nat.toDigits 10 exponent.natAbs
  digits.take 1 ++ (if digits.length = 1 then [] else '.' :: digits.drop 1) ++
    ['e', if exponent < 0 then '-' else '+'] ++
    (List.replicate (width - size.length) '0' ++ size)

/-- A finite double as text. -/
def Style.text (s : Style) (x : Float) : String :=
  let bits := x.toBits
  let sign := if isNegativeBits bits then ['-'] else []
  let b := Binary.ofBits bits
  if b.mantissa = 0 then String.ofList (sign ++ ['0', '.', '0'])
  else
    let (k, e) := b.shortest
    let digits := Nat.toDigits 10 k
    let exponent := e + (digits.length - 1 : Int)
    String.ofList <| sign ++
      if s.least ≤ exponent ∧ exponent ≤ s.greatest then positional digits exponent
      else scientific s.exponentWidth digits exponent

end HectocDuel.Decimal
