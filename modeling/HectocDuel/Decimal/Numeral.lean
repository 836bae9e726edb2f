/-
  Decimal numerals and the doubles they denote.

  A numeral is an optional sign and either decimal digits with at most one
  point and an optional exponent, or the name of an infinity or of "not a
  number" in any case.  It denotes the double nearest to its value; a value
  beyond the largest double is infinite.

  * `Magnitude.read?` reads digits, point and exponent;
  * `readDouble?` reads a whole numeral.
-/

namespace HectocDuel.Decimal

/-! ## Digits -/

/-- The number that a list of digit characters writes. -/
def ofDigits (cs : List Char) : Nat :=
  cs.foldl (fun n c => 10 * n + (c.toNat - '0'.toNat)) 0

/-- The digits in front of a text, and what follows them. -/
def spanDigits (cs : List Char) : List Char × List Char :=
  (cs.takeWhile Char.isDigit, cs.dropWhile Char.isDigit)

/-! ## Magnitudes -/

/-- The number `digits · 10 ^ scale`. -/
structure Magnitude where
  digits : Nat
  scale : Int
  deriving DecidableEq, Repr

/-- The exponent at the end of a numeral: nothing, or `e`, an optional sign
    and at least one digit. -/
def readExponent? : List Char → Option Int
  | [] => some 0
  | c :: cs =>
    if c = 'e' ∨ c = 'E' then
      let (negative, cs) :=
        match cs with
        | '-' :: ds => (true, ds)
        | '+' :: ds => (false, ds)
        | ds => (false, ds)
      if cs ≠ [] ∧ cs.all Char.isDigit then
        some (if negative then -(ofDigits cs : Int) else ofDigits cs)
      else none
    else none

/-- Digits with at most one point and at least one digit, then an exponent. -/
def Magnitude.read? (cs : List Char) : Option Magnitude :=
  let (whole, rest) := spanDigits cs
  let (fraction, rest) :=
    match rest with
    | '.' :: ds => spanDigits ds
    | _ => ([], rest)
  if whole = [] ∧ fraction = [] then none
  else (readExponent? rest).map fun e => ⟨ofDigits (whole ++ fraction), e - fraction.length⟩

/-- The nearest double, computed exactly. -/
def Magnitude.nearest (m : Magnitude) : Float :=
  Float.ofScientific m.digits (m.scale < 0) m.scale.natAbs

/-- The double that a magnitude denotes: the nearest one.  The numbers of the
    double format lie between `10 ^ -330` and `10 ^ 310`, so a magnitude far
    outside these bounds is zero or infinite whatever its digits. -/
def Magnitude.toFloat (m : Magnitude) : Float :=
  if m.scale.natAbs ≤ 400 then m.nearest
  else if m.digits = 0 then 0
  else
    let top := m.scale + (Nat.toDigits 10 m.digits).length
    if top > 310 then 1.0 / 0.0
    else if top < -330 then 0
    else m.nearest

/-! ## Numerals -/

/-- The value of a numeral without its sign. -/
def readUnsigned? (cs : List Char) : Option Float :=
  match Magnitude.read? cs with
  | some m => some m.toFloat
  | none =>
    let name := String.ofList (cs.map Char.toLower)
    if name = "inf" ∨ name = "infinity" then some (1.0 / 0.0)
    else if name = "nan" then some (0.0 / 0.0)
    else none

/-- The double that a numeral denotes, if the text is a numeral. -/
def readDouble? (s : String) : Option Float :=
  match s.toList with
  | '-' :: cs => (readUnsigned? cs).map Float.neg
  | '+' :: cs => readUnsigned? cs
  | cs => readUnsigned? cs

end HectocDuel.Decimal
