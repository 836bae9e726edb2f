/-
  The exact values of doubles.

  A finite double is `± mantissa · 2 ^ exponent`.

  * `Binary.ofBits` takes a double apart;
  * `nearestInt` rounds one to an integer, a half away from zero.
-/

namespace HectocDuel.Decimal

/-- The magnitude `mantissa · 2 ^ exponent`. -/
structure Binary where
  mantissa : Nat
  exponent : Int
  deriving DecidableEq, Repr

/-- The least mantissa of 53 bits, the first of which no double stores. -/
def implicitBit : Nat :=
  1 <<< 52

/-- The magnitude of a finite double by its bits. -/
def Binary.ofBits (bits : UInt64) : Binary :=
  let fraction : Nat := bits.toNat % implicitBit
  let biased : Nat := bits.toNat / implicitBit % (1 <<< 11)
  if biased = 0 then ⟨fraction, -1074⟩ else ⟨implicitBit + fraction, (biased : Int) - 1075⟩

/-- Whether the bits of a double are those of a negative one. -/
def isNegativeBits (bits : UInt64) : Bool :=
  1 <<< 63 ≤ bits.toNat

/-- The natural number nearest to a magnitude; a half is rounded up. -/
def Binary.nearest (b : Binary) : Nat :=
  match b.exponent with
  | .ofNat e => b.mantissa <<< e
  | .negSucc e => (b.mantissa + (1 <<< e)) >>> (e + 1)

/-- The integer nearest to a finite double; a half is rounded away from zero. -/
def nearestInt (x : Float) : Int :=
  let n := (Binary.ofBits x.toBits).nearest
  if isNegativeBits x.toBits then -n else n

end HectocDuel.Decimal
