/-
  Percent escapes, and queries as lists of pairs.

  An escape is a percent sign and two hexadecimal digits, and stands for a byte.
  A percent sign without them stands for itself.  A query is cut at each `&` into
  pairs of a name and a value, with the first `=` between them; there a plus sign
  stands for a space.

  * `decode` resolves the escapes in a sequence of bytes;
  * `escapePath` writes the characters of a path, escaping those that may not
    stand in one;
  * `queryPairs` reads a query.
-/
import HectocDuel.Text.Bytes
import HectocDuel.Text.Cut

namespace HectocDuel.Url

/-! ## Reading -/

/-- The value of a byte as a hexadecimal digit. -/
def hexDigit? (b : UInt8) : Option UInt8 :=
  if 0x30 ≤ b ∧ b ≤ 0x39 then some (b - 0x30)
  else if 0x41 ≤ b ∧ b ≤ 0x46 then some (b - 0x37)
  else if 0x61 ≤ b ∧ b ≤ 0x66 then some (b - 0x57)
  else none

/-- The byte that an escape with the given digits stands for. -/
def escaped? (high low : UInt8) : Option UInt8 := do
  return 16 * (← hexDigit? high) + (← hexDigit? low)

/-- Resolves the escapes in a sequence of bytes. -/
def decode : List UInt8 → List UInt8
  | a :: b :: c :: rest =>
    if a = 0x25 then
      match escaped? b c with
      | some e => e :: decode rest
      | none => a :: decode (b :: c :: rest)
    else a :: decode (b :: c :: rest)
  | bs => bs

/-! ## Writing -/

/-- A hexadecimal digit in capitals. -/
def hexChar (n : UInt8) : Char :=
  Char.ofNat (if n < 10 then 0x30 + n.toNat else 0x37 + n.toNat)

/-- The escape of a byte. -/
def escapeByte (b : UInt8) : List Char :=
  ['%', hexChar (b / 16), hexChar (b % 16)]

/-- Whether a character is written as it is in a path. -/
def isPathChar (c : Char) : Bool :=
  ' ' < c && c < '\x7f' && c ≠ '"' && c ≠ '#' && c ≠ '<' && c ≠ '>' && c ≠ '?' &&
    c ≠ Char.ofNat 0x60 && c ≠ '\x7b' && c ≠ '\x7d'

/-- The characters of a path as they are written. -/
def escapePath (cs : List Char) : List Char :=
  cs.flatMap fun c =>
    if isPathChar c then [c] else (String.utf8EncodeChar c).flatMap escapeByte

/-! ## Queries -/

/-- A name or value as text. -/
def formText (bs : List UInt8) : String :=
  Text.ofBytesLossy (decode (bs.map fun b => if b = 0x2b then 0x20 else b))

/-- The pairs of a query, in order. -/
def queryPairs (query : List UInt8) : List (String × String) :=
  ((Text.pieces (· = 0x26) query).filter (!·.isEmpty)).map fun pair =>
    let (name, value) := Text.cut (· = 0x3d) pair
    (formText name, formText (value.getD []))

/-- The value of the first pair with a given name. -/
def queryValue? (query : List UInt8) (name : String) : Option String :=
  (queryPairs query).lookup name

end HectocDuel.Url
