/-
  Strings as JSON text spells them.

  The quote, the backslash and the characters below the space are written as
  escapes; all other characters stand for themselves, byte by byte.  An escape
  by number names a code unit of sixteen bits; characters beyond those are
  named by two of them.

  * `escape` spells the bytes of a string, `unescape` reads a spelling;
  * `spell` and `text?` do the same for strings.
-/
import HectocDuel.Json.Lexeme
import HectocDuel.Text.Bytes

namespace HectocDuel.Json

/-! ## Writing -/

/-- A hexadecimal digit as it is written in an escape. -/
def hexByte (n : UInt8) : UInt8 :=
  if n < 10 then byte '0' + n else byte 'a' + (n - 10)

/-- How a byte of a string is spelled. -/
def escapeByte (b : UInt8) : List UInt8 :=
  if b = byte '"' ∨ b = byte '\\' then [byte '\\', b]
  else if b = 0x08 then [byte '\\', byte 'b']
  else if b = 0x09 then [byte '\\', byte 't']
  else if b = 0x0a then [byte '\\', byte 'n']
  else if b = 0x0c then [byte '\\', byte 'f']
  else if b = 0x0d then [byte '\\', byte 'r']
  else if b < 0x20 then ['\\', 'u', '0', '0'].map byte ++ [hexByte (b / 16), hexByte (b % 16)]
  else [b]

/-- How the bytes of a string are spelled. -/
def escape (bs : List UInt8) : List UInt8 :=
  bs.flatMap escapeByte

/-! ## Reading -/

/-- The value of a hexadecimal digit. -/
def hexValue (b : UInt8) : Nat :=
  if isDigitByte b then (b - byte '0').toNat
  else if b < byte 'a' then (b - byte 'A').toNat + 10
  else (b - byte 'a').toNat + 10

/-- The code unit that four hexadecimal digits name. -/
def codeUnit (h₁ h₂ h₃ h₄ : UInt8) : Nat :=
  ((hexValue h₁ * 16 + hexValue h₂) * 16 + hexValue h₃) * 16 + hexValue h₄

/-- Whether a code unit is the first of a pair. -/
def isHighUnit (n : Nat) : Bool :=
  0xd800 ≤ n && n < 0xdc00

/-- Whether a code unit is the second of a pair. -/
def isLowUnit (n : Nat) : Bool :=
  0xdc00 ≤ n && n < 0xe000

/-- The character that a pair of code units names. -/
def pairedChar (high low : Nat) : Char :=
  Char.ofNat (0x10000 + (high - 0xd800) * 0x400 + (low - 0xdc00))

/-- The byte that an escape by letter names. -/
def escapedByte? (b : UInt8) : Option UInt8 :=
  if b = byte '"' ∨ b = byte '\\' ∨ b = byte '/' then some b
  else if b = byte 'b' then some 0x08
  else if b = byte 't' then some 0x09
  else if b = byte 'n' then some 0x0a
  else if b = byte 'f' then some 0x0c
  else if b = byte 'r' then some 0x0d
  else none

/-- The bytes that a spelling names; none if it has an unknown escape or half a
    pair of code units. -/
def unescape : List UInt8 → Option (List UInt8)
  | [] => some []
  | b :: bs =>
    if b = byte '\\' then
      match bs with
      | [] => none
      | e :: bs =>
        if e = byte 'u' then
          match bs with
          | h₁ :: h₂ :: h₃ :: h₄ :: bs =>
            let unit := codeUnit h₁ h₂ h₃ h₄
            if isHighUnit unit then
              match bs with
              | b' :: e' :: l₁ :: l₂ :: l₃ :: l₄ :: bs =>
                let low := codeUnit l₁ l₂ l₃ l₄
                if b' = byte '\\' ∧ e' = byte 'u' ∧ isLowUnit low then
                  (unescape bs).map (String.utf8EncodeChar (pairedChar unit low) ++ ·)
                else none
              | _ => none
            else if isLowUnit unit then none
            else (unescape bs).map (String.utf8EncodeChar (Char.ofNat unit) ++ ·)
          | _ => none
        else
          match escapedByte? e with
          | some c => (unescape bs).map (c :: ·)
          | none => none
    else (unescape bs).map (b :: ·)

/-! ## Strings -/

/-- How a string is spelled. -/
def spell (s : String) : List UInt8 :=
  escape (Text.bytesOf s)

/-- The string that a spelling names. -/
def text? (body : List UInt8) : Option String :=
  (unescape body).bind Text.ofBytes?

end HectocDuel.Json
