/-
  Texts and characters in quotes, as they appear inside messages.

  A quoted text shows printable characters as themselves.  The quote in use
  and the backslash get a backslash, four controls have a letter of their own,
  and all other characters that would not show are written by number.
-/
import HectocDuel.Text.Unprintable

namespace HectocDuel.Text

/-- A character by its number, in lower-case hexadecimal. -/
def byNumber (c : Char) : List Char :=
  "\\u\x7b".toList ++ Nat.toDigits 16 c.toNat ++ "\x7d".toList

/-- A character as it stands between quotes of the given kind. -/
def quotedChar (quote c : Char) : List Char :=
  if c = Char.ofNat 0 then ['\\', '0']
  else if c = '\t' then ['\\', 't']
  else if c = '\n' then ['\\', 'n']
  else if c = '\r' then ['\\', 'r']
  else if c = '\\' ∨ c = quote then ['\\', c]
  else if isUnprintable c then byNumber c
  else [c]

/-- The single quote. -/
def singleQuote : Char := Char.ofNat 0x27

/-- The double quote. -/
def doubleQuote : Char := Char.ofNat 0x22

/-- A character in single quotes. -/
def quoteChar (c : Char) : String :=
  String.ofList (singleQuote :: quotedChar singleQuote c ++ [singleQuote])

/-- A text in double quotes. -/
def quote (s : String) : String :=
  String.ofList (doubleQuote :: s.toList.flatMap (quotedChar doubleQuote) ++ [doubleQuote])

end HectocDuel.Text
