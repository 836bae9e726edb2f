/-
  Numeric addresses of hosts.

  An address of the older kind is up to four numbers, which may be octal or
  hexadecimal, the last of them filling all bytes that are left.  An address of
  the newer kind is eight groups of hexadecimal digits, of which one run may be
  left out, and the last two of which may be written as four decimal numbers.

  * `isFourByteAddress` and `isEightGroupAddress` tell which texts are addresses.
-/
import HectocDuel.Text.Cut

namespace HectocDuel.Url

/-! ## Numbers -/

/-- The value of a hexadecimal digit. -/
def hexCharValue? (c : Char) : Option Nat :=
  if c.isDigit then some (c.toNat - '0'.toNat)
  else if 'a' ≤ c ∧ c ≤ 'f' then some (c.toNat - 'a'.toNat + 10)
  else if 'A' ≤ c ∧ c ≤ 'F' then some (c.toNat - 'A'.toNat + 10)
  else none

/-- The number that digits write in a base. -/
def numberInBase? (base : Nat) (cs : List Char) : Option Nat :=
  cs.foldl (fun n? c => do
    let n ← n?
    let d ← hexCharValue? c
    if d < base then some (n * base + d) else none) (some 0)

/-- The number that a part of an address writes: hexadecimal behind `0x`, octal
    behind another `0`, else decimal.  A base without digits writes zero. -/
def addressNumber? : List Char → Option Nat
  | [] => none
  | '0' :: 'x' :: cs => numberInBase? 16 cs
  | '0' :: 'X' :: cs => numberInBase? 16 cs
  | '0' :: c :: cs => numberInBase? 8 (c :: cs)
  | cs => numberInBase? 10 cs

/-! ## Four bytes -/

/-- The parts between the points of an address, less an empty one at the end. -/
def addressParts (cs : List Char) : List (List Char) :=
  let parts := Text.pieces (· = '.') cs
  if parts.getLast? = some [] then parts.dropLast else parts

/-- Whether the last part of a name is a number, so that the name has to be an
    address. -/
def endsInNumber (cs : List Char) : Bool :=
  match (addressParts cs).getLast? with
  | some last => (last ≠ [] && last.all Char.isDigit) || (addressNumber? last).isSome
  | none => false

/-- Whether a text is an address of four bytes. -/
def isFourByteAddress (cs : List Char) : Bool :=
  let parts := addressParts cs
  match (parts.mapM addressNumber?).map List.reverse with
  | some (last :: others) =>
    parts.length ≤ 4 && others.all (· < 256) && last < 1 <<< (8 * (4 - others.length))
  | _ => false

/-! ## Eight groups -/

/-- Whether a text is a group of one to four hexadecimal digits. -/
def isGroup (cs : List Char) : Bool :=
  0 < cs.length && cs.length ≤ 4 && cs.all (hexCharValue? · |>.isSome)

/-- Whether a text is a decimal number of one byte without needless zeros. -/
def isByteNumber (cs : List Char) : Bool :=
  cs ≠ [] && cs.all Char.isDigit && (cs.length = 1 || cs.head? ≠ some '0') &&
    (numberInBase? 10 cs).any (· < 256)

/-- Whether a text is four decimal numbers of one byte each. -/
def isByteQuad (cs : List Char) : Bool :=
  let parts := Text.pieces (· = '.') cs
  parts.length = 4 && parts.all isByteNumber

/-- The number of groups that a text writes, with or without four numbers at its
    end. -/
def groupCount? (quadAtEnd : Bool) (cs : List Char) : Option Nat :=
  if cs = [] then some 0
  else
    let parts := Text.pieces (· = ':') cs
    if parts.all isGroup then some parts.length
    else if quadAtEnd && parts.dropLast.all isGroup && parts.getLast?.any isByteQuad then
      some (parts.length + 1)
    else none

/-- What stands before and behind the first double colon. -/
def cutDoubleColon? : List Char → Option (List Char × List Char)
  | ':' :: ':' :: cs => some ([], cs)
  | c :: cs => (cutDoubleColon? cs).map fun (before, behind) => (c :: before, behind)
  | [] => none

/-- Whether a text is an address of eight groups. -/
def isEightGroupAddress (cs : List Char) : Bool :=
  match cutDoubleColon? cs with
  | none => groupCount? true cs = some 8
  | some (before, behind) =>
    match groupCount? false before, groupCount? true behind with
    | some m, some n => m + n ≤ 7
    | _, _ => false

end HectocDuel.Url
