/-
  Cutting texts and lists.

  * `isBlank` is the Unicode property `White_Space`, for every code point, and `trim`
    cuts off the blanks at both ends of a text;
  * `pieces` cuts at every separator, `cut` at the first one and `cutLast?` at the
    last one.
-/

namespace HectocDuel.Text

/-! ## Blanks -/

/-- The blanks of Unicode: tab to carriage return, space, next line, no-break
    space, the Ogham space, the spaces from en quad to hair space, the line and
    paragraph separators, the narrow and mathematical spaces, and the
    ideographic space. -/
def isBlank (c : Char) : Bool :=
  let n := c.toNat
  (0x09 ≤ n && n ≤ 0x0D) || n == 0x20 || n == 0x85 || n == 0xA0 || n == 0x1680 ||
    (0x2000 ≤ n && n ≤ 0x200A) || n == 0x2028 || n == 0x2029 || n == 0x202F ||
    n == 0x205F || n == 0x3000

/-- The characters left when the blanks at both ends are dropped. -/
def trimChars (cs : List Char) : List Char :=
  ((cs.dropWhile isBlank).reverse.dropWhile isBlank).reverse

/-- The text without the blanks at its ends. -/
def trim (s : String) : String :=
  String.ofList (trimChars s.toList)

/-! ## Pieces -/

variable {α : Type}

/-- The pieces between the separators; there is one more than there are
    separators. -/
def pieces (isSeparator : α → Bool) : List α → List (List α)
  | [] => [[]]
  | a :: as =>
    if isSeparator a then [] :: pieces isSeparator as
    else
      match pieces isSeparator as with
      | [] => [[a]]
      | p :: ps => (a :: p) :: ps

/-- What stands before the first separator, and what stands behind it if there
    is one. -/
def cut (isSeparator : α → Bool) : List α → List α × Option (List α)
  | [] => ([], none)
  | a :: as =>
    if isSeparator a then ([], some as)
    else
      let (before, behind) := cut isSeparator as
      (a :: before, behind)

/-- What stands before and behind the last separator, if there is one. -/
def cutLast? (isSeparator : α → Bool) : List α → Option (List α × List α)
  | [] => none
  | a :: as =>
    match cutLast? isSeparator as with
    | some (before, behind) => some (a :: before, behind)
    | none => if isSeparator a then some ([], as) else none

end HectocDuel.Text
