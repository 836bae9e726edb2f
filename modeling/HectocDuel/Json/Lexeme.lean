/-
  The lexemes of JSON text.

  A text is a sequence of bytes.  `lex` cuts it into punctuation, words,
  numbers and strings, skips the blanks between them, and ends with `fault` at
  the first byte that begins no lexeme.  A string keeps its spelling: its
  escapes are checked here but not resolved, and bytes beyond ASCII are not
  looked at.

  * `lex` reads a text, `render` writes one.
-/

namespace HectocDuel.Json

/-- The byte of an ASCII character. -/
abbrev byte (c : Char) : UInt8 :=
  c.toUInt8

/-! ## Lexemes -/

/-- A number by its parts, digit by digit. -/
structure Numeral where
  negative : Bool
  /-- The digits before the point, at least one. -/
  whole : List Nat
  /-- The digits after the point; none if there is no point. -/
  fraction : List Nat
  /-- The sign and the digits of the exponent, if there is one. -/
  exponent : Option (Bool × List Nat)
  deriving DecidableEq, Repr

/-- A lexeme of JSON text. -/
inductive Lexeme where
  | openBrace
  | closeBrace
  | openBracket
  | closeBracket
  | colon
  | comma
  | null
  | bool (b : Bool)
  | number (n : Numeral)
  /-- A string, by the bytes between its quotes. -/
  | string (body : List UInt8)
  /-- No lexeme begins here. -/
  | fault
  deriving DecidableEq, Repr

/-! ## Scanning -/

/-- The blanks between lexemes. -/
def isBlankByte (b : UInt8) : Bool :=
  b = byte ' ' || b = byte '\t' || b = byte '\n' || b = byte '\r'

/-- Whether a byte is a decimal digit. -/
def isDigitByte (b : UInt8) : Bool :=
  byte '0' ≤ b && b ≤ byte '9'

/-- Whether a byte is a hexadecimal digit. -/
def isHexByte (b : UInt8) : Bool :=
  isDigitByte b || (byte 'a' ≤ b && b ≤ byte 'f') || (byte 'A' ≤ b && b ≤ byte 'F')

/-- The digits in front of a text, and what follows them. -/
def spanDigits : List UInt8 → List Nat × List UInt8
  | [] => ([], [])
  | b :: bs =>
    if isDigitByte b then
      let (ds, rest) := spanDigits bs
      ((b - byte '0').toNat :: ds, rest)
    else ([], b :: bs)

/-- The digits before the point: no zero in front of another digit. -/
def scanWhole (bs : List UInt8) : Option (List Nat × List UInt8) :=
  match spanDigits bs with
  | ([], _) => none
  | (0 :: _ :: _, _) => none
  | (ds, rest) => some (ds, rest)

/-- The digits after a point, of which there is at least one; nothing is read
    if there is no point. -/
def scanFraction : List UInt8 → Option (List Nat × List UInt8)
  | [] => some ([], [])
  | b :: bs =>
    if b = byte '.' then
      match spanDigits bs with
      | ([], _) => none
      | (ds, rest) => some (ds, rest)
    else some ([], b :: bs)

/-- The sign in front of an exponent, and what follows it. -/
def spanSign : List UInt8 → Bool × List UInt8
  | [] => (false, [])
  | b :: bs =>
    if b = byte '-' then (true, bs)
    else if b = byte '+' then (false, bs)
    else (false, b :: bs)

/-- An exponent, with at least one digit; nothing is read if there is none. -/
def scanExponent : List UInt8 → Option (Option (Bool × List Nat) × List UInt8)
  | [] => some (none, [])
  | b :: bs =>
    if b = byte 'e' ∨ b = byte 'E' then
      match spanDigits (spanSign bs).2 with
      | ([], _) => none
      | (ds, rest) => some (some ((spanSign bs).1, ds), rest)
    else some (none, b :: bs)

/-- A number without its sign. -/
def scanNumber (negative : Bool) (bs : List UInt8) : Option (Lexeme × List UInt8) := do
  let (whole, bs) ← scanWhole bs
  let (fraction, bs) ← scanFraction bs
  let (exponent, bs) ← scanExponent bs
  return (.number ⟨negative, whole, fraction, exponent⟩, bs)

/-- Whether a byte may follow a backslash, other than the `u` of an escape by
    number. -/
def isEscapeByte (b : UInt8) : Bool :=
  b = byte '"' || b = byte '\\' || b = byte '/' || b = byte 'b' || b = byte 'f' ||
    b = byte 'n' || b = byte 'r' || b = byte 't'

/-- The body of a string up to its closing quote, and what follows it. -/
def scanString : List UInt8 → Option (List UInt8 × List UInt8)
  | [] => none
  | b :: bs =>
    if b = byte '"' then some ([], bs)
    else if b = byte '\\' then
      match bs with
      | [] => none
      | e :: bs' =>
        if e = byte 'u' then
          match bs' with
          | h₁ :: h₂ :: h₃ :: h₄ :: rest =>
            if isHexByte h₁ && isHexByte h₂ && isHexByte h₃ && isHexByte h₄ then
              (scanString rest).map fun (body, rest) =>
                (b :: e :: h₁ :: h₂ :: h₃ :: h₄ :: body, rest)
            else none
          | _ => none
        else if isEscapeByte e then
          (scanString bs').map fun (body, rest) => (b :: e :: body, rest)
        else none
    else if b < 0x20 then none
    else (scanString bs).map fun (body, rest) => (b :: body, rest)

/-- The rest of a word after its first letter. -/
def scanWord (l : Lexeme) (letters : List Char) (bs : List UInt8) :
    Option (Lexeme × List UInt8) :=
  if bs.take letters.length = letters.map byte then some (l, bs.drop letters.length) else none

/-- The lexeme of a punctuation mark. -/
def mark? (b : UInt8) : Option Lexeme :=
  if b = byte '\x7b' then some .openBrace
  else if b = byte '\x7d' then some .closeBrace
  else if b = byte '[' then some .openBracket
  else if b = byte ']' then some .closeBracket
  else if b = byte ':' then some .colon
  else if b = byte ',' then some .comma
  else none

/-- The lexeme that begins with `b`, which is no blank, and what follows it. -/
def scanLexeme (b : UInt8) (bs : List UInt8) : Option (Lexeme × List UInt8) :=
  match mark? b with
  | some l => some (l, bs)
  | none =>
    if b = byte '"' then (scanString bs).map fun (body, rest) => (.string body, rest)
    else if b = byte 'n' then scanWord .null ['u', 'l', 'l'] bs
    else if b = byte 't' then scanWord (.bool true) ['r', 'u', 'e'] bs
    else if b = byte 'f' then scanWord (.bool false) ['a', 'l', 's', 'e'] bs
    else if b = byte '-' then scanNumber true bs
    else if isDigitByte b then scanNumber false (b :: bs)
    else none

/-! ## What a scan leaves

Each scan leaves an end of what it was given. -/

theorem spanDigits_suffix (bs : List UInt8) : (spanDigits bs).2 <:+ bs := by
  induction bs with
  | nil => exact List.suffix_refl _
  | cons b bs ih =>
    rw [spanDigits]
    split
    · exact ih.trans (List.suffix_cons b bs)
    · exact List.suffix_refl _

theorem spanDigits_length {bs rest : List UInt8} {d : Nat} {ds : List Nat}
    (h : spanDigits bs = (d :: ds, rest)) : rest.length < bs.length := by
  cases bs with
  | nil => simp [spanDigits] at h
  | cons b bs =>
    rw [spanDigits] at h
    split at h
    · have hs := (spanDigits_suffix bs).length_le
      simp only [Prod.mk.injEq] at h
      simp only [List.length_cons, ← h.2]
      omega
    · simp at h

theorem scanWhole_length {bs rest : List UInt8} {ds : List Nat}
    (h : scanWhole bs = some (ds, rest)) : rest.length < bs.length := by
  unfold scanWhole at h
  split at h
  · simp at h
  · simp at h
  · next ds' rest' hne _ he =>
    simp only [Option.some.injEq, Prod.mk.injEq] at h
    obtain ⟨rfl, rfl⟩ := h
    cases ds' with
    | nil => exact (hne rfl).elim
    | cons d ds => exact spanDigits_length he

theorem scanFraction_length {bs rest : List UInt8} {ds : List Nat}
    (h : scanFraction bs = some (ds, rest)) : rest.length ≤ bs.length := by
  cases bs with
  | nil => simp_all [scanFraction]
  | cons b bs =>
    rw [scanFraction] at h
    split at h
    · split at h
      · simp at h
      · next he =>
        have hs := (spanDigits_suffix bs).length_le
        simp only [Option.some.injEq, Prod.mk.injEq] at h
        simp only [he, h.2] at hs
        simp only [List.length_cons]
        omega
    · simp only [Option.some.injEq, Prod.mk.injEq] at h
      simp [← h.2]

theorem spanSign_length (bs : List UInt8) : (spanSign bs).2.length ≤ bs.length := by
  cases bs with
  | nil => simp [spanSign]
  | cons b bs =>
    rw [spanSign]
    split
    · simp
    · split <;> simp

theorem scanExponent_length {bs rest : List UInt8} {e : Option (Bool × List Nat)}
    (h : scanExponent bs = some (e, rest)) : rest.length ≤ bs.length := by
  cases bs with
  | nil => simp_all [scanExponent]
  | cons b bs =>
    rw [scanExponent] at h
    split at h
    · split at h
      · simp at h
      · next he =>
        have hs := (spanDigits_suffix (spanSign bs).2).length_le
        have hn := spanSign_length bs
        simp only [Option.some.injEq, Prod.mk.injEq] at h
        simp only [he, h.2] at hs
        simp only [List.length_cons]
        omega
    · simp only [Option.some.injEq, Prod.mk.injEq] at h
      simp [← h.2]

theorem scanNumber_length {negative : Bool} {bs rest : List UInt8} {l : Lexeme}
    (h : scanNumber negative bs = some (l, rest)) : rest.length < bs.length := by
  simp only [scanNumber, bind, Option.bind_eq_some_iff, pure, Option.some.injEq,
    Prod.mk.injEq] at h
  obtain ⟨⟨ds, r₁⟩, h₁, ⟨fs, r₂⟩, h₂, ⟨e, r₃⟩, h₃, -, rfl⟩ := h
  have l₁ := scanWhole_length h₁
  have l₂ := scanFraction_length h₂
  have l₃ := scanExponent_length h₃
  simp only at l₂ l₃ ⊢
  omega

theorem scanString_length {bs body rest : List UInt8}
    (h : scanString bs = some (body, rest)) : rest.length < bs.length := by
  fun_induction scanString bs generalizing body rest
  case case2 =>
    simp only [Option.some.injEq, Prod.mk.injEq] at h
    simp [← h.2]
  case case4 ih | case7 ih | case10 ih =>
    obtain ⟨⟨body', rest'⟩, h', heq⟩ := Option.map_eq_some_iff.1 h
    simp only [Prod.mk.injEq] at heq
    have := ih h'
    rw [← heq.2]
    simp only [List.length_cons]
    omega
  all_goals simp at h

theorem scanWord_length {l l' : Lexeme} {letters : List Char} {bs rest : List UInt8}
    (h : scanWord l letters bs = some (l', rest)) : rest.length ≤ bs.length := by
  unfold scanWord at h
  split at h
  · simp only [Option.some.injEq, Prod.mk.injEq] at h
    simp [← h.2]
  · simp at h

theorem scanLexeme_length {b : UInt8} {bs rest : List UInt8} {l : Lexeme}
    (h : scanLexeme b bs = some (l, rest)) : rest.length ≤ bs.length := by
  unfold scanLexeme at h
  split at h
  · simp only [Option.some.injEq, Prod.mk.injEq] at h
    simp [h.2]
  split at h
  · obtain ⟨⟨body, rest'⟩, h', heq⟩ := Option.map_eq_some_iff.1 h
    simp only [Prod.mk.injEq] at heq
    exact heq.2 ▸ Nat.le_of_lt (scanString_length h')
  iterate 3
    split at h
    · exact scanWord_length h
  split at h
  · exact Nat.le_of_lt (scanNumber_length h)
  split at h
  · exact Nat.le_of_lt_succ (scanNumber_length h)
  · simp at h

/-! ## Texts -/

/-- The lexemes of a text, up to the first fault. -/
def lex : List UInt8 → List Lexeme
  | [] => []
  | b :: bs =>
    if isBlankByte b then lex bs
    else
      match _ : scanLexeme b bs with
      | some (l, rest) => l :: lex rest
      | none => [.fault]
termination_by bs => bs.length
decreasing_by
  · exact Nat.lt_succ_self bs.length
  · have := scanLexeme_length ‹_›
    simp only [List.length_cons]
    omega

/-- The byte of a digit. -/
def digitByte (d : Nat) : UInt8 :=
  byte '0' + d.toUInt8

/-- How a number is written. -/
def Numeral.render (n : Numeral) : List UInt8 :=
  (if n.negative then [byte '-'] else []) ++ n.whole.map digitByte ++
    (if n.fraction = [] then [] else byte '.' :: n.fraction.map digitByte) ++
    match n.exponent with
    | none => []
    | some (negative, ds) =>
      byte 'e' :: (if negative then [byte '-'] else []) ++ ds.map digitByte

/-- How a lexeme is written. -/
def Lexeme.render : Lexeme → List UInt8
  | openBrace => [byte '\x7b']
  | closeBrace => [byte '\x7d']
  | openBracket => [byte '[']
  | closeBracket => [byte ']']
  | colon => [byte ':']
  | comma => [byte ',']
  | null => ['n', 'u', 'l', 'l'].map byte
  | bool true => ['t', 'r', 'u', 'e'].map byte
  | bool false => ['f', 'a', 'l', 's', 'e'].map byte
  | number n => n.render
  | string body => byte '"' :: body ++ [byte '"']
  | fault => []

/-- The text of a sequence of lexemes, without blanks. -/
def render (ls : List Lexeme) : List UInt8 :=
  ls.flatMap Lexeme.render

end HectocDuel.Json
