/-
  Texts as bytes.

  * `bytesOf` and `ofBytes?` go between a text and its bytes;
  * `ofBytesLossy` reads any bytes, with a replacement character for each run of
    bytes that begins a character and is not followed by the rest of it, and for
    each byte that begins none.
-/

namespace HectocDuel.Text

/-! ## Texts -/

/-- The bytes of a text. -/
def bytesOf (s : String) : List UInt8 :=
  s.toUTF8.data.toList

/-- The text with the given bytes, if they are the bytes of one. -/
def ofBytes? (bs : List UInt8) : Option String :=
  String.fromUTF8? ⟨bs.toArray⟩

/-! ## Any bytes -/

/-- What has to follow the first byte of a character: how many bytes, and the
    bounds of the first of them. -/
structure Tail where
  count : Nat
  low : UInt8
  high : UInt8

/-- What has to follow a byte that begins a character of more than one byte. -/
def tail? (b : UInt8) : Option Tail :=
  if b < 0xc2 then none
  else if b < 0xe0 then some ⟨1, 0x80, 0xbf⟩
  else if b = 0xe0 then some ⟨2, 0xa0, 0xbf⟩
  else if b = 0xed then some ⟨2, 0x80, 0x9f⟩
  else if b < 0xf0 then some ⟨2, 0x80, 0xbf⟩
  else if b = 0xf0 then some ⟨3, 0x90, 0xbf⟩
  else if b < 0xf4 then some ⟨3, 0x80, 0xbf⟩
  else if b = 0xf4 then some ⟨3, 0x80, 0x8f⟩
  else none

/-- The bytes in front that may follow, at most `count` of them, and the rest. -/
def spanTail : Nat → UInt8 → UInt8 → List UInt8 → List UInt8 × List UInt8
  | 0, _, _, bs => ([], bs)
  | _, _, _, [] => ([], [])
  | n + 1, low, high, b :: bs =>
    if low ≤ b ∧ b ≤ high then
      let (taken, rest) := spanTail n 0x80 0xbf bs
      (b :: taken, rest)
    else ([], b :: bs)

theorem spanTail_length (n : Nat) (low high : UInt8) (bs : List UInt8) :
    (spanTail n low high bs).2.length ≤ bs.length := by
  induction n generalizing low high bs with
  | zero => exact Nat.le_refl _
  | succ n ih =>
    cases bs with
    | nil => exact Nat.le_refl _
    | cons b bs =>
      rw [spanTail]
      split
      · exact Nat.le_succ_of_le (ih 0x80 0xbf bs)
      · exact Nat.le_refl _

/-- The character of a first byte and the bytes that follow it. -/
def charOf (b : UInt8) (taken : List UInt8) : Char :=
  let first := b.toNat % (1 <<< (6 - taken.length))
  Char.ofNat (taken.foldl (fun n b => n * 64 + b.toNat % 64) first)

/-- The characters that stand for any bytes. -/
def charsOfBytes : List UInt8 → List Char
  | [] => []
  | b :: bs =>
    if b < 0x80 then Char.ofNat b.toNat :: charsOfBytes bs
    else
      match tail? b with
      | none => '\uFFFD' :: charsOfBytes bs
      | some t =>
        let split := spanTail t.count t.low t.high bs
        (if split.1.length = t.count then charOf b split.1 else '\uFFFD') :: charsOfBytes split.2
termination_by bs => bs.length
decreasing_by
  · exact Nat.lt_succ_self _
  · exact Nat.lt_succ_self _
  · exact Nat.lt_succ_of_le (spanTail_length t.count t.low t.high bs)

/-- The text that stands for any bytes. -/
def ofBytesLossy (bs : List UInt8) : String :=
  String.ofList (charsOfBytes bs)

end HectocDuel.Text
