/-
  Texts as bytes and back.

  * `bytesOf_eq`: the bytes of a text are those of its characters, one after the other;
  * `charsOfBytes_utf8`: a character is read from its own bytes, whatever follows them;
  * `ofBytesLossy_bytesOf`: so every text is read back from its bytes.
-/
import HectocDuel.Text.Bytes
import Mathlib.Tactic.SplitIfs

namespace HectocDuel.Text

theorem bytesOf_eq (s : String) : bytesOf s = s.toList.flatMap String.utf8EncodeChar := by
  rw [bytesOf, String.toUTF8, ← String.utf8Encode_toList, List.utf8Encode]
  simp

/-! ## Bytes behind the first -/

theorem tail?_eq (b : UInt8) : tail? b =
    if b.toNat < 0xc2 then none
    else if b.toNat < 0xe0 then some ⟨1, 0x80, 0xbf⟩
    else if b.toNat = 0xe0 then some ⟨2, 0xa0, 0xbf⟩
    else if b.toNat = 0xed then some ⟨2, 0x80, 0x9f⟩
    else if b.toNat < 0xf0 then some ⟨2, 0x80, 0xbf⟩
    else if b.toNat = 0xf0 then some ⟨3, 0x90, 0xbf⟩
    else if b.toNat < 0xf4 then some ⟨3, 0x80, 0xbf⟩
    else if b.toNat = 0xf4 then some ⟨3, 0x80, 0x8f⟩
    else none := by
  simp only [tail?, UInt8.lt_iff_toNat_lt, ← UInt8.toNat_inj]
  rfl

/-- A byte behind the first, which holds six bits. -/
def sixBits (n : Nat) : UInt8 :=
  UInt8.ofNat (n % 64 + 0x80)

theorem toNat_sixBits (n : Nat) : (sixBits n).toNat = n % 64 + 0x80 :=
  UInt8.toNat_ofNat_of_lt' (by have : UInt8.size = 256 := rfl; omega)

theorem sixBits_bounds (n : Nat) : 0x80 ≤ sixBits n ∧ sixBits n ≤ 0xbf := by
  rw [UInt8.le_iff_toNat_le, UInt8.le_iff_toNat_le, toNat_sixBits]
  exact ⟨Nat.le_add_left _ _, show n % 64 + 0x80 ≤ 0xbf by omega⟩

theorem spanTail_sixBits (ns : List Nat) (rest : List UInt8) :
    spanTail ns.length 0x80 0xbf (ns.map sixBits ++ rest) = (ns.map sixBits, rest) := by
  induction ns with
  | nil => simp [spanTail]
  | cons n ns ih =>
    rw [List.map_cons, List.cons_append, List.length_cons, spanTail, if_pos (sixBits_bounds n), ih]

/-- A first byte and all that has to follow it are read as one character. -/
theorem charsOfBytes_lead {b : UInt8} {t : Tail} {m : Nat} {ns : List Nat} (hb : 0x80 ≤ b)
    (ht : tail? b = some t) (hlength : t.count = ns.length + 1) (hlow : t.low ≤ sixBits m)
    (hhigh : sixBits m ≤ t.high) (rest : List UInt8) :
    charsOfBytes (b :: ((m :: ns).map sixBits ++ rest)) =
      charOf b ((m :: ns).map sixBits) :: charsOfBytes rest := by
  have hspan : spanTail t.count t.low t.high ((m :: ns).map sixBits ++ rest) =
      ((m :: ns).map sixBits, rest) := by
    rw [hlength, List.map_cons, List.cons_append, spanTail, if_pos ⟨hlow, hhigh⟩,
      spanTail_sixBits]
  rw [charsOfBytes, if_neg (UInt8.not_lt.2 hb)]
  simp only [ht, hspan]
  rw [if_pos (by rw [hlength, List.length_map, List.length_cons])]

/-- They make the character with the bits that they hold. -/
theorem charOf_eq {c : Char} {b : UInt8} {ns : List Nat}
    (h : ns.foldl (fun n m => n * 64 + m % 64) (b.toNat % (1 <<< (6 - ns.length))) = c.toNat) :
    charOf b (ns.map sixBits) = c := by
  have hbits : ∀ m, (sixBits m).toNat % 64 = m % 64 := fun m => by
    rw [toNat_sixBits]
    omega
  simp only [charOf, List.length_map, List.foldl_map, hbits, h]
  exact Char.ofNat_toNat c

/-! ## Characters -/

theorem utf8_eq_of_lt {c : Char} (h : c.toNat < 0x80) :
    String.utf8EncodeChar c = [UInt8.ofNat c.toNat] :=
  if_pos (Nat.le_of_lt_succ h)

/-- The bytes of other characters: a first byte, and six bits in each that follows. -/
theorem exists_utf8_eq {c : Char} (h : 0x80 ≤ c.val.toNat) : ∃ lead m ns,
    String.utf8EncodeChar c = UInt8.ofNat lead :: (m :: ns).map sixBits ∧ 0xc2 ≤ lead ∧
      lead < 0xf5 ∧
      (m :: ns).foldl (fun n m => n * 64 + m % 64) (lead % (1 <<< (6 - (m :: ns).length))) =
        c.val.toNat ∧
      ∃ t, tail? (UInt8.ofNat lead) = some t ∧ t.count = ns.length + 1 ∧ t.low ≤ sixBits m ∧
        sixBits m ≤ t.high := by
  have hvalid : c.val.toNat < 0xd800 ∨ 0xdfff < c.val.toNat ∧ c.val.toNat < 0x110000 := c.valid
  have hsize : UInt8.size = 256 := rfl
  have htail : ∀ {lead : Nat}, lead < 0x100 → (UInt8.ofNat lead).toNat = lead := fun hlead =>
    UInt8.toNat_ofNat_of_lt' hlead
  rw [String.utf8EncodeChar, if_neg (by omega)]
  generalize c.val.toNat = v at h hvalid
  split_ifs with h₂ h₃
  · refine ⟨v / 64 % 32 + 0xc0, v, [], rfl, by omega, by omega, ?_, ?_⟩
    · simp
      omega
    · rw [tail?_eq, htail (by omega), if_neg (by omega), if_pos (by omega)]
      exact ⟨_, rfl, rfl, (sixBits_bounds _).1, (sixBits_bounds _).2⟩
  · refine ⟨v / 4096 % 16 + 0xe0, v / 64, [v], rfl, by omega, by omega, ?_, ?_⟩
    · simp
      omega
    · rw [tail?_eq, htail (by omega), if_neg (by omega), if_neg (by omega)]
      split_ifs
      · refine ⟨_, rfl, rfl, ?_, (sixBits_bounds _).2⟩
        rw [UInt8.le_iff_toNat_le, toNat_sixBits]
        show 0xa0 ≤ _
        omega
      · refine ⟨_, rfl, rfl, (sixBits_bounds _).1, ?_⟩
        rw [UInt8.le_iff_toNat_le, toNat_sixBits]
        show _ ≤ 0x9f
        omega
      · exact ⟨_, rfl, rfl, (sixBits_bounds _).1, (sixBits_bounds _).2⟩
      all_goals omega
  · refine ⟨v / 262144 % 8 + 0xf0, v / 4096, [v / 64, v], rfl, by omega, by omega, ?_, ?_⟩
    · simp
      omega
    · rw [tail?_eq, htail (by omega), if_neg (by omega), if_neg (by omega), if_neg (by omega),
        if_neg (by omega), if_neg (by omega)]
      split_ifs
      · refine ⟨_, rfl, rfl, ?_, (sixBits_bounds _).2⟩
        rw [UInt8.le_iff_toNat_le, toNat_sixBits]
        show 0x90 ≤ _
        omega
      · exact ⟨_, rfl, rfl, (sixBits_bounds _).1, (sixBits_bounds _).2⟩
      · refine ⟨_, rfl, rfl, (sixBits_bounds _).1, ?_⟩
        rw [UInt8.le_iff_toNat_le, toNat_sixBits]
        show _ ≤ 0x8f
        omega
      · omega

/-- No byte of such a character is a character alone. -/
theorem le_of_mem_utf8 {c : Char} (h : 0x80 ≤ c.toNat) {b : UInt8}
    (hb : b ∈ String.utf8EncodeChar c) : 0x80 ≤ b := by
  obtain ⟨lead, m, ns, hbytes, hlow, hhigh, -⟩ := exists_utf8_eq h
  rw [hbytes] at hb
  rcases List.mem_cons.1 hb with rfl | hb
  · rw [UInt8.le_iff_toNat_le, UInt8.toNat_ofNat_of_lt' (Nat.lt_trans hhigh (by decide))]
    exact Nat.le_trans (by decide) hlow
  · obtain ⟨n, -, rfl⟩ := List.mem_map.1 hb
    exact (sixBits_bounds n).1

/-- A character is read from its own bytes, whatever follows them. -/
theorem charsOfBytes_utf8 (c : Char) (rest : List UInt8) :
    charsOfBytes (String.utf8EncodeChar c ++ rest) = c :: charsOfBytes rest := by
  by_cases h : c.toNat < 0x80
  · have hsmall : UInt8.ofNat c.toNat < 0x80 := by
      rw [UInt8.lt_iff_toNat_lt, UInt8.toNat_ofNat_of_lt' (Nat.lt_trans h (by decide))]
      exact h
    rw [utf8_eq_of_lt h, List.singleton_append, charsOfBytes, if_pos hsmall,
      UInt8.toNat_ofNat_of_lt' (Nat.lt_trans h (by decide)), Char.ofNat_toNat]
  · obtain ⟨lead, m, ns, hbytes, -, hhigh, hbits, t, ht, hlength, hm, hm'⟩ :=
      exists_utf8_eq (Nat.not_lt.1 h)
    have hlead : (UInt8.ofNat lead).toNat = lead :=
      UInt8.toNat_ofNat_of_lt' (Nat.lt_trans hhigh (by decide))
    have hfirst : 0x80 ≤ UInt8.ofNat lead :=
      le_of_mem_utf8 (Nat.not_lt.1 h) (hbytes ▸ List.mem_cons_self)
    rw [hbytes, List.cons_append, charsOfBytes_lead hfirst ht hlength hm hm', charOf_eq]
    rw [hlead]
    exact hbits

theorem charsOfBytes_flatMap_utf8 (cs : List Char) :
    charsOfBytes (cs.flatMap String.utf8EncodeChar) = cs := by
  induction cs with
  | nil => rw [List.flatMap_nil, charsOfBytes]
  | cons c cs ih => rw [List.flatMap_cons, charsOfBytes_utf8, ih]

theorem flatMap_utf8_injective {cs cs' : List Char}
    (h : cs.flatMap String.utf8EncodeChar = cs'.flatMap String.utf8EncodeChar) : cs = cs' := by
  rw [← charsOfBytes_flatMap_utf8 cs, h, charsOfBytes_flatMap_utf8]

/-- **Every text is read back from its bytes.** -/
theorem ofBytesLossy_bytesOf (s : String) : ofBytesLossy (bytesOf s) = s := by
  rw [ofBytesLossy, bytesOf_eq, charsOfBytes_flatMap_utf8, String.ofList_toList]

end HectocDuel.Text
