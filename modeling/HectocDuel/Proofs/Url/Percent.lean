/-
  Escapes and what they stand for.

  * `respell` escapes bytes and keeps others.  Where the percent sign is escaped too, the
    bytes are read back as they were (`decode_respell_of_escaped`); where it is kept with all
    hexadecimal digits, they still stand for the same (`decode_respell`);
  * `decode_eq_cons`: the first byte that is read was written as it is, or as an escape;
  * `decode_escapePath`: a path stands for the same once it is written, and it is written
    without blanks, controls and characters outside ASCII (`of_mem_escapePath`).
-/
import HectocDuel.Proofs.Text.Bytes
import HectocDuel.Url.Percent
import Mathlib.Data.List.Basic

namespace HectocDuel.Url

open Text

/-! ## Digits -/

theorem hexDigit?_cases {b n : UInt8} (h : hexDigit? b = some n) :
    b.toNat = n.toNat + 0x30 ∧ n.toNat < 10 ∨
      b.toNat = n.toNat + 0x37 ∧ 10 ≤ n.toNat ∧ n.toNat < 16 ∨
      b.toNat = n.toNat + 0x57 ∧ 10 ≤ n.toNat ∧ n.toNat < 16 := by
  rw [hexDigit?] at h
  split_ifs at h with hd hc hs
  · obtain rfl := Option.some.inj h
    rw [UInt8.toNat_sub_of_le _ _ hd.1]
    simp only [UInt8.le_iff_toNat_le, UInt8.reduceToNat] at hd ⊢
    omega
  · obtain rfl := Option.some.inj h
    have hle : (0x37 : UInt8) ≤ b := UInt8.le_trans (by decide) hc.1
    rw [UInt8.toNat_sub_of_le _ _ hle]
    simp only [UInt8.le_iff_toNat_le, UInt8.reduceToNat] at hc ⊢
    omega
  · obtain rfl := Option.some.inj h
    have hle : (0x57 : UInt8) ≤ b := UInt8.le_trans (by decide) hs.1
    rw [UInt8.toNat_sub_of_le _ _ hle]
    simp only [UInt8.le_iff_toNat_le, UInt8.reduceToNat] at hs ⊢
    omega

theorem escaped?_eq_some_iff {high low b : UInt8} : escaped? high low = some b ↔
    ∃ m n, hexDigit? high = some m ∧ hexDigit? low = some n ∧ 16 * m + n = b := by
  cases hh : hexDigit? high <;> cases hl : hexDigit? low <;> simp [escaped?, hh, hl]

theorem escaped?_eq_none {high low : UInt8} (h : hexDigit? high = none ∨ hexDigit? low = none) :
    escaped? high low = none := by
  rcases h with h | h <;> simp [escaped?, h]

theorem forall_byte {p : UInt8 → Prop} (h : ∀ n < 256, p (UInt8.ofNat n)) (b : UInt8) : p b := by
  have := h b.toNat b.toNat_lt
  rwa [UInt8.ofNat_toNat] at this

/-- A digit that is written is read back, and is no mark. -/
theorem hexChar_spec {n : UInt8} (hn : n < 16) :
    String.utf8EncodeChar (hexChar n) = [UInt8.ofNat (hexChar n).toNat] ∧
      hexDigit? (UInt8.ofNat (hexChar n).toNat) = some n ∧ isPathChar (hexChar n) = true ∧
      (hexChar n).isAlphanum = true :=
  forall_byte (p := fun n => n < 16 → String.utf8EncodeChar (hexChar n) =
      [UInt8.ofNat (hexChar n).toNat] ∧ hexDigit? (UInt8.ofNat (hexChar n).toNat) = some n ∧
      isPathChar (hexChar n) = true ∧ (hexChar n).isAlphanum = true) (by decide +kernel) n hn

theorem div_sixteen_lt (b : UInt8) : b / 16 < 16 := by
  rw [UInt8.lt_iff_toNat_lt, UInt8.toNat_div]
  exact Nat.div_lt_of_lt_mul b.toNat_lt

theorem mod_sixteen_lt (b : UInt8) : b % 16 < 16 := by
  rw [UInt8.lt_iff_toNat_lt, UInt8.toNat_mod]
  exact Nat.mod_lt _ (by decide)

/-! ## Bytes -/

/-- The bytes of the escape of a byte. -/
def escapeBytes (b : UInt8) : List UInt8 :=
  (escapeByte b).flatMap String.utf8EncodeChar

theorem exists_escapeBytes (b : UInt8) :
    ∃ high low, escapeBytes b = [0x25, high, low] ∧ escaped? high low = some b := by
  obtain ⟨hutf, hdigit, -⟩ := hexChar_spec (div_sixteen_lt b)
  obtain ⟨hutf', hdigit', -⟩ := hexChar_spec (mod_sixteen_lt b)
  have hpercent : String.utf8EncodeChar '%' = [0x25] := by decide
  refine ⟨_, _, ?_, escaped?_eq_some_iff.2 ⟨_, _, hdigit, hdigit', ?_⟩⟩
  · simp only [escapeBytes, escapeByte, List.flatMap_cons, List.flatMap_nil, hutf, hutf', hpercent]
    rfl
  · apply UInt8.toNat_inj.1
    have hb := b.toNat_lt
    simp only [UInt8.toNat_add, UInt8.toNat_mul, UInt8.toNat_div, UInt8.toNat_mod,
      UInt8.reduceToNat]
    omega

/-- The byte of the escape that follows a percent sign, and what follows that. -/
def escapeAhead? : List UInt8 → Option (UInt8 × List UInt8)
  | b :: c :: rest => (escaped? b c).map (·, rest)
  | _ => none

theorem decode_percent (bs : List UInt8) :
    decode (0x25 :: bs) = match escapeAhead? bs with
      | some (e, rest) => e :: decode rest
      | none => 0x25 :: decode bs := by
  match bs with
  | [] => rfl
  | [_] => rfl
  | b :: c :: rest =>
    rw [decode, if_pos rfl, escapeAhead?]
    cases escaped? b c <;> rfl

theorem decode_of_ne {b : UInt8} (hb : b ≠ 0x25) (bs : List UInt8) :
    decode (b :: bs) = b :: decode bs := by
  match bs with
  | [] => rfl
  | [_] => rfl
  | _ :: _ :: _ => rw [decode, if_neg hb]

theorem exists_of_escapeAhead? {bs rest : List UInt8} {e : UInt8}
    (h : escapeAhead? bs = some (e, rest)) :
    ∃ high low, bs = high :: low :: rest ∧ escaped? high low = some e := by
  match bs with
  | high :: low :: rest' =>
    rw [escapeAhead?] at h
    obtain ⟨_, he, heq⟩ := Option.map_eq_some_iff.1 h
    obtain ⟨rfl, rfl⟩ := Prod.mk.inj heq
    exact ⟨high, low, rfl, he⟩

/-- A percent sign is no digit, so where an escape begins none is ahead, nor one byte before. -/
theorem escapeAhead?_escapeBytes (b : UInt8) (bs : List UInt8) :
    escapeAhead? (escapeBytes b ++ bs) = none ∧
      ∀ a, escapeAhead? (a :: (escapeBytes b ++ bs)) = none := by
  obtain ⟨high, low, hb, -⟩ := exists_escapeBytes b
  simp only [hb, List.cons_append, escapeAhead?]
  rw [escaped?_eq_none (.inl rfl)]
  exact ⟨rfl, fun a => by rw [escaped?_eq_none (.inr rfl), Option.map_none]⟩

theorem decode_escapeBytes (b : UInt8) (bs : List UInt8) :
    decode (escapeBytes b ++ bs) = b :: decode bs := by
  obtain ⟨high, low, hb, he⟩ := exists_escapeBytes b
  rw [hb, List.cons_append, decode_percent, List.cons_append, List.singleton_append, escapeAhead?,
    he, Option.map_some]

theorem decode_eq_nil_iff {bs : List UInt8} : decode bs = [] ↔ bs = [] := by
  refine ⟨fun h => ?_, fun h => by rw [h]; rfl⟩
  match bs with
  | [] => rfl
  | b :: bs =>
    by_cases hb : b = 0x25
    · subst hb
      rw [decode_percent] at h
      split at h <;> cases h
    · rw [decode_of_ne hb] at h
      cases h

/-- The first byte that is read was written as it is, or as an escape. -/
theorem decode_eq_cons {bs xs : List UInt8} {x : UInt8} (h : decode bs = x :: xs) :
    (∃ rest, bs = x :: rest ∧ decode rest = xs) ∨
      ∃ high low rest, bs = 0x25 :: high :: low :: rest ∧ escaped? high low = some x ∧
        decode rest = xs := by
  match bs with
  | b :: bs =>
    by_cases hb : b = 0x25
    · subst hb
      rw [decode_percent] at h
      cases hahead : escapeAhead? bs with
      | none =>
        rw [hahead] at h
        obtain ⟨rfl, hrest⟩ := List.cons.inj h
        exact .inl ⟨bs, rfl, hrest⟩
      | some found =>
        rw [hahead] at h
        obtain ⟨rfl, hrest⟩ := List.cons.inj h
        obtain ⟨high, low, rfl, he⟩ := exists_of_escapeAhead? hahead
        exact .inr ⟨high, low, found.2, rfl, he, hrest⟩
    · rw [decode_of_ne hb] at h
      obtain ⟨rfl, hrest⟩ := List.cons.inj h
      exact .inl ⟨bs, rfl, hrest⟩

/-! ## Spelling bytes -/

/-- The bytes with some of them escaped. -/
def respell (keeps : UInt8 → Bool) (bs : List UInt8) : List UInt8 :=
  bs.flatMap fun b => if keeps b then [b] else escapeBytes b

section
variable {keeps : UInt8 → Bool}

theorem respell_cons_of_keeps {b : UInt8} (hb : keeps b = true) (bs : List UInt8) :
    respell keeps (b :: bs) = b :: respell keeps bs := by
  rw [respell, List.flatMap_cons, if_pos hb]
  rfl

theorem respell_cons_of_not {b : UInt8} (hb : keeps b = false) (bs : List UInt8) :
    respell keeps (b :: bs) = escapeBytes b ++ respell keeps bs := by
  rw [respell, List.flatMap_cons, if_neg (Bool.eq_false_iff.1 hb)]
  rfl

/-- Where the percent sign is escaped too, the bytes are read back. -/
theorem decode_respell_of_escaped (hpercent : keeps 0x25 = false) (bs : List UInt8) :
    decode (respell keeps bs) = bs := by
  induction bs with
  | nil => rfl
  | cons b bs ih =>
    cases hb : keeps b with
    | false => rw [respell_cons_of_not hb, decode_escapeBytes, ih]
    | true =>
      have hne : b ≠ 0x25 := by
        rintro rfl
        exact Bool.false_ne_true (hpercent.symm.trans hb)
      rw [respell_cons_of_keeps hb, decode_of_ne hne, ih]

/-- What follows a percent sign is an escape iff it was one before. -/
theorem escapeAhead?_respell (hdigits : ∀ b, (hexDigit? b).isSome → keeps b = true)
    (bs : List UInt8) : escapeAhead? (respell keeps bs) =
      (escapeAhead? bs).map fun (e, rest) => (e, respell keeps rest) := by
  have hnot : ∀ {b}, keeps b = false → hexDigit? b = none := fun {b} hb => by
    rw [← Option.not_isSome_iff_eq_none]
    exact fun h => Bool.false_ne_true (hb.symm.trans (hdigits b h))
  -- A byte that is escaped was no digit, and a percent sign stands in its place.
  match bs with
  | [] => rfl
  | [b] =>
    cases hb : keeps b with
    | true => rw [respell_cons_of_keeps hb]; rfl
    | false => rw [respell_cons_of_not hb, (escapeAhead?_escapeBytes b _).1]; rfl
  | b :: c :: rest =>
    cases hb : keeps b with
    | false =>
      rw [respell_cons_of_not hb, (escapeAhead?_escapeBytes b _).1, escapeAhead?,
        escaped?_eq_none (.inl (hnot hb))]
      rfl
    | true =>
      rw [respell_cons_of_keeps hb]
      cases hc : keeps c with
      | false =>
        rw [respell_cons_of_not hc, (escapeAhead?_escapeBytes c _).2, escapeAhead?,
          escaped?_eq_none (.inr (hnot hc))]
        rfl
      | true =>
        rw [respell_cons_of_keeps hc, escapeAhead?, escapeAhead?, Option.map_map]
        rfl

/-- **Where the percent sign and all digits are kept, the bytes stand for the same.** -/
theorem decode_respell (hpercent : keeps 0x25 = true)
    (hdigits : ∀ b, (hexDigit? b).isSome → keeps b = true) (bs : List UInt8) :
    decode (respell keeps bs) = decode bs := by
  match bs with
  | [] => rfl
  | b :: bs =>
    by_cases hb : b = 0x25
    · subst hb
      rw [respell_cons_of_keeps hpercent, decode_percent, decode_percent,
        escapeAhead?_respell hdigits]
      cases h : escapeAhead? bs with
      | none => simp [decode_respell hpercent hdigits bs]
      | some found =>
        obtain ⟨high, low, hbs, -⟩ := exists_of_escapeAhead? h
        have hlength : bs.length = found.2.length + 2 := congrArg List.length hbs
        simp [decode_respell hpercent hdigits found.2]
    · rw [decode_of_ne hb]
      cases hk : keeps b with
      | true => rw [respell_cons_of_keeps hk, decode_of_ne hb, decode_respell hpercent hdigits bs]
      | false =>
        rw [respell_cons_of_not hk, decode_escapeBytes, decode_respell hpercent hdigits bs]
termination_by bs.length
decreasing_by all_goals simp only [List.length_cons]; omega

theorem respell_append (bs bs' : List UInt8) :
    respell keeps (bs ++ bs') = respell keeps bs ++ respell keeps bs' :=
  List.flatMap_append

theorem respell_of_forall_not {bs : List UInt8} (h : ∀ b ∈ bs, keeps b = false) :
    respell keeps bs = (bs.flatMap escapeByte).flatMap String.utf8EncodeChar := by
  rw [List.flatMap_assoc]
  exact List.flatMap_congr fun b hb => if_neg (Bool.eq_false_iff.1 (h b hb))

end

/-! ## Paths -/

/-- The bytes that are written as they are in a path. -/
def isPathByte (b : UInt8) : Bool :=
  b < 0x80 && isPathChar (Char.ofNat b.toNat)

theorem isPathByte_of_isSome_hexDigit? (b : UInt8) :
    (hexDigit? b).isSome → isPathByte b = true :=
  forall_byte (p := fun b => (hexDigit? b).isSome → isPathByte b = true) (by decide +kernel) b

section
variable {c : Char} {cs : List Char}

theorem bounds_of_isPathChar (h : isPathChar c = true) : ' ' < c ∧ c < '\x7f' := by
  simp only [isPathChar, Bool.and_eq_true, decide_eq_true_eq] at h
  exact ⟨h.1.1.1.1.1.1.1.1.1, h.1.1.1.1.1.1.1.1.2⟩

theorem escapePath_cons (c : Char) (cs : List Char) : escapePath (c :: cs) =
    (if isPathChar c then [c] else (String.utf8EncodeChar c).flatMap escapeByte) ++
      escapePath cs :=
  List.flatMap_cons

theorem isPathByte_of_mem_utf8 {b : UInt8} (hb : b ∈ String.utf8EncodeChar c) :
    isPathByte b = isPathChar c := by
  by_cases hc : c.toNat < 0x80
  · rw [utf8_eq_of_lt hc, List.mem_singleton] at hb
    have hnat : b.toNat = c.toNat := by
      rw [hb, UInt8.toNat_ofNat_of_lt' (Nat.lt_trans hc (by decide))]
    have hsmall : b < 0x80 := UInt8.lt_iff_toNat_lt.2 (hnat ▸ hc)
    rw [isPathByte, decide_eq_true hsmall, Bool.true_and, hnat, Char.ofNat_toNat]
  · have hlarge := le_of_mem_utf8 (Nat.not_lt.1 hc) hb
    have hnot : isPathChar c = false := Bool.eq_false_iff.2 fun h =>
      hc (Nat.lt_trans (bounds_of_isPathChar h).2 (by decide))
    rw [isPathByte, decide_eq_false (UInt8.not_lt.2 hlarge), Bool.false_and, hnot]

/-- The bytes of a path that is written are those of the path, some of them escaped. -/
theorem flatMap_utf8_escapePath (cs : List Char) : (escapePath cs).flatMap String.utf8EncodeChar =
    respell isPathByte (cs.flatMap String.utf8EncodeChar) := by
  induction cs with
  | nil => rfl
  | cons c cs ih =>
    rw [escapePath_cons, List.flatMap_append, ih, List.flatMap_cons, respell_append]
    congr 1
    cases hc : isPathChar c with
    | true =>
      have hlt : c.toNat < 0x80 := Nat.lt_trans (bounds_of_isPathChar hc).2 (by decide)
      have hkept : isPathByte (UInt8.ofNat c.toNat) = true := by
        rw [isPathByte_of_mem_utf8 (utf8_eq_of_lt hlt ▸ List.mem_singleton_self _), hc]
      rw [if_pos rfl, List.flatMap_singleton, utf8_eq_of_lt hlt, respell_cons_of_keeps hkept]
      rfl
    | false =>
      rw [if_neg Bool.false_ne_true,
        respell_of_forall_not fun b hb => (isPathByte_of_mem_utf8 hb).trans hc]

/-- **A path stands for the same once it is written.** -/
theorem decode_escapePath (cs : List Char) :
    decode ((escapePath cs).flatMap String.utf8EncodeChar) =
      decode (cs.flatMap String.utf8EncodeChar) := by
  rw [flatMap_utf8_escapePath]
  exact decode_respell rfl isPathByte_of_isSome_hexDigit? _

theorem of_mem_escapeByte {b : UInt8} (hc : c ∈ escapeByte b) :
    isPathChar c = true ∧ (c = '%' ∨ c.isAlphanum = true) := by
  rw [escapeByte] at hc
  rcases List.mem_cons.1 hc with rfl | hc
  · exact ⟨rfl, .inl rfl⟩
  rcases List.mem_cons.1 hc with rfl | hc
  · exact (hexChar_spec (div_sixteen_lt b)).2.2.imp_right .inr
  · rw [List.mem_singleton.1 hc]
    exact (hexChar_spec (mod_sixteen_lt b)).2.2.imp_right .inr

/-- All that is written may stand in a path, and all but the escapes stood there before. -/
theorem of_mem_escapePath (hc : c ∈ escapePath cs) :
    isPathChar c = true ∧ (c ∈ cs ∨ c = '%' ∨ c.isAlphanum = true) := by
  obtain ⟨d, hd, hc⟩ := List.mem_flatMap.1 hc
  split at hc
  · next hpath =>
    obtain rfl := List.mem_singleton.1 hc
    exact ⟨hpath, .inl hd⟩
  · obtain ⟨b, -, hc⟩ := List.mem_flatMap.1 hc
    exact (of_mem_escapeByte hc).imp_right .inr

theorem escapePath_of_forall (h : ∀ d ∈ cs, isPathChar d = true) : escapePath cs = cs := by
  rw [escapePath, List.flatMap_congr fun d hd => if_pos (h d hd), List.flatMap_singleton']

end

end HectocDuel.Url
