/-
  Writing a number and reading it.

  Digits behind a number would prolong it, as would a point or an exponent, so a number is
  read as it is written only in front of something else.

  * `ofDigits_digitsOf`: the digits of a number write that number;
  * `Numeral.WellFormed`: how numbers are written in JSON;
  * `scanNumber_render` and `wellFormed_of_scanNumber`: they are scanned as they are
    written, in front of a mark, and no other numbers are;
  * `number?_ofNat`: a number of 64 bits is read as that integer.
-/
import HectocDuel.Json.Number

namespace HectocDuel.Json

/-! ## Digits -/

theorem ofDigits_concat (ds : List Nat) (d : Nat) :
    ofDigits (ds ++ [d]) = 10 * ofDigits ds + d := by
  rw [ofDigits, List.foldl_append, ← ofDigits, List.foldl_cons, List.foldl_nil]

namespace Numeral

theorem digitsOf_of_lt {n : Nat} (h : n < 10) : digitsOf n = [n] := by
  rw [digitsOf, if_pos h]

theorem digitsOf_of_ge {n : Nat} (h : ¬ n < 10) : digitsOf n = digitsOf (n / 10) ++ [n % 10] := by
  rw [digitsOf, if_neg h]

/-- **The digits of a number write that number.** -/
theorem ofDigits_digitsOf (n : Nat) : ofDigits (digitsOf n) = n := by
  induction n using digitsOf.induct with
  | case1 n h =>
    rw [digitsOf_of_lt h]
    exact Nat.zero_add n
  | case2 n h ih => rw [digitsOf_of_ge h, ofDigits_concat, ih, Nat.div_add_mod]

theorem lt_ten_of_mem_digitsOf {n d : Nat} (h : d ∈ digitsOf n) : d < 10 := by
  induction n using digitsOf.induct with
  | case1 n hn =>
    rw [digitsOf_of_lt hn, List.mem_singleton] at h
    exact h ▸ hn
  | case2 n hn ih =>
    rw [digitsOf_of_ge hn] at h
    rcases List.mem_append.1 h with h | h
    · exact ih h
    · exact List.mem_singleton.1 h ▸ Nat.mod_lt n (by decide)

theorem digitsOf_eq (n : Nat) : ∃ d ds, digitsOf n = d :: ds ∧ (d = 0 → ds = []) := by
  suffices h : ∃ d ds, digitsOf n = d :: ds ∧ (d = 0 → n = 0) by
    obtain ⟨d, ds, hds, hzero⟩ := h
    refine ⟨d, ds, hds, fun hd => ?_⟩
    rw [hzero hd, digitsOf_of_lt (by decide)] at hds
    exact (List.cons.inj hds).2.symm
  induction n using digitsOf.induct with
  | case1 n h => exact ⟨n, [], digitsOf_of_lt h, fun hn => hn⟩
  | case2 n h ih =>
    obtain ⟨d, ds, hds, hzero⟩ := ih
    refine ⟨d, ds ++ [n % 10], by rw [digitsOf_of_ge h, hds, List.cons_append], fun hd => ?_⟩
    have := hzero hd
    omega

end Numeral

/-! ## Scanning -/

/-- A text that prolongs no number in front of it: it ends, or begins with a mark. -/
def Delimits (bs : List UInt8) : Prop :=
  ∀ b ∈ bs.head?, (mark? b).isSome

theorem mark?_spec {b : UInt8} (h : (mark? b).isSome) :
    isBlankByte b = false ∧ isDigitByte b = false ∧ b ≠ byte '.' ∧
      ¬ (b = byte 'e' ∨ b = byte 'E') := by
  rw [mark?] at h
  iterate 6
    split at h
    · next heq => subst heq; decide
  cases h

theorem digitByte_spec {d : Nat} (h : d < 10) :
    isDigitByte (digitByte d) = true ∧ (digitByte d - byte '0').toNat = d ∧
      isBlankByte (digitByte d) = false := by
  revert d
  decide

theorem digitByte_ne_sign {d : Nat} (h : d < 10) :
    digitByte d ≠ byte '-' ∧ digitByte d ≠ byte '+' := by
  revert d
  decide

theorem scanLexeme_digitByte {d : Nat} (h : d < 10) (bs : List UInt8) :
    scanLexeme (digitByte d) bs = scanNumber false (digitByte d :: bs) := by
  have hother : mark? (digitByte d) = none ∧ ¬ digitByte d = byte '"' ∧
      ¬ digitByte d = byte 'n' ∧ ¬ digitByte d = byte 't' ∧ ¬ digitByte d = byte 'f' ∧
      ¬ digitByte d = byte '-' := by
    revert d
    decide
  obtain ⟨hmark, h₁, h₂, h₃, h₄, h₅⟩ := hother
  rw [scanLexeme, hmark]
  simp only [if_neg h₁, if_neg h₂, if_neg h₃, if_neg h₄, if_neg h₅, (digitByte_spec h).1, if_true]

theorem scanLexeme_minus (bs : List UInt8) : scanLexeme (byte '-') bs = scanNumber true bs :=
  rfl

theorem spanDigits_append {ds : List Nat} (hds : ∀ d ∈ ds, d < 10) {bs : List UInt8}
    (h : ∀ b ∈ bs.head?, isDigitByte b = false) :
    spanDigits (ds.map digitByte ++ bs) = (ds, bs) := by
  induction ds with
  | nil =>
    cases bs with
    | nil => rfl
    | cons b bs =>
      rw [List.map_nil, List.nil_append, spanDigits, h b rfl, if_neg Bool.false_ne_true]
  | cons d ds ih =>
    obtain ⟨hd, hds⟩ := List.forall_mem_cons.1 hds
    obtain ⟨hdigit, hvalue, -⟩ := digitByte_spec hd
    rw [List.map_cons, List.cons_append, spanDigits, hdigit, if_pos rfl, ih hds, hvalue]

theorem digitValue_lt_ten {b : UInt8} (h : isDigitByte b = true) : (b - byte '0').toNat < 10 := by
  simp only [isDigitByte, Bool.and_eq_true, decide_eq_true_eq] at h
  have hle : (48 : Nat) ≤ b.toNat ∧ b.toNat ≤ 57 := h
  rw [UInt8.toNat_sub_of_le _ _ h.1]
  change b.toNat - 48 < 10
  omega

theorem lt_ten_of_spanDigits (bs : List UInt8) : ∀ d ∈ (spanDigits bs).1, d < 10 := by
  have hnone : ∀ d ∈ ([] : List Nat), d < 10 := nofun
  induction bs with
  | nil => exact hnone
  | cons b bs ih =>
    rw [spanDigits]
    split
    · next hb => exact List.forall_mem_cons.2 ⟨digitValue_lt_ten hb, ih⟩
    · exact hnone

/-! ## Numerals -/

/-- The digits before a point: at least one, and no zero in front of another. -/
def IsWhole (ds : List Nat) : Prop :=
  ∃ d ds', ds = d :: ds' ∧ (d = 0 → ds' = [])

/-- A numeral is written as numbers are in JSON. -/
structure Numeral.WellFormed (n : Numeral) : Prop where
  isWhole : IsWhole n.whole
  whole : ∀ d ∈ n.whole, d < 10
  fraction : ∀ d ∈ n.fraction, d < 10
  exponent : ∀ e ∈ n.exponent, e.2 ≠ [] ∧ ∀ d ∈ e.2, d < 10

/-- How the digits behind a point are written. -/
def fractionText (ds : List Nat) : List UInt8 :=
  if ds = [] then [] else byte '.' :: ds.map digitByte

/-- How an exponent is written. -/
def exponentText : Option (Bool × List Nat) → List UInt8
  | none => []
  | some (negative, ds) => byte 'e' :: ((if negative then [byte '-'] else []) ++ ds.map digitByte)

theorem Numeral.render_eq (n : Numeral) :
    n.render = (if n.negative then [byte '-'] else []) ++
      (n.whole.map digitByte ++ (fractionText n.fraction ++ exponentText n.exponent)) := by
  obtain ⟨negative, whole, fraction, _ | ⟨minus, ds⟩⟩ := n <;>
    simp [render, fractionText, exponentText]

theorem scanWhole_append {ds : List Nat} (hds : IsWhole ds) (hlt : ∀ d ∈ ds, d < 10)
    {bs : List UInt8} (h : ∀ b ∈ bs.head?, isDigitByte b = false) :
    scanWhole (ds.map digitByte ++ bs) = some (ds, bs) := by
  rw [scanWhole, spanDigits_append hlt h]
  obtain ⟨d, ds', rfl, hzero⟩ := hds
  split
  · next heq => cases heq
  · next heq =>
    obtain ⟨rfl, rfl⟩ := List.cons.inj (Prod.mk.inj heq).1
    cases hzero rfl
  · next heq =>
    obtain ⟨rfl, rfl⟩ := Prod.mk.inj heq
    rfl

theorem scanFraction_append {ds : List Nat} (hlt : ∀ d ∈ ds, d < 10) {bs : List UInt8}
    (h : ∀ b ∈ bs.head?, isDigitByte b = false ∧ b ≠ byte '.') :
    scanFraction (fractionText ds ++ bs) = some (ds, bs) := by
  cases ds with
  | nil =>
    cases bs with
    | nil => rfl
    | cons b bs => exact if_neg (h b rfl).2
  | cons d ds =>
    rw [fractionText, if_neg (List.cons_ne_nil d ds), List.cons_append, scanFraction, if_pos rfl,
      spanDigits_append hlt fun b hb => (h b hb).1]

theorem scanExponent_append {e : Option (Bool × List Nat)}
    (he : ∀ p ∈ e, p.2 ≠ [] ∧ ∀ d ∈ p.2, d < 10) {bs : List UInt8} (h : Delimits bs) :
    scanExponent (exponentText e ++ bs) = some (e, bs) := by
  rcases e with _ | ⟨negative, ds⟩
  · cases bs with
    | nil => rfl
    | cons b bs => exact if_neg (mark?_spec (h b rfl)).2.2.2
  · obtain ⟨hne, hlt⟩ := he _ rfl
    have hspan := spanDigits_append hlt fun b hb => (mark?_spec (h b hb)).2.1
    have hsign : spanSign ((if negative then [byte '-'] else []) ++ ds.map digitByte ++ bs) =
        (negative, ds.map digitByte ++ bs) := by
      obtain ⟨d, ds, rfl⟩ := List.exists_cons_of_ne_nil hne
      have hd : digitByte d ≠ byte '-' ∧ digitByte d ≠ byte '+' :=
        digitByte_ne_sign (hlt d List.mem_cons_self)
      cases negative with
      | true => rfl
      | false => simp [spanSign, hd.1, hd.2]
    rw [exponentText, List.cons_append, scanExponent, if_pos (.inl rfl), hsign, hspan]
    split
    · next heq => exact absurd (Prod.mk.inj heq).1 hne
    · next heq =>
      obtain ⟨rfl, rfl⟩ := Prod.mk.inj heq
      rfl

/-- **A number is scanned as it is written**, in front of a mark. -/
theorem scanNumber_render {n : Numeral} (hn : n.WellFormed) {bs : List UInt8} (h : Delimits bs) :
    scanNumber n.negative (n.whole.map digitByte ++
      (fractionText n.fraction ++ (exponentText n.exponent ++ bs))) = some (.number n, bs) := by
  have hexponent : ∀ b ∈ (exponentText n.exponent ++ bs).head?,
      isDigitByte b = false ∧ b ≠ byte '.' := by
    rcases n.exponent with _ | ⟨negative, ds⟩
    · exact fun b hb => ⟨(mark?_spec (h b hb)).2.1, (mark?_spec (h b hb)).2.2.1⟩
    · exact fun b hb => Option.some.inj hb ▸ by decide
  have hfraction : ∀ b ∈ (fractionText n.fraction ++ (exponentText n.exponent ++ bs)).head?,
      isDigitByte b = false := by
    rw [fractionText]
    split
    · exact fun b hb => (hexponent b hb).1
    · exact fun b hb => Option.some.inj hb ▸ by decide
  simp only [scanNumber, scanWhole_append hn.isWhole hn.whole hfraction,
    scanFraction_append hn.fraction hexponent, scanExponent_append hn.exponent h, bind,
    Option.bind_some]
  rfl

theorem lt_ten_of_spanDigits_eq {bs rest : List UInt8} {ds : List Nat}
    (h : spanDigits bs = (ds, rest)) : ∀ d ∈ ds, d < 10 := by
  have := lt_ten_of_spanDigits bs
  rwa [h] at this

theorem of_scanWhole {bs rest : List UInt8} {ds : List Nat} (h : scanWhole bs = some (ds, rest)) :
    IsWhole ds ∧ ∀ d ∈ ds, d < 10 := by
  rw [scanWhole] at h
  split at h
  · cases h
  · cases h
  · next hnil hzero hspan =>
    obtain ⟨rfl, rfl⟩ := Prod.mk.inj (Option.some.inj h)
    refine ⟨?_, lt_ten_of_spanDigits_eq hspan⟩
    obtain ⟨d, ds, rfl⟩ := List.exists_cons_of_ne_nil hnil
    refine ⟨d, ds, rfl, ?_⟩
    rintro rfl
    cases ds with
    | nil => rfl
    | cons d ds => exact absurd rfl (hzero d ds)

theorem of_scanFraction {bs rest : List UInt8} {ds : List Nat}
    (h : scanFraction bs = some (ds, rest)) : ∀ d ∈ ds, d < 10 := by
  have hnone : ∀ d ∈ ([] : List Nat), d < 10 := nofun
  cases bs with
  | nil => exact (Prod.mk.inj (Option.some.inj h)).1 ▸ hnone
  | cons b bs =>
    rw [scanFraction] at h
    split at h
    · split at h
      · cases h
      · next hspan =>
        obtain ⟨rfl, rfl⟩ := Prod.mk.inj (Option.some.inj h)
        exact lt_ten_of_spanDigits_eq hspan
    · exact (Prod.mk.inj (Option.some.inj h)).1 ▸ hnone

theorem of_scanExponent {bs rest : List UInt8} {e : Option (Bool × List Nat)}
    (h : scanExponent bs = some (e, rest)) : ∀ p ∈ e, p.2 ≠ [] ∧ ∀ d ∈ p.2, d < 10 := by
  intro p hp
  obtain rfl : e = some p := hp
  cases bs with
  | nil => cases (Prod.mk.inj (Option.some.inj h)).1
  | cons b bs =>
    rw [scanExponent] at h
    split at h
    · split at h
      · cases h
      · next hnil hspan =>
        obtain rfl := Option.some.inj (Prod.mk.inj (Option.some.inj h)).1
        exact ⟨hnil, lt_ten_of_spanDigits_eq hspan⟩
    · cases (Prod.mk.inj (Option.some.inj h)).1

theorem wellFormed_of_scanNumber {negative : Bool} {bs rest : List UInt8} {l : Lexeme}
    (h : scanNumber negative bs = some (l, rest)) : ∃ n, l = .number n ∧ n.WellFormed := by
  simp only [scanNumber, bind, Option.bind_eq_some_iff, pure, Option.some.injEq,
    Prod.mk.injEq] at h
  obtain ⟨⟨whole, bs₁⟩, hwhole, ⟨fraction, bs₂⟩, hfraction, ⟨exponent, bs₃⟩, hexponent, rfl, -⟩ := h
  obtain ⟨hw, hlt⟩ := of_scanWhole hwhole
  exact ⟨_, rfl, hw, hlt, of_scanFraction hfraction, of_scanExponent hexponent⟩

theorem Numeral.wellFormed_ofNat (n : Nat) : (Numeral.ofNat n).WellFormed :=
  ⟨Numeral.digitsOf_eq n, fun _ => Numeral.lt_ten_of_mem_digitsOf, nofun, nofun⟩

/-! ## Values -/

/-- **A number of 64 bits is read as that integer.** -/
theorem number?_ofNat {n : Nat} (h : n < significandBound) :
    (Numeral.ofNat n).number? = some (.integer n) := by
  rw [Numeral.number?, Numeral.ofNat, Numeral.ofDigits_digitsOf]
  exact if_pos ⟨rfl, rfl, h⟩

end HectocDuel.Json
