/-
  Rounding keeps to powers of two.

  Arithmetic on doubles computes a result exactly, or cut short with a note of what was
  cut off, and rounds it to a mantissa of 53 bits.  A power of two is a double, so what
  is at most a power of two is not rounded beyond it, and likewise from above.

  * `Stands`: what a mantissa with its note of what was cut off stands for;
  * `roundWithAccuracy_cases`: what it is rounded to;
  * `Stands.two_pow_le_rounded` and `Stands.rounded_le_two_pow`: a number on one side of a
    power of two is not rounded to the other;
  * `cut_shiftLeft`, `cut_mul` and `cut_div`: results that are rounded have enough digits.
-/
import HectocDuel.Proofs.Decimal.Equality

namespace HectocDuel.Decimal

open Float.Model (Format totalExponent UnpackedFloat)
open Float.Model.UnpackedFloat

/-! ## Mantissas cut short -/

/-- A mantissa is the whole part of a number, and its bits say whether that is all. -/
structure Stands (em : ExtendedMantissa) (x : ℚ) : Prop where
  le : em.mantissa ≤ x
  lt : x < em.mantissa + 1
  exact_iff : x = em.mantissa ↔ em.roundBit = false ∧ em.stickyBit = false

theorem le_roundedMantissa (em : ExtendedMantissa) : em.mantissa ≤ em.roundedMantissa := by
  obtain ⟨m, roundBit, stickyBit⟩ := em
  cases roundBit <;> cases stickyBit <;>
    simp [ExtendedMantissa.roundedMantissa, ExtendedMantissa.accuracy, Accuracy.roundToNearestEven]

theorem roundedMantissa_le (em : ExtendedMantissa) : em.roundedMantissa ≤ em.mantissa + 1 := by
  obtain ⟨m, roundBit, stickyBit⟩ := em
  cases roundBit <;> cases stickyBit <;>
    simp [ExtendedMantissa.roundedMantissa, ExtendedMantissa.accuracy, Accuracy.roundToNearestEven]
  omega

theorem mantissa_ofMantissaAndAccuracy (m : ℕ) (acc : Accuracy) :
    (ExtendedMantissa.ofMantissaAndAccuracy m acc).mantissa = m := by
  rcases acc with _ | _ | _ | _ <;> rfl

namespace Stands

variable {em : ExtendedMantissa} {x : ℚ}

theorem shiftRightOne (h : Stands em x) : Stands em.shiftRightOne (x / 2) := by
  obtain ⟨m, roundBit, stickyBit⟩ := em
  obtain ⟨hle, hlt, hexact⟩ := h
  simp only at hle hlt hexact
  have hm : (m : ℚ) = 2 * (m / 2 : ℕ) + (m % 2 : ℕ) := by
    exact_mod_cast (Nat.div_add_mod m 2).symm
  have hmod : m % 2 = 0 ∨ m % 2 = 1 := Nat.mod_two_eq_zero_or_one m
  refine ⟨?_, ?_, ?_⟩
  · have : (0 : ℚ) ≤ (m % 2 : ℕ) := Nat.cast_nonneg _
    simp only [ExtendedMantissa.shiftRightOne]
    linarith
  · have : ((m % 2 : ℕ) : ℚ) ≤ 1 := by exact_mod_cast Nat.le_of_lt_succ (Nat.mod_lt m two_pos)
    simp only [ExtendedMantissa.shiftRightOne]
    linarith
  · -- Half of it is whole iff it is whole itself, and even.
    have hwhole : x / 2 = (m / 2 : ℕ) ↔ x = m ∧ m % 2 = 0 := by
      constructor
      · intro hx
        rcases hmod with hmod | hmod
        · exact ⟨by rw [hm, hmod]; push_cast; linarith, hmod⟩
        · rw [hmod] at hm
          push_cast at hm
          linarith
      · rintro ⟨hx, hmod⟩
        rw [hmod] at hm
        push_cast at hm
        linarith
    simp only [ExtendedMantissa.shiftRightOne, hwhole, hexact]
    cases roundBit <;> cases stickyBit <;> simp

theorem shiftRight (h : Stands em x) (k : ℕ) : Stands (em >>> k) (x / 2 ^ k) := by
  induction k with
  | zero => rwa [pow_zero, div_one]
  | succ k ih =>
    rw [pow_succ, ← div_div]
    exact ih.shiftRightOne

theorem le_rounded (h : Stands em x) {b : ℕ} (hb : b ≤ x) : b ≤ em.roundedMantissa := by
  have : b < em.mantissa + 1 := by exact_mod_cast lt_of_le_of_lt hb h.lt
  exact (Nat.le_of_lt_succ this).trans (le_roundedMantissa em)

theorem rounded_le (h : Stands em x) {b : ℕ} (hb : x ≤ b) : em.roundedMantissa ≤ b := by
  have hmb : em.mantissa ≤ b := by exact_mod_cast h.le.trans hb
  rcases hmb.lt_or_eq with hlt | heq
  · exact (roundedMantissa_le em).trans hlt
  · -- Nothing was cut off.
    have hx : x = em.mantissa := le_antisymm (heq ▸ hb) h.le
    obtain ⟨m, roundBit, stickyBit⟩ := em
    obtain ⟨hround, hsticky⟩ := h.exact_iff.1 hx
    simp only at hround hsticky heq
    subst hround hsticky
    exact heq.le

theorem exact (m : ℕ) : Stands (.ofMantissaAndAccuracy m .exact) m :=
  ⟨le_rfl, lt_add_one _, iff_of_true rfl ⟨rfl, rfl⟩⟩

/-- A quotient stands for the fraction, with the note of its remainder. -/
theorem fraction (n : ℕ) {d : ℕ} (hd : 0 < d) :
    Stands (.ofMantissaAndAccuracy (n / d) (accuracyOfFraction (n % d) d)) (n / d) := by
  have hd' : (0 : ℚ) < d := Nat.cast_pos.2 hd
  have hn : (n : ℚ) = d * (n / d : ℕ) + (n % d : ℕ) := by
    exact_mod_cast (Nat.div_add_mod n d).symm
  have hmod : ((n % d : ℕ) : ℚ) < d := Nat.cast_lt.2 (Nat.mod_lt n hd)
  refine ⟨?_, ?_, ?_⟩
  · rw [mantissa_ofMantissaAndAccuracy, le_div_iff₀ hd']
    have : (0 : ℚ) ≤ (n % d : ℕ) := Nat.cast_nonneg _
    linarith
  · rw [mantissa_ofMantissaAndAccuracy, div_lt_iff₀ hd']
    linarith
  · rw [mantissa_ofMantissaAndAccuracy, div_eq_iff hd'.ne', accuracyOfFraction]
    split
    · next hzero => exact iff_of_true (by rw [hn, hzero]; push_cast; ring) ⟨rfl, rfl⟩
    · next hzero =>
      have hpos : (0 : ℚ) < (n % d : ℕ) := Nat.cast_pos.2 (Nat.pos_of_ne_zero hzero)
      refine iff_of_false (fun h => by linarith) ?_
      cases compare (2 * (n % d)) d <;> simp [ExtendedMantissa.ofMantissaAndAccuracy]

end Stands

/-! ## Rounding -/

/-- A result cut short stands for a number, with at least as many digits as are kept. -/
structure Cut (m : ℕ) (e : ℤ) (acc : Accuracy) (q : ℚ) : Prop where
  stands : Stands (.ofMantissaAndAccuracy m acc) (q / 2 ^ e)
  fine : e ≤ Format.binary64.targetExponent (totalExponent m e)

/-- A mantissa and an exponent that a double can have, but for the size of the exponent. -/
structure Canonical (m : ℕ) (e : ℤ) : Prop where
  lt : m < 2 ^ 53
  exponent : -1074 ≤ e
  full : 2 ^ 52 ≤ m ∨ e = -1074

theorem mantissa_shiftRight (em : ExtendedMantissa) (k : ℕ) :
    (em >>> k).mantissa = em.mantissa / 2 ^ k := by
  induction k with
  | zero => rw [pow_zero, Nat.div_one]; rfl
  | succ k ih =>
    change (em >>> k).mantissa / 2 = _
    rw [ih, Nat.div_div_eq_div_mul, ← pow_succ]

theorem targetExponent_eq (m : ℕ) (e : ℤ) :
    Format.binary64.targetExponent (totalExponent m e) = max (m.log2 + e - 52) (-1074) := by
  rw [Format.targetExponent, totalExponent]
  change max ((m.log2 : ℤ) + 1 + e - 53) (-1074) = _
  omega

theorem Cut.shift {m : ℕ} {e : ℤ} {acc : Accuracy} {q : ℚ} (h : Cut m e acc q) :
    ∃ em t, shiftToTargetExponent Format.binary64 m e acc = (em, t) ∧ Stands em (q / 2 ^ t) ∧
      Canonical em.mantissa t := by
  obtain ⟨hstands, hfine⟩ := h
  rw [targetExponent_eq] at hfine
  set t := max ((m.log2 : ℤ) + e - 52) (-1074) with ht
  obtain ⟨k, hk⟩ : ∃ k : ℕ, t = e + k := Int.le.dest hfine |>.imp fun _ h => h.symm
  refine ⟨ExtendedMantissa.ofMantissaAndAccuracy m acc >>> k, t, ?_, ?_, ?_, by omega, ?_⟩
  · rw [shiftToTargetExponent, targetExponent_eq, ← ht, shiftToExponent, hk]
    have : (e + k - e).toNat = k := by omega
    rw [this]
  · have hpow : q / 2 ^ t = q / 2 ^ e / 2 ^ k := by
      rw [hk, zpow_add₀ two_ne_zero, zpow_natCast, div_div]
    rw [hpow]
    exact hstands.shiftRight k
  · rw [mantissa_shiftRight, mantissa_ofMantissaAndAccuracy, Nat.div_lt_iff_lt_mul (by positivity),
      ← pow_add]
    exact Nat.lt_log2_self.trans_le (Nat.pow_le_pow_right two_pos (by omega))
  · by_cases hmin : t = -1074
    · exact .inr hmin
    · have hm : m ≠ 0 := by
        rintro rfl
        rw [Nat.log2_zero] at ht
        omega
      rw [mantissa_shiftRight, mantissa_ofMantissaAndAccuracy]
      refine .inl ((Nat.le_div_iff_mul_le (by positivity)).2 ?_)
      rw [← pow_add, show 52 + k = m.log2 by omega]
      exact Nat.log2_self_le hm

theorem shiftToTargetExponent_of_canonical {m : ℕ} {e : ℤ} (h : Canonical m e) :
    shiftToTargetExponent Format.binary64 m e .exact = (⟨m, false, false⟩, e) := by
  have hlog : m.log2 ≤ 52 := by
    by_cases hm : m = 0
    · simp [hm]
    · exact Nat.le_of_lt_succ ((Nat.log2_lt hm).2 h.lt)
  have := h.exponent
  have ht : (max ((m.log2 : ℤ) + e - 52) (-1074) - e).toNat = 0 := by omega
  rw [shiftToTargetExponent, targetExponent_eq, shiftToExponent, ht, Nat.cast_zero, add_zero]
  rfl

theorem shiftToTargetExponent_carry {e : ℤ} (h : -1074 ≤ e) :
    shiftToTargetExponent Format.binary64 (2 ^ 53) e .exact = (⟨2 ^ 52, false, false⟩, e + 1) := by
  have ht : (max (((2 ^ 53 : ℕ).log2 : ℤ) + e - 52) (-1074) - e).toNat = 1 := by
    rw [Nat.log2_two_pow]
    omega
  rw [shiftToTargetExponent, targetExponent_eq, shiftToExponent, ht]
  rfl

/-- What is rounded has the rounded mantissa, in the form of the format. -/
theorem roundWithAccuracy_cases {m : ℕ} {e : ℤ} {acc : Accuracy} {em : ExtendedMantissa} {t : ℤ}
    (hshift : shiftToTargetExponent Format.binary64 m e acc = (em, t))
    (hc : Canonical em.mantissa t) (s : Sign) :
    (em.roundedMantissa = 0 ∧ roundWithAccuracy Format.binary64 s m e acc = .zero s) ∨
      ∃ m' e' hm, roundWithAccuracy Format.binary64 s m e acc = .finite s m' e' hm ∧
        Canonical m' e' ∧ (m' : ℚ) * 2 ^ e' = em.roundedMantissa * 2 ^ t := by
  have hle := le_roundedMantissa em
  have hle' := roundedMantissa_le em
  obtain ⟨hlt, hexponent, hfull⟩ := hc
  rw [roundWithAccuracy, hshift]
  simp only
  by_cases hcarry : em.roundedMantissa = 2 ^ 53
  · refine .inr ⟨2 ^ 52, t + 1, by positivity, ?_, ⟨by norm_num, by omega, .inl le_rfl⟩, ?_⟩
    · rw [hcarry, shiftToTargetExponent_carry hexponent]
      rfl
    · rw [hcarry, zpow_add₀ two_ne_zero]
      push_cast
      ring
  · have hc' : Canonical em.roundedMantissa t :=
      ⟨by omega, hexponent, hfull.imp_left fun h => h.trans hle⟩
    rw [shiftToTargetExponent_of_canonical hc']
    by_cases hzero : em.roundedMantissa = 0
    · exact .inl ⟨hzero, dif_pos hzero⟩
    · exact .inr ⟨_, _, Nat.pos_of_ne_zero hzero, dif_neg hzero, hc', rfl⟩

/-! ## Powers of two -/

section
variable {q : ℚ} {em : ExtendedMantissa} {t : ℤ} (hst : Stands em (q / 2 ^ t))
  (hc : Canonical em.mantissa t)
include hst hc

theorem Stands.two_pow_le_rounded {k : ℤ} (hk : -1074 ≤ k) (h : 2 ^ k ≤ q) :
    (2 : ℚ) ^ k ≤ em.roundedMantissa * 2 ^ t := by
  have hpos : (0 : ℚ) < 2 ^ t := by positivity
  rcases le_or_gt t k with htk | htk
  · obtain ⟨n, hn⟩ := Int.le.dest htk
    have hb : ((2 ^ n : ℕ) : ℚ) ≤ q / 2 ^ t := by
      rw [le_div_iff₀ hpos]
      push_cast
      rwa [← zpow_natCast, ← zpow_add₀ two_ne_zero, add_comm, hn]
    have hr : ((2 ^ n : ℕ) : ℚ) ≤ em.roundedMantissa := by exact_mod_cast hst.le_rounded hb
    calc (2 : ℚ) ^ k = (2 ^ n : ℕ) * 2 ^ t := by
          push_cast
          rw [← zpow_natCast, ← zpow_add₀ two_ne_zero, add_comm, hn]
      _ ≤ em.roundedMantissa * 2 ^ t := mul_le_mul_of_nonneg_right hr hpos.le
  · -- The mantissa is full, so that the number is far above.
    have hfull : 2 ^ 52 ≤ em.mantissa := hc.full.resolve_right (by omega)
    have hr : (1 : ℚ) ≤ em.roundedMantissa := by
      exact_mod_cast (Nat.one_le_two_pow.trans hfull).trans (le_roundedMantissa em)
    calc (2 : ℚ) ^ k ≤ 2 ^ t := zpow_le_zpow_right₀ one_le_two htk.le
      _ ≤ em.roundedMantissa * 2 ^ t := le_mul_of_one_le_left hpos.le hr

theorem Stands.rounded_le_two_pow {k : ℤ} (hk : -1074 ≤ k) (h : q ≤ 2 ^ k) :
    (em.roundedMantissa : ℚ) * 2 ^ t ≤ 2 ^ k := by
  have hpos : (0 : ℚ) < 2 ^ t := by positivity
  rcases le_or_gt t k with htk | htk
  · obtain ⟨n, hn⟩ := Int.le.dest htk
    have hsplit : (2 : ℚ) ^ k = (2 ^ n : ℕ) * 2 ^ t := by
      push_cast
      rw [← zpow_natCast, ← zpow_add₀ two_ne_zero, add_comm, hn]
    have hb : q / 2 ^ t ≤ (2 ^ n : ℕ) := by
      rw [div_le_iff₀ hpos]
      exact h.trans hsplit.le
    have hr : (em.roundedMantissa : ℚ) ≤ (2 ^ n : ℕ) := by exact_mod_cast hst.rounded_le hb
    exact (mul_le_mul_of_nonneg_right hr hpos.le).trans hsplit.ge
  · -- The mantissa is full, so that the number cannot be below.
    have hfull : 2 ^ 52 ≤ em.mantissa := hc.full.resolve_right (by omega)
    have hm : (1 : ℚ) ≤ em.mantissa := by exact_mod_cast Nat.one_le_two_pow.trans hfull
    have hq : (2 : ℚ) ^ t ≤ q := (one_le_div hpos).1 (hm.trans hst.le)
    have hlt : (2 : ℚ) ^ k < 2 ^ t := zpow_lt_zpow_right₀ one_lt_two htk
    linarith

end

/-! ## Results before they are rounded -/

/-- A number may be given more digits before it is rounded. -/
theorem cut_shiftLeft {m : ℕ} (hm : 0 < m) (e : ℤ) :
    let k := (e - Format.binary64.targetExponent (totalExponent m e)).toNat
    Cut (m <<< k) (e - k) .exact (m * 2 ^ e) := by
  intro k
  have hk : k = (e - max ((m.log2 : ℤ) + e - 52) (-1074)).toNat := by rw [← targetExponent_eq]
  refine ⟨?_, ?_⟩
  · have hv : (m : ℚ) * 2 ^ e / 2 ^ (e - k : ℤ) = (m <<< k : ℕ) := by
      rw [mul_div_assoc, ← zpow_sub₀ two_ne_zero, sub_sub_cancel, zpow_natCast, Nat.shiftLeft_eq]
      push_cast
      rfl
    rw [hv]
    exact Stands.exact _
  · rw [targetExponent_eq, Nat.shiftLeft_eq, log2_mul_two_pow hm]
    push_cast
    omega

/-- A product is exact, and has enough digits if one of its factors has them all. -/
theorem cut_mul {m n : ℕ} {e f : ℤ} (hm : 0 < m) (hn : 0 < n) (hx : Canonical m e)
    (hy : Canonical n f) : Cut (m * n) (e + f) .exact (m * 2 ^ e * (n * 2 ^ f)) := by
  refine ⟨?_, ?_⟩
  · have hv : (m : ℚ) * 2 ^ e * (n * 2 ^ f) / 2 ^ (e + f) = (m * n : ℕ) := by
      rw [zpow_add₀ two_ne_zero]
      push_cast
      field_simp
    rw [hv]
    exact Stands.exact _
  · -- One of the mantissas is full, or both exponents are the least.
    rw [targetExponent_eq]
    by_cases hfull : 2 ^ 52 ≤ m * n
    · have : 52 ≤ (m * n).log2 := (Nat.le_log2 (by positivity)).2 hfull
      omega
    · have hme : e = -1074 := hx.full.resolve_left fun h =>
        hfull (h.trans (Nat.le_mul_of_pos_right m hn))
      have hnf : f = -1074 := hy.full.resolve_left fun h =>
        hfull (h.trans (Nat.le_mul_of_pos_left n hm))
      omega

/-- A dividend that is 53 digits longer than the divisor gives 53 digits. -/
theorem le_log2_quotient {m n k : ℕ} (hm : 0 < m) (hn : 0 < n) (h : n.log2 + 53 ≤ m.log2 + k) :
    52 ≤ (m * 2 ^ k / n).log2 := by
  have hquotient : 2 ^ 52 ≤ m * 2 ^ k / n := by
    rw [Nat.le_div_iff_mul_le hn]
    calc 2 ^ 52 * n ≤ 2 ^ 52 * 2 ^ (n.log2 + 1) := Nat.mul_le_mul_left _ Nat.lt_log2_self.le
      _ = 2 ^ (n.log2 + 53) := by rw [← pow_add, Nat.add_comm, Nat.add_assoc]
      _ ≤ 2 ^ (m.log2 + k) := Nat.pow_le_pow_right two_pos h
      _ = 2 ^ m.log2 * 2 ^ k := pow_add 2 _ _
      _ ≤ m * 2 ^ k := Nat.mul_le_mul_right _ (Nat.log2_self_le hm.ne')
  have hpos : 0 < m * 2 ^ k / n := (Nat.two_pow_pos 52).trans_le hquotient
  exact (Nat.le_log2 hpos.ne').2 hquotient

/-- A quotient is cut short, with a note of its remainder. -/
theorem cut_div {m n : ℕ} (e f : ℤ) (hm : 0 < m) (hn : 0 < n) :
    ∃ q t acc, divCore Format.binary64 m e n f = (q, t, acc) ∧
      Cut q t acc (m * 2 ^ e / (n * 2 ^ f)) := by
  set t := min (e - f) (Format.binary64.targetExponent (totalExponent m e - totalExponent n f))
    with ht
  obtain ⟨k, hk⟩ : ∃ k : ℕ, t + k = e - f := Int.le.dest (min_le_left _ _)
  have hcore : divCore Format.binary64 m e n f =
      (m * 2 ^ k / n, t, accuracyOfFraction (m * 2 ^ k % n) n) := by
    have hshift : (e - f - t).toNat = k := by omega
    rw [divCore, ← ht]
    simp only [hshift, Nat.shiftLeft_eq]
  refine ⟨_, _, _, hcore, ?_, ?_⟩
  · have hv : (m : ℚ) * 2 ^ e / (n * 2 ^ f) / 2 ^ t = (m * 2 ^ k : ℕ) / n := by
      have he : e = f + t + k := by omega
      rw [he, zpow_add₀ two_ne_zero, zpow_add₀ two_ne_zero, zpow_natCast]
      push_cast
      field_simp
    rw [hv]
    exact Stands.fraction _ hn
  · rw [targetExponent_eq]
    rcases le_or_gt t (-1074) with hmin | hmin
    · exact hmin.trans (le_max_right _ _)
    · -- The dividend was prolonged so that the quotient has all digits that are kept.
      have htarget : t ≤ max ((m.log2 : ℤ) + 1 + e - (n.log2 + 1 + f) - 53) (-1074) :=
        min_le_right _ _
      have := le_log2_quotient hm hn (k := k) (by omega)
      omega

end HectocDuel.Decimal
