/-
  Doubles in order, and the integers next to them.

  Doubles are compared by sign, exponent and mantissa.  A mantissa that does not use all its
  bits has the least exponent, so that this is the order of their values.

  * `above_of_le` and `below_of_le`: what a comparison with a double says of a value;
  * `unpack_neg_div`: a quotient turns its sign with its dividend;
  * `nearestInt_mem`: a value between two whole numbers is rounded to an integer between
    them.
-/
import HectocDuel.Decimal.Binary
import HectocDuel.Proofs.Decimal.Arithmetic

namespace HectocDuel.Decimal

open Float.Model (Format totalExponent UnpackedFloat)
open Float.Model.UnpackedFloat

/-! ## Comparison -/

theorem le_iff_compare {x y : Float} :
    x ≤ y ↔ (x.toModel.unpack.compare y.toModel.unpack).any Ordering.isLE :=
  decide_eq_true_iff

theorem Canonical.value_lt {m n : ℕ} {e f : ℤ} (hm : Canonical m e) (hn : Canonical n f)
    (h : e < f) : (m : ℚ) * 2 ^ e < n * 2 ^ f := by
  have hfull : 2 ^ 52 ≤ n := hn.full.resolve_right (by have := hm.exponent; omega)
  have hm' : (m : ℚ) < 2 ^ (53 : ℕ) := by exact_mod_cast hm.lt
  have hn' : (2 : ℚ) ^ (52 : ℕ) ≤ n := by exact_mod_cast hfull
  have hstep : (2 : ℚ) ^ (e + 1) ≤ 2 ^ f := zpow_le_zpow_right₀ one_le_two h
  calc (m : ℚ) * 2 ^ e < 2 ^ (53 : ℕ) * 2 ^ e := mul_lt_mul_of_pos_right hm' (by positivity)
    _ = 2 ^ (52 : ℕ) * 2 ^ (e + 1) := by rw [zpow_add₀ two_ne_zero]; ring
    _ ≤ n * 2 ^ f := by gcongr

/-- Exponents and mantissas are compared as the numbers are. -/
theorem Canonical.value_le {m n : ℕ} {e f : ℤ} (hm : Canonical m e) (hn : Canonical n f)
    (h : ((compare e f).then (compare m n)).isLE) : (m : ℚ) * 2 ^ e ≤ n * 2 ^ f := by
  rcases lt_trichotomy e f with hlt | rfl | hgt
  · exact (hm.value_lt hn hlt).le
  · have hmn : m ≤ n := by
      rw [compare_eq_iff_eq.2 rfl] at h
      exact Nat.isLE_compare.1 h
    have : (m : ℚ) ≤ n := by exact_mod_cast hmn
    gcongr
  · rw [compare_gt_iff_gt.2 hgt] at h
    cases h

section
variable {x y : Float} {b : ℚ}

theorem above_of_le (hy : Reads y b) (hb : 0 ≤ b) (h : y ≤ x) : Above b x := by
  rw [le_iff_compare] at h
  rcases hy.cases hb with ⟨rfl, s, hyu⟩ | ⟨n, f, hn, hyu, hyc, rfl⟩
  · rw [hyu] at h
    cases hxu : x.toModel.unpack with
    | infinity s => cases s <;> simp_all [UnpackedFloat.compare, Above]
    | notANumber => simp [hxu, UnpackedFloat.compare] at h
    | zero s => exact .inr ⟨0, by rw [Reads, hxu]; rfl, le_rfl⟩
    | finite s m e hm =>
      cases s with
      | negative => simp [hxu, UnpackedFloat.compare] at h
      | positive => exact .inr ⟨m * 2 ^ e, by rw [Reads, hxu]; rfl, by positivity⟩
  · rw [hyu] at h
    cases hxu : x.toModel.unpack with
    | infinity s => cases s <;> simp_all [UnpackedFloat.compare, Above]
    | notANumber => simp [hxu, UnpackedFloat.compare] at h
    | zero s => simp [hxu, UnpackedFloat.compare] at h
    | finite s m e hm =>
      cases s with
      | negative => simp [hxu, UnpackedFloat.compare] at h
      | positive =>
        rw [hxu] at h
        exact .inr ⟨m * 2 ^ e, by rw [Reads, hxu]; rfl,
          hyc.value_le (canonical_of_unpack hxu) h⟩

theorem below_of_le (hx : Above 0 x) (hy : Reads y b) (hb : 0 ≤ b) (h : x ≤ y) : Below b x := by
  rw [le_iff_compare] at h
  rcases hx with hxu | ⟨v, hxv, hv⟩
  · rcases hy.cases hb with ⟨-, s, hyu⟩ | ⟨n, f, hn, hyu, -⟩ <;>
      simp [hxu, hyu, UnpackedFloat.compare] at h
  · refine ⟨v, hxv, ?_⟩
    rcases hxv.cases hv with ⟨rfl, -⟩ | ⟨m, e, hm, hxu, hxc, rfl⟩
    · exact hb
    · rcases hy.cases hb with ⟨-, s, hyu⟩ | ⟨n, f, hn, hyu, hyc, rfl⟩
      · simp [hxu, hyu, UnpackedFloat.compare] at h
      · rw [hxu, hyu] at h
        exact hxc.value_le hyc h

theorem zero_le_of_above (h : Above 0 x) : 0 ≤ x := by
  have h0 : (0 : Float).toModel.unpack = .zero .positive := rfl
  rw [le_iff_compare, h0]
  rcases h with hxu | ⟨v, hxv, hv⟩
  · rw [hxu]
    rfl
  · rcases hxv.cases hv with ⟨-, s, hxu⟩ | ⟨m, e, hm, hxu, -⟩ <;> rw [hxu] <;> rfl

end

/-! ## Signs -/

theorem stored_neg (u : UnpackedFloat) : stored u.neg = (stored u).neg := by
  cases u with
  | notANumber => rfl
  | infinity s => cases s <;> rfl
  | zero s => cases s <;> rfl
  | finite s m e hm =>
    have hneg : (UnpackedFloat.finite s m e hm).neg = .finite (-s) m e hm := rfl
    simp only [stored, hneg, UnpackedFloat.pack]
    split
    · cases s <;> rfl
    · split <;> rw [unpack_packComponents, unpack_packComponents, neg_ofFields]

theorem roundWithAccuracy_neg (s : Sign) (m : ℕ) (e : ℤ) (acc : Accuracy) :
    roundWithAccuracy Format.binary64 (-s) m e acc =
      (roundWithAccuracy Format.binary64 s m e acc).neg := by
  simp only [roundWithAccuracy]
  split <;> rfl

theorem div_neg_unpacked (u v : UnpackedFloat) :
    div Format.binary64 u.neg v = (div Format.binary64 u v).neg := by
  have hs : ∀ s t : Sign, -s / t = -(s / t) := fun s t => by cases s <;> cases t <;> rfl
  cases u <;> cases v <;> simp only [UnpackedFloat.neg, div, hs, roundWithAccuracy_neg]

/-- **A quotient turns its sign with its dividend.** -/
theorem unpack_neg_div (x y : Float) : (-x / y).toModel.unpack = (x / y).toModel.unpack.neg := by
  have hneg : (-x).toModel.unpack = x.toModel.unpack.neg :=
    (stored_neg x.toModel.unpack).trans (congrArg _ (stored_unpack x))
  calc (-x / y).toModel.unpack
    _ = stored (div Format.binary64 (-x).toModel.unpack y.toModel.unpack) := rfl
    _ = stored (div Format.binary64 x.toModel.unpack y.toModel.unpack).neg := by
      rw [hneg, div_neg_unpacked]
    _ = (x / y).toModel.unpack.neg := stored_neg _

theorem le_zero_of_neg {x y : Float} (hx : Above 0 x)
    (hy : y.toModel.unpack = x.toModel.unpack.neg) : y ≤ 0 := by
  have h0 : (0 : Float).toModel.unpack = .zero .positive := rfl
  rw [le_iff_compare, h0, hy]
  rcases hx with hxu | ⟨v, hxv, hv⟩
  · rw [hxu]
    rfl
  · rcases hxv.cases hv with ⟨-, s, hxu⟩ | ⟨m, e, hm, hxu, -⟩ <;> rw [hxu] <;> rfl

/-! ## Integers -/

/-- The magnitude with the given exponent field and mantissa field. -/
def magnitude (e : BitVec 11) (m : BitVec 52) : Binary :=
  if e.toNat = 0 then ⟨m.toNat, -1074⟩ else ⟨2 ^ 52 + m.toNat, (e.toNat : ℤ) - 1075⟩

/-- A number with given fields is infinite, or has their magnitude as value. -/
theorem value?_ofFields (s : Sign) (e : BitVec 11) (m : BitVec 52) :
    value? (ofFields s e m) = if e = -1#11 then none
      else some ((s.apply (magnitude e m).mantissa : ℤ) * (2 : ℚ) ^ (magnitude e m).exponent) := by
  rw [ofFields]
  split
  · split <;> rfl
  · split
    · next he =>
      subst he
      split
      · next hm =>
        subst hm
        cases s <;> simp [value?, magnitude, Sign.apply]
      · rfl
    · next he =>
      have he' : e.toNat ≠ 0 := fun h => he (BitVec.eq_of_toNat_eq h)
      rw [magnitude, if_neg he']
      rfl

theorem exists_fields (x : Float) :
    ∃ (s : Sign) (e : BitVec 11) (m : BitVec 52), x.toModel.unpack = ofFields s e m ∧
      Binary.ofBits x.toBits = magnitude e m ∧
      (isNegativeBits x.toBits = true → s = .negative) := by
  set b := x.toModel.toBits.toBitVec with hb
  have hbits : x.toBits.toNat = b.toNat := rfl
  have hm : (@unpackMantissa Format.binary64 b).toNat = b.toNat % 2 ^ 52 := by
    simp [unpackMantissa]
  have he : (@unpackExponent Format.binary64 b).toNat = b.toNat / 2 ^ 52 % 2 ^ 11 := by
    simp [unpackExponent, Nat.shiftRight_eq_div_pow]
  have hs : (@unpackSign Format.binary64 b).toNat = b.toNat / 2 ^ 63 % 2 := by
    simp [unpackSign, Nat.shiftRight_eq_div_pow]
  refine ⟨_, _, _, unpack_eq_ofFields b, ?_, fun hneg => if_neg fun hzero => ?_⟩
  · rw [magnitude, hm, he]
    rfl
  · rw [isNegativeBits, decide_eq_true_eq, hbits] at hneg
    rw [hzero] at hs
    have hlt := b.isLt
    change b.toNat < 2 ^ 64 at hlt
    change 2 ^ 63 ≤ b.toNat at hneg
    change 0 = _ at hs
    omega

theorem Reads.ofBits {x : Float} {v : ℚ} (h : Reads x v) (hv : 0 ≤ v) :
    v = (Binary.ofBits x.toBits).mantissa * 2 ^ (Binary.ofBits x.toBits).exponent ∧
      ((Binary.ofBits x.toBits).mantissa = 0 ∨ isNegativeBits x.toBits = false) := by
  obtain ⟨s, e, m, hu, hbits, hneg⟩ := exists_fields x
  rw [Reads, hu, value?_ofFields] at h
  split at h
  · cases h
  · have hval := Option.some.inj h
    rw [hbits]
    cases s with
    | positive => exact ⟨hval.symm, .inr (Bool.eq_false_iff.2 fun hn => Sign.noConfusion (hneg hn))⟩
    | negative =>
      -- Only a zero is negative and yet not less than zero.
      have hmantissa : (magnitude e m).mantissa = 0 := by
        by_contra hne
        have hpos : (0 : ℚ) < (magnitude e m).mantissa * 2 ^ (magnitude e m).exponent :=
          mul_pos (Nat.cast_pos.2 (Nat.pos_of_ne_zero hne)) (by positivity)
        simp only [Sign.apply, Int.cast_neg, Int.cast_natCast] at hval
        linarith
      rw [hmantissa] at hval ⊢
      exact ⟨hval.symm.trans (by simp [Sign.apply]), .inl rfl⟩

/-- A magnitude is rounded to a whole number on the same side of each whole number. -/
theorem Binary.nearest_le {x : Binary} {b : ℕ} (h : (x.mantissa : ℚ) * 2 ^ x.exponent ≤ b) :
    x.nearest ≤ b := by
  obtain ⟨m, e⟩ := x
  cases e with
  | ofNat k =>
    simp only [Int.ofNat_eq_natCast, zpow_natCast] at h
    simp only [nearest, Nat.shiftLeft_eq]
    exact_mod_cast h
  | negSucc k =>
    simp only [zpow_negSucc, ← div_eq_mul_inv] at h
    rw [div_le_iff₀ (by positivity)] at h
    have hm : m ≤ b * 2 ^ (k + 1) := by exact_mod_cast h
    simp only [nearest, Nat.shiftLeft_eq, Nat.shiftRight_eq_div_pow, one_mul]
    refine Nat.le_of_lt_succ ((Nat.div_lt_iff_lt_mul (by positivity)).2 ?_)
    rw [Nat.succ_mul]
    have : 2 ^ k < 2 ^ (k + 1) := Nat.pow_lt_pow_right one_lt_two (Nat.lt_succ_self k)
    omega

theorem Binary.le_nearest {x : Binary} {b : ℕ} (h : b ≤ (x.mantissa : ℚ) * 2 ^ x.exponent) :
    b ≤ x.nearest := by
  obtain ⟨m, e⟩ := x
  cases e with
  | ofNat k =>
    simp only [Int.ofNat_eq_natCast, zpow_natCast] at h
    simp only [nearest, Nat.shiftLeft_eq]
    exact_mod_cast h
  | negSucc k =>
    simp only [zpow_negSucc, ← div_eq_mul_inv] at h
    rw [le_div_iff₀ (by positivity)] at h
    have hm : b * 2 ^ (k + 1) ≤ m := by exact_mod_cast h
    simp only [nearest, Nat.shiftLeft_eq, Nat.shiftRight_eq_div_pow, one_mul]
    exact (Nat.le_div_iff_mul_le (by positivity)).2 (hm.trans (Nat.le_add_right _ _))

/-- **A value between whole numbers is rounded to an integer between them.** -/
theorem nearestInt_mem {x : Float} {v : ℚ} (h : Reads x v) {a b : ℕ} (ha : a ≤ v) (hb : v ≤ b) :
    a ≤ nearestInt x ∧ nearestInt x ≤ b := by
  obtain ⟨hval, hsign⟩ := h.ofBits ((Nat.cast_nonneg a).trans ha)
  have hle : a ≤ (Binary.ofBits x.toBits).nearest := Binary.le_nearest (hval ▸ ha)
  have hle' : (Binary.ofBits x.toBits).nearest ≤ b := Binary.nearest_le (hval ▸ hb)
  have heq : nearestInt x = (Binary.ofBits x.toBits).nearest := by
    simp only [nearestInt]
    rcases hsign with hzero | hsign
    · have hn : (Binary.ofBits x.toBits).nearest = 0 :=
        Nat.le_zero.1 (Binary.nearest_le (by simp [hzero]))
      simp [hn]
    · simp [hsign]
  rw [heq]
  exact ⟨by exact_mod_cast hle, by exact_mod_cast hle'⟩

end HectocDuel.Decimal
