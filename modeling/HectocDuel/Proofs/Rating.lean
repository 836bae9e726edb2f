/-
  Points change hands: what a duel does to two ratings.

  Of the power of ten only its side of one is known (`IsPower`), and that is enough:
  every later step is rounded, but rounding keeps to powers of two, and 0, 1/2, 1, 16 and
  32 are where the bounds lie.

  * `within_expectedScore_of_ge` and `within_expectedScore_of_le`: the favourite is expected
    to win at least half of the time, and the other player at most half;
  * `deltaWith_of_ge` and `deltaWith_of_le`: so at most 16 points change hands when the
    favourite wins, and between 16 and 32 otherwise;
  * `newRatings_conserve`: what the winner gains is what the loser gives up, as far as the
    loser has it.
-/
import HectocDuel.Proofs.Decimal.Order
import HectocDuel.Rating

namespace HectocDuel.Rating

open Decimal

/-! ## Constants -/

theorem isPowerOfTwo_half : IsPowerOfTwo (1 / 2) :=
  ⟨-1, by norm_num, by norm_num, by norm_num⟩

theorem isPowerOfTwo_one : IsPowerOfTwo 1 :=
  ⟨0, by norm_num, by norm_num, zpow_zero 2⟩

theorem isPowerOfTwo_two : IsPowerOfTwo 2 :=
  ⟨1, by norm_num, by norm_num, zpow_one 2⟩

theorem isPowerOfTwo_sixteen : IsPowerOfTwo 16 :=
  ⟨4, by norm_num, by norm_num, by norm_num⟩

theorem isPowerOfTwo_stake : IsPowerOfTwo 32 :=
  ⟨5, by norm_num, by norm_num, by norm_num⟩

theorem reads_one : Reads 1.0 1 := by
  have h : value? (1.0 : Float).toModel.unpack =
      some (((2 ^ 52 : ℕ) : ℤ) * (2 : ℚ) ^ (-52 : ℤ)) := rfl
  rw [Reads, h]
  norm_num

theorem reads_stake : Reads stake 32 := by
  have h : value? stake.toModel.unpack =
      some (((2 ^ 52 : ℕ) : ℤ) * (2 : ℚ) ^ (-47 : ℤ)) := rfl
  rw [Reads, h]
  norm_num

theorem reads_zero : Reads 0 0 :=
  rfl

/-! ## Differences -/

theorem isNaN_eq_false_of_le {x y : Float} (h : x ≤ y) : x.isNaN = false ∧ y.isNaN = false := by
  rw [le_iff_compare] at h
  change x.toModel.unpack.isNaN = false ∧ y.toModel.unpack.isNaN = false
  cases hx : x.toModel.unpack <;> cases hy : y.toModel.unpack <;>
    simp_all [Float.Model.UnpackedFloat.compare, Float.Model.UnpackedFloat.isNaN]

theorem within_ofNat {n : ℕ} (hn : n < 2 ^ 53) : Within 0 (2 ^ 53) (Float.ofNat n) := by
  have hpow : IsPowerOfTwo (2 ^ 53) := ⟨53, by norm_num, by norm_num, by norm_num⟩
  have hn' : (n : ℚ) ≤ 2 ^ 53 := by exact_mod_cast hn.le
  have hnat : n.toUInt64.toNat = n := Nat.mod_eq_of_lt (hn.trans (by norm_num))
  have hround : RoundsTo ((n.toUInt64.toNat : ℤ) * 2 ^ (0 : ℤ)) n.toUInt64.toFloat :=
    roundsTo_normalize (Int.natCast_nonneg _) 0 rfl
  rw [hnat, zpow_zero, mul_one, Int.cast_natCast] at hround
  obtain ⟨v, hv, hlo, hhi⟩ := hround.within (.inl rfl) hpow (Nat.cast_nonneg n) hn'
  have hmul : Float.ofNat n = n.toUInt64.toFloat * 1.0 := by
    change Float.ofScientific n false 0 = _
    rw [Float.ofScientific, dif_pos ⟨hn, by norm_num⟩]
    rfl
  rw [hmul]
  refine (roundsTo_mul hv reads_one hlo zero_le_one).within (.inl rfl) hpow ?_ ?_
  · rwa [mul_one]
  · rwa [mul_one]

theorem above_ofNat_div {n : ℕ} (hn : n < 2 ^ 53) : Above 0 (Float.ofNat n / 400.0) := by
  have hreads : Reads 400.0 400 := by
    have h : value? (400.0 : Float).toModel.unpack =
        some (((400 * 2 ^ 44 : ℕ) : ℤ) * (2 : ℚ) ^ (-44 : ℤ)) := rfl
    rw [Reads, h]
    norm_num
  obtain ⟨v, hv, hlo, -⟩ := within_ofNat hn
  exact (roundsTo_div hv hreads hlo (by norm_num)).nonneg

/-- The scaled difference of two ratings has the sign of the difference. -/
theorem zero_le_ofInt_div {i : ℤ} (h : 0 ≤ i) (hi : i < 2 ^ 53) : 0 ≤ Float.ofInt i / 400.0 := by
  obtain ⟨n, rfl⟩ := Int.eq_ofNat_of_zero_le h
  exact zero_le_of_above (above_ofNat_div (by exact_mod_cast hi))

theorem ofInt_div_le_zero {i : ℤ} (h : i ≤ 0) (hi : -(2 ^ 53) < i) :
    Float.ofInt i / 400.0 ≤ 0 := by
  cases i with
  | ofNat n =>
    obtain rfl : n = 0 := by
      have : ((n : ℕ) : ℤ) ≤ 0 := h
      omega
    decide +kernel
  | negSucc n =>
    exact le_zero_of_neg (above_ofNat_div (by omega)) (unpack_neg_div (Float.ofNat (n + 1)) 400.0)

/-! ## Steps -/

section
variable {p s e d : Float} {lo hi : ℚ}

theorem above_one_add {a b : ℚ} (h : Above a p) (ha : 0 ≤ a) (hb : IsPowerOfTwo b)
    (hab : b ≤ 1 + a) : Above b (1.0 + p) := by
  rcases h with hinf | ⟨v, hv, hav⟩
  · refine .inl ?_
    rw [unpack_add, hinf]
    rfl
  · obtain ⟨k, hk, -, rfl⟩ := hb
    exact (roundsTo_add reads_one hv zero_le_one (ha.trans hav)).above k hk (by linarith)

/-- What is at least two has a reciprocal of at most a half. -/
theorem within_one_div_of_above (h : Above 2 s) : Within 0 (1 / 2) (1.0 / s) := by
  rcases h with hinf | ⟨v, hv, h2⟩
  · refine ⟨0, ?_, le_rfl, by norm_num⟩
    rw [Reads, unpack_div, hinf]
    rfl
  · have hpos : 0 < v := two_pos.trans_le h2
    refine (roundsTo_div reads_one hv zero_le_one hpos).within (.inl rfl) isPowerOfTwo_half
      (by positivity) ?_
    gcongr

/-- What is between one and two has a reciprocal of at least a half. -/
theorem within_one_div (h : Within 1 2 s) : Within (1 / 2) 1 (1.0 / s) := by
  obtain ⟨v, hv, h1, h2⟩ := h
  have hpos : 0 < v := one_pos.trans_le h1
  refine (roundsTo_div reads_one hv zero_le_one hpos).within (.inr isPowerOfTwo_half)
    isPowerOfTwo_one ?_ ?_
  · gcongr
  · rwa [div_le_one hpos]

theorem within_one_sub (h : Within (1 - hi) (1 - lo) e) (hlo : 0 ≤ 1 - hi) (hhi : 0 ≤ lo)
    (hleast : lo = 0 ∨ IsPowerOfTwo lo) (hmost : IsPowerOfTwo hi) : Within lo hi (1.0 - e) := by
  obtain ⟨v, hv, hlov, hvhi⟩ := h
  exact (roundsTo_sub reads_one hv (hlo.trans hlov) (by linarith)).within hleast hmost
    (by linarith) (by linarith)

theorem within_stake_mul (h : Within (lo / 32) (hi / 32) d) (hlo : 0 ≤ lo)
    (hleast : lo = 0 ∨ IsPowerOfTwo lo) (hmost : IsPowerOfTwo hi) :
    Within lo hi (stake * d) := by
  obtain ⟨v, hv, hlov, hvhi⟩ := h
  have hv0 : 0 ≤ v := (div_nonneg hlo (by norm_num)).trans hlov
  exact (roundsTo_mul reads_stake hv (by norm_num) hv0).within hleast hmost
    (by linarith) (by linarith)

end

/-! ## Duels -/

/-- What is known of the computed power of ten. -/
structure IsPower (power : Float → Float) : Prop where
  nonneg : ∀ x, x.isNaN = false → 0 ≤ power x
  one_le : ∀ x, 0 ≤ x → 1 ≤ power x
  le_one : ∀ x, x ≤ 0 → power x ≤ 1

section
variable {power : Float → Float} (hpower : IsPower power) {rating opponent : ℤ}
include hpower

/-- The player with the lower rating wins at most half of the time. -/
theorem within_expectedScore_of_le (h : rating ≤ opponent) (hlt : opponent - rating < 2 ^ 53) :
    Within 0 (1 / 2) (expectedScoreWith power rating opponent) := by
  have hone := hpower.one_le _ (zero_le_ofInt_div (sub_nonneg.2 h) hlt)
  have habove : Above 1 (power (Float.ofInt (opponent - rating) / 400.0)) :=
    above_of_le reads_one zero_le_one hone
  exact within_one_div_of_above
    (above_one_add habove zero_le_one isPowerOfTwo_two (by norm_num))

/-- The player with the higher rating wins at least half of the time. -/
theorem within_expectedScore_of_ge (h : opponent ≤ rating) (hlt : rating - opponent < 2 ^ 53) :
    Within (1 / 2) 1 (expectedScoreWith power rating opponent) := by
  have hscaled : Float.ofInt (opponent - rating) / 400.0 ≤ 0 :=
    ofInt_div_le_zero (sub_nonpos.2 h) (by omega)
  have habove := above_of_le reads_zero le_rfl
    (hpower.nonneg _ (isNaN_eq_false_of_le hscaled).1)
  obtain ⟨v, hv, hv1⟩ :=
    below_of_le habove reads_one zero_le_one (hpower.le_one _ hscaled)
  have hv0 : 0 ≤ v := by
    rcases habove with hinf | ⟨w, hw, hw0⟩
    · rw [Reads, hinf] at hv
      cases hv
    · obtain rfl : w = v := Option.some.inj (hw.symm.trans hv)
      exact hw0
  refine within_one_div ?_
  exact (roundsTo_add reads_one hv zero_le_one hv0).within (.inr isPowerOfTwo_one)
    isPowerOfTwo_two (by linarith) (by linarith)

/-- At least half of the stake goes to a winner with the lower rating. -/
theorem deltaWith_of_le (h : rating ≤ opponent) (hlt : opponent - rating < 2 ^ 53) :
    16 ≤ deltaWith power rating opponent ∧ deltaWith power rating opponent ≤ 32 := by
  have hscore : Within (1 - 1) (1 - 1 / 2) (expectedScoreWith power rating opponent) := by
    convert within_expectedScore_of_le hpower h hlt using 1 <;> norm_num
  have hrest : Within (16 / 32) (32 / 32) (1.0 - expectedScoreWith power rating opponent) := by
    convert within_one_sub hscore (by norm_num) (by norm_num) (.inr isPowerOfTwo_half)
      isPowerOfTwo_one using 1 <;> norm_num
  obtain ⟨v, hv, hlo, hhi⟩ :=
    within_stake_mul hrest (by norm_num) (.inr isPowerOfTwo_sixteen) isPowerOfTwo_stake
  exact nearestInt_mem hv (by exact_mod_cast hlo) (by exact_mod_cast hhi)

/-- At most half of the stake goes to a winner with the higher rating. -/
theorem deltaWith_of_ge (h : opponent ≤ rating) (hlt : rating - opponent < 2 ^ 53) :
    0 ≤ deltaWith power rating opponent ∧ deltaWith power rating opponent ≤ 16 := by
  have hscore : Within (1 - 1 / 2) (1 - 0) (expectedScoreWith power rating opponent) := by
    convert within_expectedScore_of_ge hpower h hlt using 1 <;> norm_num
  have hrest : Within (0 / 32) (16 / 32) (1.0 - expectedScoreWith power rating opponent) := by
    convert within_one_sub hscore (by norm_num) le_rfl (.inl rfl) isPowerOfTwo_half
      using 1 <;> norm_num
  obtain ⟨v, hv, hlo, hhi⟩ :=
    within_stake_mul hrest le_rfl (.inl rfl) isPowerOfTwo_sixteen
  exact nearestInt_mem hv (by exact_mod_cast hlo) (by exact_mod_cast hhi)

end

/-- A whole number of 32 bits. -/
def FitsWord (i : ℤ) : Prop :=
  -(2 ^ 31) ≤ i ∧ i < 2 ^ 31

/-- **Points change hands and none are lost.**  For ratings from zero up to 32 below the
    largest number of 32 bits, and for every way to compute the power of ten that is on the
    right side of one (`newRatings` is the case of `powerOfTen`), no step leaves 32 bits.
    The winner gains between 0 and 32 points, at least 16 against a player with no lower
    rating and at most 16 against one with no higher rating; the loser gives up as many, but
    no more than there are. -/
theorem newRatings_conserve {power : Float → Float} (hpower : IsPower power) {winner loser : ℤ}
    (hwinner : 0 ≤ winner) (hwinner' : winner ≤ 2 ^ 31 - 1 - 32)
    (hloser : 0 ≤ loser) (hloser' : loser ≤ 2 ^ 31 - 1 - 32) :
    ∃ winner' loser', newRatingsWith power winner loser = (winner', loser') ∧
      ∃ delta, delta = deltaWith power winner loser ∧
        (FitsWord (loser - winner) ∧ FitsWord delta ∧ FitsWord (winner + delta) ∧
          FitsWord (loser - delta)) ∧
        0 ≤ delta ∧ delta ≤ 32 ∧ winner' = winner + delta ∧ loser' = max (loser - delta) 0 ∧
        winner ≤ winner' ∧ loser' ≤ loser ∧
        (winner' - winner = loser - loser' ∨ loser' = 0 ∧ loser < delta) ∧
        winner + loser ≤ winner' + loser' ∧
        (winner ≤ loser → 16 ≤ delta) ∧ (loser ≤ winner → delta ≤ 16) := by
  have hle : winner ≤ loser → 16 ≤ deltaWith power winner loser ∧
      deltaWith power winner loser ≤ 32 := fun h => deltaWith_of_le hpower h (by omega)
  have hge : loser ≤ winner → 0 ≤ deltaWith power winner loser ∧
      deltaWith power winner loser ≤ 16 := fun h => deltaWith_of_ge hpower h (by omega)
  refine ⟨_, _, rfl, deltaWith power winner loser, rfl, ?_⟩
  generalize deltaWith power winner loser = delta at hle hge ⊢
  have hdelta : 0 ≤ delta ∧ delta ≤ 32 := by
    rcases le_total winner loser with h | h
    · exact ⟨le_trans (by norm_num) (hle h).1, (hle h).2⟩
    · exact ⟨(hge h).1, (hge h).2.trans (by norm_num)⟩
  have hgain : max (winner + delta) 0 = winner + delta := max_eq_left (by omega)
  refine ⟨?_, hdelta.1, hdelta.2, hgain, rfl, ?_, ?_, ?_, ?_, fun h => (hle h).1,
    fun h => (hge h).2⟩
  · simp only [FitsWord]
    omega
  all_goals omega

/-- The power of ten at `-1`, `0` and `1`, and of its size in between and beyond. -/
def coarsePower (x : Float) : Float :=
  if 0 ≤ x then if x ≤ 0 then 1.0 else 10.0 else 0.1

theorem isPower_coarsePower : IsPower coarsePower where
  nonneg x _ := by
    rw [coarsePower]
    repeat' split
    all_goals decide +kernel
  one_le x hx := by
    rw [coarsePower, if_pos hx]
    split <;> decide +kernel
  le_one x hx := by
    rw [coarsePower, if_pos hx]
    split <;> decide +kernel

/-- A player who wins with 400 points less gains 29 of them, which the other player loses. -/
theorem newRatings_conserve_upset :
    newRatingsWith coarsePower 1000 1400 = (1029, 1371) ∧
      (1029 : ℤ) - 1000 = 1400 - 1371 ∧ 16 ≤ deltaWith coarsePower 1000 1400 := by
  have heq : newRatingsWith coarsePower 1000 1400 = (1029, 1371) := by decide +kernel
  obtain ⟨winner', loser', hnew, delta, hdelta, -, -, -, -, -, -, -, hmoved, -, hupset, -⟩ :=
    @newRatings_conserve _ isPower_coarsePower 1000 1400 (by norm_num) (by norm_num)
      (by norm_num) (by norm_num)
  obtain ⟨hwinner, hloser⟩ := Prod.mk.inj (hnew.symm.trans heq)
  rw [hwinner, hloser] at hmoved
  rw [hdelta] at hupset
  exact ⟨heq, hmoved.resolve_right fun h => absurd h.1 (by norm_num), hupset (by norm_num)⟩

end HectocDuel.Rating
