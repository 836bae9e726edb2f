/-
  Multiplying a double by `-1` turns its sign and changes nothing else.

  A product is computed exactly and then rounded to 53 bits of mantissa.  For a
  factor `-1`, which is `-(2 ^ 52) * 2 ^ -52`, the exact mantissa ends in 52 zeros
  that rounding shifts out again, so that nothing is lost.

  * `ofFields`: the number with a given sign, exponent field and mantissa field;
    every double is one, and packing keeps it (`unpack_pack_ofFields`);
  * `mul_negOne`: multiplication by `-1` turns its sign;
  * `mul_neg_one_mul`: so in a product of doubles either factor may be multiplied
    by `-1`.
-/
import Mathlib

namespace HectocDuel.Decimal

open Float.Model (Format totalExponent UnpackedFloat)
open Float.Model.UnpackedFloat

/-! ## What the format holds -/

/-- The number with the given sign, exponent field and mantissa field. -/
def ofFields (s : Sign) (e : BitVec 11) (m : BitVec 52) : UnpackedFloat :=
  if e = -1#11 then
    if m = 0#52 then .infinity s else .notANumber
  else if e = 0#11 then
    if h : m = 0#52 then .zero s
    else .finite s m.toNat (-1074) (by simpa [BitVec.toNat_pos, BitVec.pos_iff_ne_zero])
  else .finite s (2 ^ 52 + m.toNat) (e.toNat - 1075) (by omega)

theorem toNat_implicit_append (m : BitVec 52) : (1#1 ++ m).toNat = 2 ^ 52 + m.toNat := by
  rw [BitVec.toNat_append, ← Nat.shiftLeft_add_eq_or_of_lt m.isLt]
  rfl

theorem unpack_eq_ofFields (bits : BitVec Format.binary64.numBits) :
    UnpackedFloat.unpack Format.binary64 bits =
      ofFields (Sign.ofBitVec (unpackSign bits)) (unpackExponent bits) (unpackMantissa bits) := by
  rw [UnpackedFloat.unpack, ofFields]
  refine ite_congr rfl (fun _ => rfl) fun _ => ite_congr rfl (fun he => ?_) fun _ => ?_
  · simp only [he]
    rfl
  · simp only [toNat_implicit_append]
    rfl

theorem neg_ofFields (s : Sign) (e : BitVec 11) (m : BitVec 52) :
    (ofFields s e m).neg = ofFields (-s) e m := by
  rw [ofFields, ofFields]
  split
  · split <;> rfl
  · split
    · split <;> rfl
    · rfl

theorem unpackSign_packComponents {spec : Format} {s : Sign} {e : BitVec spec.exponentBits}
    {m : BitVec spec.mantissaBitsWithoutImplicit} :
    unpackSign (packComponents spec s e m) = s.toBitVec := by
  ext i hi
  obtain rfl : i = 0 := by omega
  simp [unpackSign, packComponents, BitVec.getLsbD_append, BitVec.getElem_append]

theorem unpack_packComponents (s : Sign) (e : BitVec 11) (m : BitVec 52) :
    UnpackedFloat.unpack Format.binary64 (packComponents Format.binary64 s e m) =
      ofFields s e m := by
  rw [unpack_eq_ofFields, unpackExponent_packComponents, unpackMantissa_packComponents,
    unpackSign_packComponents]
  cases s <;> rfl

theorem log2_implicit (m : BitVec 52) : (2 ^ 52 + m.toNat).log2 = 52 := by
  have := m.isLt
  rw [Nat.log2_eq_iff (by omega)]
  omega

theorem pack_normal (s : Sign) {e : BitVec 11} (m : BitVec 52) (he : e ≠ -1#11) :
    UnpackedFloat.pack Format.binary64 (.finite s (2 ^ 52 + m.toNat) (e.toNat - 1075) (by omega)) =
      packComponents Format.binary64 s e m := by
  have hm := m.isLt
  have := e.isLt
  have : e.toNat ≠ 2047 := fun h => he (BitVec.eq_of_toNat_eq h)
  have hb : ((e.toNat : Int) - 1075 + Format.binary64.exponentBias +
      Format.binary64.mantissaBitsWithoutImplicit).toNat = e.toNat := by
    change ((e.toNat : Int) - 1075 + 1023 + 52).toNat = e.toNat
    omega
  simp only [UnpackedFloat.pack, hb, log2_implicit]
  rw [if_neg (by omega), if_pos (show 52 + 1 = Format.binary64.mantissaBits from rfl)]
  congr 1
  · exact BitVec.eq_of_toNat_eq (by simp)
  · apply BitVec.eq_of_toNat_eq
    rw [BitVec.toNat_ofNat]
    omega

theorem pack_subnormal (s : Sign) {m : BitVec 52} (h : 0 < m.toNat) :
    UnpackedFloat.pack Format.binary64 (.finite s m.toNat (-1074) h) =
      packComponents Format.binary64 s 0#11 m := by
  have hl : m.toNat.log2 < 52 := (Nat.log2_lt (by omega)).2 m.isLt
  simp only [UnpackedFloat.pack]
  rw [if_neg (by decide), if_neg (by change ¬ m.toNat.log2 + 1 = 53; omega)]
  congr 1
  exact BitVec.eq_of_toNat_eq (by simp)

theorem unpack_pack_ofFields (s : Sign) (e : BitVec 11) (m : BitVec 52) :
    UnpackedFloat.unpack Format.binary64 (UnpackedFloat.pack Format.binary64 (ofFields s e m)) =
      ofFields s e m := by
  rw [ofFields]
  split
  · split <;> cases s <;> rfl
  · next h1 =>
    split
    · split
      · cases s <;> rfl
      · next h0 hm =>
        rw [pack_subnormal, unpack_packComponents, ofFields, if_neg (by decide), if_pos rfl,
          dif_neg hm]
    · next h0 =>
      rw [pack_normal s m h1, unpack_packComponents, ofFields, if_neg h1, if_neg h0]

/-! ## Rounding a mantissa that ends in zeros -/

theorem log2_mul_two_pow {m : Nat} (hm : 0 < m) (k : Nat) : (m * 2 ^ k).log2 = m.log2 + k := by
  have hk := Nat.two_pow_pos k
  rw [Nat.log2_eq_iff (Nat.ne_of_gt (Nat.mul_pos hm hk)), Nat.pow_add, Nat.add_right_comm,
    Nat.pow_add]
  exact ⟨Nat.mul_le_mul_right _ (Nat.log2_self_le (Nat.ne_of_gt hm)),
    Nat.mul_lt_mul_of_pos_right Nat.lt_log2_self hk⟩

theorem shiftRight_mul_two_pow (m k : Nat) :
    ExtendedMantissa.ofMantissaAndAccuracy (m * 2 ^ k) .exact >>> k =
      ExtendedMantissa.ofMantissaAndAccuracy m .exact := by
  induction k generalizing m with
  | zero => rw [Nat.pow_zero, Nat.mul_one]; rfl
  | succ k ih =>
    have hk : m * 2 ^ (k + 1) = m * 2 * 2 ^ k := by
      rw [Nat.pow_succ, Nat.mul_assoc, Nat.mul_comm (2 ^ k)]
    change ExtendedMantissa.shiftRightOne ((_ : ExtendedMantissa) >>> k) = _
    rw [hk, ih]
    simp [ExtendedMantissa.ofMantissaAndAccuracy, ExtendedMantissa.shiftRightOne]

/-- A mantissa and exponent that fit are what rounding makes of any finer way to
    write the number. -/
theorem round_mul_two_pow (s : Sign) {m : Nat} {e : Int} (hm : 0 < m)
    (he : Format.binary64.targetExponent (totalExponent m e) = e) (k : Nat) :
    roundWithAccuracy Format.binary64 s (m * 2 ^ k) (e - k) .exact = .finite s m e hm := by
  have ht : totalExponent (m * 2 ^ k) (e - k) = totalExponent m e := by
    rw [totalExponent, totalExponent, log2_mul_two_pow hm]
    omega
  have hk : (e - (e - k)).toNat = k := by omega
  have h1 : shiftToTargetExponent Format.binary64 (m * 2 ^ k) (e - k) .exact =
      (.ofMantissaAndAccuracy m .exact, e) := by
    rw [shiftToTargetExponent, ht, he, shiftToExponent, hk, shiftRight_mul_two_pow,
      Int.sub_add_cancel]
  have h2 : shiftToTargetExponent Format.binary64 m e .exact =
      (.ofMantissaAndAccuracy m .exact, e) := by
    rw [shiftToTargetExponent, he, shiftToExponent, Int.sub_self]
    exact congrArg (_, ·) (Int.add_zero e)
  have h3 : (ExtendedMantissa.ofMantissaAndAccuracy m .exact).roundedMantissa = m := rfl
  rw [roundWithAccuracy, h1]
  simp only [h3, h2]
  exact dif_neg (Nat.ne_of_gt hm)

/-! ## Products with `-1` -/

theorem targetExponent_normal {m : Nat} {e : Int} (hl : m.log2 = 52) (he : -1074 ≤ e) :
    Format.binary64.targetExponent (totalExponent m e) = e := by
  rw [Format.targetExponent, totalExponent, hl]
  change max (((52 : Nat) : Int) + 1 + e - 53) (-1074) = e
  omega

theorem targetExponent_subnormal {m : Nat} (hl : m.log2 < 52) :
    Format.binary64.targetExponent (totalExponent m (-1074)) = -1074 := by
  rw [Format.targetExponent, totalExponent]
  change max ((m.log2 : Int) + 1 + -1074 - 53) (-1074) = -1074
  omega

/-- The number `-1` in the form of the format. -/
def negOne : UnpackedFloat :=
  .finite .negative (2 ^ 52) (-52) (Nat.two_pow_pos 52)

theorem mul_negOne (s : Sign) (e : BitVec 11) (m : BitVec 52) :
    mul Format.binary64 (ofFields s e m) negOne = ofFields (-s) e m := by
  have hs : s * Sign.negative = -s := by cases s <;> rfl
  rw [ofFields, ofFields]
  split
  · split
    · exact congrArg infinity hs
    · rfl
  · next he =>
    split
    · split
      · exact congrArg zero hs
      · next hm =>
        have hne : m.toNat ≠ 0 := fun h => hm (BitVec.eq_of_toNat_eq h)
        have hl : m.toNat.log2 < 52 := (Nat.log2_lt hne).2 m.isLt
        rw [negOne, mul, hs]
        exact round_mul_two_pow _ _ (targetExponent_subnormal hl) 52
    · next h0 =>
      have := e.isLt
      have : e.toNat ≠ 0 := fun h => h0 (BitVec.eq_of_toNat_eq h)
      rw [negOne, mul, hs]
      exact round_mul_two_pow _ _ (targetExponent_normal (log2_implicit m) (by omega)) 52

theorem mul_swap (u v : UnpackedFloat) :
    mul Format.binary64 u v = mul Format.binary64 v u := by
  have hs : ∀ s t : Sign, s * t = t * s := fun s t => by cases s <;> cases t <;> rfl
  cases u <;> cases v <;> simp only [mul, hs, Nat.mul_comm, Int.add_comm]

theorem neg_mul_swap (u v : UnpackedFloat) :
    mul Format.binary64 u.neg v = mul Format.binary64 u v.neg := by
  have hs : ∀ s t : Sign, -s * t = s * -t := fun s t => by cases s <;> cases t <;> rfl
  cases u <;> cases v <;> simp [UnpackedFloat.neg, mul, hs]

theorem unpack_mul_negOne (x : Float.Model) :
    UnpackedFloat.unpack Format.binary64 (UnpackedFloat.pack Format.binary64
      (mul Format.binary64 x.unpack negOne)) = x.unpack.neg := by
  rw [Float.Model.unpack, unpack_eq_ofFields x.toBits.toBitVec, mul_negOne, neg_ofFields,
    unpack_pack_ofFields]

/-- **Either factor of a product may be multiplied by `-1`.** -/
theorem mul_neg_one_mul (x y : Float) : x * -1 * y = x * (-1 * y) := by
  have h1 : (-1 : Float).toModel.unpack = negOne := by rfl
  have hx : (x * -1).toModel.unpack = x.toModel.unpack.neg := by
    rw [← unpack_mul_negOne, ← h1]
    rfl
  have hy : (-1 * y).toModel.unpack = y.toModel.unpack.neg := by
    rw [← unpack_mul_negOne, mul_swap, ← h1]
    rfl
  calc x * -1 * y
    _ = .ofModel (.pack (mul Format.binary64 (x * -1).toModel.unpack y.toModel.unpack)) := rfl
    _ = .ofModel (.pack (mul Format.binary64 x.toModel.unpack (-1 * y).toModel.unpack)) := by
      rw [hx, hy, neg_mul_swap]
    _ = x * (-1 * y) := rfl

end HectocDuel.Decimal
