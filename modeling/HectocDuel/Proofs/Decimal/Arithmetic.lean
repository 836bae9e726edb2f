/-
  Arithmetic keeps to powers of two.

  What an operation computes is rounded and stored as a double.  A number that is no less
  than a power of two stays so, and so does one that is no greater, if the power is a double.

  * `stored_of_le` and `stored_of_gt`: a rounded number is stored as it is, or as infinite;
  * `Cut.roundsTo`: a result that is rounded keeps to powers of two;
  * `roundsTo_add`, `roundsTo_sub`, `roundsTo_mul`, `roundsTo_div`: so do sums,
    differences, products and quotients that are not negative.
-/
import HectocDuel.Proofs.Decimal.Rounding

namespace HectocDuel.Decimal

open Float.Model (Format totalExponent UnpackedFloat)
open Float.Model.UnpackedFloat

/-! ## Values -/

/-- The value of a number that is finite. -/
def value? : UnpackedFloat → Option ℚ
  | .zero _ => some 0
  | .finite s m e _ => some (s.apply m * 2 ^ e)
  | _ => none

/-- A number as it is after it was stored as a double. -/
def stored (u : UnpackedFloat) : UnpackedFloat :=
  UnpackedFloat.unpack Format.binary64 (UnpackedFloat.pack Format.binary64 u)

/-- A double is finite and has a value. -/
def Reads (x : Float) (v : ℚ) : Prop :=
  value? x.toModel.unpack = some v

/-- A double is no less than a number, or infinite. -/
def Above (b : ℚ) (x : Float) : Prop :=
  x.toModel.unpack = .infinity .positive ∨ ∃ v, Reads x v ∧ b ≤ v

/-- A double is finite and no greater than a number. -/
def Below (b : ℚ) (x : Float) : Prop :=
  ∃ v, Reads x v ∧ v ≤ b

theorem finite_congr {s : Sign} {m m' : ℕ} {e e' : ℤ} {hm : 0 < m} {hm' : 0 < m'} (h : m = m')
    (h' : e = e') : UnpackedFloat.finite s m e hm = .finite s m' e' hm' := by
  subst h h'
  rfl

theorem finite_eq_ofFields_of_full (s : Sign) {m : ℕ} {e : ℤ} (hm : 0 < m) (hlt : m < 2 ^ 53)
    (hfull : 2 ^ 52 ≤ m) (he : -1074 ≤ e) (he' : e ≤ 971) :
    UnpackedFloat.finite s m e hm =
      ofFields s (.ofNat 11 (e + 1075).toNat) (.ofNat 52 (m - 2 ^ 52)) := by
  have hfield : (BitVec.ofNat 11 (e + 1075).toNat).toNat = (e + 1075).toNat := by
    rw [BitVec.toNat_ofNat]
    omega
  have hrest : (BitVec.ofNat 52 (m - 2 ^ 52)).toNat = m - 2 ^ 52 := by
    rw [BitVec.toNat_ofNat]
    omega
  have hne : ∀ i : BitVec 11, i.toNat = 0 ∨ i.toNat = 2047 →
      BitVec.ofNat 11 (e + 1075).toNat ≠ i := by
    rintro i hi rfl
    omega
  rw [ofFields, if_neg (hne _ (.inr rfl)), if_neg (hne _ (.inl rfl))]
  exact finite_congr (by omega) (by omega)

theorem finite_eq_ofFields_of_lt (s : Sign) {m : ℕ} (hm : 0 < m) (hlt : m < 2 ^ 52) :
    UnpackedFloat.finite s m (-1074) hm = ofFields s 0#11 (.ofNat 52 m) := by
  have hmantissa : (BitVec.ofNat 52 m).toNat = m := by
    rw [BitVec.toNat_ofNat]
    omega
  have hzero : BitVec.ofNat 52 m ≠ 0#52 := fun h =>
    hm.ne' (hmantissa.symm.trans (congrArg BitVec.toNat h))
  rw [ofFields, if_neg (by decide), if_pos rfl, dif_neg hzero]
  exact finite_congr hmantissa.symm rfl

theorem stored_of_le (s : Sign) {m : ℕ} {e : ℤ} (hm : 0 < m) (hc : Canonical m e) (he : e ≤ 971) :
    stored (.finite s m e hm) = .finite s m e hm := by
  rcases le_or_gt (2 ^ 52) m with hfull | hlt
  · rw [finite_eq_ofFields_of_full s hm hc.lt hfull hc.exponent he, stored, unpack_pack_ofFields]
  · obtain rfl := hc.full.resolve_left (not_le.2 hlt)
    rw [finite_eq_ofFields_of_lt s hm hlt, stored, unpack_pack_ofFields]

theorem stored_of_gt (s : Sign) {m : ℕ} {e : ℤ} (hm : 0 < m) (he : 971 < e) :
    stored (.finite s m e hm) = .infinity s := by
  have hbig : 2 ^ Format.binary64.exponentBits ≤
      (e + Format.binary64.exponentBias +
        Format.binary64.mantissaBitsWithoutImplicit).toNat + 1 := by
    change 2 ^ 11 ≤ (e + (1023 : ℕ) + (52 : ℕ)).toNat + 1
    omega
  simp only [stored, UnpackedFloat.pack]
  rw [if_pos hbig]
  cases s <;> rfl

/-! ## Powers of two -/

/-- A double is what rounding makes of a number that is not negative: it is on the same side
    of each power of two. -/
structure RoundsTo (q : ℚ) (x : Float) : Prop where
  nonneg : Above 0 x
  above : ∀ k : ℤ, -1074 ≤ k → 2 ^ k ≤ q → Above (2 ^ k) x
  below : ∀ k : ℤ, -1074 ≤ k → k ≤ 1023 → q ≤ 2 ^ k → Below (2 ^ k) x

/-- A double has a value between two numbers. -/
def Within (lo hi : ℚ) (x : Float) : Prop :=
  ∃ v, Reads x v ∧ lo ≤ v ∧ v ≤ hi

/-- A power of two that is a double. -/
def IsPowerOfTwo (b : ℚ) : Prop :=
  ∃ k : ℤ, -1074 ≤ k ∧ k ≤ 1023 ∧ 2 ^ k = b

/-- A number between zero or a power of two and a power of two is rounded to one that is. -/
theorem RoundsTo.within {q lo hi : ℚ} {x : Float} (h : RoundsTo q x)
    (hlo : lo = 0 ∨ IsPowerOfTwo lo) (hhi : IsPowerOfTwo hi) (hq : lo ≤ q) (hq' : q ≤ hi) :
    Within lo hi x := by
  obtain ⟨k, hk, hk', rfl⟩ := hhi
  obtain ⟨v, hv, hvk⟩ := h.below k hk hk' hq'
  have habove : Above lo x := by
    rcases hlo with rfl | ⟨j, hj, -, rfl⟩
    · exact h.nonneg
    · exact h.above j hj hq
  rcases habove with hinf | ⟨w, hw, hlow⟩
  · rw [Reads, hinf] at hv
    cases hv
  · obtain rfl : w = v := Option.some.inj (hw.symm.trans hv)
    exact ⟨w, hv, hlow, hvk⟩

theorem Reads.roundsTo {x : Float} {v : ℚ} (h : Reads x v) (hv : 0 ≤ v) : RoundsTo v x :=
  ⟨.inr ⟨v, h, hv⟩, fun _ _ hk => .inr ⟨v, h, hk⟩, fun _ _ _ hk => ⟨v, h, hk⟩⟩

/-- **A result that is rounded keeps to powers of two.** -/
theorem Cut.roundsTo {m : ℕ} {e : ℤ} {acc : Accuracy} {q : ℚ} (h : Cut m e acc q) {x : Float}
    (hx : x.toModel.unpack = stored (roundWithAccuracy Format.binary64 .positive m e acc)) :
    RoundsTo q x := by
  obtain ⟨em, t, hshift, hst, hc⟩ := h.shift
  have habove := fun k hk => hst.two_pow_le_rounded hc (k := k) hk
  have hbelow := fun k hk => hst.rounded_le_two_pow hc (k := k) hk
  rcases roundWithAccuracy_cases hshift hc .positive with ⟨hzero, hu⟩ | ⟨m', e', hm', hu, hc', hv⟩
  · have hreads : Reads x (em.roundedMantissa * 2 ^ t) := by
      rw [Reads, hx, hu, hzero, Nat.cast_zero, zero_mul]
      rfl
    exact ⟨.inr ⟨_, hreads, by positivity⟩, fun k hk hq => .inr ⟨_, hreads, habove k hk hq⟩,
      fun k hk _ hq => ⟨_, hreads, hbelow k hk hq⟩⟩
  · rw [← hv] at habove hbelow
    rcases le_or_gt e' 971 with hsmall | hbig
    · have hpack := stored_of_le .positive hm' hc' hsmall
      have hreads : Reads x (m' * 2 ^ e') := by
        rw [Reads, hx, hu, hpack]
        rfl
      exact ⟨.inr ⟨_, hreads, by positivity⟩, fun k hk hq => .inr ⟨_, hreads, habove k hk hq⟩,
        fun k hk _ hq => ⟨_, hreads, hbelow k hk hq⟩⟩
    · have hinf : x.toModel.unpack = .infinity .positive := by
        rw [hx, hu, stored_of_gt .positive hm' hbig]
      refine ⟨.inl hinf, fun k _ _ => .inl hinf, fun k hk hk' hq => ?_⟩
      -- What is at most a power of two that a double has is not too large for one.
      have hfull : 2 ^ 52 ≤ m' := hc'.full.resolve_right (by omega)
      have hm : (2 : ℚ) ^ (52 : ℤ) ≤ m' := by exact_mod_cast hfull
      have hlt : (2 : ℚ) ^ (52 + 972 : ℤ) ≤ 2 ^ (1023 : ℤ) := by
        calc (2 : ℚ) ^ (52 + 972 : ℤ) = 2 ^ (52 : ℤ) * 2 ^ (972 : ℤ) := zpow_add₀ two_ne_zero _ _
          _ ≤ m' * 2 ^ e' := by
            refine mul_le_mul hm (zpow_le_zpow_right₀ one_le_two hbig) ?_ ?_ <;> positivity
          _ ≤ 2 ^ k := hbelow k hk hq
          _ ≤ 2 ^ (1023 : ℤ) := zpow_le_zpow_right₀ one_le_two hk'
      exact absurd hlt (not_le.2 (zpow_lt_zpow_right₀ one_lt_two (by norm_num)))

/-! ## Arithmetic -/

theorem stored_unpack (x : Float) : stored x.toModel.unpack = x.toModel.unpack := by
  rw [Float.Model.unpack, unpack_eq_ofFields x.toModel.toBits.toBitVec, stored,
    unpack_pack_ofFields]

theorem stored_zero (s : Sign) : stored (.zero s) = .zero s := by
  cases s <;> rfl

theorem unpack_add (x y : Float) : (x + y).toModel.unpack =
    stored (add Format.binary64 x.toModel.unpack y.toModel.unpack) :=
  rfl

theorem unpack_sub (x y : Float) : (x - y).toModel.unpack =
    stored (sub Format.binary64 x.toModel.unpack y.toModel.unpack) :=
  rfl

theorem unpack_mul (x y : Float) : (x * y).toModel.unpack =
    stored (mul Format.binary64 x.toModel.unpack y.toModel.unpack) :=
  rfl

theorem unpack_div (x y : Float) : (x / y).toModel.unpack =
    stored (div Format.binary64 x.toModel.unpack y.toModel.unpack) :=
  rfl

theorem canonical_of_unpack {x : Float} {s : Sign} {m : ℕ} {e : ℤ} {hm : 0 < m}
    (h : x.toModel.unpack = .finite s m e hm) : Canonical m e := by
  rw [Float.Model.unpack, unpack_eq_ofFields, ofFields] at h
  split at h
  · split at h <;> cases h
  · next hinf =>
    split at h
    · split at h
      · cases h
      · obtain ⟨-, rfl, rfl⟩ := UnpackedFloat.finite.inj h
        exact ⟨(BitVec.isLt _).trans (by norm_num), le_rfl, .inr rfl⟩
    · next hzero =>
      obtain ⟨-, rfl, rfl⟩ := UnpackedFloat.finite.inj h
      have hlt := (@unpackMantissa Format.binary64 x.toModel.toBits.toBitVec).isLt
      have hpos : (@unpackExponent Format.binary64 x.toModel.toBits.toBitVec).toNat ≠ 0 :=
        fun h => hzero (BitVec.eq_of_toNat_eq h)
      change _ < 2 ^ 52 at hlt
      exact ⟨by omega, by omega, .inl (by omega)⟩

theorem Reads.cases {x : Float} {v : ℚ} (h : Reads x v) (hv : 0 ≤ v) :
    (v = 0 ∧ ∃ s, x.toModel.unpack = .zero s) ∨
      ∃ m e hm, x.toModel.unpack = .finite .positive m e hm ∧ Canonical m e ∧ v = m * 2 ^ e := by
  rw [Reads] at h
  cases hu : x.toModel.unpack with
  | infinity | notANumber =>
    rw [hu] at h
    cases h
  | zero s =>
    rw [hu] at h
    exact .inl ⟨(Option.some.inj h).symm, s, rfl⟩
  | finite s m e hm =>
    rw [hu] at h
    have hval : (s.apply m : ℤ) * (2 : ℚ) ^ e = v := Option.some.inj h
    cases s with
    | positive => exact .inr ⟨m, e, hm, rfl, canonical_of_unpack hu, by rw [← hval]; rfl⟩
    | negative =>
      have hpos : (0 : ℚ) < m * 2 ^ e := by positivity
      have : ((Sign.negative.apply m : ℤ) : ℚ) = -m := by simp [Sign.apply]
      rw [this] at hval
      linarith

theorem roundsTo_zero {x : Float} {u : UnpackedFloat} {s : Sign}
    (hx : x.toModel.unpack = stored u) (hu : u = .zero s) : RoundsTo 0 x := by
  refine Reads.roundsTo ?_ le_rfl
  rw [Reads, hx, hu, stored_zero]
  rfl

theorem roundsTo_normalize {m : ℤ} (hm : 0 ≤ m) (e : ℤ) {x : Float}
    (hx : x.toModel.unpack = stored (UnpackedFloat.normalize Format.binary64 m e .positive)) :
    RoundsTo (m * 2 ^ e) x := by
  rcases hm.eq_or_lt with rfl | hpos
  · rw [Int.cast_zero, zero_mul]
    exact roundsTo_zero (s := .positive) hx rfl
  · have hn : UnpackedFloat.normalize Format.binary64 m e .positive =
        UnpackedFloat.round Format.binary64 .positive m.toNat e := by
      rw [UnpackedFloat.normalize, Int.compare_eq_gt.2 hpos]
    have hcut := cut_shiftLeft (m := m.toNat) (by omega) e
    rw [show ((m.toNat : ℕ) : ℚ) = m by exact_mod_cast Int.toNat_of_nonneg hm] at hcut
    exact hcut.roundsTo (hx.trans (congrArg stored hn))

section
variable {x y : Float} {a b : ℚ}

/-- The exact sum of what two doubles stand for, at the smaller exponent. -/
theorem decreaseExponent_value (m : ℕ) {e t : ℤ} (h : t ≤ e) :
    ((decreaseExponent m e t).1 : ℚ) * 2 ^ t = m * 2 ^ e := by
  obtain ⟨k, rfl⟩ := Int.le.dest h
  rw [decreaseExponent, add_sub_cancel_left, Int.toNat_natCast, Nat.shiftLeft_eq,
    zpow_add₀ two_ne_zero, zpow_natCast]
  push_cast
  ring

theorem roundsTo_add (hx : Reads x a) (hy : Reads y b) (ha : 0 ≤ a) (hb : 0 ≤ b) :
    RoundsTo (a + b) (x + y) := by
  have hu := unpack_add x y
  rcases hx.cases ha with ⟨rfl, s, hxu⟩ | ⟨m, e, hm, hxu, -, hxv⟩ <;>
    rcases hy.cases hb with ⟨rfl, t, hyu⟩ | ⟨n, f, hn, hyu, -, hyv⟩
  · rw [hxu, hyu, add] at hu
    rw [add_zero]
    split at hu <;> exact roundsTo_zero hu rfl
  · have hsum : (x + y).toModel.unpack = y.toModel.unpack := by
      have hzero : add Format.binary64 (.zero s) y.toModel.unpack = y.toModel.unpack := by
        rw [hyu]
        rfl
      rw [hu, hxu, hzero, stored_unpack]
    rw [zero_add]
    exact Reads.roundsTo (by rwa [Reads, hsum]) hb
  · have hsum : (x + y).toModel.unpack = x.toModel.unpack := by
      have hzero : add Format.binary64 x.toModel.unpack (.zero t) = x.toModel.unpack := by
        rw [hxu]
        rfl
      rw [hu, hyu, hzero, stored_unpack]
    rw [add_zero]
    exact Reads.roundsTo (by rwa [Reads, hsum]) ha
  · rw [hxu, hyu] at hu
    have hsum := roundsTo_normalize (m := (decreaseExponent m e (min e f)).1 +
      (decreaseExponent n f (min e f)).1) (by positivity) (min e f) hu
    rwa [Int.cast_add, Int.cast_natCast, Int.cast_natCast, add_mul,
      decreaseExponent_value m (min_le_left e f), decreaseExponent_value n (min_le_right e f),
      ← hxv, ← hyv] at hsum

theorem roundsTo_sub (hx : Reads x a) (hy : Reads y b) (hb : 0 ≤ b) (hba : b ≤ a) :
    RoundsTo (a - b) (x - y) := by
  have hu := unpack_sub x y
  rcases hx.cases (hb.trans hba) with ⟨rfl, s, hxu⟩ | ⟨m, e, hm, hxu, -, hxv⟩ <;>
    rcases hy.cases hb with ⟨rfl, t, hyu⟩ | ⟨n, f, hn, hyu, -, hyv⟩
  · rw [hxu, hyu, sub] at hu
    rw [sub_zero]
    split at hu <;> exact roundsTo_zero hu rfl
  · have hpos : (0 : ℚ) < n * 2 ^ f := by positivity
    linarith
  · have hdiff : (x - y).toModel.unpack = x.toModel.unpack := by
      have hzero : sub Format.binary64 x.toModel.unpack (.zero t) = x.toModel.unpack := by
        rw [hxu]
        rfl
      rw [hu, hyu, hzero, stored_unpack]
    rw [sub_zero]
    exact Reads.roundsTo (by rwa [Reads, hdiff]) hba
  · rw [hxu, hyu] at hu
    have hm' := decreaseExponent_value m (min_le_left e f)
    have hn' := decreaseExponent_value n (min_le_right e f)
    have hle : (0 : ℤ) ≤ (decreaseExponent m e (min e f)).1 -
        (decreaseExponent n f (min e f)).1 := by
      rw [hxv, hyv, ← hm', ← hn'] at hba
      have := le_of_mul_le_mul_right hba (by positivity)
      exact sub_nonneg.2 (by exact_mod_cast this)
    have hdiff := roundsTo_normalize hle (min e f) hu
    rwa [Int.cast_sub, Int.cast_natCast, Int.cast_natCast, sub_mul, hm', hn', ← hxv, ← hyv] at hdiff

theorem roundsTo_mul (hx : Reads x a) (hy : Reads y b) (ha : 0 ≤ a) (hb : 0 ≤ b) :
    RoundsTo (a * b) (x * y) := by
  have hu := unpack_mul x y
  rcases hx.cases ha with ⟨rfl, s, hxu⟩ | ⟨m, e, hm, hxu, hxc, rfl⟩ <;>
    rcases hy.cases hb with ⟨rfl, t, hyu⟩ | ⟨n, f, hn, hyu, hyc, rfl⟩
  · rw [hxu, hyu] at hu
    rw [mul_zero]
    exact roundsTo_zero hu rfl
  · rw [hxu, hyu] at hu
    rw [zero_mul]
    exact roundsTo_zero hu rfl
  · rw [hxu, hyu] at hu
    rw [mul_zero]
    exact roundsTo_zero hu rfl
  · rw [hxu, hyu] at hu
    exact (cut_mul hm hn hxc hyc).roundsTo hu

theorem roundsTo_div (hx : Reads x a) (hy : Reads y b) (ha : 0 ≤ a) (hb : 0 < b) :
    RoundsTo (a / b) (x / y) := by
  have hu := unpack_div x y
  obtain ⟨rfl, -⟩ | ⟨n, f, hn, hyu, -, rfl⟩ := hy.cases hb.le
  · exact absurd hb (lt_irrefl 0)
  rcases hx.cases ha with ⟨rfl, s, hxu⟩ | ⟨m, e, hm, hxu, -, rfl⟩
  · rw [hxu, hyu] at hu
    rw [zero_div]
    exact roundsTo_zero hu rfl
  · rw [hxu, hyu] at hu
    obtain ⟨q, t, acc, hcore, hcut⟩ := cut_div e f hm hn
    refine hcut.roundsTo (hu.trans ?_)
    rw [div, hcore]
    rfl

end

end HectocDuel.Decimal
