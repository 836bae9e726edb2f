/-
  Doubles that compare as equal.

  * `pack_unpack`: a double is given by what its bits stand for;
  * `eq_of_beq`: so a double that compares as equal to one other than zero is that
    one.
-/
import HectocDuel.Proofs.Decimal.Negation

namespace HectocDuel.Decimal

open Float.Model (Format UnpackedFloat)
open Float.Model.UnpackedFloat

/-! ## Bits and numbers -/

theorem packComponents_unpack (bits : BitVec Format.binary64.numBits) :
    packComponents Format.binary64 (Sign.ofBitVec (unpackSign bits)) (unpackExponent bits)
      (unpackMantissa bits) = bits := by
  have hs : (Sign.ofBitVec (unpackSign bits)).toBitVec = unpackSign bits := by
    generalize unpackSign bits = s
    revert s
    decide
  rw [packComponents, hs]
  change BitVec 64 at bits
  ext i hi
  simp only [unpackSign, unpackExponent, unpackMantissa, BitVec.getElem_append, BitVec.extractLsb,
    BitVec.getElem_cast, BitVec.getElem_extractLsb']
  -- A bit stands in the mantissa, in the exponent or in the sign.
  split
  · simp; grind
  · split
    · simp; grind
    · simp; grind

theorem pack_ofFields (s : Sign) (e : BitVec 11) (m : BitVec 52) (h : e = -1#11 → m = 0#52) :
    UnpackedFloat.pack Format.binary64 (ofFields s e m) = packComponents Format.binary64 s e m := by
  rw [ofFields]
  split
  · next he =>
    rw [if_pos (h he), he, h he]
    rfl
  · next he =>
    split
    · next h0 =>
      split
      · next hm => rw [h0, hm]; rfl
      · rw [pack_subnormal, h0]
    · exact pack_normal s m he

theorem pack_unpack (x : Float.Model) :
    UnpackedFloat.pack Format.binary64 x.unpack = x.toBits.toBitVec := by
  rw [Float.Model.unpack, unpack_eq_ofFields]
  by_cases h : @unpackExponent Format.binary64 x.toBits.toBitVec = -1#11 ∧
      @unpackMantissa Format.binary64 x.toBits.toBitVec ≠ 0#52
  · rw [ofFields, if_pos h.1, if_neg h.2, x.valid.eq_packedNaN h.1 h.2]
    rfl
  · rw [pack_ofFields _ _ _ fun he => not_not.1 fun hm => h ⟨he, hm⟩, packComponents_unpack]

theorem unpack_injective {x y : Float} (h : x.toModel.unpack = y.toModel.unpack) : x = y := by
  have hb : x.toModel.toBits.toBitVec = y.toModel.toBits.toBitVec := by
    rw [← pack_unpack, ← pack_unpack, h]
  rcases x with ⟨⟨⟨x⟩, _⟩⟩
  rcases y with ⟨⟨⟨y⟩, _⟩⟩
  obtain rfl : x = y := hb
  rfl

/-! ## Comparison -/

/-- Numbers that compare as equal are the same, or zeros. -/
theorem eq_or_zero_of_compare {u v : UnpackedFloat} (h : u.compare v = some .eq) :
    u = v ∨ ∃ s t, u = .zero s ∧ v = .zero t := by
  cases u with
  | notANumber => cases h
  | infinity s =>
    cases v with
    | infinity t =>
      obtain rfl : s = t := by cases s <;> cases t <;> first | rfl | cases h
      exact .inl rfl
    | notANumber => cases h
    | zero | finite => cases s <;> cases h
  | zero s =>
    cases v with
    | zero t => exact .inr ⟨s, t, rfl, rfl⟩
    | notANumber => cases h
    | infinity t | finite t => cases t <;> cases h
  | finite s m e hm =>
    cases v with
    | finite t n f hn =>
      -- Numbers of one sign are compared by their exponents, then by their mantissas.
      obtain ⟨rfl, rfl, rfl⟩ : s = t ∧ e = f ∧ m = n := by
        cases s <;> cases t <;> simp_all [UnpackedFloat.compare]
      exact .inl rfl
    | notANumber | zero => cases s <;> cases h
    | infinity t => cases s <;> cases t <;> cases h

/-- **A double that compares as equal to one other than zero is that one.** -/
theorem eq_of_beq {x y : Float} (h : x == y) (hy : (y == 0) = false) : x = y := by
  have hc : x.toModel.unpack.compare y.toModel.unpack = some .eq := beq_iff_eq.1 h
  rcases eq_or_zero_of_compare hc with hu | ⟨s, t, -, hz⟩
  · exact unpack_injective hu
  · have h0 : (y == 0) = true := by
      change y.toModel.unpack.beq _ = true
      rw [hz]
      rfl
    rw [hy] at h0
    cases h0

end HectocDuel.Decimal
