/-
  Which literals denote a double.

  A literal is digits with at most one point.  It denotes a number if it has a digit
  at all, so the only one that denotes none is the point alone
  (`readDouble?_eq_none_iff`).  The sign rule adds `-1` to them (`literal_negOne`).
-/
import HectocDuel.Expr.Value
import HectocDuel.Proofs.Expr.Scan

namespace HectocDuel
namespace Decimal

theorem spanDigits_append {ds : List Char} (hd : ∀ c ∈ ds, c.isDigit) (rest : List Char)
    (hr : ∀ c ∈ rest.head?, ¬ c.isDigit) : spanDigits (ds ++ rest) = (ds, rest) := by
  have hrest : rest.takeWhile Char.isDigit = [] ∧ rest.dropWhile Char.isDigit = rest := by
    cases rest with
    | nil => exact ⟨rfl, rfl⟩
    | cons c rest => simp [hr c rfl]
  rw [spanDigits, List.takeWhile_append_of_pos hd, List.dropWhile_append_of_pos hd, hrest.1,
    hrest.2, List.append_nil]

theorem exists_digits {cs : List Char} (h : IsLiteral cs) : (∀ c ∈ cs, c.isDigit) ∨
    ∃ whole fraction, cs = whole ++ '.' :: fraction ∧ (∀ c ∈ whole, c.isDigit) ∧
      ∀ c ∈ fraction, c.isDigit := by
  by_cases hm : '.' ∈ cs
  · obtain ⟨whole, fraction, rfl⟩ := List.append_of_mem hm
    have hp := h.points
    rw [List.count_append, List.count_cons_self] at hp
    have hw : '.' ∉ whole := List.count_eq_zero.1 (by omega)
    have hf : '.' ∉ fraction := List.count_eq_zero.1 (by omega)
    refine .inr ⟨whole, fraction, rfl, fun c hc => ?_, fun c hc => ?_⟩
    · refine (h.numeric c (by simp [hc])).resolve_right ?_
      rintro rfl
      exact hw hc
    · refine (h.numeric c (by simp [hc])).resolve_right ?_
      rintro rfl
      exact hf hc
  · refine .inl fun c hc => (h.numeric c hc).resolve_right ?_
    rintro rfl
    exact hm hc

theorem read?_of_literal {cs : List Char} (h : IsLiteral cs) (hne : cs ≠ ['.']) :
    ∃ m, Magnitude.read? cs = some m := by
  rcases exists_digits h with hd | ⟨whole, fraction, rfl, hw, hf⟩
  · have hs := spanDigits_append hd [] (by simp)
    rw [List.append_nil] at hs
    simp [Magnitude.read?, hs, readExponent?, h.nonempty]
  · have hs := spanDigits_append hw ('.' :: fraction) (by simp [Char.isDigit])
    have hs' := spanDigits_append hf [] (by simp)
    rw [List.append_nil] at hs'
    have hne : ¬ (whole = [] ∧ fraction = []) := by
      rintro ⟨rfl, rfl⟩
      exact hne rfl
    simp [Magnitude.read?, hs, hs', readExponent?, hne]

/-- No sign stands in front of a literal. -/
theorem readDouble?_of_literal {s : String} (h : IsLiteral s.toList) :
    readDouble? s = readUnsigned? s.toList := by
  rw [readDouble?]
  split
  · next cs hs =>
    have := h.numeric '-' (by simp [hs])
    simp [IsNumeric, Char.isDigit] at this
  · next cs hs =>
    have := h.numeric '+' (by simp [hs])
    simp [IsNumeric, Char.isDigit] at this
  · rfl

/-- **A literal denotes a number unless it is the point alone.** -/
theorem readDouble?_eq_none_iff {s : String} (h : IsLiteral s.toList) :
    readDouble? s = none ↔ s = "." := by
  by_cases hs : s = "."
  · subst hs
    exact iff_of_true (by decide +kernel) rfl
  · have hne : s.toList ≠ ['.'] := fun h => hs (String.toList_injective h)
    obtain ⟨m, hm⟩ := read?_of_literal h hne
    rw [readDouble?_of_literal h, readUnsigned?, hm]
    exact iff_of_false (by simp) hs

end Decimal

theorem literal_negOne : doubles.literal "-1" = some (-1) := by
  change Decimal.readDouble? "-1" = some (-1)
  decide +kernel

end HectocDuel
