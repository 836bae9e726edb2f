/-
  Pieces of lists.

  * `pieces_eq_splitOnP`: the pieces are those of `List.splitOnP`;
  * `pieces_append` and `cut_append`: what stands before the first separator is a piece, and
    the first one;
  * `pieces_intercalate`: so pieces that are joined are found again;
  * `not_of_mem_pieces`: no separator stands in a piece.
-/
import HectocDuel.Text.Cut

namespace HectocDuel.Text

variable {α : Type} {p : α → Bool} {a : α} {as q rest : List α}

/-! ## At every separator -/

theorem pieces_eq_splitOnP (p : α → Bool) (as : List α) : pieces p as = as.splitOnP p := by
  induction as with
  | nil => rfl
  | cons a as ih =>
    rw [pieces, List.splitOnP_cons_eq_if_modifyHead, ih]
    split
    · rfl
    · cases h : as.splitOnP p with
      | nil => exact absurd h (List.splitOnP_ne_nil p as)
      | cons q qs => rfl

theorem pieces_of_forall_not (h : ∀ b ∈ as, p b = false) : pieces p as = [as] := by
  rw [pieces_eq_splitOnP]
  exact List.splitOnP_eq_singleton h

theorem pieces_append (h : ∀ b ∈ as, p b = false) (ha : p a = true) (rest : List α) :
    pieces p (as ++ a :: rest) = as :: pieces p rest := by
  rw [pieces_eq_splitOnP, pieces_eq_splitOnP]
  exact List.splitOnP_append_cons_of_forall_mem h a ha rest

theorem forall_mem_intercalate {P : α → Prop} (ha : P a) {qs : List (List α)}
    (h : ∀ q ∈ qs, ∀ b ∈ q, P b) : ∀ b ∈ [a].intercalate qs, P b := by
  induction qs with
  | nil => exact fun _ hb => absurd hb List.not_mem_nil
  | cons q qs ih =>
    obtain ⟨hq, hqs⟩ := List.forall_mem_cons.1 h
    cases qs with
    | nil => rwa [List.intercalate_singleton]
    | cons q' qs =>
      rw [List.intercalate_cons_cons, List.append_assoc, List.singleton_append,
        List.forall_mem_append, List.forall_mem_cons]
      exact ⟨hq, ha, ih hqs⟩

theorem head?_intercalate_append (hq : q ≠ []) (qs : List (List α)) (rest : List α) :
    ([a].intercalate (q :: qs) ++ rest).head? = q.head? := by
  obtain ⟨b, q, rfl⟩ := List.exists_cons_of_ne_nil hq
  cases qs with
  | nil => rw [List.intercalate_singleton]; rfl
  | cons q' qs => rw [List.intercalate_cons_cons]; rfl

/-- Pieces that are joined are found again. -/
theorem pieces_intercalate (ha : p a = true) (q : List α) (qs : List (List α))
    (h : ∀ as ∈ q :: qs, ∀ b ∈ as, p b = false) :
    pieces p ([a].intercalate (q :: qs)) = q :: qs := by
  induction qs generalizing q with
  | nil =>
    rw [List.intercalate_singleton]
    exact pieces_of_forall_not (h q List.mem_cons_self)
  | cons q' qs ih =>
    obtain ⟨hq, hqs⟩ := List.forall_mem_cons.1 h
    rw [List.intercalate_cons_cons, List.append_assoc, List.singleton_append, pieces_append hq ha,
      ih q' hqs]

theorem not_of_mem_pieces (hq : q ∈ pieces p as) (ha : a ∈ q) : p a = false := by
  induction as generalizing q with
  | nil =>
    rw [pieces, List.mem_singleton] at hq
    rw [hq] at ha
    cases ha
  | cons b as ih =>
    rw [pieces] at hq
    split at hq
    · rcases List.mem_cons.1 hq with rfl | hq
      · cases ha
      · exact ih hq ha
    · next hb =>
      have hb : p b = false := Bool.eq_false_iff.2 hb
      cases hs : pieces p as with
      | nil =>
        rw [hs] at hq
        obtain rfl := List.mem_singleton.1 hq
        obtain rfl := List.mem_singleton.1 ha
        exact hb
      | cons q' qs =>
        rw [hs] at hq ih
        rcases List.mem_cons.1 hq with rfl | hq
        · rcases List.mem_cons.1 ha with rfl | ha
          · exact hb
          · exact ih List.mem_cons_self ha
        · exact ih (List.mem_cons_of_mem _ hq) ha

/-! ## At the first separator -/

theorem cut_of_forall_not (h : ∀ b ∈ as, p b = false) : cut p as = (as, none) := by
  induction as with
  | nil => rfl
  | cons b as ih =>
    obtain ⟨hb, has⟩ := List.forall_mem_cons.1 h
    rw [cut, if_neg (Bool.eq_false_iff.1 hb), ih has]

theorem cut_append (h : ∀ b ∈ as, p b = false) (ha : p a = true) (rest : List α) :
    cut p (as ++ a :: rest) = (as, some rest) := by
  induction as with
  | nil => rw [List.nil_append, cut, if_pos ha]
  | cons b as ih =>
    obtain ⟨hb, has⟩ := List.forall_mem_cons.1 h
    rw [List.cons_append, cut, if_neg (Bool.eq_false_iff.1 hb), ih has]

end HectocDuel.Text
