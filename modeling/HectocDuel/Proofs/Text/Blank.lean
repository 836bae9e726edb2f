/-
  Blanks at the ends of texts.

  * `trimChars_eq_self_iff`: nothing is dropped iff the text neither begins nor ends with a
    blank;
  * `sameInside_iff`: two texts differ in blanks at their ends at most iff the same is left
    of them.
-/
import HectocDuel.Text.Cut
import Mathlib.Data.List.DropRight

namespace HectocDuel.Text

/-- All characters are blanks. -/
def Blanks (cs : List Char) : Prop :=
  ∀ c ∈ cs, isBlank c = true

/-- The text neither begins nor ends with a blank. -/
structure Trimmed (cs : List Char) : Prop where
  head : ∀ c ∈ cs.head?, isBlank c = false
  last : ∀ c ∈ cs.getLast?, isBlank c = false

variable {cs before behind : List Char}

theorem trimChars_eq (cs : List Char) :
    trimChars cs = (cs.dropWhile isBlank).rdropWhile isBlank :=
  rfl

/-- What is dropped are blanks at both ends. -/
theorem exists_trimChars (cs : List Char) :
    ∃ before behind, Blanks before ∧ Blanks behind ∧ cs = before ++ trimChars cs ++ behind := by
  refine ⟨cs.takeWhile isBlank, (cs.dropWhile isBlank).rtakeWhile isBlank,
    fun c hc => List.mem_takeWhile_imp hc, fun c hc => List.mem_rtakeWhile_imp hc, ?_⟩
  rw [trimChars_eq, List.append_assoc, List.rdropWhile_append_rtakeWhile,
    List.takeWhile_append_dropWhile]

theorem rdropWhile_append_blanks (hb : Blanks behind) (cs : List Char) :
    (cs ++ behind).rdropWhile isBlank = cs.rdropWhile isBlank := by
  rw [List.rdropWhile, List.reverse_append,
    List.dropWhile_append_of_pos fun c hc => hb c (List.mem_reverse.1 hc), List.rdropWhile]

/-- Blanks around a text do not matter to what is left of it. -/
theorem trimChars_append (hb : Blanks before) (hb' : Blanks behind) (cs : List Char) :
    trimChars (before ++ cs ++ behind) = trimChars cs := by
  rw [trimChars_eq, List.append_assoc, List.dropWhile_append_of_pos hb, List.dropWhile_append]
  split
  · next hnone =>
    -- The text is blank itself, so nothing is left on either side.
    rw [trimChars_eq, List.isEmpty_iff.1 hnone, List.dropWhile_eq_nil_iff.2 hb']
  · rw [rdropWhile_append_blanks hb', trimChars_eq]

theorem trimmed_trimChars (cs : List Char) : Trimmed (trimChars cs) := by
  rw [trimChars_eq]
  refine ⟨fun c hc => ?_, fun c hc => ?_⟩
  · have hfirst : (cs.dropWhile isBlank).head? = some c := by
      obtain ⟨behind, heq⟩ := List.rdropWhile_prefix isBlank (l := cs.dropWhile isBlank)
      rw [← heq, List.head?_append, Option.mem_def.1 hc]
      rfl
    have hnot := List.head?_dropWhile_not isBlank cs
    rwa [hfirst] at hnot
  · obtain ⟨hne, rfl⟩ := List.mem_getLast?_eq_getLast hc
    exact Bool.eq_false_iff.2 (List.rdropWhile_last_not isBlank _ hne)

theorem trimChars_eq_self_iff : trimChars cs = cs ↔ Trimmed cs := by
  refine ⟨fun h => h ▸ trimmed_trimChars cs, fun h => ?_⟩
  have hhead : cs.dropWhile isBlank = cs := by
    cases cs with
    | nil => rfl
    | cons c cs => exact List.dropWhile_cons_of_neg (Bool.eq_false_iff.1 (h.head c rfl))
  rw [trimChars_eq, hhead, List.rdropWhile_eq_self_iff]
  exact fun hne => Bool.eq_false_iff.1 (h.last _ (List.getLast?_eq_some_getLast hne))

theorem trimChars_of_forall_not (h : ∀ c ∈ cs, isBlank c = false) : trimChars cs = cs :=
  trimChars_eq_self_iff.2
    ⟨fun c hc => h c (List.mem_of_mem_head? hc), fun c hc => h c (List.mem_of_mem_getLast? hc)⟩

/-- No blank of ASCII is visible. -/
theorem isBlank_of_visible {c : Char} (h : ' ' < c) (h' : c < '\x7f') : isBlank c = false := by
  have h : 0x20 < c.toNat := h
  have h' : c.toNat < 0x7f := h'
  simp only [isBlank, Bool.or_eq_false_iff, Bool.and_eq_false_imp, decide_eq_true_eq,
    decide_eq_false_iff_not, beq_eq_false_iff_ne]
  omega

/-! ## Texts -/

/-- The texts differ in blanks at their ends at most. -/
def SameInside (s t : String) : Prop :=
  ∃ core before behind before' behind' : List Char,
    Blanks before ∧ Blanks behind ∧ Blanks before' ∧ Blanks behind' ∧
      s.toList = before ++ core ++ behind ∧ t.toList = before' ++ core ++ behind'

/-- They do so iff the same is left of them without those blanks. -/
theorem sameInside_iff {s t : String} : SameInside s t ↔ trim s = trim t := by
  rw [trim, trim, String.ofList_inj]
  constructor
  · rintro ⟨core, before, behind, before', behind', hb, hb', hc, hc', hs, ht⟩
    rw [hs, ht, trimChars_append hb hb', trimChars_append hc hc']
  · intro h
    obtain ⟨before, behind, hb, hb', hs⟩ := exists_trimChars s.toList
    obtain ⟨before', behind', hc, hc', ht⟩ := exists_trimChars t.toList
    exact ⟨_, before, behind, before', behind', hb, hb', hc, hc', hs, h ▸ ht⟩

end HectocDuel.Text
