/-
  The digits of a puzzle and the texts that write them.

  * `Digits.parse_eq_ok_iff`: reading undoes writing, and nothing else is read;
  * `Digits.parse_eq_error_iff`: a text is refused iff it is not six characters
    from `1` to `9`;
  * `Digits.matchesSubmission_iff`: an answer fits a puzzle iff its decimal
    digits, in order, are what writes the puzzle.
-/
import HectocDuel.Puzzle.Digits

namespace HectocDuel

/-! ## Digits and characters -/

theorem digitValue_digitChar {d : Nat} (h : d ≤ 9) : digitValue (digitChar d) = d := by
  have : ∀ d ≤ 9, digitValue (digitChar d) = d := by decide
  exact this d h

theorem isPuzzleDigit_digitChar {d : Nat} (h1 : 1 ≤ d) (h9 : d ≤ 9) :
    isPuzzleDigit (digitChar d) := by
  have : ∀ d ≤ 9, 1 ≤ d → isPuzzleDigit (digitChar d) := by decide
  exact this d h9 h1

theorem isDigit_digitChar {d : Nat} (h : d ≤ 9) : (digitChar d).isDigit := by
  have : ∀ d ≤ 9, (digitChar d).isDigit := by decide
  exact this d h

theorem digitChar_digitValue {c : Char} (h : c.isDigit) : digitChar (digitValue c) = c := by
  have h0 : '0'.toNat ≤ c.toNat := by
    simp only [Char.isDigit, Bool.and_eq_true, decide_eq_true_eq] at h
    exact h.1
  rw [digitChar, digitValue, Nat.add_sub_cancel' h0, Char.ofNat_toNat]

theorem isDigit_of_isPuzzleDigit {c : Char} (h : isPuzzleDigit c) : c.isDigit := by
  simp only [isPuzzleDigit, Bool.and_eq_true, decide_eq_true_eq] at h
  simp only [Char.isDigit, Bool.and_eq_true, decide_eq_true_eq]
  exact ⟨UInt32.le_trans (by decide) h.1, h.2⟩

theorem map_digitChar_map_digitValue {cs : List Char} (h : ∀ c ∈ cs, c.isDigit) :
    (cs.map digitValue).map digitChar = cs := by
  rw [List.map_map]
  exact (List.map_congr_left fun c hc => digitChar_digitValue (h c hc)).trans (List.map_id _)

namespace Digits

theorem toList_text (ds : Digits) : ds.text.toList = ds.values.map digitChar :=
  String.toList_ofList

theorem map_digitValue_text (ds : Digits) : ds.text.toList.map digitValue = ds.values := by
  rw [toList_text, List.map_map]
  exact (List.map_congr_left fun d hd => digitValue_digitChar (ds.bounds d hd).2).trans
    (List.map_id _)

theorem isDigit_of_mem_text (ds : Digits) {c : Char} (hc : c ∈ ds.text.toList) : c.isDigit := by
  rw [toList_text] at hc
  obtain ⟨d, hd, rfl⟩ := List.mem_map.1 hc
  exact isDigit_digitChar (ds.bounds d hd).2

/-! ## Reading -/

/-- A text writes digits: it is six characters from `1` to `9`. -/
def Written (s : String) : Prop :=
  s.toList.length = 6 ∧ ∀ c ∈ s.toList, '1' ≤ c ∧ c ≤ '9'

theorem written_text (ds : Digits) : Written ds.text := by
  rw [Written, toList_text, List.length_map]
  refine ⟨ds.length_values, fun c hc => ?_⟩
  obtain ⟨d, hd, rfl⟩ := List.mem_map.1 hc
  simpa [isPuzzleDigit] using isPuzzleDigit_digitChar (ds.bounds d hd).1 (ds.bounds d hd).2

theorem exists_parse_of_written {s : String} (h : Written s) :
    ∃ ds, parse s = .ok ds ∧ ds.text = s := by
  have hn : s.toList.find? (!isPuzzleDigit ·) = none :=
    List.find?_eq_none.2 fun c hc => by simpa [isPuzzleDigit] using h.2 c hc
  rw [parse, dif_pos h.1]
  split
  · next c hc => simp [hn] at hc
  · refine ⟨_, rfl, String.toList_injective ?_⟩
    rw [toList_text]
    refine map_digitChar_map_digitValue fun c hc => isDigit_of_isPuzzleDigit ?_
    simpa [isPuzzleDigit] using h.2 c hc

theorem written_of_parse {s : String} {ds : Digits} (h : parse s = .ok ds) : Written s := by
  rw [parse] at h
  split at h
  · next hl =>
    split at h
    · cases h
    · next hn =>
      refine ⟨hl, fun c hc => ?_⟩
      simpa [isPuzzleDigit] using List.find?_eq_none.1 hn c hc
  · cases h

theorem text_injective {ds ds' : Digits} (h : ds.text = ds'.text) : ds = ds' := by
  have hv : ds.values = ds'.values := by
    rw [← map_digitValue_text ds, ← map_digitValue_text ds', h]
  cases ds
  cases ds'
  simpa using hv

/-- **Reading undoes writing**, and reads nothing else. -/
theorem parse_eq_ok_iff {s : String} {ds : Digits} : parse s = .ok ds ↔ ds.text = s := by
  constructor
  · intro h
    obtain ⟨ds', h', ht⟩ := exists_parse_of_written (written_of_parse h)
    obtain rfl : ds = ds' := Except.ok.inj (h.symm.trans h')
    exact ht
  · rintro rfl
    obtain ⟨ds', h', ht⟩ := exists_parse_of_written (written_text ds)
    rw [h', text_injective ht]

theorem parse_eq_error_iff {s : String} : (∃ e, parse s = .error e) ↔ ¬ Written s := by
  constructor
  · rintro ⟨e, he⟩ h
    obtain ⟨ds, hds, -⟩ := exists_parse_of_written h
    rw [he] at hds
    cases hds
  · intro h
    cases hp : parse s with
    | error e => exact ⟨e, rfl⟩
    | ok ds => exact absurd (written_of_parse hp) h

/-! ## Answers -/

/-- An answer fits iff its decimal digits, all else left out, write the puzzle. -/
theorem matchesSubmission_iff (ds : Digits) (s : String) :
    ds.matchesSubmission s ↔ s.toList.filter Char.isDigit = ds.text.toList := by
  rw [matchesSubmission, beq_iff_eq, ← map_digitValue_text]
  constructor
  · intro h
    have hc := congrArg (List.map digitChar) h
    rwa [map_digitChar_map_digitValue fun c hc => (List.mem_filter.1 hc).2,
      map_digitChar_map_digitValue fun c hc => isDigit_of_mem_text ds hc] at hc
  · exact congrArg (List.map digitValue)

end Digits

end HectocDuel
