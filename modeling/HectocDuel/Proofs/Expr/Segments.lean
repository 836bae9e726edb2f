/-
  How a text falls into what the scanner reads in one go.

  A segment is a blank, a literal, a parenthesis or a symbol; a `+` or `-` that
  is a sign is a segment of its own kind.  `Segmented` says which segments may
  follow one another, and how the scanner finds them is not said: a literal is as
  long as can be, and what a symbol is hangs on what stands before it.

  * `Segmented.unique`: a text falls into segments in at most one way;
  * `scan_eq_ok_iff`: it has tokens iff it does so, and they are the tokens of its
    segments;
  * `number_of_mem_scan`: so a number among the tokens is a literal of the text, or
    the `-1` of a sign.
-/
import HectocDuel.Proofs.Expr.Postorder
import HectocDuel.Proofs.Expr.Scan

namespace HectocDuel

/-! ## Segments -/

/-- What the scanner reads in one go. -/
inductive Segment where
  | blank (c : Char)
  | literal (cs : List Char)
  | leftParen
  | rightParen
  /-- A symbol that stands for its operator. -/
  | operator (op : Operator)
  /-- A minus without an operand in front of it. -/
  | minus
  /-- A plus that is left out. -/
  | plus
  deriving DecidableEq, Repr

namespace Segment

/-- How a segment is written. -/
def text : Segment → List Char
  | blank c => [c]
  | literal cs => cs
  | leftParen => ['(']
  | rightParen => [')']
  | operator op => [op.symbol]
  | minus => ['-']
  | plus => ['+']

/-- What a segment contributes to the tokens. -/
def tokens : Segment → List Token
  | blank _ | plus => []
  | literal cs => [.number (String.ofList cs)]
  | leftParen => [.leftParen]
  | rightParen => [.rightParen]
  | operator op => [.operator op]
  | minus => [.number "-1", .operator .mul]

/-- What stands before the text behind a segment, with `before` in front of it. -/
def after (before : Before) : Segment → Before
  | blank _ | plus => before
  | literal _ | rightParen => .operand
  | leftParen => .leftParen
  | operator _ | minus => .operator

/-- Whether a segment may stand between `before` and the text `rest`. -/
def Fits (before : Before) (rest : List Char) : Segment → Prop
  | blank c => Text.isBlank c
  | literal cs => IsLiteral cs ∧ ∀ c ∈ rest.head?, ¬ IsLiteral (cs ++ [c])
  | leftParen | rightParen => True
  | operator op => (op = .sub → before = .operand) ∧
      (op = .add → before ≠ .start ∧ before ≠ .leftParen)
  | minus => before ≠ .operand
  | plus => before = .start ∨ before = .leftParen

end Segment

/-- The segments may follow one another behind `before`. -/
def Segmented (before : Before) : List Segment → Prop
  | [] => True
  | s :: ss => s.Fits before (ss.flatMap Segment.text) ∧ Segmented (s.after before) ss

/-! ## Scanning segments -/

theorem signTokens_sub {before : Before} (h : before ≠ .operand) :
    signTokens before .sub = ([.number "-1", .operator .mul], .operator) :=
  if_pos ⟨rfl, h⟩

theorem signTokens_add {before : Before} (h : before = .start ∨ before = .leftParen) :
    signTokens before .add = ([], before) := by
  rw [signTokens, if_neg (by simp), if_pos ⟨rfl, h⟩]

theorem signTokens_binary {before : Before} {op : Operator} (hs : op = .sub → before = .operand)
    (ha : op = .add → before ≠ .start ∧ before ≠ .leftParen) :
    signTokens before op = ([.operator op], .operator) := by
  rw [signTokens, if_neg fun h => h.2 (hs h.1), if_neg]
  rintro ⟨rfl, h⟩
  exact h.elim (ha rfl).1 (ha rfl).2

theorem scan_segment {before : Before} {rest : List Char} {s : Segment} (h : s.Fits before rest) :
    scan before (s.text ++ rest) = (scan (s.after before) rest).map (s.tokens ++ ·) := by
  have hnil : ∀ x : Except ValidationError (List Token), x = x.map ([] ++ ·) := by
    rintro (e | ts) <;> rfl
  cases s with
  | blank c =>
    refine (scan_blanks ?_ before rest).trans (hnil _)
    intro c' hc
    rwa [List.mem_singleton.1 hc]
  | literal cs => exact scan_longest_literal h.1 h.2 before
  | leftParen => exact scan_leftParen before rest
  | rightParen => exact scan_rightParen before rest
  | operator op =>
    have := scan_symbol before op rest
    rwa [signTokens_binary h.1 h.2] at this
  | minus => exact scan_minus h rest
  | plus =>
    have := scan_symbol before .add rest
    rwa [signTokens_add h] at this

theorem Segmented.scan {before : Before} {ss : List Segment} (h : Segmented before ss) :
    scan before (ss.flatMap Segment.text) = .ok (ss.flatMap Segment.tokens) := by
  induction ss generalizing before with
  | nil =>
    rw [List.flatMap_nil, HectocDuel.scan]
    rfl
  | cons s ss ih =>
    rw [List.flatMap_cons, scan_segment h.1, ih h.2]
    rfl

theorem symbol_of_ofSymbol? {c : Char} {op : Operator} (h : Operator.ofSymbol? c = some op) :
    op.symbol = c := by
  unfold Operator.ofSymbol? at h
  split_ifs at h <;> simp_all [← Option.some.inj h, Operator.symbol]

theorem exists_symbol_segment (before : Before) (op : Operator) (rest : List Char) :
    ∃ s : Segment, s.Fits before rest ∧ s.text = [op.symbol] ∧
      s.after before = (signTokens before op).2 ∧ s.tokens = (signTokens before op).1 := by
  by_cases hs : op = .sub ∧ before ≠ .operand
  · obtain ⟨rfl, hb⟩ := hs
    exact ⟨.minus, hb, rfl, by rw [signTokens_sub hb]; exact ⟨rfl, rfl⟩⟩
  · by_cases ha : op = .add ∧ (before = .start ∨ before = .leftParen)
    · obtain ⟨rfl, hb⟩ := ha
      exact ⟨.plus, hb, rfl, by rw [signTokens_add hb]; exact ⟨rfl, rfl⟩⟩
    · have hs : op = .sub → before = .operand := by tauto
      have ha : op = .add → before ≠ .start ∧ before ≠ .leftParen := by tauto
      exact ⟨.operator op, ⟨hs, ha⟩, rfl, by rw [signTokens_binary hs ha]; exact ⟨rfl, rfl⟩⟩

theorem exists_segments {before : Before} {cs : List Char} {ts : List Token}
    (h : scan before cs = .ok ts) : ∃ ss, Segmented before ss ∧
      ss.flatMap Segment.text = cs ∧ ss.flatMap Segment.tokens = ts := by
  -- One segment more in front of those of the rest.
  have hcons : ∀ {before : Before} {s : Segment} {rest : List Char} {ts : List Token},
      s.Fits before rest → (∃ ss, Segmented (s.after before) ss ∧
        ss.flatMap Segment.text = rest ∧ ss.flatMap Segment.tokens = ts) →
      ∃ ss, Segmented before ss ∧ ss.flatMap Segment.text = s.text ++ rest ∧
        ss.flatMap Segment.tokens = s.tokens ++ ts := by
    rintro before s rest ts hs ⟨ss, hss, rfl, rfl⟩
    exact ⟨s :: ss, ⟨hs, hss⟩, List.flatMap_cons, List.flatMap_cons⟩
  fun_induction scan before cs generalizing ts with
  | case1 before =>
    obtain rfl := Except.ok.inj h
    exact ⟨[], trivial, rfl, rfl⟩
  | case2 before c cs hb ih => exact hcons (s := .blank c) hb (ih h)
  | case3 before c cs hb hn ih =>
    obtain ⟨ts, hts, rfl⟩ := map_eq_ok_iff.1 h
    obtain ⟨hnum, hcount, hstop⟩ := spanLiteral_spec (c = '.') cs
    have hpoints : (c :: (spanLiteral (c = '.') cs).1).count '.' =
        (spanLiteral (c = '.') cs).1.count '.' + (decide (c = '.')).toNat := by
      by_cases hd : c = '.' <;> simp [hd]
    have hl : IsLiteral (c :: (spanLiteral (c = '.') cs).1) :=
      ⟨by simp, List.forall_mem_cons.2 ⟨hn, hnum⟩, hpoints ▸ hcount⟩
    have hfits : (Segment.literal (c :: (spanLiteral (c = '.') cs).1)).Fits before
        (spanLiteral (c = '.') cs).2 :=
      ⟨hl, fun c' hc' => hl.not_concat_iff.2 (hpoints ▸ hstop c' hc')⟩
    obtain ⟨ss, hss, ht, hts⟩ := hcons hfits (ih hts)
    refine ⟨ss, hss, ht.trans ?_, hts⟩
    exact congrArg (c :: ·) (spanLiteral_append (c = '.') cs)
  | case4 before cs hb hn ih =>
    obtain ⟨ts, hts, rfl⟩ := map_eq_ok_iff.1 h
    exact hcons (s := .leftParen) trivial (ih hts)
  | case5 before cs hb hn ho ih =>
    obtain ⟨ts, hts, rfl⟩ := map_eq_ok_iff.1 h
    exact hcons (s := .rightParen) trivial (ih hts)
  | case6 => cases h
  | case7 before c cs hb hn ho hc op hop ih =>
    obtain ⟨ts, hts, rfl⟩ := map_eq_ok_iff.1 h
    obtain ⟨s, hs, htext, hafter, htok⟩ := exists_symbol_segment before op cs
    have := hcons hs (hafter ▸ ih hts)
    rwa [htext, htok, symbol_of_ofSymbol? hop] at this

/-- **A text has the tokens of the segments that it falls into.** -/
theorem scan_eq_ok_iff {before : Before} {cs : List Char} {ts : List Token} :
    scan before cs = .ok ts ↔ ∃ ss, Segmented before ss ∧
      ss.flatMap Segment.text = cs ∧ ss.flatMap Segment.tokens = ts := by
  constructor
  · exact exists_segments
  · rintro ⟨ss, h, rfl, rfl⟩
    exact h.scan

/-! ## Only one way -/

theorem IsLiteral.of_append {cs cs' : List Char} (h : IsLiteral (cs ++ cs')) (hne : cs ≠ []) :
    IsLiteral cs := by
  refine ⟨hne, (List.forall_mem_append.1 h.numeric).1, ?_⟩
  have := h.points
  rw [List.count_append] at this
  omega

theorem eq_nil_of_longest {ls more rest : List Char} (hl : IsLiteral (ls ++ more))
    (hr : ∀ c ∈ (more ++ rest).head?, ¬ IsLiteral (ls ++ [c])) : more = [] := by
  cases more with
  | nil => rfl
  | cons c more =>
    rw [← List.singleton_append, ← List.append_assoc] at hl
    exact absurd (hl.of_append (by simp)) (hr c rfl)

namespace Segment

variable {before : Before} {s s' : Segment} {rest rest' : List Char}

theorem Fits.text_ne_nil (h : s.Fits before rest) : s.text ≠ [] := by
  cases s with
  | literal cs => exact h.1.nonempty
  | blank c | leftParen | rightParen | operator op | minus | plus => simp [text]

theorem Fits.isNumeric_iff (h : s.Fits before rest) :
    (∀ c ∈ s.text.head?, IsNumeric c) ↔ ∃ cs, s = literal cs := by
  cases s with
  | literal cs =>
    refine iff_of_true (fun c hc => h.1.numeric c (List.mem_of_mem_head? hc)) ⟨cs, rfl⟩
  | blank c =>
    refine iff_of_false (fun hn => ?_) (by simp)
    have := (hn c rfl).not_isBlank
    rw [show Text.isBlank c = true from h] at this
    cases this
  | operator op =>
    refine iff_of_false (fun hn => ?_) (by simp)
    have := hn _ rfl
    cases op <;> simp [IsNumeric, Operator.symbol, Char.isDigit] at this
  | leftParen | rightParen | minus | plus => simp [text, IsNumeric, Char.isDigit]

theorem Fits.isBlank_iff (h : s.Fits before rest) :
    (∀ c ∈ s.text.head?, Text.isBlank c) ↔ ∃ c, s = blank c := by
  cases s with
  | blank c =>
    refine iff_of_true (fun c' hc => ?_) ⟨c, rfl⟩
    obtain rfl := Option.some.inj hc
    exact h
  | literal cs =>
    refine iff_of_false (fun hb => ?_) (by simp)
    obtain ⟨c, hc⟩ := Option.isSome_iff_exists.1 (List.isSome_head?.2 h.1.nonempty)
    have := (h.1.numeric c (List.mem_of_mem_head? hc)).not_isBlank
    rw [hb c hc] at this
    cases this
  | operator op => cases op <;> simp [text, Operator.symbol, Text.isBlank]
  | leftParen | rightParen | minus | plus => simp [text, Text.isBlank]

/-- A parenthesis or a symbol is told by its character, and a sign by what stands
    before it. -/
theorem Fits.unique_of_mark (h : s.Fits before rest) (h' : s'.Fits before rest')
    (hl : ∀ cs, s ≠ literal cs) (hl' : ∀ cs, s' ≠ literal cs) (hb : ∀ c, s ≠ blank c)
    (hb' : ∀ c, s' ≠ blank c) (hhead : s.text.head? = s'.text.head?) : s = s' := by
  cases s with
  | literal cs => exact absurd rfl (hl cs)
  | blank c => exact absurd rfl (hb c)
  | operator op =>
    cases s' with
    | literal cs => exact absurd rfl (hl' cs)
    | blank c => exact absurd rfl (hb' c)
    | operator op' => cases op <;> cases op' <;> simp_all [text, Operator.symbol]
    | leftParen | rightParen | minus | plus =>
      cases op <;> simp_all [text, Operator.symbol, Fits]
  | leftParen | rightParen | minus | plus =>
    cases s' with
    | literal cs => exact absurd rfl (hl' cs)
    | blank c => exact absurd rfl (hb' c)
    | operator op => cases op <;> simp_all [text, Operator.symbol, Fits]
    | leftParen | rightParen | minus | plus => simp_all [text]

/-- **One segment at most fits at the beginning of a text.** -/
theorem Fits.unique (h : s.Fits before rest) (h' : s'.Fits before rest')
    (heq : s.text ++ rest = s'.text ++ rest') : s = s' := by
  have hhead : s.text.head? = s'.text.head? := by
    rw [← List.head?_append_of_ne_nil _ h.text_ne_nil, heq,
      List.head?_append_of_ne_nil _ h'.text_ne_nil]
  have hliteral := h.isNumeric_iff
  rw [hhead, h'.isNumeric_iff] at hliteral
  have hblank := h.isBlank_iff
  rw [hhead, h'.isBlank_iff] at hblank
  by_cases hl : ∃ cs, s = literal cs
  · obtain ⟨cs', rfl⟩ := hliteral.2 hl
    obtain ⟨cs, rfl⟩ := hl
    obtain ⟨hl, hr⟩ := h
    obtain ⟨hl', hr'⟩ := h'
    rcases List.append_eq_append_iff.1 heq with ⟨more, rfl, rfl⟩ | ⟨more, rfl, rfl⟩
    · rw [eq_nil_of_longest hl' hr, text, List.append_nil]
    · rw [eq_nil_of_longest hl hr', text, List.append_nil]
  · by_cases hb : ∃ c, s = blank c
    · obtain ⟨c', rfl⟩ := hblank.2 hb
      obtain ⟨c, rfl⟩ := hb
      exact congrArg blank (Option.some.inj hhead)
    · have hl' := mt hliteral.1 hl
      have hb' := mt hblank.1 hb
      rw [not_exists] at hl hl' hb hb'
      exact h.unique_of_mark h' hl hl' hb hb' hhead

end Segment

/-- **A text falls into segments in at most one way.** -/
theorem Segmented.unique {before : Before} {ss ss' : List Segment} (h : Segmented before ss)
    (h' : Segmented before ss') (heq : ss.flatMap Segment.text = ss'.flatMap Segment.text) :
    ss = ss' := by
  induction ss generalizing before ss' with
  | nil =>
    cases ss' with
    | nil => rfl
    | cons s' ss' =>
      rw [List.flatMap_nil, List.flatMap_cons] at heq
      exact absurd (List.append_eq_nil_iff.1 heq.symm).1 h'.1.text_ne_nil
  | cons s ss ih =>
    cases ss' with
    | nil =>
      rw [List.flatMap_nil, List.flatMap_cons] at heq
      exact absurd (List.append_eq_nil_iff.1 heq).1 h.1.text_ne_nil
    | cons s' ss' =>
      rw [List.flatMap_cons, List.flatMap_cons] at heq
      obtain rfl := h.1.unique h'.1 heq
      rw [ih h.2 h'.2 (List.append_cancel_left heq)]

/-! ## Numbers -/

/-- A number among the tokens of a segment is its literal, or the `-1` of a sign. -/
theorem Segment.Fits.number_cases {before : Before} {rest : List Char} {s : Segment}
    (h : s.Fits before rest) {literal : String} (hm : .number literal ∈ s.tokens) :
    s = .minus ∧ literal = "-1" ∨ IsLiteral literal.toList ∧ s = .literal literal.toList := by
  cases s with
  | literal cs =>
    obtain rfl := Token.number.inj (List.mem_singleton.1 hm)
    rw [String.toList_ofList]
    exact .inr ⟨h.1, rfl⟩
  | minus => exact .inl ⟨rfl, by simpa [tokens] using hm⟩
  | blank c | leftParen | rightParen | operator op | plus => simp [tokens] at hm

theorem Segmented.fits_of_mem {before : Before} {ss : List Segment} (h : Segmented before ss)
    {s : Segment} (hs : s ∈ ss) : ∃ before rest, s.Fits before rest := by
  induction ss generalizing before with
  | nil => cases hs
  | cons s' ss ih =>
    rcases List.mem_cons.1 hs with rfl | hs
    · exact ⟨_, _, h.1⟩
    · exact ih h.2 hs

theorem number_of_mem_scan {before : Before} {cs : List Char} {ts : List Token}
    (h : scan before cs = .ok ts) {literal : String} (hm : .number literal ∈ ts) :
    literal = "-1" ∨ IsLiteral literal.toList := by
  obtain ⟨ss, hss, rfl, rfl⟩ := scan_eq_ok_iff.1 h
  obtain ⟨s, hs, hm⟩ := List.mem_flatMap.1 hm
  obtain ⟨_, _, hfits⟩ := hss.fits_of_mem hs
  exact (hfits.number_cases hm).imp And.right And.left

end HectocDuel
