/-
  Tokens written out are read again as they were.

  Blanks may stand anywhere between the tokens.  A literal then ends where it did,
  since no number follows another; and an operator is read as itself wherever it does
  not stand where a sign would.

  * `scan_token`: one token in front of the rest of the text;
  * `no_sign_behind_paren`: no text has tokens of which one is a `+` or `-` directly
    behind an opening parenthesis;
  * `tokenize_spaced_iff`: so of the lists that validation accepts, these are the only
    ones that are lost by writing them out.
-/
import HectocDuel.Proofs.Expr.Segments
import HectocDuel.Proofs.Expr.Sentence

namespace HectocDuel

/-! ## Neighbours -/

/-- Whether an operator stands where it would be a sign. -/
def Token.IsSignBehindParen : Token → Token → Prop
  | leftParen, operator op => op = .add ∨ op = .sub
  | _, _ => False

theorem isChain_iff_forall_pair {α : Type} {R : α → α → Prop} {xs : List α} :
    xs.IsChain R ↔ ∀ x y, [x, y] <:+: xs → R x y := by
  rw [List.isChain_iff_forall_rel_of_append_cons_cons]
  constructor
  · rintro h x y ⟨as, bs, rfl⟩
    have hsplit : as ++ [x, y] ++ bs = as ++ x :: y :: bs := by simp
    exact h hsplit
  · rintro h x y as bs rfl
    exact h x y ⟨as, bs, by simp⟩

theorem isChain_not_sign_iff {ts : List Token} :
    (ts.IsChain fun t u => ¬ t.IsSignBehindParen u) ↔
      ¬ [.leftParen, .operator .add] <:+: ts ∧ ¬ [.leftParen, .operator .sub] <:+: ts := by
  rw [isChain_iff_forall_pair]
  constructor
  · intro h
    exact ⟨fun ha => h _ _ ha (.inl rfl), fun hs => h _ _ hs (.inr rfl)⟩
  · rintro ⟨ha, hs⟩ t u htu hsign
    match t, u, hsign with
    | .leftParen, .operator .add, _ => exact ha htu
    | .leftParen, .operator .sub, _ => exact hs htu

/-! ## Writing and reading -/

/-- What stands before the text behind a token. -/
def Token.after : Token → Before
  | number _ | rightParen => .operand
  | leftParen => .leftParen
  | operator _ => .operator

theorem Token.endsLiteral_text {t : Token} (h : ∀ literal, t ≠ .number literal) :
    t.text.toList ≠ [] ∧ EndsLiteral t.text.toList := by
  cases t with
  | number literal => exact absurd rfl (h literal)
  | operator op =>
    rw [text, Operator.text, String.toList_ofList]
    exact ⟨by simp, endsLiteral_symbol op⟩
  | leftParen | rightParen => simp [text, EndsLiteral, IsNumeric, Char.isDigit]

theorem scan_token {before : Before} {t : Token} {rest : List Char}
    (hl : ∀ literal, t = .number literal → IsLiteral literal.toList ∧ EndsLiteral rest)
    (hop : ∀ op, t = .operator op → signTokens before op = ([.operator op], .operator)) :
    scan before (t.text.toList ++ rest) = (scan t.after rest).map (t :: ·) := by
  cases t with
  | number literal =>
    obtain ⟨hl, hr⟩ := hl literal rfl
    rw [Token.text, scan_literal hl hr, String.ofList_toList]
    rfl
  | operator op =>
    have := scan_symbol before op rest
    rw [hop op rfl] at this
    rwa [Token.text, Operator.text, String.toList_ofList]
  | leftParen => exact scan_leftParen before rest
  | rightParen => exact scan_rightParen before rest

theorem signTokens_after {t : Token} {op : Operator} (hc : ¬ t.Clashes (.operator op))
    (hs : ¬ t.IsSignBehindParen (.operator op)) :
    signTokens t.after op = ([.operator op], .operator) := by
  cases t with
  | number literal | rightParen => exact signTokens_operand op
  | leftParen =>
    rw [Token.IsSignBehindParen, not_or] at hs
    exact signTokens_binary (fun h => absurd h hs.2) fun h => absurd h hs.1
  | operator op' => exact absurd trivial hc

/-- **Tokens written out are read as they were.** -/
theorem scan_spaced {ts : List Token} (hc : ts.IsChain fun t u => ¬ t.Clashes u)
    (hs : ts.IsChain fun t u => ¬ t.IsSignBehindParen u)
    (hl : ∀ literal, .number literal ∈ ts → IsLiteral literal.toList) :
    ∀ {before : Before} {text : List Char},
      (∀ op, ts.head? = some (.operator op) → signTokens before op = ([.operator op], .operator)) →
      Spaced (ts.map (·.text.toList)) text → scan before text = .ok ts := by
  induction ts with
  | nil =>
    intro before text _ h
    exact h.scan_nil before
  | cons t ts ih =>
    intro before text hop h
    obtain ⟨rest, hrest, heq⟩ := h.scan_cons before
    have hlts : ∀ literal, .number literal ∈ ts → IsLiteral literal.toList :=
      fun literal hm => hl literal (List.mem_cons_of_mem t hm)
    -- Behind a number comes something that ends its literal.
    have hnext : ∀ literal, t = .number literal → EndsLiteral rest := by
      rintro literal rfl
      refine hrest.endsLiteral fun p hp => ?_
      cases ts with
      | nil => cases hp
      | cons u ts =>
        obtain rfl := Option.some.inj hp
        refine Token.endsLiteral_text ?_
        rintro literal' rfl
        exact (List.isChain_cons_cons.1 hc).1 trivial
    have hop' : ∀ op, ts.head? = some (.operator op) →
        signTokens t.after op = ([.operator op], .operator) := by
      intro op hhead
      cases ts with
      | nil => cases hhead
      | cons u ts =>
        obtain rfl := Option.some.inj hhead
        exact signTokens_after (List.isChain_cons_cons.1 hc).1 (List.isChain_cons_cons.1 hs).1
    rw [heq, scan_token (fun literal ht => ⟨hl literal (ht ▸ List.mem_cons_self), hnext literal ht⟩)
      fun op ht => hop op (ht ▸ rfl), ih hc.tail hs.tail hlts hop' hrest]
    rfl

/-! ## What no text has -/

/-- The tokens of segments have no sign behind a parenthesis, also not in front if one
    stands before them. -/
theorem Segmented.no_sign_behind_paren {before : Before} {ss : List Segment}
    (h : Segmented before ss) :
    ((ss.flatMap Segment.tokens).IsChain fun t u => ¬ t.IsSignBehindParen u) ∧
      (before = .leftParen → ∀ t ∈ (ss.flatMap Segment.tokens).head?,
        ¬ Token.leftParen.IsSignBehindParen t) := by
  induction ss generalizing before with
  | nil => simp
  | cons s ss ih =>
    obtain ⟨hs, hss⟩ := h
    obtain ⟨hc, hhead⟩ := ih hss
    rw [List.flatMap_cons]
    cases s with
    | blank c | plus => exact ⟨hc, hhead⟩
    | leftParen =>
      refine ⟨List.isChain_cons.2 ⟨hhead rfl, hc⟩, fun _ t ht => ?_⟩
      obtain rfl := Option.some.inj ht
      exact id
    | literal cs | rightParen =>
      refine ⟨List.isChain_cons.2 ⟨fun _ _ => id, hc⟩, fun _ t ht => ?_⟩
      obtain rfl := Option.some.inj ht
      exact id
    | operator op =>
      refine ⟨List.isChain_cons.2 ⟨fun _ _ => id, hc⟩, fun hb t ht => ?_⟩
      obtain rfl := Option.some.inj ht
      rintro (rfl | rfl)
      · exact (hs.2 rfl).2 hb
      · cases (hs.1 rfl).symm.trans hb
    | minus =>
      refine ⟨?_, fun _ t ht => ?_⟩
      · exact List.isChain_cons.2 ⟨fun _ _ => id, List.isChain_cons.2 ⟨fun _ _ => id, hc⟩⟩
      · obtain rfl := Option.some.inj ht
        exact id

theorem no_sign_behind_paren {before : Before} {cs : List Char} {ts : List Token}
    (h : scan before cs = .ok ts) : ts.IsChain fun t u => ¬ t.IsSignBehindParen u := by
  obtain ⟨ss, hss, -, rfl⟩ := scan_eq_ok_iff.1 h
  exact hss.no_sign_behind_paren.1

/-- **Tokenizing undoes writing.**  A list that validation accepts, with literals for
    numbers, is read back from its tokens, written one after the other with any blanks
    before, between and behind them, just if no `+` and no `-` follows an opening
    parenthesis directly. -/
theorem tokenize_spaced_iff {ts : List Token} {text : String} (hv : validate ts = .ok ())
    (hl : ∀ literal, .number literal ∈ ts → IsLiteral literal.toList)
    (h : Spaced (ts.map (·.text.toList)) text.toList) : tokenize text = .ok ts ↔
      ¬ [.leftParen, .operator .add] <:+: ts ∧ ¬ [.leftParen, .operator .sub] <:+: ts := by
  rw [← isChain_not_sign_iff, tokenize_eq_ok_iff, and_iff_left hv]
  refine ⟨no_sign_behind_paren, fun hs => ?_⟩
  have hc := firstClash_eq_none_iff.1 (firstClash_of_validate hv)
  refine scan_spaced hc hs hl (fun op hop => ?_) h
  -- No operator stands at the start.
  cases ts with
  | nil => cases hop
  | cons t ts => exact absurd (Option.some.inj hop) ((validate_cons_eq_ok_iff.1 hv).2.1 op)

/-- Blanks of several kinds, a point in front, and an operator behind a parenthesis that
    is no sign. -/
theorem tokenize_spaced_stray :
    let ts : List Token := [.leftParen, .number "1.5", .operator .add, .number "2", .rightParen,
      .operator .pow, .leftParen, .operator .mul, .number ".5", .rightParen]
    validate ts = .ok () ∧ (∀ literal, .number literal ∈ ts → IsLiteral literal.toList) ∧
      Spaced (ts.map (·.text.toList)) " (\u30001.5 + 2)^(*\t.5)".toList ∧
      tokenize " (\u30001.5 + 2)^(*\t.5)" = .ok ts := by
  intro ts
  have hv : validate ts = .ok () := by decide +kernel
  have hl : ∀ literal, .number literal ∈ ts → IsLiteral literal.toList := by
    intro literal hm
    simp only [ts, List.mem_cons, Token.number.injEq, reduceCtorEq, false_or, List.not_mem_nil,
      or_false] at hm
    rcases hm with rfl | rfl | rfl
    · exact ⟨by simp, by simp [IsNumeric, Char.isDigit], by decide⟩
    · exact ⟨by simp, by simp [IsNumeric, Char.isDigit], by decide⟩
    · exact ⟨by simp, by simp [IsNumeric, Char.isDigit], by decide⟩
  have hn : Blanks [] := by simp [Blanks]
  have hb : ∀ c, Text.isBlank c → Blanks [c] := by simp [Blanks]
  have hs : Spaced (ts.map (·.text.toList)) " (\u30001.5 + 2)^(*\t.5)".toList :=
    .cons [' '] (hb _ rfl) (.cons ['\u3000'] (hb _ rfl) (.cons [' '] (hb _ rfl)
      (.cons [' '] (hb _ rfl) (.cons [] hn (.cons [] hn (.cons [] hn (.cons [] hn
        (.cons ['\t'] (hb _ rfl) (.cons [] hn (.nil [] hn))))))))))
  refine ⟨hv, hl, hs, (tokenize_spaced_iff hv hl hs).2 ?_⟩
  decide

end HectocDuel
