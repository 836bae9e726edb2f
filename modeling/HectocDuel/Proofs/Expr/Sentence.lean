/-
  Which token lists are sentences of the grammar, and which are given a value.

  Two neighbours fit if after an operand stands something that begins none, and
  after an operator or an opening parenthesis something that begins one
  (`Token.Fits`).

  * `isSentence_iff`: a sentence is what validation accepts and in which all
    neighbours fit;
  * validation looks only at neighbours that are both numbers or both operators,
    so it lets neighbours pass that do not fit if one is a parenthesis;
  * `accepted_sentence_iff`: a text with a value is the postorder of some tree once
    it is reordered, but a sentence only if all of its neighbours fit.  That may
    fail: `2(*3)` is worth `6` (`stray_operator_accepted`).
-/
import HectocDuel.Proofs.Expr.Postorder
import Mathlib.Data.List.Chain

namespace HectocDuel

/-- A token list that the grammar derives. -/
def IsSentence (ts : List Token) : Prop :=
  ∃ e : Infix .sum, e.tokens = ts

/-! ## Neighbours -/

namespace Token

/-- Whether an operand may begin with the token. -/
def beginsOperand : Token → Bool
  | number _ | leftParen => true
  | operator _ | rightParen => false

/-- Whether an operand may end with the token. -/
def endsOperand : Token → Bool
  | number _ | rightParen => true
  | operator _ | leftParen => false

/-- Two tokens that may be neighbours in a sentence. -/
def Fits (t u : Token) : Prop :=
  u.beginsOperand = !t.endsOperand

instance : DecidableRel Fits :=
  fun t u => inferInstanceAs (Decidable (u.beginsOperand = !t.endsOperand))

/-- Two tokens that validation objects to as neighbours. -/
def Clashes : Token → Token → Prop
  | number _, number _ | operator _, operator _ => True
  | _, _ => False

/-- Whether a token is a parenthesis. -/
def IsParen (t : Token) : Prop :=
  t = leftParen ∨ t = rightParen

theorem Fits.not_clashes {t u : Token} (h : t.Fits u) : ¬ t.Clashes u := by
  cases t <;> cases u <;> simp_all [Fits, Clashes, beginsOperand, endsOperand]

theorem isParen_of_not_fits {t u : Token} (hf : ¬ t.Fits u) (hc : ¬ t.Clashes u) :
    t.IsParen ∨ u.IsParen := by
  cases t <;> cases u <;> simp_all [Fits, Clashes, IsParen, beginsOperand, endsOperand]

end Token

/-- All neighbours fit, the first token begins an operand iff one is wanted, and
    none is wanted at the end. -/
def Arranged : Bool → List Token → Prop
  | wanted, [] => wanted = false
  | wanted, t :: ts => t.beginsOperand = wanted ∧ Arranged (!t.endsOperand) ts

theorem arranged_cons_iff (wanted : Bool) (t : Token) (ts : List Token) :
    Arranged wanted (t :: ts) ↔ t.beginsOperand = wanted ∧ (t :: ts).IsChain Token.Fits ∧
      ((t :: ts).getLast (List.cons_ne_nil t ts)).endsOperand = true := by
  induction ts generalizing t wanted with
  | nil => simp [Arranged]
  | cons u ts ih =>
    rw [Arranged, ih, List.isChain_cons_cons, List.getLast_cons (List.cons_ne_nil u ts), and_assoc]
    rfl

/-! ## Sentences are arranged and balanced -/

theorem Infix.arranged : ∀ {ℓ : Level} (e : Infix ℓ) {rest : List Token}, Arranged false rest →
    Arranged true (e.tokens ++ rest)
  | _, number literal, _, h => ⟨rfl, h⟩
  | _, paren e, rest, h => by
    rw [tokens, List.cons_append, List.append_assoc]
    exact ⟨rfl, e.arranged ⟨rfl, h⟩⟩
  | _, ofAtom e, _, h | _, ofPower e, _, h | _, ofProduct e, _, h => e.arranged h
  | _, pow l r, rest, h => by
    rw [tokens, List.append_assoc]
    exact l.arranged ⟨rfl, r.arranged h⟩
  | _, times l op _ r, rest, h | _, plus l op _ r, rest, h => by
    rw [tokens, List.append_assoc]
    exact l.arranged ⟨rfl, r.arranged h⟩

theorem Infix.checkParens_tokens : ∀ {ℓ : Level} (e : Infix ℓ) (depth : Nat) (rest : List Token),
    checkParens depth (e.tokens ++ rest) = checkParens depth rest
  | _, number literal, _, _ => rfl
  | _, paren e, depth, rest => by
    rw [tokens, List.cons_append, List.append_assoc, checkParens, e.checkParens_tokens]
    rfl
  | _, ofAtom e, depth, rest | _, ofPower e, depth, rest | _, ofProduct e, depth, rest =>
    e.checkParens_tokens depth rest
  | _, pow l r, depth, rest => by
    rw [tokens, List.append_assoc, l.checkParens_tokens]
    exact r.checkParens_tokens depth rest
  | _, times l op _ r, depth, rest | _, plus l op _ r, depth, rest => by
    rw [tokens, List.append_assoc, l.checkParens_tokens]
    exact r.checkParens_tokens depth rest

/-! ## What is arranged and balanced is a sentence -/

section
variable (a : Infix .atom)

theorem exists_prepend_pow : ∀ {ℓ : Level} (e : Infix ℓ), ℓ ≠ .atom →
    ∃ e' : Infix ℓ, e'.tokens = a.tokens ++ .operator .pow :: e.tokens
  | _, .number _, h | _, .paren _, h => absurd rfl h
  | _, .ofAtom b, _ => ⟨.pow a (.ofAtom b), rfl⟩
  | _, .pow b e, _ => ⟨.pow a (.pow b e), rfl⟩
  | _, .ofPower e, _ => by
    obtain ⟨e', he⟩ := exists_prepend_pow e (by decide)
    exact ⟨.ofPower e', he⟩
  | _, .ofProduct e, _ => by
    obtain ⟨e', he⟩ := exists_prepend_pow e (by decide)
    exact ⟨.ofProduct e', he⟩
  | _, .times l op hop r, _ => by
    obtain ⟨l', hl⟩ := exists_prepend_pow l (by decide)
    exact ⟨.times l' op hop r, by simp [Infix.tokens, hl]⟩
  | _, .plus l op hop r, _ => by
    obtain ⟨l', hl⟩ := exists_prepend_pow l (by decide)
    exact ⟨.plus l' op hop r, by simp [Infix.tokens, hl]⟩

theorem exists_prepend_times {op : Operator} (hop : op = .mul ∨ op = .div) :
    ∀ {ℓ : Level} (e : Infix ℓ), ℓ = .product ∨ ℓ = .sum →
      ∃ e' : Infix ℓ, e'.tokens = a.tokens ++ .operator op :: e.tokens
  | _, .number _, h | _, .paren _, h | _, .ofAtom _, h | _, .pow _ _, h => by simp at h
  | _, .ofPower e, _ => ⟨.times (.ofPower (.ofAtom a)) op hop e, rfl⟩
  | _, .times l op' hop' r, h => by
    obtain ⟨l', hl⟩ := exists_prepend_times hop l h
    exact ⟨.times l' op' hop' r, by simp [Infix.tokens, hl]⟩
  | _, .ofProduct e, _ => by
    obtain ⟨e', he⟩ := exists_prepend_times hop e (.inl rfl)
    exact ⟨.ofProduct e', he⟩
  | _, .plus l op' hop' r, h => by
    obtain ⟨l', hl⟩ := exists_prepend_times hop l h
    exact ⟨.plus l' op' hop' r, by simp [Infix.tokens, hl]⟩

theorem exists_prepend_plus {op : Operator} (hop : op = .add ∨ op = .sub) :
    ∀ {ℓ : Level} (e : Infix ℓ), ℓ = .sum →
      ∃ e' : Infix ℓ, e'.tokens = a.tokens ++ .operator op :: e.tokens
  | _, .number _, h | _, .paren _, h | _, .ofAtom _, h | _, .pow _ _, h | _, .ofPower _, h
  | _, .times _ _ _ _, h => by simp at h
  | _, .ofProduct e, _ => ⟨.plus (.ofProduct (.ofPower (.ofAtom a))) op hop e, rfl⟩
  | _, .plus l op' hop' r, h => by
    obtain ⟨l', hl⟩ := exists_prepend_plus hop l h
    exact ⟨.plus l' op' hop' r, by simp [Infix.tokens, hl]⟩

theorem IsSentence.prepend {ts : List Token} (h : IsSentence ts) (op : Operator) :
    IsSentence (a.tokens ++ .operator op :: ts) := by
  obtain ⟨e, rfl⟩ := h
  cases op with
  | add => exact exists_prepend_plus a (.inl rfl) e rfl
  | sub => exact exists_prepend_plus a (.inr rfl) e rfl
  | mul => exact exists_prepend_times a (.inl rfl) e (.inr rfl)
  | div => exact exists_prepend_times a (.inr rfl) e (.inr rfl)
  | pow => exact exists_prepend_pow a e (by decide)

end

/-- The parenthesis that closes the newest but `k` of the open ones: between them
    all pairs up, and so it does behind it. -/
theorem checkParens_split : ∀ {ts : List Token} {k depth : Nat},
    checkParens (k + 1 + depth) ts = .ok () →
      ∃ inner rest, ts = inner ++ .rightParen :: rest ∧ checkParens k inner = .ok () ∧
        checkParens depth rest = .ok ()
  | [], k, depth, h => by
    rw [checkParens, if_neg (by omega)] at h
    cases h
  | .leftParen :: ts, k, depth, h => by
    rw [checkParens, show k + 1 + depth + 1 = k + 1 + 1 + depth by omega] at h
    obtain ⟨inner, rest, rfl, hi, hr⟩ := checkParens_split h
    exact ⟨.leftParen :: inner, rest, rfl, hi, hr⟩
  | .rightParen :: ts, 0, depth, h => by
    rw [show 0 + 1 + depth = depth + 1 by omega, checkParens] at h
    exact ⟨[], ts, rfl, rfl, h⟩
  | .rightParen :: ts, k + 1, depth, h => by
    rw [show k + 1 + 1 + depth = k + 1 + depth + 1 by omega, checkParens] at h
    obtain ⟨inner, rest, rfl, hi, hr⟩ := checkParens_split h
    exact ⟨.rightParen :: inner, rest, rfl, hi, hr⟩
  | .number literal :: ts, k, depth, h => by
    have h : checkParens (k + 1 + depth) ts = .ok () := h
    obtain ⟨inner, rest, rfl, hi, hr⟩ := checkParens_split h
    exact ⟨.number literal :: inner, rest, rfl, hi, hr⟩
  | .operator op :: ts, k, depth, h => by
    have h : checkParens (k + 1 + depth) ts = .ok () := h
    obtain ⟨inner, rest, rfl, hi, hr⟩ := checkParens_split h
    exact ⟨.operator op :: inner, rest, rfl, hi, hr⟩

theorem Arranged.split : ∀ {wanted : Bool} {xs ys : List Token},
    Arranged wanted (xs ++ .rightParen :: ys) → Arranged wanted xs ∧ Arranged false ys
  | _, [], _, h => ⟨h.1.symm, h.2⟩
  | _, _ :: _, _, ⟨hx, h⟩ => ⟨⟨hx, h.split.1⟩, h.split.2⟩

/-- The first operand is an atom; what follows it is nothing, or an operator and
    a shorter list of the same kind. -/
theorem isSentence_of_arranged {ts : List Token} (ha : Arranged true ts)
    (hp : checkParens 0 ts = .ok ()) : IsSentence ts := by
  have hatom : ∀ (a : Infix .atom) (rest : List Token), rest.length < ts.length →
      Arranged false rest → checkParens 0 rest = .ok () → IsSentence (a.tokens ++ rest) := by
    intro a rest hlt ha hp
    match rest, ha with
    | [], _ => exact ⟨.ofProduct (.ofPower (.ofAtom a)), (List.append_nil _).symm⟩
    | .operator op :: rest, ha =>
      have hp : checkParens 0 rest = .ok () := hp
      exact (isSentence_of_arranged ha.2 hp).prepend a op
    | .rightParen :: rest, _ => cases hp
  match ts, ha with
  | .number literal :: rest, ha =>
    exact hatom (.number literal) rest (Nat.lt_succ_self _) ha.2 hp
  | .leftParen :: rest, ha =>
    have hp : checkParens (0 + 1 + 0) rest = .ok () := hp
    obtain ⟨inner, rest, rfl, hi, hr⟩ := checkParens_split hp
    obtain ⟨hai, har⟩ := Arranged.split ha.2
    obtain ⟨e, rfl⟩ := isSentence_of_arranged hai hi
    have := hatom (.paren e) rest (by simp; omega) har hr
    rwa [Infix.tokens, List.cons_append, List.append_assoc] at this
termination_by ts.length
decreasing_by
  · exact Nat.lt_of_succ_lt hlt
  · subst_vars
    simp only [List.length_cons, List.length_append]
    omega

theorem isSentence_iff_arranged {ts : List Token} :
    IsSentence ts ↔ Arranged true ts ∧ checkParens 0 ts = .ok () := by
  constructor
  · rintro ⟨e, rfl⟩
    have ha := e.arranged (show Arranged false [] from rfl)
    have hp := e.checkParens_tokens 0 []
    rw [List.append_nil] at ha hp
    exact ⟨ha, hp⟩
  · rintro ⟨ha, hp⟩
    exact isSentence_of_arranged ha hp

/-! ## What validation accepts -/

theorem firstClash_eq_none_iff {ts : List Token} :
    firstClash ts = none ↔ ts.IsChain fun t u => ¬ t.Clashes u := by
  fun_induction firstClash ts with
  | case1 a b ts => simp [Token.Clashes]
  | case2 a b ts => simp [Token.Clashes]
  | case3 t ts hnum hop ih =>
    rw [ih]
    cases ts with
    | nil => simp
    | cons u ts =>
      have : ¬ t.Clashes u := by
        cases t <;> cases u <;> simp_all [Token.Clashes]
      simp [this]
  | case4 => simp

/-- Validation accepts a list that has tokens, no clash, no operator at either end
    and parentheses that pair up. -/
theorem validate_cons_eq_ok_iff {t : Token} {ts : List Token} :
    validate (t :: ts) = .ok () ↔ firstClash (t :: ts) = none ∧ (∀ op, t ≠ .operator op) ∧
      (∀ op, (t :: ts).getLast (List.cons_ne_nil t ts) ≠ .operator op) ∧
      checkParens 0 (t :: ts) = .ok () := by
  rw [validate, List.head?_cons, List.getLast?_eq_some_getLast (List.cons_ne_nil t ts)]
  generalize (t :: ts).getLast _ = last
  cases firstClash (t :: ts) with
  | some e => simp
  | none => cases t <;> cases last <;> simp

theorem firstClash_of_validate {ts : List Token} (h : validate ts = .ok ()) :
    firstClash ts = none := by
  cases ts with
  | nil => rfl
  | cons t ts => exact (validate_cons_eq_ok_iff.1 h).1

theorem checkParens_of_validate {ts : List Token} (h : validate ts = .ok ()) :
    checkParens 0 ts = .ok () := by
  cases ts with
  | nil => cases h
  | cons t ts => exact (validate_cons_eq_ok_iff.1 h).2.2.2

theorem checkParens_append_leftParen (depth : Nat) (ts : List Token) :
    checkParens depth (ts ++ [.leftParen]) ≠ .ok () := by
  fun_induction checkParens depth ts <;> simp_all [checkParens]

/-- **Sentences are the valid lists in which all neighbours fit.** -/
theorem isSentence_iff {ts : List Token} :
    IsSentence ts ↔ validate ts = .ok () ∧ ts.IsChain Token.Fits := by
  rw [isSentence_iff_arranged]
  cases ts with
  | nil => simp [Arranged, validate]
  | cons t ts =>
    rw [arranged_cons_iff, validate_cons_eq_ok_iff, firstClash_eq_none_iff]
    constructor
    · rintro ⟨⟨hb, hc, he⟩, hp⟩
      refine ⟨⟨hc.imp fun _ _ => Token.Fits.not_clashes, ?_, ?_, hp⟩, hc⟩
      · rintro op rfl
        cases hb
      · intro op hop
        rw [hop] at he
        cases he
    · rintro ⟨⟨-, hb, he, hp⟩, hc⟩
      refine ⟨⟨?_, hc, ?_⟩, hp⟩
      · -- A closing parenthesis in front pairs up with nothing.
        cases t with
        | number literal => rfl
        | leftParen => rfl
        | operator op => exact absurd rfl (hb op)
        | rightParen => cases hp
      · -- Nor does an opening one at the end.
        cases hlast : (t :: ts).getLast (List.cons_ne_nil t ts) with
        | number literal => rfl
        | rightParen => rfl
        | operator op => exact absurd hlast (he op)
        | leftParen =>
          have := List.dropLast_append_getLast (List.cons_ne_nil t ts)
          rw [hlast] at this
          exact absurd (this ▸ hp) (checkParens_append_leftParen 0 _)

/-! ## Texts with a value -/

theorem tokenize_eq_ok_iff {text : String} {ts : List Token} :
    tokenize text = .ok ts ↔ scan .start text.toList = .ok ts ∧ validate ts = .ok () := by
  rw [tokenize]
  cases scan .start text.toList with
  | error e => simp [bind, Except.bind]
  | ok ts' =>
    cases hv : validate ts' with
    | error e =>
      simp only [bind, Except.bind, hv, reduceCtorEq, Except.ok.injEq, false_iff]
      rintro ⟨rfl, h⟩
      rw [hv] at h
      cases h
    | ok _ =>
      simp only [bind, Except.bind, hv, pure, Except.pure, Except.ok.injEq]
      exact ⟨fun h => ⟨h, h ▸ hv⟩, fun h => h.1⟩

theorem calculateWith_of_scan {α : Type} (A : Arithmetic α) {text : String} {e : Infix .sum}
    (h : scan .start text.toList = .ok e.tokens) :
    calculateWith A text = (e.tree.eval A).mapError .evaluation := by
  have ht := tokenize_eq_ok_iff.2 ⟨h, (isSentence_iff.1 ⟨e, rfl⟩).1⟩
  rw [calculateWith_of_tokenize ht, toPostfix_tokens]
  exact congrArg (Except.mapError ExpressionError.evaluation) (evaluate_postorder A e.tree)

theorem eq_ok_of_toOption {ε α : Type} {x : Except ε α} {v : α} (h : x.toOption = some v) :
    x = .ok v := by
  cases x with
  | error e => cases h
  | ok v' => exact congrArg Except.ok (Option.some.inj h)

/-- **Of the texts with a value, the sentences are those in which all neighbours
    fit.**  The tokens of any text with a value are put in the postorder of a tree
    that has it.  They are a sentence just if all neighbours fit, of which only
    those at a parenthesis may fail to; the value is then that of the sentence. -/
theorem accepted_sentence_iff {text : String} {v : Float} (h : calculate text = .ok v) :
    ∃ ts, tokenize text = .ok ts ∧
      (∃ t : ParseTree, toPostfix ts = .ok t.postorder ∧ t.eval doubles = .ok v) ∧
      (∀ t u, [t, u] <:+: ts → ¬ t.Fits u → t.IsParen ∨ u.IsParen) ∧
      (IsSentence ts ↔ ts.IsChain Token.Fits) ∧
      ∀ e : Infix .sum, e.tokens = ts → e.tree.eval doubles = .ok v := by
  rcases ht : tokenize text with e | ts
  · rw [calculate, calculateWith, ht] at h
    cases h
  · obtain ⟨-, hv⟩ := tokenize_eq_ok_iff.1 ht
    obtain ⟨t, hp, he⟩ := (calculateWith_eq_ok_iff ht).1 h
    refine ⟨ts, rfl, ⟨t, hp, he⟩, fun t u hin hf => ?_, ?_, ?_⟩
    · have hc := firstClash_eq_none_iff.1 (firstClash_of_validate hv)
      have hpair := List.IsChain.infix hc hin
      exact Token.isParen_of_not_fits hf (List.isChain_pair.1 hpair)
    · rw [isSentence_iff, and_iff_right hv]
    · rintro e rfl
      rw [toPostfix_tokens, Except.ok.injEq] at hp
      rw [← evaluate_postorder, hp, evaluate_postorder, he]

/-- `2*(3+4)` is worth `14`, and a sentence. -/
theorem sentence_accepted : calculate "2*(3+4)" = .ok 14 ∧
    ∃ ts, tokenize "2*(3+4)" = .ok ts ∧ ts.IsChain Token.Fits ∧ IsSentence ts := by
  have hc : calculate "2*(3+4)" = .ok 14 := eq_ok_of_toOption (by decide +kernel)
  obtain ⟨ts, ht, -, -, hs, -⟩ := accepted_sentence_iff hc
  have ht' : tokenize "2*(3+4)" = .ok [.number "2", .operator .mul, .leftParen, .number "3",
      .operator .add, .number "4", .rightParen] := eq_ok_of_toOption (by decide +kernel)
  obtain rfl := Except.ok.inj (ht.symm.trans ht')
  exact ⟨hc, _, ht, by decide, hs.2 (by decide)⟩

/-- `2(*3)` is worth `6`, though the operator has no left operand and nothing
    stands between the two operands. -/
theorem stray_operator_accepted :
    tokenize "2(*3)" = .ok [.number "2", .leftParen, .operator .mul, .number "3", .rightParen] ∧
      calculate "2(*3)" = .ok 6 ∧
      ¬ IsSentence [.number "2", .leftParen, .operator .mul, .number "3", .rightParen] :=
  ⟨eq_ok_of_toOption (by decide +kernel), eq_ok_of_toOption (by decide +kernel),
    fun h => absurd (isSentence_iff.1 h).2 (by decide)⟩

end HectocDuel
