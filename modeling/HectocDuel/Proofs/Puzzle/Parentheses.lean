/-
  Parentheses never contribute to a solution.

  In front of a later digit an insertion stands behind a digit.  A symbol there
  gives the next number an operator, a parenthesis does not; so numbers and
  operators no longer balance (`surplus_scan_written`).  In front of the first
  digit a parenthesis can only open, and then nothing closes it.

  * `surplus_scan_written`: behind a digit, the tokens have one number more than
    operators for each parenthesis, and one for the first number;
  * `search_without_parentheses`: no candidate with a parenthesis has a value, so the
    search finds what it would find without them.
-/
import HectocDuel.Proofs.Expr.Operands
import HectocDuel.Proofs.Puzzle.Search

namespace HectocDuel

/-! ## Insertions -/

/-- What may be inserted that is no parenthesis, in the order of the insertions. -/
def plainInsertions : List (Option Char) :=
  [some '+', some '-', some '*', some '/', some '^', none]

/-- Whether an insertion is a parenthesis. -/
def isParenInsertion (i : Option Char) : Bool :=
  i = some '(' || i = some ')'

theorem plainInsertions_eq_filter : plainInsertions = insertions.filter (!isParenInsertion ·) := by
  decide

theorem insertion_cases {i : Option Char} (h : i ∈ insertions) :
    i = none ∨ i = some '(' ∨ i = some ')' ∨ ∃ op : Operator, i = some op.symbol := by
  have hop : ∀ op : Operator, ∃ op' : Operator, some op.symbol = some op'.symbol := fun op =>
    ⟨op, rfl⟩
  simp only [insertions, List.mem_cons, List.not_mem_nil, or_false] at h
  rcases h with rfl | rfl | rfl | rfl | rfl | rfl | rfl | rfl
  · exact .inr (.inr (.inr (hop .add)))
  · exact .inr (.inr (.inr (hop .sub)))
  · exact .inr (.inr (.inr (hop .mul)))
  · exact .inr (.inr (.inr (hop .div)))
  · exact .inr (.inr (.inr (hop .pow)))
  · exact .inr (.inl rfl)
  · exact .inr (.inr (.inl rfl))
  · exact .inl rfl

theorem isParenInsertion_symbol (op : Operator) : isParenInsertion (some op.symbol) = false := by
  cases op <;> rfl

namespace Pieces

/-- The pieces of a candidate. -/
def Proper (ps : Pieces) : Prop :=
  ∀ p ∈ ps, p.1 ∈ insertions ∧ p.2 ≤ 9

/-- How many parentheses are inserted. -/
def parens (ps : Pieces) : Nat :=
  ps.countP (isParenInsertion ·.1)

theorem parens_append (ps qs : Pieces) :
    Pieces.parens (ps ++ qs) = Pieces.parens ps + Pieces.parens qs :=
  List.countP_append

theorem written_append (ps qs : Pieces) :
    Pieces.written (ps ++ qs) = Pieces.written ps ++ Pieces.written qs :=
  List.flatMap_append

theorem Proper.tail {p : Option Char × Nat} {ps : Pieces} (h : Proper (p :: ps)) : Proper ps :=
  (List.forall_mem_cons.1 h).2

theorem isDigit_of_mem_written {ps : Pieces} (hp : ∀ p ∈ ps, p.1 = none ∧ p.2 ≤ 9) {c : Char}
    (h : c ∈ Pieces.written ps) : c.isDigit := by
  obtain ⟨⟨i, d⟩, hm, hc⟩ := List.mem_flatMap.1 h
  obtain ⟨rfl, hd⟩ : i = none ∧ d ≤ 9 := hp _ hm
  obtain rfl := List.mem_singleton.1 hc
  exact isDigit_digitChar hd

/-- Pieces fall into the digits that continue a number, and nothing or pieces with
    something inserted first. -/
theorem exists_split (ps : Pieces) : ∃ run rest : Pieces, ps = run ++ rest ∧
    (∀ p ∈ run, p.1 = none) ∧ ∀ p ∈ rest.head?, p.1 ≠ none := by
  induction ps with
  | nil => exact ⟨[], [], rfl, by simp, by simp⟩
  | cons p ps ih =>
    obtain ⟨run, rest, rfl, hrun, hrest⟩ := ih
    by_cases hp : p.1 = none
    · exact ⟨p :: run, rest, rfl, List.forall_mem_cons.2 ⟨hp, hrun⟩, hrest⟩
    · exact ⟨[], p :: (run ++ rest), rfl, by simp, by simpa using hp⟩

theorem endsLiteral_written {ps : Pieces} (hps : Proper ps) (hh : ∀ p ∈ ps.head?, p.1 ≠ none) :
    EndsLiteral (Pieces.written ps) := by
  cases ps with
  | nil => simp [written, EndsLiteral]
  | cons p ps =>
    obtain ⟨i, d⟩ := p
    cases i with
    | none => exact absurd rfl (hh _ rfl)
    | some c =>
      rintro c' hc'
      obtain rfl : c = c' := by simpa [written_cons] using hc'
      have hdot : ∀ i ∈ insertions, i ≠ some '.' := by decide
      have hi := (hps _ List.mem_cons_self).1
      rintro (hd | rfl)
      · rw [not_isDigit_of_mem_insertions hi] at hd
        cases hd
      · exact hdot _ hi rfl

end Pieces

/-! ## Numbers and operators of a candidate -/

theorem scan_number {d : Nat} (hd : d ≤ 9) {run rest : Pieces} (hps : Pieces.Proper (run ++ rest))
    (hrun : ∀ p ∈ run, p.1 = none) (hrest : ∀ p ∈ rest.head?, p.1 ≠ none) (before : Before) :
    ∃ literal, scan before (digitChar d :: Pieces.written (run ++ rest)) =
      (scan .operand (Pieces.written rest)).map (.number literal :: ·) := by
  obtain ⟨hprun, hprest⟩ := List.forall_mem_append.1 hps
  have hdigits : ∀ c ∈ digitChar d :: Pieces.written run, c.isDigit := by
    refine List.forall_mem_cons.2 ⟨isDigit_digitChar hd, fun c hc => ?_⟩
    exact Pieces.isDigit_of_mem_written (fun p hp => ⟨hrun p hp, (hprun p hp).2⟩) hc
  have hpoints : (digitChar d :: Pieces.written run).count '.' = 0 := by
    refine List.count_eq_zero.2 fun hm => ?_
    cases hdigits _ hm
  have hl : IsLiteral (digitChar d :: Pieces.written run) :=
    ⟨by simp, fun c hc => .inl (hdigits c hc), hpoints ▸ Nat.zero_le 1⟩
  have := scan_literal hl (Pieces.endsLiteral_written hprest hrest) before
  rw [List.cons_append, ← Pieces.written_append] at this
  exact ⟨_, this⟩

/-- Behind a digit a symbol uses an operand up, and a parenthesis does not. -/
theorem scan_insertion {i : Option Char} (hi : i ∈ insertions) (hne : i ≠ none) {cs : List Char}
    {ts : List Token} (h : scan .operand (i.toList ++ cs) = .ok ts) :
    ∃ before ts', scan before cs = .ok ts' ∧
      surplus ts = surplus ts' + if isParenInsertion i then 0 else -1 := by
  rcases insertion_cases hi with rfl | rfl | rfl | ⟨op, rfl⟩
  · exact absurd rfl hne
  · rw [Option.toList_some, List.singleton_append, scan_leftParen] at h
    obtain ⟨ts', hts, rfl⟩ := map_eq_ok_iff.1 h
    exact ⟨_, ts', hts, Int.add_comm _ _⟩
  · rw [Option.toList_some, List.singleton_append, scan_rightParen] at h
    obtain ⟨ts', hts, rfl⟩ := map_eq_ok_iff.1 h
    exact ⟨_, ts', hts, Int.add_comm _ _⟩
  · rw [Option.toList_some, List.singleton_append, scan_symbol, signTokens_operand] at h
    obtain ⟨ts', hts, rfl⟩ := map_eq_ok_iff.1 h
    refine ⟨_, ts', hts, ?_⟩
    rw [isParenInsertion_symbol]
    exact Int.add_comm _ _

/-- **Behind a digit every parenthesis leaves an operand over.**  The text that
    begins with a digit has one number more than operators, and one more for each
    parenthesis. -/
theorem surplus_scan_written {d : Nat} (hd : d ≤ 9) {ps : Pieces} (hps : ps.Proper)
    {before : Before} {ts : List Token}
    (h : scan before (digitChar d :: Pieces.written ps) = .ok ts) :
    surplus ts = 1 + Pieces.parens ps := by
  obtain ⟨run, rest, hsplit, hrun, hrest⟩ := Pieces.exists_split ps
  rw [hsplit] at h hps
  obtain ⟨literal, hs⟩ := scan_number hd hps hrun hrest before
  have hparens : Pieces.parens ps = Pieces.parens rest := by
    have : Pieces.parens run = 0 := by
      refine List.countP_eq_zero.2 fun p hp => ?_
      rw [hrun p hp]
      decide
    rw [hsplit, Pieces.parens_append, this, Nat.zero_add]
  rw [hs] at h
  obtain ⟨ts', hts, rfl⟩ := map_eq_ok_iff.1 h
  rw [hparens, surplus_cons]
  have hproper : rest.Proper := (List.forall_mem_append.1 hps).2
  match rest, hrest with
  | [], _ =>
    rw [show Pieces.written [] = [] from rfl, scan, Except.ok.injEq] at hts
    subst hts
    rfl
  | (i, d') :: rest', hrest =>
    obtain ⟨hi, hd'⟩ := hproper _ List.mem_cons_self
    rw [Pieces.written_cons] at hts
    obtain ⟨before', ts'', hts', hsur⟩ := scan_insertion hi (hrest _ rfl) hts
    have ih := surplus_scan_written hd' hproper.tail hts'
    rw [hsur, ih, Pieces.parens, Pieces.parens, List.countP_cons, Token.surplus]
    cases isParenInsertion i <;> simp
    omega
termination_by ps.length
decreasing_by
  subst hsplit
  simp only [List.length_append, List.length_cons]
  omega

/-! ## Candidates with a value -/

theorem ne_paren_of_mem_written {ps : Pieces} (hps : ps.Proper) (h0 : ps.parens = 0) {c : Char}
    (hc : c ∈ ps.written) : c ≠ '(' ∧ c ≠ ')' := by
  obtain ⟨⟨i, d⟩, hm, hc⟩ := List.mem_flatMap.1 hc
  have hi : ¬ isParenInsertion i := List.countP_eq_zero.1 h0 (i, d) hm
  rcases List.mem_append.1 hc with hc | hc
  · obtain rfl : i = some c := Option.mem_toList.1 hc
    simpa [isParenInsertion] using hi
  · obtain rfl := List.mem_singleton.1 hc
    exact (isNumeric_digitChar (hps _ hm).2).ne_paren

theorem depthOver_written {depth d : Nat} (hd : d ≤ 9) {ps : Pieces} (hps : ps.Proper)
    (h0 : ps.parens = 0) : depthOver depth (digitChar d :: ps.written) = some depth :=
  depthOver_of_forall_ne depth <| List.forall_mem_cons.2
    ⟨(isNumeric_digitChar hd).ne_paren, fun _ hc => ne_paren_of_mem_written hps h0 hc⟩

/-- A sign in front of the first digit leaves no operand over; no other symbol may
    stand there. -/
theorem surplus_signTokens_start {op : Operator} {ts : List Token}
    (h : validate ((signTokens .start op).1 ++ ts) = .ok ()) :
    surplus ((signTokens .start op).1 ++ ts) = surplus ts := by
  have hlead : ∀ op, validate (.operator op :: ts) ≠ .ok () := fun op hv =>
    (validate_cons_eq_ok_iff.1 hv).2.1 op rfl
  cases op with
  | add => rfl
  | sub =>
    rw [surplus_append]
    exact Int.zero_add _
  | mul | div | pow => exact absurd h (hlead _)

/-- **A candidate that has tokens, as many as a value needs, has no parentheses.** -/
theorem parens_eq_zero_of_surplus {ps : Pieces} (hps : ps.Proper) {ts : List Token}
    (ht : tokenize (String.ofList ps.written) = .ok ts) (hsur : surplus ts = 1) :
    ps.parens = 0 := by
  match ps with
  | [] => rfl
  | (i, d) :: ps =>
    have hdepth := depthOver_of_tokenize ht
    obtain ⟨hscan, hval⟩ := tokenize_eq_ok_iff.1 ht
    rw [String.toList_ofList, Pieces.written_cons] at hscan hdepth
    obtain ⟨hi, hd⟩ := hps _ List.mem_cons_self
    have hbehind : ∀ {before ts'}, scan before (digitChar d :: Pieces.written ps) = .ok ts' →
        surplus ts' = 1 → Pieces.parens ps = 0 := by
      intro before ts' hs h1
      have := surplus_scan_written hd hps.tail hs
      omega
    have hplain : isParenInsertion i = false →
        Pieces.parens ((i, d) :: ps) = Pieces.parens ps := fun hi =>
      List.countP_cons_of_neg (by simp [hi])
    rcases insertion_cases hi with rfl | rfl | rfl | ⟨op, rfl⟩
    · rw [hplain rfl]
      exact hbehind hscan hsur
    · -- Nothing closes the parenthesis.
      rw [Option.toList_some, List.singleton_append, scan_leftParen] at hscan
      obtain ⟨ts', hts, rfl⟩ := map_eq_ok_iff.1 hscan
      have h1 : surplus ts' = 1 := by
        rw [← hsur, surplus_cons]
        exact (Int.zero_add _).symm
      have h0 := hbehind hts h1
      have hopen : depthOver 0 ('(' :: digitChar d :: Pieces.written ps) = some 1 :=
        depthOver_written hd hps.tail h0
      cases hopen.symm.trans hdepth
    · -- Nothing is open that the parenthesis could close.
      cases hdepth
    · rw [hplain (isParenInsertion_symbol op)]
      rw [Option.toList_some, List.singleton_append, scan_symbol] at hscan
      obtain ⟨ts', hts, rfl⟩ := map_eq_ok_iff.1 hscan
      exact hbehind hts ((surplus_signTokens_start hval).symm.trans hsur)

theorem parens_eq_zero_of_calculateWith {α : Type} {A : Arithmetic α} {ps : Pieces}
    (hps : ps.Proper) {v : α} (h : calculateWith A (String.ofList ps.written) = .ok v) :
    ps.parens = 0 := by
  obtain ⟨ts, ht⟩ := exists_tokenize_of_calculateWith h
  exact parens_eq_zero_of_surplus hps ht (surplus_of_calculateWith ht h)

/-! ## The search without parentheses -/

/-- Whether a text has no parentheses. -/
def isUnparenthesized (cs : List Char) : Bool :=
  cs.all fun c => c ≠ '(' && c ≠ ')'

theorem isUnparenthesized_iff {cs : List Char} :
    isUnparenthesized cs ↔ ∀ c ∈ cs, c ≠ '(' ∧ c ≠ ')' := by
  simp [isUnparenthesized]

theorem isUnparenthesized_of_calculate {ds : List Nat} (hds : ∀ d ∈ ds, d ≤ 9) {cs : List Char}
    (hcs : cs ∈ candidates insertions ds) {v : Float} (h : calculate (String.ofList cs) = .ok v) :
    isUnparenthesized cs := by
  obtain ⟨ps, rfl, hps, rfl⟩ := mem_candidates.1 hcs
  have hproper : ps.Proper := fun p hp => ⟨hps p hp, hds _ (List.mem_map_of_mem hp)⟩
  have h0 := parens_eq_zero_of_calculateWith hproper h
  exact isUnparenthesized_iff.2 fun c hc => ne_paren_of_mem_written hproper h0 hc

theorem flatMap_filter {α β : Type} (p : α → Bool) (f : α → List β) (xs : List α) :
    (xs.filter p).flatMap f = xs.flatMap fun x => if p x then f x else [] := by
  induction xs with
  | nil => rfl
  | cons x xs ih =>
    rw [List.flatMap_cons, ← ih]
    by_cases hx : p x
    · rw [List.filter_cons_of_pos hx, List.flatMap_cons, if_pos hx]
    · rw [List.filter_cons_of_neg hx, if_neg hx, List.nil_append]

theorem candidates_filter (choices : List (Option Char)) {ds : List Nat} (hds : ∀ d ∈ ds, d ≤ 9) :
    candidates (choices.filter (!isParenInsertion ·)) ds =
      (candidates choices ds).filter isUnparenthesized := by
  induction ds with
  | nil => rfl
  | cons d ds ih =>
    obtain ⟨hd, hds⟩ := List.forall_mem_cons.1 hds
    obtain ⟨ho, hc⟩ := (isNumeric_digitChar hd).ne_paren
    have hcons : ∀ i cs, isUnparenthesized (i.toList ++ digitChar d :: cs) =
        (!isParenInsertion i && isUnparenthesized cs) := by
      intro i cs
      cases i <;> simp [isUnparenthesized, isParenInsertion, ho, hc]
    have hmap : ∀ i, ((candidates choices ds).map (i.toList ++ digitChar d :: ·)).filter
        isUnparenthesized =
          if isParenInsertion i then []
          else ((candidates choices ds).filter isUnparenthesized).map
            (i.toList ++ digitChar d :: ·) := by
      intro i
      rw [List.filter_map]
      simp only [Function.comp_def, hcons]
      cases isParenInsertion i <;> simp
    rw [candidates, candidates, List.filter_flatMap, ih hds, flatMap_filter]
    refine List.flatMap_congr fun i _ => ?_
    rw [hmap]
    cases isParenInsertion i <;> rfl

/-- **Parentheses never contribute to a solution.**  For digits from 1 to 9, however
    many: no solution that the search lists has a parenthesis, so it lists, in the
    same order, what a search without parentheses would; and every candidate with a
    parenthesis ends in an error. -/
theorem search_without_parentheses {ds : List Nat} (hds : ∀ d ∈ ds, 1 ≤ d ∧ d ≤ 9) :
    (∀ s ∈ search 0 [] ds, '(' ∉ s.toList ∧ ')' ∉ s.toList) ∧
      search 0 [] ds =
        ((candidates plainInsertions ds).map String.ofList).filter (verify · = .ok true) ∧
      ∀ cs ∈ candidates insertions ds, '(' ∈ cs ∨ ')' ∈ cs →
        ∃ e, calculate (String.ofList cs) = .error e := by
  have hds9 : ∀ d ∈ ds, d ≤ 9 := fun d hd => (hds d hd).2
  have herror : ∀ cs ∈ candidates insertions ds, '(' ∈ cs ∨ ')' ∈ cs →
      ∃ e, calculate (String.ofList cs) = .error e := by
    intro cs hcs hparen
    cases hv : calculate (String.ofList cs) with
    | error e => exact ⟨e, rfl⟩
    | ok v =>
      have hne := isUnparenthesized_iff.1 (isUnparenthesized_of_calculate hds9 hcs hv)
      rcases hparen with hm | hm
      · exact absurd rfl (hne _ hm).1
      · exact absurd rfl (hne _ hm).2
  have hsol : ∀ cs ∈ candidates insertions ds, isSolution (String.ofList cs) →
      isUnparenthesized cs := by
    intro cs hcs hs
    obtain ⟨v, hv⟩ := exists_calculate_of_isSolution hs
    exact isUnparenthesized_of_calculate hds9 hcs hv
  have heq := search_eq_filter hds9 (show depthOver 0 [] = some 0 from rfl)
  refine ⟨?_, ?_, herror⟩
  · intro s hs
    rw [heq, List.mem_filter, List.mem_map] at hs
    obtain ⟨⟨cs, hcs, rfl⟩, hs⟩ := hs
    have hne := isUnparenthesized_iff.1 (hsol cs hcs hs)
    rw [String.toList_ofList]
    exact ⟨fun hm => (hne _ hm).1 rfl, fun hm => (hne _ hm).2 rfl⟩
  · rw [heq, plainInsertions_eq_filter, candidates_filter insertions hds9, List.filter_map,
      List.filter_map, List.filter_filter]
    refine congrArg _ (List.filter_congr fun cs hcs => Bool.eq_iff_iff.2 ?_)
    simp only [Function.comp_apply, List.nil_append, Bool.and_eq_true, decide_eq_true_iff,
      isSolution_iff]
    exact ⟨fun h => ⟨h, hsol cs hcs (isSolution_iff.2 h)⟩, And.left⟩

/-- For `1991`, one solution needs no parentheses, and `(1+99)1` is no expression. -/
theorem search_without_parentheses_1991 :
    let ds := [1, 9, 9, 1]
    (∀ d ∈ ds, 1 ≤ d ∧ d ≤ 9) ∧ "1+99*1" ∈ search 0 [] ds ∧
      "(1+99)1".toList ∈ candidates insertions ds ∧ ∃ e, calculate "(1+99)1" = .error e := by
  intro ds
  have hds : ∀ d ∈ ds, 1 ≤ d ∧ d ≤ 9 := by decide
  obtain ⟨-, heq, herror⟩ := search_without_parentheses hds
  have hc : "(1+99)1".toList ∈ candidates insertions ds := mem_candidates.2
    ⟨[(some '(', 1), (some '+', 9), (none, 9), (some ')', 1)], rfl, by decide, rfl⟩
  have hp : "1+99*1".toList ∈ candidates plainInsertions ds := mem_candidates.2
    ⟨[(none, 1), (some '+', 9), (none, 9), (some '*', 1)], rfl, by decide, rfl⟩
  have hs : "1+99*1" ∈ search 0 [] ds := by
    rw [heq, List.mem_filter]
    exact ⟨List.mem_map.2 ⟨_, hp, rfl⟩, by decide +kernel⟩
  obtain ⟨e, he⟩ := herror _ hc (.inl (by decide))
  exact ⟨hds, hs, hc, e, he⟩

end HectocDuel
