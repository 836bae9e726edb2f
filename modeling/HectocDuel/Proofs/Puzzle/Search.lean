/-
  The search for solutions is exact.

  A candidate puts an insertion in front of each digit.  The search tries them
  depth first and gives up a beginning that closes a parenthesis which is not
  open; at the end it drops what leaves one open.

  * `candidates` lists all candidates, in the order in which they are tried;
  * `depthOver` counts the open parentheses over a text, and `checkParens_scan`:
    they pair up in the tokens of a text iff they do in the text;
  * `search_exact`: so the search lists the candidates that are worth the target,
    all of them, each once, in their order.
-/
import HectocDuel.Proofs.Expr.Scan
import HectocDuel.Proofs.Expr.Sentence
import HectocDuel.Proofs.Puzzle.Digits
import HectocDuel.Puzzle.Solve
import Mathlib.Data.List.Nodup

namespace HectocDuel

/-! ## Candidates -/

/-- All ways to write one of the choices in front of each digit.  The choice at
    the first digit changes last. -/
def candidates (choices : List (Option Char)) : List Nat → List (List Char)
  | [] => [[]]
  | d :: ds =>
    choices.flatMap fun i => (candidates choices ds).map (i.toList ++ digitChar d :: ·)

/-- Digits, each with what is inserted in front of it. -/
abbrev Pieces :=
  List (Option Char × Nat)

/-- The text of digits and insertions. -/
def Pieces.written (ps : Pieces) : List Char :=
  ps.flatMap fun p => p.1.toList ++ [digitChar p.2]

theorem Pieces.written_cons (i : Option Char) (d : Nat) (ps : Pieces) :
    Pieces.written ((i, d) :: ps) = i.toList ++ digitChar d :: ps.written := by
  rw [written, List.flatMap_cons, List.append_assoc]
  rfl

/-- The candidates are what choices in front of the digits can write. -/
theorem mem_candidates {choices : List (Option Char)} {ds : List Nat} {cs : List Char} :
    cs ∈ candidates choices ds ↔
      ∃ ps : Pieces, ps.map Prod.snd = ds ∧ (∀ p ∈ ps, p.1 ∈ choices) ∧ ps.written = cs := by
  induction ds generalizing cs with
  | nil =>
    rw [candidates, List.mem_singleton]
    constructor
    · rintro rfl
      exact ⟨[], rfl, by simp, rfl⟩
    · rintro ⟨ps, hd, -, rfl⟩
      rw [List.map_eq_nil_iff.1 hd]
      rfl
  | cons d ds ih =>
    simp only [candidates, List.mem_flatMap, List.mem_map, ih]
    constructor
    · rintro ⟨i, hi, -, ⟨ps, rfl, hps, rfl⟩, rfl⟩
      exact ⟨(i, d) :: ps, rfl, List.forall_mem_cons.2 ⟨hi, hps⟩, Pieces.written_cons i d ps⟩
    · rintro ⟨ps, hd, hps, rfl⟩
      match ps, hd with
      | (i, d) :: ps, rfl =>
        obtain ⟨hi, hps⟩ := List.forall_mem_cons.1 hps
        exact ⟨i, hi, _, ⟨ps, rfl, hps, rfl⟩, (Pieces.written_cons i d ps).symm⟩

theorem not_isDigit_of_mem_insertions {c : Char} (h : some c ∈ insertions) : c.isDigit = false := by
  rw [insertions] at h
  simp only [List.mem_cons, Option.some.injEq, reduceCtorEq, List.not_mem_nil, or_false] at h
  rcases h with rfl | rfl | rfl | rfl | rfl | rfl | rfl <;> rfl

section
variable {choices : List (Option Char)} (hplain : ∀ c, some c ∈ choices → c.isDigit = false)
include hplain

theorem filter_isDigit_of_mem_candidates {ds : List Nat} (hds : ∀ d ∈ ds, d ≤ 9) {cs : List Char}
    (h : cs ∈ candidates choices ds) : cs.filter Char.isDigit = ds.map digitChar := by
  induction ds generalizing cs with
  | nil =>
    obtain rfl := List.mem_singleton.1 h
    rfl
  | cons d ds ih =>
    obtain ⟨hd, hds⟩ := List.forall_mem_cons.1 hds
    simp only [candidates, List.mem_flatMap, List.mem_map] at h
    obtain ⟨i, hi, cs, hcs, rfl⟩ := h
    have hi' : i.toList.filter Char.isDigit = [] := by
      cases i with
      | none => rfl
      | some c => simp [hplain c hi]
    rw [List.filter_append, hi', List.nil_append, List.filter_cons_of_pos (isDigit_digitChar hd),
      ih hds hcs, List.map_cons]

/-- What stands in front of the first digit of a text can be told from the text. -/
theorem insertion_unique {i j : Option Char} (hi : i ∈ choices) (hj : j ∈ choices) {d : Nat}
    (hd : d ≤ 9) {cs cs' : List Char}
    (h : i.toList ++ digitChar d :: cs = j.toList ++ digitChar d :: cs') : i = j := by
  have hne : ∀ c, some c ∈ choices → c ≠ digitChar d := by
    rintro c hc rfl
    have := hplain _ hc
    rw [isDigit_digitChar hd] at this
    cases this
  cases i with
  | none =>
    cases j with
    | none => rfl
    | some c => exact absurd (List.cons.inj h).1.symm (hne c hj)
  | some c =>
    cases j with
    | none => exact absurd (List.cons.inj h).1 (hne c hi)
    | some c' => exact congrArg some (List.cons.inj h).1

/-- **No candidate is listed twice.** -/
theorem nodup_candidates (hc : choices.Nodup) {ds : List Nat} (hds : ∀ d ∈ ds, d ≤ 9) :
    (candidates choices ds).Nodup := by
  induction ds with
  | nil => exact List.nodup_singleton _
  | cons d ds ih =>
    obtain ⟨hd, hds⟩ := List.forall_mem_cons.1 hds
    rw [candidates, List.nodup_flatMap]
    refine ⟨fun i _ => (ih hds).map fun cs cs' h => ?_, ?_⟩
    · exact (List.cons.inj (List.append_cancel_left h)).2
    · refine hc.pairwise_of_forall_ne fun i hi j hj hij cs hcs hcs' => ?_
      obtain ⟨_, -, rfl⟩ := List.mem_map.1 hcs
      obtain ⟨_, -, h⟩ := List.mem_map.1 hcs'
      exact hij (insertion_unique hplain hi hj hd h.symm)

end

/-! ## Open parentheses -/

/-- The number of open parentheses after a text, when `depth` are open before it;
    nothing if the text closes one that is not open. -/
def depthOver (depth : Nat) (cs : List Char) : Option Nat :=
  cs.foldlM (fun depth c => depthAfter depth (some c)) depth

theorem depthOver_append (depth : Nat) (cs cs' : List Char) :
    depthOver depth (cs ++ cs') = (depthOver depth cs).bind (depthOver · cs') :=
  List.foldlM_append

theorem depthOver_cons (depth : Nat) (c : Char) (cs : List Char) :
    depthOver depth (c :: cs) = (depthAfter depth (some c)).bind (depthOver · cs) :=
  List.foldlM_cons

theorem depthAfter_of_ne (depth : Nat) {c : Char} (ho : c ≠ '(') (hc : c ≠ ')') :
    depthAfter depth (some c) = some depth := by
  rw [depthAfter, if_neg ho, if_neg hc]

theorem depthOver_of_forall_ne (depth : Nat) {cs : List Char} (h : ∀ c ∈ cs, c ≠ '(' ∧ c ≠ ')') :
    depthOver depth cs = some depth := by
  induction cs with
  | nil => rfl
  | cons c cs ih =>
    obtain ⟨hc, hcs⟩ := List.forall_mem_cons.1 h
    rw [depthOver_cons, depthAfter_of_ne depth hc.1 hc.2]
    exact ih hcs

theorem IsNumeric.ne_paren {c : Char} (h : IsNumeric c) : c ≠ '(' ∧ c ≠ ')' := by
  constructor <;> rintro rfl <;> simp [IsNumeric, Char.isDigit] at h

theorem depthOver_insertion (depth : Nat) (i : Option Char) :
    depthOver depth i.toList = depthAfter depth i := by
  cases i with
  | none => rfl
  | some c =>
    rw [Option.toList_some, depthOver_cons]
    exact Option.bind_fun_some _

theorem isNumeric_digitChar {d : Nat} (h : d ≤ 9) : IsNumeric (digitChar d) :=
  .inl (isDigit_digitChar h)

theorem checkParens_signTokens (before : Before) (op : Operator) (depth : Nat) (ts : List Token) :
    checkParens depth ((signTokens before op).1 ++ ts) = checkParens depth ts := by
  rw [signTokens]
  split
  · rfl
  · split <;> rfl

/-- **The parentheses of a text pair up iff those of its tokens do.** -/
theorem checkParens_scan {before : Before} {cs : List Char} {ts : List Token}
    (h : scan before cs = .ok ts) (depth : Nat) :
    checkParens depth ts = .ok () ↔ depthOver depth cs = some 0 := by
  fun_induction scan before cs generalizing ts depth with
  | case1 before =>
    obtain rfl := Except.ok.inj h
    simp [checkParens, depthOver]
  | case2 before c cs hb ih =>
    have hc : c ≠ '(' ∧ c ≠ ')' := by
      constructor <;> rintro rfl <;> simp [Text.isBlank] at hb
    rw [depthOver_cons, depthAfter_of_ne depth hc.1 hc.2]
    exact ih h depth
  | case3 before c cs hb hn ih =>
    obtain ⟨ts, hts, rfl⟩ := map_eq_ok_iff.1 h
    have hspan : depthOver depth (spanLiteral (c = '.') cs).1 = some depth :=
      depthOver_of_forall_ne depth fun c hm => ((spanLiteral_spec _ cs).1 c hm).ne_paren
    have hrest : depthOver depth cs = depthOver depth (spanLiteral (c = '.') cs).2 := by
      rw [← spanLiteral_append (c = '.') cs, depthOver_append, hspan, spanLiteral_append]
      rfl
    rw [depthOver_cons, depthAfter_of_ne depth (IsNumeric.ne_paren hn).1 (IsNumeric.ne_paren hn).2]
    exact (ih hts depth).trans (iff_of_eq (congrArg (· = some 0) hrest.symm))
  | case4 before cs hb hn ih =>
    obtain ⟨ts, hts, rfl⟩ := map_eq_ok_iff.1 h
    exact ih hts (depth + 1)
  | case5 before cs hb hn ho ih =>
    obtain ⟨ts, hts, rfl⟩ := map_eq_ok_iff.1 h
    cases depth with
    | zero => simp [checkParens, depthOver_cons, depthAfter]
    | succ depth => exact ih hts depth
  | case6 => cases h
  | case7 before c cs hb hn ho hc op hop ih =>
    obtain ⟨ts, hts, rfl⟩ := map_eq_ok_iff.1 h
    rw [checkParens_signTokens, depthOver_cons, depthAfter_of_ne depth ho hc]
    exact ih hts depth

theorem depthOver_of_tokenize {text : String} {ts : List Token} (h : tokenize text = .ok ts) :
    depthOver 0 text.toList = some 0 := by
  obtain ⟨hscan, hval⟩ := tokenize_eq_ok_iff.1 h
  exact (checkParens_scan hscan 0).1 (checkParens_of_validate hval)

/-! ## The search -/

theorem isSolution_iff {text : String} : isSolution text ↔ verify text = .ok true := by
  rw [isSolution]
  split <;> simp [*]

theorem exists_calculate_of_isSolution {text : String} (h : isSolution text) :
    ∃ v, calculate text = .ok v := by
  rw [isSolution_iff, verify, map_eq_ok_iff] at h
  obtain ⟨v, hv, -⟩ := h
  exact ⟨v, hv⟩

theorem depthOver_of_isSolution {text : String} (h : isSolution text) :
    depthOver 0 text.toList = some 0 := by
  obtain ⟨v, hv⟩ := exists_calculate_of_isSolution h
  obtain ⟨ts, ht⟩ := exists_tokenize_of_calculateWith hv
  exact depthOver_of_tokenize ht

/-- The search lists the solutions among the candidates behind a beginning. -/
theorem search_eq_filter {ds : List Nat} (hds : ∀ d ∈ ds, d ≤ 9) {depth : Nat}
    {written : List Char} (hw : depthOver 0 written = some depth) :
    search depth written ds =
      ((candidates insertions ds).map fun cs => String.ofList (written ++ cs)).filter
        isSolution := by
  induction ds generalizing depth written with
  | nil =>
    rw [search, candidates, List.map_singleton, List.append_nil]
    by_cases hs : isSolution (String.ofList written)
    · -- A solution leaves no parenthesis open.
      have h0 := depthOver_of_isSolution hs
      rw [String.toList_ofList, hw, Option.some.injEq] at h0
      simp [h0, hs]
    · simp [hs]
  | cons d ds ih =>
    obtain ⟨hd, hds⟩ := List.forall_mem_cons.1 hds
    rw [search, candidates, List.map_flatMap, List.filter_flatMap]
    refine List.flatMap_congr fun i _ => ?_
    have hi : depthOver 0 (written ++ i.toList ++ [digitChar d]) = depthAfter depth i := by
      obtain ⟨ho, hc⟩ := (isNumeric_digitChar hd).ne_paren
      rw [depthOver_append, depthOver_append, hw, Option.bind_some, depthOver_insertion]
      cases depthAfter depth i with
      | none => rfl
      | some depth' =>
        rw [Option.bind_some, depthOver_cons, depthAfter_of_ne depth' ho hc]
        rfl
    have happ : ∀ cs, written ++ (i.toList ++ digitChar d :: cs) =
        written ++ i.toList ++ [digitChar d] ++ cs := by simp
    rw [List.map_map]
    simp only [Function.comp_def, happ]
    cases hdi : depthAfter depth i with
    | some depth' => exact ih hds (hi.trans hdi)
    | none =>
      -- Whatever follows a parenthesis too many, it is no solution.
      refine (List.filter_eq_nil_iff.2 fun s hs hsol => ?_).symm
      obtain ⟨cs, -, rfl⟩ := List.mem_map.1 hs
      have h0 := depthOver_of_isSolution hsol
      rw [String.toList_ofList, depthOver_append, hi, hdi] at h0
      cases h0

/-- **The search is exact.**  For digits from 1 to 9, however many, it lists the
    candidates that are worth the target: all of them, in the order of the
    candidates, and none twice.  Every solution of a puzzle has the digits of the
    puzzle. -/
theorem search_exact {ds : List Nat} (hds : ∀ d ∈ ds, 1 ≤ d ∧ d ≤ 9) :
    search 0 [] ds =
        ((candidates insertions ds).map String.ofList).filter (verify · = .ok true) ∧
      (search 0 [] ds).Nodup ∧
      ∀ digits : Digits, digits.values = ds → (Puzzle.solve digits).solutions = search 0 [] ds ∧
        ∀ s ∈ (Puzzle.solve digits).solutions, digits.matchesSubmission s := by
  have hds9 : ∀ d ∈ ds, d ≤ 9 := fun d hd => (hds d hd).2
  have hplain : ∀ c, some c ∈ insertions → c.isDigit = false := fun c hc =>
    not_isDigit_of_mem_insertions hc
  have heq := search_eq_filter hds9 (show depthOver 0 [] = some 0 from rfl)
  have hnd : (search 0 [] ds).Nodup := by
    rw [heq]
    have hcs := nodup_candidates hplain (by decide) hds9
    exact (hcs.map fun _ _ => String.ofList_injective).filter _
  refine ⟨heq.trans (List.filter_congr fun s _ => ?_), hnd, ?_⟩
  · exact Bool.eq_iff_iff.2 (isSolution_iff.trans decide_eq_true_iff.symm)
  · rintro digits rfl
    refine ⟨rfl, fun s hs => (digits.matchesSubmission_iff s).2 ?_⟩
    have hs : s ∈ search 0 [] digits.values := hs
    rw [heq, List.mem_filter, List.mem_map] at hs
    obtain ⟨⟨cs, hcs, rfl⟩, -⟩ := hs
    rw [String.toList_ofList, List.nil_append, digits.toList_text]
    exact filter_isDigit_of_mem_candidates hplain hds9 hcs

/-- The search for `119999` finds `1+1*9*9+9+9`, in its place and once. -/
theorem search_exact_fallback :
    let ds := [1, 1, 9, 9, 9, 9]
    (∀ d ∈ ds, 1 ≤ d ∧ d ≤ 9) ∧ "1+1*9*9+9+9" ∈ search 0 [] ds ∧ (search 0 [] ds).Nodup := by
  intro ds
  have hds : ∀ d ∈ ds, 1 ≤ d ∧ d ≤ 9 := by decide
  obtain ⟨heq, hnd, -⟩ := search_exact hds
  refine ⟨hds, ?_, hnd⟩
  have hc : "1+1*9*9+9+9".toList ∈ candidates insertions ds :=
    mem_candidates.2 ⟨[(none, 1), (some '+', 1), (some '*', 9), (some '*', 9), (some '+', 9),
      (some '+', 9)], rfl, by decide, rfl⟩
  rw [heq, List.mem_filter]
  exact ⟨List.mem_map.2 ⟨_, hc, rfl⟩, by decide +kernel⟩

end HectocDuel
