/-
  Every puzzle that is drawn can be won.

  A draw is wasted when its digits are passed over or have no solution.  A list of
  digits that failed once is not solved again, which changes nothing: what failed
  fails again.

  * `drawFrom_of_wasted` and `drawFrom_of_first`: the first draw that is not wasted
    ends the drawing, and what was noted of failed draws does not matter;
  * `fallbacks_solvable`: each digit sequence that is taken in the end has a solution;
  * `drawPuzzle_winnable`: so whatever is drawn, the puzzle has solutions, and any of
    them wins in a room with that puzzle.
-/
import HectocDuel.Proofs.Hub.Answer
import HectocDuel.Proofs.Puzzle.Search
import HectocDuel.Puzzle.Draw
import Mathlib.Data.Nat.Find

namespace HectocDuel

/-! ## Drawing -/

/-- A draw is of no use: its digits are passed over, or have no solution. -/
def Wasted (digits : Digits) : Prop :=
  digits.values ∈ hopeless ∨ (Puzzle.solve digits).solutions = []

instance (digits : Digits) : Decidable (Wasted digits) :=
  inferInstanceAs (Decidable (_ ∨ _))

theorem puzzleOf?_of_wasted {digits : Digits} (h : Wasted digits) : puzzleOf? digits = none := by
  rw [puzzleOf?]
  split
  · rfl
  · next hh => simp [Puzzle.isSolvable, h.resolve_left hh]

theorem puzzleOf?_of_not_wasted {digits : Digits} (h : ¬ Wasted digits) :
    puzzleOf? digits = some (Puzzle.solve digits) := by
  obtain ⟨hh, hs⟩ := not_or.1 h
  rw [puzzleOf?, if_neg hh]
  simp [Puzzle.isSolvable, hs]

section
variable {draws : Nat → Digits} (fallback : Fin 5)

/-- A wasted draw is followed by the next, which is made with no better chances:
    all that is noted as failed is wasted. -/
theorem drawFrom_of_wasted {failed : List Digits} (hfailed : ∀ d ∈ failed, Wasted d) {made : Nat}
    (h : Wasted (draws made)) (left : Nat) :
    ∃ failed', (∀ d ∈ failed', Wasted d) ∧ drawFrom draws fallback failed made (left + 1) =
      drawFrom draws fallback failed' (made + 1) left := by
  rw [drawFrom]
  split
  · exact ⟨failed, hfailed, rfl⟩
  · rw [puzzleOf?_of_wasted h]
    exact ⟨draws made :: failed, List.forall_mem_cons.2 ⟨h, hfailed⟩, rfl⟩

theorem drawFrom_of_forall_wasted {failed : List Digits} (hfailed : ∀ d ∈ failed, Wasted d)
    {made n : Nat} (h : ∀ j < n, Wasted (draws (made + j))) (left : Nat) :
    ∃ failed', (∀ d ∈ failed', Wasted d) ∧ drawFrom draws fallback failed made (n + left) =
      drawFrom draws fallback failed' (made + n) left := by
  induction n generalizing failed made with
  | zero => exact ⟨failed, hfailed, by rw [Nat.zero_add, Nat.add_zero]⟩
  | succ n ih =>
    have hnext : ∀ j < n, Wasted (draws (made + 1 + j)) := fun j hj => by
      rw [Nat.add_assoc, Nat.add_comm 1 j]
      exact h (j + 1) (Nat.succ_lt_succ hj)
    have hfirst : Wasted (draws made) := h 0 n.succ_pos
    obtain ⟨between, hbetween, heq⟩ := drawFrom_of_wasted fallback hfailed hfirst (n + left)
    obtain ⟨failed', hfailed', heq'⟩ := ih hbetween hnext
    refine ⟨failed', hfailed', ?_⟩
    rw [Nat.add_right_comm, heq, heq', Nat.add_assoc, Nat.add_comm 1 n]

theorem drawFrom_of_first {failed : List Digits} (hfailed : ∀ d ∈ failed, Wasted d) {made : Nat}
    (h : ¬ Wasted (draws made)) (left : Nat) :
    drawFrom draws fallback failed made (left + 1) =
      ⟨Puzzle.solve (draws made), made + 1, false⟩ := by
  rw [drawFrom, if_neg fun hm => h (hfailed _ hm), puzzleOf?_of_not_wasted h]

/-- The puzzle of the first draw that is not wasted, if that is among the first `n`. -/
theorem drawFrom_eq_solve {n i : Nat} (hi : i < n) (hbefore : ∀ j < i, Wasted (draws j))
    (h : ¬ Wasted (draws i)) :
    drawFrom draws fallback [] 0 n = ⟨Puzzle.solve (draws i), i + 1, false⟩ := by
  obtain ⟨left, rfl⟩ := Nat.exists_eq_add_of_lt hi
  have hnone : ∀ d ∈ ([] : List Digits), Wasted d := nofun
  have hwasted : ∀ j < i, Wasted (draws (0 + j)) := by simpa using hbefore
  obtain ⟨failed, hfailed, heq⟩ := drawFrom_of_forall_wasted fallback hnone hwasted (left + 1)
  rw [Nat.zero_add] at heq
  rw [Nat.add_assoc, heq, drawFrom_of_first fallback hfailed h]

theorem drawFrom_eq_fallback {n : Nat} (h : ∀ j < n, Wasted (draws j)) :
    drawFrom draws fallback [] 0 n = ⟨Puzzle.solve (fallbacks.get fallback), n, true⟩ := by
  have hnone : ∀ d ∈ ([] : List Digits), Wasted d := nofun
  have hwasted : ∀ j < n, Wasted (draws (0 + j)) := by simpa using h
  obtain ⟨failed, hfailed, heq⟩ := drawFrom_of_forall_wasted fallback hnone hwasted 0
  rw [Nat.add_zero, Nat.zero_add] at heq
  rw [heq, drawFrom]
  rfl

end

/-! ## Solutions -/

theorem mem_solutions_of_pieces {digits : Digits} {ps : Pieces}
    (hdigits : ps.map Prod.snd = digits.values) (hps : ∀ p ∈ ps, p.1 ∈ insertions)
    (hworth : isSolution (String.ofList ps.written)) :
    String.ofList ps.written ∈ (Puzzle.solve digits).solutions := by
  have hds : ∀ d ∈ digits.values, d ≤ 9 := fun d hd => (digits.bounds d hd).2
  rw [Puzzle.solve, search_eq_filter hds (show depthOver 0 [] = some 0 from rfl)]
  exact List.mem_filter.2
    ⟨List.mem_map.2 ⟨ps.written, mem_candidates.2 ⟨ps, hdigits, hps, rfl⟩, rfl⟩, hworth⟩

/-- A solution for each fallback. -/
def fallbackPieces : Vector Pieces 5 :=
  #v[[(none, 1), (some '+', 1), (some '*', 9), (some '*', 9), (some '+', 9), (some '+', 9)],
    [(none, 9), (some '+', 9), (some '*', 9), (some '+', 5), (some '+', 4), (some '+', 1)],
    [(none, 4), (none, 7), (some '+', 2), (some '*', 3), (none, 1), (some '-', 9)],
    [(none, 3), (some '+', 2), (some '+', 7), (some '+', 9), (none, 2), (some '-', 4)],
    [(none, 2), (some '+', 3), (none, 4), (some '+', 5), (none, 6), (some '+', 8)]]

/-- **Each fallback has a solution.** -/
theorem fallbacks_solvable (k : Fin 5) : (Puzzle.solve (fallbacks.get k)).solutions ≠ [] := by
  have hpieces : ∀ k : Fin 5,
      (fallbackPieces.get k).map Prod.snd = (fallbacks.get k).values ∧
        ∀ p ∈ fallbackPieces.get k, p.1 ∈ insertions := by decide
  have hworth : ∀ k : Fin 5, isSolution (String.ofList (fallbackPieces.get k).written) := by
    decide +kernel
  exact List.ne_nil_of_mem (mem_solutions_of_pieces (hpieces k).1 (hpieces k).2 (hworth k))

theorem fits_of_mem_solutions {digits : Digits} {s : String}
    (h : s ∈ (Puzzle.solve digits).solutions) :
    verify s = .ok true ∧ digits.matchesSubmission s := by
  have hds : ∀ d ∈ digits.values, d ≤ 9 := fun d hd => (digits.bounds d hd).2
  rw [Puzzle.solve, search_eq_filter hds (show depthOver 0 [] = some 0 from rfl),
    List.mem_filter, List.mem_map] at h
  obtain ⟨⟨cs, hcs, rfl⟩, hworth⟩ := h
  refine ⟨isSolution_iff.1 hworth, (digits.matchesSubmission_iff _).2 ?_⟩
  rw [String.toList_ofList, List.nil_append, digits.toList_text]
  exact filter_isDigit_of_mem_candidates (fun c hc => not_isDigit_of_mem_insertions hc) hds hcs

/-! ## Drawn puzzles -/

theorem exists_drawPuzzle_eq (draws : Nat → Digits) (fallback : Fin 5) :
    ∃ digits, (drawPuzzle draws fallback).puzzle = Puzzle.solve digits ∧
      (Puzzle.solve digits).solutions ≠ [] := by
  by_cases h : ∀ i < maxAttempts, Wasted (draws i)
  · exact ⟨_, congrArg Drawn.puzzle (drawFrom_eq_fallback fallback h), fallbacks_solvable fallback⟩
  · -- Of the draws that are not wasted, the first one counts.
    push Not at h
    have hleast := Nat.find_spec h
    have hbefore : ∀ j < Nat.find h, Wasted (draws j) := fun j hj =>
      not_not.1 fun hw => Nat.find_min h hj ⟨hj.trans hleast.1, hw⟩
    exact ⟨_, congrArg Drawn.puzzle (drawFrom_eq_solve fallback hleast.1 hbefore hleast.2),
      fun hs => hleast.2 (.inr hs)⟩

/-- A solution of the puzzle of a room wins the game there. -/
theorem Hub.Sound.endsBy_solution {source : PuzzleSource} {h : Hub} (hs : h.Sound) {room : RoomId}
    {p : PlayerId} {k : ConnectionId} {r : Room} {c : Client} {z : Puzzle} {s : String}
    (hr : h.rooms.get? room = some r) (hc : r.clientOn p k = some c) (hz : r.puzzle = some z)
    (hworth : verify s = .ok true) (hmatches : z.digits.matchesSubmission s) :
    h.EndsBy room p k s (h.step source (.submit room p k s)).1
      (h.step source (.submit room p k s)).2 := by
  have hsolves : h.Solves room p k s :=
    ⟨(admits_iff hr hc).2 ⟨z, hz, hmatches⟩, verify_eq_ok_true_iff.1 hworth⟩
  rcases hs.answer (step_transition source h (.submit room p k s)) with
    ⟨-, hends⟩ | ⟨-, ⟨v, -, hv, hne, -⟩ | ⟨hn, -⟩⟩
  · exact hends
  · exact absurd (Except.ok.inj (hv.symm.trans hsolves.2)) hne
  · exact absurd ⟨hsolves.1, _, hsolves.2⟩ hn

/-- **Every puzzle that is drawn can be won.**  The first draw among a hundred that
    is not wasted gives the puzzle and ends the drawing, whichever fallback would be
    next; if all hundred are wasted, it is the fallback that was chosen.  Either way
    the puzzle holds all solutions of its digits and there is one; each is worth the
    target and uses the digits in order, so that a player who sends it wins, in
    every room with that puzzle that a run of the hub leads to. -/
theorem drawPuzzle_winnable (draws : Nat → Digits) (fallback : Fin 5) :
    let drawn := drawPuzzle draws fallback
    (∀ i < 100, (∀ j < i, Wasted (draws j)) → ¬ Wasted (draws i) →
      drawn = ⟨Puzzle.solve (draws i), i + 1, false⟩) ∧
    ((∀ i < 100, Wasted (draws i)) →
      drawn = ⟨Puzzle.solve (fallbacks.get fallback), 100, true⟩) ∧
    drawn.puzzle = Puzzle.solve drawn.puzzle.digits ∧
    drawn.puzzle.solutions ≠ [] ∧
    ∀ s ∈ drawn.puzzle.solutions,
      verify s = .ok true ∧ drawn.puzzle.digits.matchesSubmission s ∧
      ∀ (source : PuzzleSource) (es : List Event), (∀ e ∈ es, e.Fresh) →
        ∀ (room : RoomId) (p : PlayerId) (k : ConnectionId) (r : Room) (c : Client),
          let h := Hub.after source es
          h.rooms.get? room = some r → r.clientOn p k = some c → r.puzzle = some drawn.puzzle →
            let next := h.step source (.submit room p k s)
            h.EndsBy room p k s next.1 next.2 := by
  intro drawn
  obtain ⟨digits, hpuzzle, hsolvable⟩ := exists_drawPuzzle_eq draws fallback
  have hdrawn : drawn.puzzle = Puzzle.solve digits := hpuzzle
  refine ⟨fun i hi => drawFrom_eq_solve fallback hi, drawFrom_eq_fallback fallback, ?_, ?_, ?_⟩
  · rw [hdrawn]
    rfl
  · rwa [hdrawn]
  · intro s hs
    rw [hdrawn] at hs ⊢
    obtain ⟨hworth, hmatches⟩ := fits_of_mem_solutions hs
    refine ⟨hworth, hmatches, ?_⟩
    intro source es hes room p k r c h hr hc hz next
    exact (Hub.sound_after source hes).endsBy_solution hr hc hz hworth hmatches

/-- When no draw has a solution, the third fallback is taken, and `47+2*31-9` wins. -/
theorem drawPuzzle_winnable_fallback :
    let draws : Nat → Digits := fun _ => .ofSix 1 1 2 1 1 7 (by decide)
    let drawn := drawPuzzle draws 2
    let source : PuzzleSource := fun _ => some drawn.puzzle
    let es : List Event :=
      [.join (.new ⟨"ada"⟩ ⟨1⟩ ⟨"r"⟩ ⟨"a"⟩), .join (.new ⟨"bob"⟩ ⟨2⟩ ⟨"r"⟩ ⟨"b"⟩)]
    let next := (Hub.after source es).step source (.submit ⟨"r"⟩ ⟨"bob"⟩ ⟨2⟩ "47+2*31-9")
    (∀ i < 100, Wasted (draws i)) ∧
      drawn = ⟨Puzzle.solve (.ofSix 4 7 2 3 1 9 (by decide)), 100, true⟩ ∧
      (Hub.after source es).EndsBy ⟨"r"⟩ ⟨"bob"⟩ ⟨2⟩ "47+2*31-9" next.1 next.2 := by
  intro draws drawn source es next
  have hwasted : ∀ i < 100, Wasted (draws i) := fun _ _ => .inl (by decide)
  obtain ⟨-, hfallback, -, -, hwins⟩ := drawPuzzle_winnable draws 2
  have heq : drawn = _ := hfallback hwasted
  have hworth : isSolution (String.ofList (fallbackPieces.get 2).written) := by decide +kernel
  have hmem : "47+2*31-9" ∈ drawn.puzzle.solutions := by
    rw [heq]
    exact mem_solutions_of_pieces (by decide) (by decide) hworth
  refine ⟨hwasted, heq, ?_⟩
  exact (hwins _ hmem).2.2 source es (by decide) ⟨"r"⟩ ⟨"bob"⟩ ⟨2⟩ _ _ rfl rfl rfl

end HectocDuel
