/-
  References that begin with a slash.

  * `isHere_iff` and `isUp_iff`: a segment stays or goes up iff it stands for one point or for
    two, however they are spelled;
  * `Scheme.isSegment_of_mem_follow`: wherever segments lead, each one of the path is written
    and stands for neither (`IsSegment`);
  * `Scheme.follow_of_segments`: along such segments nothing is left out and nothing changed;
  * `isSegment_of_locate?`: so these are the segments that a reference points to, and
    `locate?_path` finds those that are written in one.
-/
import HectocDuel.Proofs.Text.Split
import HectocDuel.Proofs.Url.Percent
import HectocDuel.Url.Reference
import Mathlib.Data.List.DropRight

namespace HectocDuel.Url

open Text

/-! ## Points -/

theorem escaped?_eq_point_iff {high low : UInt8} :
    escaped? high low = some 0x2e ↔ high = 0x32 ∧ (low = 0x65 ∨ low = 0x45) := by
  refine ⟨fun h => ?_, ?_⟩
  · obtain ⟨m, n, hm, hn, hpoint⟩ := escaped?_eq_some_iff.1 h
    have hpoint := congrArg UInt8.toNat hpoint
    simp only [UInt8.toNat_add, UInt8.toNat_mul, UInt8.reduceToNat] at hpoint
    have hhigh := hexDigit?_cases hm
    have hlow := hexDigit?_cases hn
    simp only [← UInt8.toNat_inj, UInt8.reduceToNat]
    omega
  · rintro ⟨rfl, rfl | rfl⟩ <;> rfl

/-- A point that is read was written in one of its spellings. -/
theorem decode_eq_point_cons_iff {bs xs : List UInt8} : decode bs = 0x2e :: xs ↔
    ∃ p ∈ points, ∃ rest, bs = p.flatMap String.utf8EncodeChar ++ rest ∧ decode rest = xs := by
  constructor
  · intro h
    rcases decode_eq_cons h with ⟨rest, rfl, hrest⟩ | ⟨high, low, rest, rfl, hescape, hrest⟩
    · exact ⟨['.'], by decide, rest, rfl, hrest⟩
    · obtain ⟨rfl, rfl | rfl⟩ := escaped?_eq_point_iff.1 hescape
      · exact ⟨['%', '2', 'e'], by decide, rest, rfl, hrest⟩
      · exact ⟨['%', '2', 'E'], by decide, rest, rfl, hrest⟩
  · rintro ⟨p, hp, rest, rfl, rfl⟩
    rw [points, List.mem_cons, List.mem_pair] at hp
    rcases hp with rfl | rfl | rfl
    · exact decode_of_ne (by decide) rest
    · exact decode_percent _
    · exact decode_percent _

theorem isHere_iff {cs : List Char} :
    isHere cs = true ↔ decode (cs.flatMap String.utf8EncodeChar) = [0x2e] := by
  rw [isHere, decide_eq_true_iff, decode_eq_point_cons_iff]
  constructor
  · exact fun h => ⟨cs, h, [], (List.append_nil _).symm, rfl⟩
  · rintro ⟨p, hp, rest, hbytes, hrest⟩
    rw [decode_eq_nil_iff.1 hrest, List.append_nil] at hbytes
    exact flatMap_utf8_injective hbytes ▸ hp

theorem isUp_iff {cs : List Char} :
    isUp cs = true ↔ decode (cs.flatMap String.utf8EncodeChar) = [0x2e, 0x2e] := by
  simp only [isUp, decide_eq_true_iff, List.mem_flatMap, List.mem_map]
  rw [decode_eq_point_cons_iff]
  constructor
  · rintro ⟨p, hp, q, hq, rfl⟩
    exact ⟨p, hp, _, List.flatMap_append,
      decode_eq_point_cons_iff.2 ⟨q, hq, [], (List.append_nil _).symm, rfl⟩⟩
  · rintro ⟨p, hp, rest, hbytes, hrest⟩
    obtain ⟨q, hq, rest', rfl, hrest'⟩ := decode_eq_point_cons_iff.1 hrest
    rw [decode_eq_nil_iff.1 hrest', List.append_nil, ← List.flatMap_append] at hbytes
    exact ⟨p, hp, q, hq, (flatMap_utf8_injective hbytes).symm⟩

/-! ## Segments -/

/-- The text is a segment of a path as it is written, and leads to where it says. -/
structure IsSegment (cs : List Char) : Prop where
  written : ∀ c ∈ cs, isPathChar c = true
  not_slash : ∀ c ∈ cs, Scheme.web.isSlash c = false
  not_here : isHere cs = false
  not_up : isUp cs = false

theorem isSegment_iff {cs : List Char} : IsSegment cs ↔ cs.all isPathChar = true ∧
    cs.any Scheme.web.isSlash = false ∧ isHere cs = false ∧ isUp cs = false := by
  simp only [List.all_eq_true, List.any_eq_false, Bool.not_eq_true]
  exact ⟨fun h => ⟨h.written, h.not_slash, h.not_here, h.not_up⟩,
    fun h => ⟨h.1, h.2.1, h.2.2.1, h.2.2.2⟩⟩

instance (cs : List Char) : Decidable (IsSegment cs) :=
  decidable_of_iff _ isSegment_iff.symm

/-- A segment that neither stays nor goes up is one once it is written. -/
theorem isSegment_escapePath {cs : List Char} (hslash : ∀ c ∈ cs, Scheme.web.isSlash c = false)
    (hhere : isHere cs = false) (hup : isUp cs = false) : IsSegment (escapePath cs) where
  written _ hc := (of_mem_escapePath hc).1
  not_slash c hc := by
    rcases (of_mem_escapePath hc).2 with hc | rfl | halnum
    · exact hslash c hc
    · rfl
    · refine Bool.eq_false_iff.2 fun h => ?_
      simp only [Scheme.isSlash, Bool.or_eq_true, Bool.and_eq_true, decide_eq_true_eq] at h
      rcases h with rfl | ⟨-, rfl⟩ <;> exact absurd halnum (by decide)
  not_here := by
    rw [Bool.eq_false_iff, Ne, isHere_iff] at hhere ⊢
    rwa [decode_escapePath]
  not_up := by
    rw [Bool.eq_false_iff, Ne, isUp_iff] at hup ⊢
    rwa [decode_escapePath]

theorem Scheme.written_web (cs : List Char) : Scheme.web.written cs = escapePath cs :=
  rfl

/-- One step from a path along a segment. -/
def Scheme.step (s : Scheme) (path : List (List Char)) (p : List Char) : List (List Char) :=
  if isUp p then stepUp path else if isHere p then path else path ++ [s.written p]

theorem Scheme.follow_cons (s : Scheme) (path : List (List Char)) (p : List Char)
    (ps : List (List Char)) : s.follow path (p :: ps) =
      if ps = [] then if isUp p || isHere p then s.step path p ++ [[]] else s.step path p
      else s.follow (s.step path p) ps :=
  rfl

theorem mem_of_mem_stepUp {path : List (List Char)} {cs : List Char} (h : cs ∈ stepUp path) :
    cs ∈ path := by
  rw [stepUp] at h
  split at h
  · exact h
  · exact (List.dropLast_sublist path).mem h

section
variable {path : List (List Char)} {p : List Char} {ps : List (List Char)}

theorem Scheme.isSegment_of_mem_step (hpath : ∀ cs ∈ path, IsSegment cs)
    (hp : ∀ c ∈ p, Scheme.web.isSlash c = false) :
    ∀ cs ∈ Scheme.web.step path p, IsSegment cs := by
  intro cs hcs
  rw [Scheme.step] at hcs
  split at hcs
  · exact hpath cs (mem_of_mem_stepUp hcs)
  · next hup =>
    split at hcs
    · exact hpath cs hcs
    · next hhere =>
      rcases List.mem_append.1 hcs with hcs | hcs
      · exact hpath cs hcs
      · rw [List.mem_singleton.1 hcs, Scheme.written_web]
        exact isSegment_escapePath hp (Bool.eq_false_iff.2 hhere) (Bool.eq_false_iff.2 hup)

/-- **Wherever segments lead, the path is made of segments.** -/
theorem Scheme.isSegment_of_mem_follow (hpath : ∀ cs ∈ path, IsSegment cs)
    (hps : ∀ p ∈ ps, ∀ c ∈ p, Scheme.web.isSlash c = false) :
    ∀ cs ∈ Scheme.web.follow path ps, IsSegment cs := by
  induction ps generalizing path with
  | nil => exact hpath
  | cons p ps ih =>
    obtain ⟨hp, hps⟩ := List.forall_mem_cons.1 hps
    have hstep := Scheme.isSegment_of_mem_step hpath hp
    rw [Scheme.follow_cons]
    split_ifs with _ hstays
    · -- A path that ends in points ends in an empty segment.
      intro cs hcs
      rcases List.mem_append.1 hcs with hcs | hcs
      · exact hstep cs hcs
      · exact List.mem_singleton.1 hcs ▸ by decide
    · exact hstep
    · exact ih hstep hps

/-- **Along segments nothing is left out and nothing changed.** -/
theorem Scheme.follow_of_segments (hps : ∀ p ∈ ps, IsSegment p) :
    Scheme.web.follow path ps = path ++ ps := by
  induction ps generalizing path with
  | nil => exact (List.append_nil path).symm
  | cons p ps ih =>
    obtain ⟨hp, hps⟩ := List.forall_mem_cons.1 hps
    have hstep : Scheme.web.step path p = path ++ [p] := by
      rw [Scheme.step, if_neg (Bool.eq_false_iff.1 hp.not_up),
        if_neg (Bool.eq_false_iff.1 hp.not_here), Scheme.written_web,
        escapePath_of_forall hp.written]
    rw [Scheme.follow_cons, hstep, hp.not_up, hp.not_here]
    split
    · next hnil => rw [hnil]; rfl
    · rw [ih hps, List.append_assoc, List.singleton_append]

end

/-! ## Paths -/

theorem Scheme.isSegment_of_mem_goTo (cs : List Char) :
    ∀ p ∈ (Scheme.web.goTo cs).segments, IsSegment p :=
  Scheme.isSegment_of_mem_follow (fun _ h => absurd h List.not_mem_nil)
    fun _ hp _ hc => not_of_mem_pieces hp hc

/-- A path of segments with a query behind it points to these segments. -/
theorem Scheme.goTo_path {p : List Char} {ps : List (List Char)} {query : List Char}
    (hps : ∀ q ∈ p :: ps, IsSegment q) (hquery : ∀ c ∈ query, c ≠ '#') :
    Scheme.web.goTo (['/'].intercalate (p :: ps) ++ '?' :: query) = ⟨p :: ps, some query⟩ := by
  have hpath : ∀ c ∈ ['/'].intercalate (p :: ps), isPathChar c = true :=
    forall_mem_intercalate (P := fun c => isPathChar c = true) rfl fun q hq => (hps q hq).written
  have hmark : ∀ c ∈ ['/'].intercalate (p :: ps) ++ '?' :: query, decide (c = '#') = false := by
    rw [List.forall_mem_append, List.forall_mem_cons]
    refine ⟨fun c hc => decide_eq_false ?_, rfl, fun c hc => decide_eq_false (hquery c hc)⟩
    rintro rfl
    exact absurd (hpath _ hc) (by decide)
  have hquestion : ∀ c ∈ ['/'].intercalate (p :: ps), decide (c = '?') = false := by
    refine fun c hc => decide_eq_false ?_
    rintro rfl
    exact absurd (hpath _ hc) (by decide)
  rw [Scheme.goTo, cut_of_forall_not hmark]
  have hcut := cut_append hquestion (decide_eq_true rfl) query
  simp only [hcut]
  rw [pieces_intercalate rfl p ps fun q hq => (hps q hq).not_slash, Scheme.follow_of_segments hps]
  rfl

/-! ## References -/

theorem cutScheme?_slash (cs : List Char) : cutScheme? ('/' :: cs) = none :=
  rfl

theorem stripped_eq (cs : List Char) : stripped cs =
    ((cs.dropWhile fun c => c ≤ ' ').rdropWhile fun c => c ≤ ' ').filter fun c =>
      c ≠ '\t' && c ≠ '\n' && c ≠ '\r' :=
  rfl

theorem stripped_of_forall {cs : List Char} (h : ∀ c ∈ cs, ' ' < c) : stripped cs = cs := by
  have hedge : ∀ c ∈ cs, ¬decide (c ≤ ' ') = true := fun c hc => by
    rw [decide_eq_true_iff]
    exact Char.not_le.2 (h c hc)
  have hfront : cs.dropWhile (fun c => decide (c ≤ ' ')) = cs :=
    List.dropWhile_eq_self_iff.2 fun hlength => hedge _ (List.getElem_mem hlength)
  rw [stripped_eq, hfront, List.rdropWhile_eq_self_iff.2 fun hne => hedge _ (List.getLast_mem hne),
    List.filter_eq_self]
  intro c hc
  have hvisible := h c hc
  simp only [Bool.and_eq_true, decide_eq_true_eq]
  refine ⟨⟨?_, ?_⟩, ?_⟩ <;> rintro rfl <;> exact absurd hvisible (by decide)

theorem exists_stripped_slash (cs : List Char) : ∃ rest, stripped ('/' :: cs) = '/' :: rest := by
  rw [stripped_eq, List.dropWhile_cons_of_neg (by decide)]
  obtain ⟨behind, hbehind⟩ := List.rdropWhile_prefix (fun c => decide (c ≤ ' ')) (l := '/' :: cs)
  cases hcore : ('/' :: cs).rdropWhile fun c => decide (c ≤ ' ') with
  | nil => exact absurd (List.rdropWhile_eq_nil_iff.1 hcore '/' List.mem_cons_self) (by decide)
  | cons c core =>
    rw [hcore, List.cons_append] at hbehind
    obtain ⟨rfl, -⟩ := List.cons.inj hbehind
    exact ⟨_, List.filter_cons_of_pos (by decide)⟩

theorem Scheme.exists_goToSlash (cs : List Char) :
    ∃ rest, Scheme.web.goToSlash cs = Scheme.web.goTo rest := by
  rw [Scheme.goToSlash.eq_def]
  split
  · split
    · exact ⟨_, rfl⟩
    · exact ⟨_, rfl⟩
  · exact ⟨_, rfl⟩

/-- A reference that begins with a slash points to a path on the web, if anywhere. -/
theorem exists_of_relative?_slash [HostNames] {cs : List Char} {location : Location}
    (h : relative? ('/' :: cs) = some location) : ∃ rest, location = Scheme.web.goTo rest := by
  have hslash : Scheme.web.isSlash '/' = true := rfl
  cases cs with
  | nil => exact ⟨[], (Option.some.inj h).symm⟩
  | cons d rest =>
    rw [relative?, if_pos hslash] at h
    split at h
    · obtain ⟨behind, -, hbehind⟩ := Option.bind_eq_some_iff.1 h
      -- Only the path behind the authority is left of it.
      obtain rfl := Option.some.inj hbehind
      exact Scheme.exists_goToSlash behind
    · exact ⟨_, (Option.some.inj h).symm⟩

/-- A slash that no other follows is that of the root. -/
theorem relative?_slash [HostNames] {cs : List Char}
    (h : ∀ c ∈ cs.head?, Scheme.web.isSlash c = false) :
    relative? ('/' :: cs) = some (Scheme.web.goTo cs) := by
  have hslash : Scheme.web.isSlash '/' = true := rfl
  cases cs with
  | nil => rfl
  | cons d rest =>
    rw [relative?, if_pos hslash, if_neg (Bool.eq_false_iff.1 (h d rfl))]

/-- **A reference that begins with a slash points to segments.** -/
theorem isSegment_of_locate? [HostNames] {reference : String} {location : Location}
    (hslash : reference.toList.head? = some '/') (h : locate? reference = some location) :
    ∀ p ∈ location.segments, IsSegment p := by
  obtain ⟨cs, hcs⟩ := List.head?_eq_some_iff.1 hslash
  obtain ⟨rest, hrest⟩ := exists_stripped_slash cs
  rw [locate?, hcs, hrest] at h
  obtain ⟨path, rfl⟩ := exists_of_relative?_slash h
  exact Scheme.isSegment_of_mem_goTo path

/-- **Segments that are written in a reference, with a query behind them, are where it points.** -/
theorem locate?_path [HostNames] {p : List Char} {ps : List (List Char)} {query : List Char}
    (hne : p ≠ []) (hps : ∀ q ∈ p :: ps, IsSegment q) (hquery : ∀ c ∈ query, ' ' < c ∧ c ≠ '#') :
    locate? (String.ofList ('/' :: (['/'].intercalate (p :: ps) ++ '?' :: query))) =
      some ⟨p :: ps, some query⟩ := by
  have hvisible : ∀ c ∈ '/' :: (['/'].intercalate (p :: ps) ++ '?' :: query), ' ' < c := by
    rw [List.forall_mem_cons, List.forall_mem_append, List.forall_mem_cons]
    refine ⟨by decide, fun c hc => ?_, by decide, fun c hc => (hquery c hc).1⟩
    exact forall_mem_intercalate (P := fun c => ' ' < c) (by decide)
      (fun q hq d hd => (bounds_of_isPathChar ((hps q hq).written d hd)).1) c hc
  rw [locate?, String.toList_ofList, stripped_of_forall hvisible]
  have hfirst : ∀ c ∈ (['/'].intercalate (p :: ps) ++ '?' :: query).head?,
      Scheme.web.isSlash c = false := by
    rw [head?_intercalate_append hne]
    exact fun c hc => (hps p List.mem_cons_self).not_slash c (List.mem_of_mem_head? hc)
  simp only [cutScheme?_slash, relative?_slash hfirst,
    Scheme.goTo_path hps fun c hc => (hquery c hc).2]

end HectocDuel.Url
