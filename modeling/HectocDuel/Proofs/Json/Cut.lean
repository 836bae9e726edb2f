/-
  Texts that break off, and texts that go on.

  A text that breaks off inside a string ends with a fault; one that breaks off between two
  lexemes just ends.  Either way it stops where a key or a value of the object is awaited, or
  what follows one.

  * `lex_cut`: the lexemes of a text that breaks off;
  * `torn_of_cut`: what is left of an object of texts (`Torn`);
  * `Shape.read_torn`: no record is read from it, however much of it is right;
  * `parse_append`: behind a value nothing more is read.
-/
import HectocDuel.Proofs.Json.Entries

namespace HectocDuel.Json

/-! ## Lexemes -/

/-- A mark, or a string: a lexeme of an object of texts. -/
def Lexeme.Plain (l : Lexeme) : Prop :=
  l.isMark ∨ ∃ body, Spelled body ∧ l = .string body

namespace Lexeme.Plain

variable {l : Lexeme} (h : l.Plain)
include h

theorem sealed : l.Sealed := by
  rcases h with hmark | ⟨body, hbody, rfl⟩
  · exact hmark.sealed
  · exact sealed_string hbody

/-- **A lexeme that breaks off is none.** -/
theorem lex_cut {p q : List UInt8} (hrender : l.render = p ++ q) (hp : p ≠ []) (hq : q ≠ []) :
    lex p = [.fault] := by
  obtain ⟨b, p, rfl⟩ := List.exists_cons_of_ne_nil hp
  rcases h with ⟨b', hmark, -⟩ | ⟨body, hbody, rfl⟩
  · rw [hmark, List.cons_append] at hrender
    obtain ⟨-, hnil⟩ := List.cons.inj hrender
    exact absurd (List.append_eq_nil_iff.1 hnil.symm).2 hq
  · obtain ⟨rfl, hrest⟩ : byte '"' = b ∧ body ++ [byte '"'] = p ++ q := List.cons.inj hrender
    -- If the string ended within the part, it would end there in the whole as well.
    have hnone : scanString p = none := by
      cases hscan : scanString p with
      | none => rfl
      | some taken =>
        obtain ⟨hbody', rfl⟩ := scanString_eq_some_iff.1 hscan
        have hwhole := hbody.scanString []
        rw [hrest, List.append_assoc, List.cons_append, hbody'.scanString] at hwhole
        exact absurd (List.append_eq_nil_iff.1 (Prod.mk.inj (Option.some.inj hwhole)).2).2 hq
    refine lex_fault (by decide) ?_
    rw [scanLexeme, show mark? (byte '"') = none by decide, if_pos rfl, hnone]
    rfl

end Lexeme.Plain

/-- **A text that breaks off has the lexemes before the break, and perhaps a fault.** -/
theorem lex_cut {ls : List Lexeme} (hls : ∀ l ∈ ls, l.Plain) {p q : List UInt8}
    (h : render ls = p ++ q) (hq : q ≠ []) :
    ∃ done l rest, ls = done ++ l :: rest ∧ (lex p = done ∨ lex p = done ++ [.fault]) := by
  induction ls generalizing p with
  | nil => exact absurd (List.append_eq_nil_iff.1 h.symm).2 hq
  | cons l ls ih =>
    obtain ⟨hl, hls⟩ := List.forall_mem_cons.1 hls
    rw [render_cons] at h
    have hpast : ∀ p', p = l.render ++ p' → render ls = p' ++ q → ∃ done l' rest,
        l :: ls = done ++ l' :: rest ∧ (lex p = done ∨ lex p = done ++ [.fault]) := by
      rintro p' rfl hp'
      obtain ⟨done, l', rest, rfl, hlex⟩ := ih hls hp'
      refine ⟨l :: done, l', rest, rfl, ?_⟩
      rw [hl.sealed.lex_append, List.cons_append]
      exact hlex.imp (congrArg _) (congrArg _)
    rcases List.append_eq_append_iff.1 h with ⟨p', hp, hp'⟩ | ⟨q', hq', hrest⟩
    · exact hpast p' hp hp'
    by_cases hnil : q' = []
    · subst hnil
      exact hpast [] (by simpa using hq'.symm) hrest.symm
    · refine ⟨[], l, ls, rfl, ?_⟩
      by_cases hp : p = []
      · exact .inl (by rw [hp, lex])
      · exact .inr (hl.lex_cut hq' hp hnil)

/-! ## Objects of texts -/

/-- An object has texts for keys and values. -/
def OfTexts (es : List (List UInt8 × Tree)) : Prop :=
  ∀ e ∈ es, Spelled e.1 ∧ ∃ body, Spelled body ∧ e.2 = .string body

theorem entryLexemes_text (key body : List UInt8) (es : List (List UInt8 × Tree)) :
    Tree.entryLexemes ((key, .string body) :: es) = [.string key, .colon, .string body] ++
      if es.isEmpty then [] else .comma :: Tree.entryLexemes es := by
  cases es with
  | nil => rfl
  | cons e es =>
    rw [Tree.entryLexemes_cons _ _ (List.cons_ne_nil e es)]
    rfl

theorem OfTexts.plain_entries {es : List (List UInt8 × Tree)} (h : OfTexts es) :
    ∀ l ∈ Tree.entryLexemes es, l.Plain := by
  induction es with
  | nil => exact nofun
  | cons e es ih =>
    obtain ⟨key, t⟩ := e
    obtain ⟨⟨hkey, body, hbody, rfl⟩, hes⟩ := List.forall_mem_cons.1 h
    have hentry : ∀ l ∈ [.string key, .colon, .string body], Lexeme.Plain l := by
      simp [Lexeme.Plain, hkey, hbody, Lexeme.isMark_colon]
    rw [entryLexemes_text]
    refine List.forall_mem_append.2 ⟨hentry, ?_⟩
    split
    · simp
    · exact List.forall_mem_cons.2 ⟨.inl Lexeme.isMark_comma, ih hes⟩

theorem OfTexts.plain {es : List (List UInt8 × Tree)} (h : OfTexts es) :
    ∀ l ∈ (Tree.object es .closed).lexemes, l.Plain := by
  rw [Tree.lexemes]
  refine List.forall_mem_cons.2 ⟨.inl Lexeme.isMark_openBrace, ?_⟩
  exact List.forall_mem_append.2 ⟨h.plain_entries,
    List.forall_mem_singleton.2 (.inl Lexeme.isMark_closeBrace)⟩

/-- What is left of an object where its text breaks off. -/
inductive Torn (es : List (List UInt8 × Tree)) : Tree → Prop where
  /-- Nothing. -/
  | start : Torn es .broken
  /-- Some of its entries. -/
  | key {before after : List (List UInt8 × Tree)} {ending : Ending} : es = before ++ after →
      ending ≠ .closed → Torn es (.object before ending)
  /-- Some of its entries, and a key without its value. -/
  | value {before after : List (List UInt8 × Tree)} {key : List UInt8} {t : Tree} :
      es = before ++ (key, t) :: after → Torn es (.object (before ++ [(key, .broken)]) .cut)

/-- Reading ended within an object, with or without a fault. -/
def TornAt (es : List (List UInt8 × Tree)) (p : Progress) : Prop :=
  Torn es p.tree ∧ Torn es (p.step .fault).tree

section
variable {es before after : List (List UInt8 × Tree)} {key : List UInt8} {t : Tree}

theorem tornAt_key (h : es = before ++ after) : TornAt es (.key before []) := by
  refine ⟨.key h nofun, ?_⟩
  cases before with
  | nil => exact .key h nofun
  | cons e before => exact .key h nofun

theorem tornAt_colon (h : es = before ++ (key, t) :: after) : TornAt es (.colon before key []) :=
  ⟨.value h, .value h⟩

theorem tornAt_value (h : es = before ++ (key, t) :: after) :
    TornAt es (.value [.member before key]) :=
  ⟨.value h, .value h⟩

theorem tornAt_after (h : es = before ++ (key, t) :: after) :
    TornAt es (.after t [.member before key]) := by
  have hes : es = (before ++ [(key, t)]) ++ after := by rw [h, List.append_assoc]; rfl
  exact ⟨.key hes nofun, .key hes nofun⟩

end

theorem tornAt_of_cut {l : Lexeme} {rest : List Lexeme} {es before : List (List UInt8 × Tree)}
    (hes : OfTexts es) {done : List Lexeme}
    (h : Tree.entryLexemes es ++ [.closeBrace] = done ++ l :: rest) :
    TornAt (before ++ es) (done.foldl Progress.step (.key before [])) := by
  induction es generalizing before done with
  | nil =>
    cases done with
    | nil => exact tornAt_key rfl
    | cons l' done => exact absurd (List.cons.inj h).2.symm (by simp)
  | cons e es ih =>
    obtain ⟨key, t⟩ := e
    obtain ⟨⟨-, body, -, rfl⟩, hes'⟩ := List.forall_mem_cons.1 hes
    rw [entryLexemes_text] at h
    rcases done with _ | ⟨l₁, _ | ⟨l₂, _ | ⟨l₃, _ | ⟨l₄, done⟩⟩⟩⟩ <;>
      simp only [List.nil_append, List.cons_append, List.cons.injEq] at h
    · exact tornAt_key rfl
    · obtain ⟨rfl, -⟩ := h
      exact tornAt_colon rfl
    · obtain ⟨rfl, rfl, -⟩ := h
      exact tornAt_value rfl
    · obtain ⟨rfl, rfl, rfl, -⟩ := h
      exact tornAt_after rfl
    · obtain ⟨rfl, rfl, rfl, hafter⟩ := h
      split at hafter
      · exact absurd (List.cons.inj hafter).2.symm (by simp)
      · obtain ⟨rfl, hmore⟩ := List.cons.inj hafter
        rw [List.append_cons]
        exact ih hes' hmore

/-- **A text that breaks off leaves a torn object.** -/
theorem torn_of_cut {es : List (List UInt8 × Tree)} (hes : OfTexts es) {text p q : List UInt8}
    (htext : text = encode (.object es .closed)) (h : text = p ++ q) (hq : q ≠ []) :
    Torn es (parse (lex p)).1 := by
  obtain ⟨done, l, rest, hlexemes, hlex⟩ := lex_cut hes.plain (htext.symm.trans h) hq
  have htorn : TornAt es (done.foldl Progress.step (.value [])) := by
    rw [Tree.lexemes] at hlexemes
    cases done with
    | nil => exact ⟨.start, .start⟩
    | cons l' done =>
      obtain ⟨rfl, hentries⟩ := List.cons.inj hlexemes
      have htorn : TornAt ([] ++ es) (done.foldl Progress.step (.key [] [])) :=
        tornAt_of_cut hes hentries
      exact htorn
  rcases hlex with hlex | hlex
  · rw [hlex]
    exact htorn.1
  · rw [hlex, parse, List.foldl_append]
    exact htorn.2

/-! ## Reading -/

/-- Where a whole object is read, what is left of it is malformed: what comes before the
    break was read, and so the break is the first that does not fit. -/
theorem Shape.read_torn {σ α : Type} {s : Shape σ α} {es : List (List UInt8 × Tree)} {slots : σ}
    (hread : es.foldlM s.readEntry s.empty = .ok slots)
    (hbroken : ∀ f ∈ s.fields, ∀ slots, f.fill .broken slots = .error .malformed) {t : Tree}
    (h : Torn es t) : s.read t = .error .malformed := by
  cases h with
  | start => rfl
  | @key before after ending heq hending =>
    obtain ⟨mid, hbefore, -⟩ := foldlM_append_eq_ok.1 (heq ▸ hread)
    rw [Shape.read, hbefore]
    exact if_pos hending
  | @value before after key t heq =>
    obtain ⟨mid, hbefore, hentries⟩ := foldlM_append_eq_ok.1 (heq ▸ hread)
    obtain ⟨next, hentry, -⟩ := foldlM_cons_eq_ok.1 hentries
    have hvalue : s.readEntry mid (key, .broken) = .error .malformed := by
      obtain ⟨name, hkey, hcase⟩ := readEntry_eq_ok_iff.1 hentry
      rw [Shape.readEntry, readText, hkey]
      rcases hcase with ⟨f, hf, hempty, -⟩ | ⟨hnone, hlenient, -⟩
      · simp [bind, Except.bind, hf, hempty, hbroken f (List.mem_of_find?_eq_some hf)]
      · simp [bind, Except.bind, hnone, hlenient, Tree.complete, throw, throwThe,
          MonadExceptOf.throw]
    rw [Shape.read, List.foldlM_append, hbefore]
    simp [bind, Except.bind, hvalue]

/-! ## Texts that go on -/

theorem foldl_stopped (ls : List Lexeme) (t : Tree) :
    ls.foldl Progress.step (.stopped t) = .stopped t := by
  induction ls with
  | nil => rfl
  | cons l ls ih => exact ih

/-- **Behind a value nothing more is read.** -/
theorem parse_append {t : Tree} (ht : t.WellFormed) {ls : List Lexeme} (hls : ls ≠ []) :
    parse (t.lexemes ++ ls) = (t, false) := by
  obtain ⟨l, ls, rfl⟩ := List.exists_cons_of_ne_nil hls
  have hstop : Progress.step (.after t []) l = .stopped t := by cases l <;> rfl
  rw [parse, List.foldl_append, ht.regained, List.foldl_cons, hstop, foldl_stopped]
  rfl

end HectocDuel.Json
