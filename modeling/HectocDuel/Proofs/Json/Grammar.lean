/-
  Which lexemes are a value.

  Reading is a fold over the lexemes with the open containers as its state, so each state
  stands for the lexemes that lead to it (`Progress.Follows`).

  * `Tree.WellFormed`: the values of JSON, by the grammar;
  * `Tree.WellFormed.lexed`: their lexemes are cut where they were joined;
  * `parse_lexemes`: they are read as that value;
  * `of_parse`: nothing else is read as a whole value.
-/
import HectocDuel.Json.Tree
import HectocDuel.Proofs.Json.Lexeme

namespace HectocDuel.Json

namespace Tree

/-- A value of JSON. -/
inductive WellFormed : Tree → Prop where
  | null : WellFormed .null
  | bool (b : Bool) : WellFormed (.bool b)
  | number {n : Numeral} : n.WellFormed → WellFormed (.number n)
  | string {body : List UInt8} : Spelled body → WellFormed (.string body)
  | array {items : List Tree} : (∀ t ∈ items, WellFormed t) → WellFormed (.array items true)
  | object {entries : List (List UInt8 × Tree)} : (∀ e ∈ entries, Spelled e.1) →
      (∀ e ∈ entries, WellFormed e.2) → WellFormed (.object entries .closed)

theorem WellFormed.complete {t : Tree} (h : t.WellFormed) : t.complete = true := by
  cases h <;> rfl

/-! ## Cutting the lexemes of a value -/

/-- The lexemes of a tree are cut where they were joined, also from those behind them if
    they end or go on with a mark. -/
def Separable (t : Tree) : Prop :=
  ∀ ls, (∀ l ∈ ls.head?, l.isMark) → Lexed ls → Lexed (t.lexemes ++ ls)

theorem entryLexemes_cons (key : List UInt8) (t : Tree) {es : List (List UInt8 × Tree)}
    (h : es ≠ []) :
    entryLexemes ((key, t) :: es) =
      .string key :: .colon :: (t.lexemes ++ .comma :: entryLexemes es) := by
  cases es with
  | nil => exact absurd rfl h
  | cons e es => rw [entryLexemes]; exact h

theorem itemLexemes_cons (t : Tree) {ts : List Tree} (h : ts ≠ []) :
    itemLexemes (t :: ts) = t.lexemes ++ .comma :: itemLexemes ts := by
  cases ts with
  | nil => exact absurd rfl h
  | cons t' ts => rw [itemLexemes]; exact h

theorem lexed_itemLexemes {ls : List Lexeme} (hmark : ∀ l ∈ ls.head?, l.isMark)
    (hls : Lexed ls) : ∀ {ts : List Tree}, (∀ t ∈ ts, t.Separable) → Lexed (itemLexemes ts ++ ls)
  | [], _ => hls
  | [t], h => by
    rw [itemLexemes]
    exact h t List.mem_cons_self ls hmark hls
  | t :: t' :: ts, h => by
    obtain ⟨ht, hts⟩ := List.forall_mem_cons.1 h
    rw [itemLexemes_cons t (List.cons_ne_nil t' ts), List.append_assoc]
    refine ht _ (fun l hl => Option.some.inj hl ▸ Lexeme.isMark_comma) ?_
    exact (lexed_itemLexemes hmark hls hts).sealed Lexeme.isMark_comma.sealed

theorem lexed_entryLexemes {ls : List Lexeme} (hmark : ∀ l ∈ ls.head?, l.isMark)
    (hls : Lexed ls) :
    ∀ {es : List (List UInt8 × Tree)},
      (∀ e ∈ es, Spelled e.1 ∧ e.2.Separable) → Lexed (entryLexemes es ++ ls)
  | [], _ => hls
  | [(key, t)], h => by
    obtain ⟨hk, ht⟩ := h _ List.mem_cons_self
    rw [entryLexemes]
    exact ((ht ls hmark hls).sealed Lexeme.isMark_colon.sealed).sealed (Lexeme.sealed_string hk)
  | (key, t) :: e :: es, h => by
    obtain ⟨⟨hk, ht⟩, hes⟩ := List.forall_mem_cons.1 h
    rw [entryLexemes_cons key t (List.cons_ne_nil e es), List.cons_append, List.cons_append,
      List.append_assoc]
    refine .sealed (.sealed (ht _ ?_ ?_) Lexeme.isMark_colon.sealed) (Lexeme.sealed_string hk)
    · exact fun l hl => Option.some.inj hl ▸ Lexeme.isMark_comma
    · exact (lexed_entryLexemes hmark hls hes).sealed Lexeme.isMark_comma.sealed

theorem WellFormed.separable {t : Tree} (h : t.WellFormed) : t.Separable := by
  induction h with
  | null => exact fun ls _ hls => hls.sealed Lexeme.sealed_null
  | bool b => exact fun ls _ hls => hls.sealed (Lexeme.sealed_bool b)
  | number hn => exact fun ls hmark hls => hls.number hmark hn
  | string hs => exact fun ls _ hls => hls.sealed (Lexeme.sealed_string hs)
  | array _ ih =>
    intro ls _ hls
    rw [lexemes, List.cons_append, List.append_assoc]
    refine .sealed (lexed_itemLexemes ?_ ?_ ih) Lexeme.isMark_openBracket.sealed
    · exact fun l hl => Option.some.inj hl ▸ Lexeme.isMark_closeBracket
    · exact hls.sealed Lexeme.isMark_closeBracket.sealed
  | object hkeys _ ih =>
    intro ls _ hls
    rw [lexemes, List.cons_append, List.append_assoc]
    refine .sealed (lexed_entryLexemes ?_ ?_ ?_) Lexeme.isMark_openBrace.sealed
    · exact fun l hl => Option.some.inj hl ▸ Lexeme.isMark_closeBrace
    · exact hls.sealed Lexeme.isMark_closeBrace.sealed
    · exact fun e he => ⟨hkeys e he, ih e he⟩

/-- **The lexemes of a value are cut where they were joined.** -/
theorem WellFormed.lexed {t : Tree} (h : t.WellFormed) : Lexed t.lexemes := by
  have := h.separable [] nofun lexed_nil
  rwa [List.append_nil] at this

end Tree

/-! ## Reading the lexemes of a value -/

/-- A tree is read from its lexemes, in whatever containers. -/
def Tree.Regained (t : Tree) : Prop :=
  ∀ opens, t.lexemes.foldl Progress.step (.value opens) = .after t opens

theorem foldl_entryLexemes (opens : List Open) :
    ∀ {es : List (List UInt8 × Tree)}, es ≠ [] → (∀ e ∈ es, e.2.Regained) →
      ∀ done : List (List UInt8 × Tree),
        (Tree.entryLexemes es ++ [Lexeme.closeBrace]).foldl Progress.step (.key done opens) =
          .after (.object (done ++ es) .closed) opens
  | [], h, _, _ => absurd rfl h
  | [(key, t)], _, ht, done => by
    simp only [Tree.entryLexemes, List.cons_append, List.foldl_cons, List.foldl_append,
      List.foldl_nil, Progress.step, Progress.beginEntry, if_true]
    rw [ht _ List.mem_cons_self]
    rfl
  | (key, t) :: e :: es, _, ht, done => by
    obtain ⟨ht, hes⟩ := List.forall_mem_cons.1 ht
    rw [Tree.entryLexemes_cons key t (List.cons_ne_nil e es)]
    simp only [List.cons_append, List.append_assoc, List.foldl_cons, List.foldl_append,
      Progress.step, Progress.beginEntry, if_true]
    rw [ht]
    have := foldl_entryLexemes opens (List.cons_ne_nil e es) hes (done ++ [(key, t)])
    rw [List.append_assoc, List.singleton_append, List.foldl_append] at this
    exact this

theorem foldl_itemLexemes (opens : List Open) :
    ∀ {ts : List Tree}, ts ≠ [] → (∀ t ∈ ts, t.Regained) → ∀ done : List Tree,
      (Tree.itemLexemes ts ++ [Lexeme.closeBracket]).foldl Progress.step
          (.value (.array done :: opens)) = .after (.array (done ++ ts) true) opens
  | [], h, _, _ => absurd rfl h
  | [t], _, ht, done => by
    rw [Tree.itemLexemes, List.foldl_append, ht t List.mem_cons_self]
    rfl
  | t :: t' :: ts, _, ht, done => by
    obtain ⟨ht, hts⟩ := List.forall_mem_cons.1 ht
    rw [Tree.itemLexemes_cons t (List.cons_ne_nil t' ts), List.append_assoc, List.foldl_append,
      ht, List.cons_append, List.foldl_cons, Progress.step, Progress.proceed,
      foldl_itemLexemes opens (List.cons_ne_nil t' ts) hts (done ++ [t]), List.append_assoc,
      List.singleton_append]

theorem Tree.WellFormed.regained {t : Tree} (h : t.WellFormed) : t.Regained := by
  induction h with
  | null | bool | number | string => exact fun _ => rfl
  | @array items _ ih =>
    intro opens
    by_cases h : items = []
    · subst h
      rfl
    · exact foldl_itemLexemes opens h ih []
  | @object entries _ _ ih =>
    intro opens
    by_cases h : entries = []
    · subst h
      rfl
    · exact foldl_entryLexemes opens h ih []

/-- **The lexemes of a value are read as that value.** -/
theorem parse_lexemes {t : Tree} (h : t.WellFormed) : parse t.lexemes = (t, true) := by
  rw [parse, h.regained]
  rfl

/-! ## What is read as a value -/

namespace Tree

theorem itemLexemes_append (done : List Tree) (t : Tree) :
    itemLexemes (done ++ [t]) = done.flatMap (fun t => t.lexemes ++ [.comma]) ++ t.lexemes := by
  induction done with
  | nil => rw [List.nil_append, itemLexemes]; rfl
  | cons u done ih =>
    rw [List.cons_append, itemLexemes_cons u (by simp), ih, List.flatMap_cons]
    simp

theorem entryLexemes_append (done : List (List UInt8 × Tree)) (key : List UInt8) (t : Tree) :
    entryLexemes (done ++ [(key, t)]) =
      done.flatMap (fun e => .string e.1 :: .colon :: (e.2.lexemes ++ [.comma])) ++
        .string key :: .colon :: t.lexemes := by
  induction done with
  | nil => rw [List.nil_append, entryLexemes]; rfl
  | cons e done ih =>
    rw [List.cons_append, entryLexemes_cons _ _ (by simp), ih, List.flatMap_cons]
    simp

end Tree

/-- The lexemes of an object up to where its next key may stand. -/
def keyLexemes (entries : List (List UInt8 × Tree)) : List Lexeme :=
  .openBrace :: entries.flatMap fun e => .string e.1 :: .colon :: (e.2.lexemes ++ [.comma])

/-- The lexemes that open containers, up to where the value inside may stand; the open
    containers are listed from the innermost. -/
def openLexemes : List Open → List Lexeme
  | [] => []
  | .array items :: opens =>
    openLexemes opens ++ .openBracket :: items.flatMap fun t => t.lexemes ++ [.comma]
  | .member entries key :: opens =>
    openLexemes opens ++ (keyLexemes entries ++ [.string key, .colon])

/-- The entries of an object that were read. -/
def WellFormedEntries (entries : List (List UInt8 × Tree)) : Prop :=
  (∀ e ∈ entries, Spelled e.1) ∧ ∀ e ∈ entries, e.2.WellFormed

theorem wellFormedEntries_nil : WellFormedEntries [] :=
  ⟨fun _ h => absurd h List.not_mem_nil, fun _ h => absurd h List.not_mem_nil⟩

theorem WellFormedEntries.concat {entries : List (List UInt8 × Tree)} {key : List UInt8} {t : Tree}
    (h : WellFormedEntries entries) (hk : Spelled key) (ht : t.WellFormed) :
    WellFormedEntries (entries ++ [(key, t)]) :=
  ⟨List.forall_mem_append.2 ⟨h.1, List.forall_mem_singleton.2 hk⟩,
    List.forall_mem_append.2 ⟨h.2, List.forall_mem_singleton.2 ht⟩⟩

/-- What an open container holds was read. -/
def Open.WellFormed : Open → Prop
  | .array items => ∀ t ∈ items, t.WellFormed
  | .member entries key => WellFormedEntries entries ∧ Spelled key

/-- The lexemes lead to a state that can still become a whole value. -/
inductive Progress.Follows : List Lexeme → Progress → Prop where
  | value {opens : List Open} : (∀ o ∈ opens, o.WellFormed) →
      Follows (openLexemes opens) (.value opens)
  | key {entries : List (List UInt8 × Tree)} {opens : List Open} :
      (∀ o ∈ opens, o.WellFormed) → WellFormedEntries entries →
      Follows (openLexemes opens ++ keyLexemes entries) (.key entries opens)
  | colon {entries : List (List UInt8 × Tree)} {key : List UInt8} {opens : List Open} :
      (∀ o ∈ opens, o.WellFormed) → WellFormedEntries entries → Spelled key →
      Follows (openLexemes opens ++ (keyLexemes entries ++ [.string key]))
        (.colon entries key opens)
  | after {t : Tree} {opens : List Open} : (∀ o ∈ opens, o.WellFormed) → t.WellFormed →
      Follows (openLexemes opens ++ t.lexemes) (.after t opens)
  | stopped {ls : List Lexeme} {t : Tree} : Follows ls (.stopped t)

namespace Progress

theorem Follows.begin {opens : List Open} (hopens : ∀ o ∈ opens, o.WellFormed) {l : Lexeme}
    (hl : l.WellFormed ∨ l = .fault) : Follows (openLexemes opens ++ [l]) (begin opens l) := by
  cases l with
  | null => exact .after hopens .null
  | bool b => exact .after hopens (.bool b)
  | number n => exact .after hopens (.number (hl.resolve_right nofun))
  | string body => exact .after hopens (.string (hl.resolve_right nofun))
  | openBracket =>
    have hopens' : ∀ o ∈ Open.array [] :: opens, o.WellFormed :=
      List.forall_mem_cons.2 ⟨nofun, hopens⟩
    exact .value hopens'
  | openBrace => exact .key hopens wellFormedEntries_nil
  | closeBracket =>
    rcases opens with _ | ⟨⟨_ | ⟨t, items⟩⟩ | ⟨entries, key⟩, opens⟩
    · exact .stopped
    · obtain ⟨hitems, hopens⟩ := List.forall_mem_cons.1 hopens
      rw [openLexemes, List.append_assoc]
      exact .after hopens (.array hitems)
    · exact .stopped
    · exact .stopped
  | closeBrace | colon | comma | fault => exact .stopped

theorem Follows.beginEntry {entries : List (List UInt8 × Tree)} {opens : List Open}
    (hopens : ∀ o ∈ opens, o.WellFormed) (hentries : WellFormedEntries entries) {l : Lexeme}
    (hl : l.WellFormed ∨ l = .fault) :
    Follows (openLexemes opens ++ keyLexemes entries ++ [l]) (beginEntry entries opens l) := by
  rw [List.append_assoc]
  rcases entries with _ | ⟨e, entries⟩
  · cases l with
    | string body => exact .colon hopens hentries (hl.resolve_right nofun)
    | closeBrace => exact .after hopens (.object hentries.1 hentries.2)
    | _ => exact .stopped
  · cases l with
    | string body => exact .colon hopens hentries (hl.resolve_right nofun)
    | _ => exact .stopped

theorem Follows.proceed {t : Tree} {opens : List Open} (hopens : ∀ o ∈ opens, o.WellFormed)
    (ht : t.WellFormed) (l : Lexeme) :
    Follows (openLexemes opens ++ t.lexemes ++ [l]) (proceed t opens l) := by
  rcases opens with _ | ⟨items | ⟨entries, key⟩, opens⟩
  · exact .stopped
  · obtain ⟨hitems, hopens⟩ := List.forall_mem_cons.1 hopens
    have hitems' : ∀ u ∈ items ++ [t], u.WellFormed :=
      List.forall_mem_append.2 ⟨hitems, List.forall_mem_singleton.2 ht⟩
    cases l with
    | comma =>
      have hopens' : ∀ o ∈ Open.array (items ++ [t]) :: opens, o.WellFormed :=
        List.forall_mem_cons.2 ⟨hitems', hopens⟩
      simpa [openLexemes, Progress.proceed] using Follows.value hopens'
    | closeBracket =>
      have h := Follows.after hopens (.array hitems')
      simpa [openLexemes, Progress.proceed, Tree.lexemes, Tree.itemLexemes_append] using h
    | _ => exact .stopped
  · obtain ⟨⟨hentries, hkey⟩, hopens⟩ := List.forall_mem_cons.1 hopens
    have hentries' := hentries.concat hkey ht
    cases l with
    | comma =>
      have h := Follows.key hopens hentries'
      simpa [openLexemes, keyLexemes, Progress.proceed] using h
    | closeBrace =>
      have h := Follows.after hopens (.object hentries'.1 hentries'.2)
      simpa [openLexemes, keyLexemes, Progress.proceed, Tree.lexemes,
        Tree.entryLexemes_append] using h
    | _ => exact .stopped

/-- What was read is kept with the next lexeme. -/
theorem Follows.step {ls : List Lexeme} {p : Progress} (h : Follows ls p) {l : Lexeme}
    (hl : l.WellFormed ∨ l = .fault) : Follows (ls ++ [l]) (p.step l) := by
  cases h with
  | value hopens => exact .begin hopens hl
  | key hopens hentries => exact .beginEntry hopens hentries hl
  | @colon entries key opens hopens hentries hkey =>
    rw [Progress.step]
    split
    · next heq =>
      subst heq
      have hopens' : ∀ o ∈ Open.member entries key :: opens, o.WellFormed :=
        List.forall_mem_cons.2 ⟨⟨hentries, hkey⟩, hopens⟩
      simpa [openLexemes] using Follows.value hopens'
    · exact .stopped
  | after hopens ht => exact .proceed hopens ht l
  | stopped => exact .stopped

theorem Follows.foldl {done ls : List Lexeme} {p : Progress} (h : Follows done p)
    (hls : ∀ l ∈ ls, l.WellFormed ∨ l = .fault) :
    Follows (done ++ ls) (ls.foldl Progress.step p) := by
  induction ls generalizing done p with
  | nil => rwa [List.append_nil]
  | cons l ls ih =>
    obtain ⟨hl, hls⟩ := List.forall_mem_cons.1 hls
    rw [List.append_cons, List.foldl_cons]
    exact ih (h.step hl) hls

end Progress

/-- **Nothing but the lexemes of a value is read as a whole value.** -/
theorem of_parse {ls : List Lexeme} (hls : ∀ l ∈ ls, l.WellFormed ∨ l = .fault) {t : Tree}
    (h : parse ls = (t, true)) : ls = t.lexemes ∧ t.WellFormed := by
  have hnone : ∀ o ∈ ([] : List Open), o.WellFormed := nofun
  have hfollows := Progress.Follows.foldl (.value hnone) hls
  obtain ⟨htree, hwhole⟩ := Prod.mk.inj h
  generalize ls.foldl Progress.step (.value []) = p at hfollows htree hwhole
  rcases p with _ | _ | _ | ⟨u, _ | ⟨o, opens⟩⟩ | _
  case after.nil =>
    obtain rfl : u = t := htree
    cases hfollows with
    | after _ hu => exact ⟨rfl, hu⟩
  all_goals cases hwhole

end HectocDuel.Json
