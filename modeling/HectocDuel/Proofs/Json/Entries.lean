/-
  The entries of an object, in whatever order.

  A record keeps the value of each field in a slot of its own, so the fields may be given in
  any order, and what belongs to no field may stand anywhere between them.

  * `Shape.readEntry_eq_ok_iff`: what is read of an entry;
  * `Shape.Independent`: the fields of a record do not get in each other's way;
  * `Shape.Independent.foldlM_perm`: then their order does not matter;
  * `Shape.foldlM_unknown`: what belongs to no field is passed over.
-/
import HectocDuel.Proofs.Json.Encoding

namespace HectocDuel.Json

/-! ## One after the other -/

section
variable {σ α ε : Type} {f : σ → α → Except ε σ} {s last : σ}

theorem foldlM_cons_eq_ok {a : α} {as : List α} :
    (a :: as).foldlM f s = .ok last ↔ ∃ next, f s a = .ok next ∧ as.foldlM f next = .ok last := by
  rw [List.foldlM_cons]
  cases f s a with
  | error e => exact iff_of_false nofun fun ⟨_, h, _⟩ => nomatch h
  | ok next => exact ⟨fun h => ⟨next, rfl, h⟩, fun ⟨_, h, h'⟩ => Except.ok.inj h ▸ h'⟩

theorem foldlM_append_eq_ok {as bs : List α} :
    (as ++ bs).foldlM f s = .ok last ↔
      ∃ mid, as.foldlM f s = .ok mid ∧ bs.foldlM f mid = .ok last := by
  induction as generalizing s with
  | nil => exact ⟨fun h => ⟨s, rfl, h⟩, fun ⟨_, h, h'⟩ => Except.ok.inj h ▸ h'⟩
  | cons a as ih =>
    simp only [List.cons_append, foldlM_cons_eq_ok, ih]
    exact ⟨fun ⟨next, ha, mid, has, hbs⟩ => ⟨mid, ⟨next, ha, has⟩, hbs⟩,
      fun ⟨mid, ⟨next, ha, has⟩, hbs⟩ => ⟨next, ha, mid, has, hbs⟩⟩

theorem foldlM_perm {as bs : List α}
    (hswap : ∀ {s mid last a b}, f s a = .ok mid → f mid b = .ok last →
      ∃ mid', f s b = .ok mid' ∧ f mid' a = .ok last)
    (h : as.Perm bs) (has : as.foldlM f s = .ok last) : bs.foldlM f s = .ok last := by
  induction h generalizing s with
  | nil => exact has
  | cons a _ ih =>
    obtain ⟨next, ha, has⟩ := foldlM_cons_eq_ok.1 has
    exact foldlM_cons_eq_ok.2 ⟨next, ha, ih has⟩
  | swap a b as =>
    obtain ⟨mid, hb, has⟩ := foldlM_cons_eq_ok.1 has
    obtain ⟨next, ha, has⟩ := foldlM_cons_eq_ok.1 has
    obtain ⟨mid', ha', hb'⟩ := hswap hb ha
    exact foldlM_cons_eq_ok.2 ⟨mid', ha', foldlM_cons_eq_ok.2 ⟨next, hb', has⟩⟩
  | trans _ _ ih ih' => exact ih' (ih has)

end

namespace Shape

variable {σ α : Type} {s : Shape σ α} {slots next last : σ} {entry : List UInt8 × Tree}

/-! ## Entries -/

/-- What is read of an entry: the value of a field, or nothing. -/
theorem readEntry_eq_ok_iff :
    s.readEntry slots entry = .ok next ↔ ∃ key, text? entry.1 = some key ∧
      ((∃ field, s.fields.find? (·.name = key) = some field ∧ field.isFilled slots = false ∧
          field.fill entry.2 slots = .ok next) ∨
        s.fields.find? (·.name = key) = none ∧ s.lenient = true ∧ entry.2.complete = true ∧
          slots = next) := by
  rw [readEntry, readText]
  cases hkey : text? entry.1 with
  | none => simp [bind, Except.bind]
  | some key =>
    simp only [bind, Except.bind, Option.some.injEq, exists_eq_left']
    cases hfind : s.fields.find? (·.name = key) with
    | none =>
      cases hlenient : s.lenient <;> cases hc : entry.2.complete <;>
        simp [pure, Except.pure, throw, throwThe, MonadExceptOf.throw]
    | some field =>
      cases hfilled : field.isFilled slots <;>
        simp [throw, throwThe, MonadExceptOf.throw, hfilled]

theorem readEntry_congr {entry' : List UInt8 × Tree} (hkey : text? entry.1 = text? entry'.1)
    (ht : entry.2 = entry'.2) : s.readEntry slots entry = s.readEntry slots entry' := by
  rw [readEntry, readEntry, readText, readText, hkey, ht]

/-- The fields of a record do not get in each other's way. -/
structure Independent (s : Shape σ α) : Prop where
  fills : ∀ f ∈ s.fields, ∀ {t slots next}, f.fill t slots = .ok next → f.isFilled next = true
  leaves : ∀ f ∈ s.fields, ∀ g ∈ s.fields, f.name ≠ g.name → ∀ {t slots next},
    f.fill t slots = .ok next → g.isFilled next = g.isFilled slots
  swaps : ∀ f ∈ s.fields, ∀ g ∈ s.fields, f.name ≠ g.name → ∀ {t u slots mid last},
    f.fill t slots = .ok mid → g.fill u mid = .ok last →
      ∃ mid', g.fill u slots = .ok mid' ∧ f.fill t mid' = .ok last

theorem name_of_find? {key : String} {f : RecordField σ}
    (h : s.fields.find? (·.name = key) = some f) : f.name = key := by
  simpa using List.find?_some h

/-- Two entries may be exchanged: they belong to different fields, or one to none. -/
theorem Independent.readEntry_swap (hs : s.Independent) {entry' : List UInt8 × Tree}
    (h : s.readEntry slots entry = .ok next) (h' : s.readEntry next entry' = .ok last) :
    ∃ mid, s.readEntry slots entry' = .ok mid ∧ s.readEntry mid entry = .ok last := by
  obtain ⟨key, hkey, ⟨f, hf, hempty, hfill⟩ | ⟨hnone, hlenient, hc, rfl⟩⟩ := readEntry_eq_ok_iff.1 h
  · have hmem := List.mem_of_find?_eq_some hf
    obtain ⟨key', hkey', ⟨g, hg, hempty', hfill'⟩ | ⟨hnone, hlenient, hc, rfl⟩⟩ :=
      readEntry_eq_ok_iff.1 h'
    · have hmem' := List.mem_of_find?_eq_some hg
      -- A field that is filled is not read again.
      have hne : f.name ≠ g.name := by
        intro heq
        rw [name_of_find? hf, name_of_find? hg] at heq
        subst heq
        obtain rfl : f = g := Option.some.inj (hf.symm.trans hg)
        rw [hs.fills f hmem hfill] at hempty'
        cases hempty'
      obtain ⟨mid, hg', hf'⟩ := hs.swaps f hmem g hmem' hne hfill hfill'
      have hleft : g.isFilled slots = false :=
        (hs.leaves f hmem g hmem' hne hfill).symm.trans hempty'
      have hleft' : f.isFilled mid = false :=
        (hs.leaves g hmem' f hmem hne.symm hg').trans hempty
      exact ⟨mid, readEntry_eq_ok_iff.2 ⟨key', hkey', .inl ⟨g, hg, hleft, hg'⟩⟩,
        readEntry_eq_ok_iff.2 ⟨key, hkey, .inl ⟨f, hf, hleft', hf'⟩⟩⟩
    · exact ⟨slots, readEntry_eq_ok_iff.2 ⟨key', hkey', .inr ⟨hnone, hlenient, hc, rfl⟩⟩, h⟩
  · exact ⟨last, h', readEntry_eq_ok_iff.2 ⟨key, hkey, .inr ⟨hnone, hlenient, hc, rfl⟩⟩⟩

/-- **The order of entries does not matter.** -/
theorem Independent.foldlM_perm (hs : s.Independent) {es es' : List (List UInt8 × Tree)}
    (h : es.Perm es') (hes : es.foldlM s.readEntry slots = .ok last) :
    es'.foldlM s.readEntry slots = .ok last :=
  Json.foldlM_perm hs.readEntry_swap h hes

/-- **Entries that belong to no field are passed over.** -/
theorem foldlM_unknown (hlenient : s.lenient = true) {es : List (List UInt8 × Tree)}
    (hes : ∀ e ∈ es, e.2.complete = true ∧
      ∃ key, text? e.1 = some key ∧ s.fields.find? (·.name = key) = none) :
    es.foldlM s.readEntry slots = .ok slots := by
  induction es with
  | nil => rfl
  | cons e es ih =>
    obtain ⟨⟨hc, key, hkey, hnone⟩, hes⟩ := List.forall_mem_cons.1 hes
    exact foldlM_cons_eq_ok.2
      ⟨slots, readEntry_eq_ok_iff.2 ⟨key, hkey, .inr ⟨hnone, hlenient, hc, rfl⟩⟩, ih hes⟩

end Shape

end HectocDuel.Json
