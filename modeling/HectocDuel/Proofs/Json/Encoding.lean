/-
  Texts that were written are read back as the tree they were written from.

  * `Tree.Written.wellFormed`: what is written is a value of JSON, whose lexemes are cut
    where they were joined and read as that value;
  * `decode_encode`: so a reader of a written text reads the tree itself;
  * `readText_spell`, `natural_ofNat`, `list_ofItems` and `Shape.read_ofEntries`: how it
    reads the strings, the numbers, the arrays and the records in it.
-/
import HectocDuel.Json.Reading
import HectocDuel.Proofs.Json.Grammar

namespace HectocDuel.Json

/-! ## Trees -/

/-- A tree of values as they are written. -/
inductive Tree.Written : Tree → Prop where
  | text (s : String) : Written (.ofText s)
  | bool (b : Bool) : Written (.bool b)
  | natural (n : Nat) : Written (.ofNat n)
  | items {ts : List Tree} : (∀ t ∈ ts, Written t) → Written (.ofItems ts)
  | entries {es : List (String × Tree)} : (∀ e ∈ es, Written e.2) → Written (.ofEntries es)

theorem Tree.Written.wellFormed {t : Tree} (h : t.Written) : t.WellFormed := by
  induction h with
  | text s => exact .string (spelled_spell s)
  | bool b => exact .bool b
  | natural n => exact .number (Numeral.wellFormed_ofNat n)
  | items _ ih => exact .array ih
  | @entries es _ ih =>
    exact .object (List.forall_mem_map.2 fun e _ => spelled_spell e.1) (List.forall_mem_map.2 ih)

/-- **A value is read from its text.** -/
theorem parse_encode {t : Tree} (h : t.WellFormed) : parse (lex (encode t)) = (t, true) := by
  have hlex : lex (encode t) = t.lexemes := h.lexed
  rw [hlex, parse_lexemes h]

theorem decode_eq_ok_iff {α : Type} {read : Read α} {text : List UInt8} {a : α} :
    decode read text = .ok a ↔ ∃ t, parse (lex text) = (t, true) ∧ read t = .ok a := by
  rw [decode]
  rcases parse (lex text) with ⟨t, whole⟩
  simp only [Prod.mk.injEq, and_assoc, exists_eq_left']
  cases read t <;> cases whole <;> simp

/-- **A reader of a written text reads the tree it was written from.** -/
theorem decode_encode {α : Type} (read : Read α) {t : Tree} (h : t.Written) :
    decode read (encode t) = read t := by
  rw [decode, parse_encode h.wellFormed]
  simp only [if_true]
  cases read t <;> rfl

/-! ## Values and records -/

theorem readText_spell (s : String) : readText (spell s) = .ok s := by
  rw [readText, text?_spell]

theorem string_ofText (s : String) : string (.ofText s) = .ok s :=
  readText_spell s

theorem nullable_ofText (s : String) : nullable string (.ofText s) = .ok (some s) := by
  rw [nullable, string_ofText]
  · rfl
  · intro h
    cases h

theorem natural_ofNat {n bound : Nat} (h : n < bound) (hb : bound ≤ significandBound)
    (expected : String) : natural bound expected (.ofNat n) = .ok n := by
  rw [Tree.ofNat, natural, number?_ofNat (Nat.lt_of_lt_of_le h hb)]
  exact if_pos ⟨Int.natCast_nonneg n, Int.ofNat_lt.2 h⟩

theorem list_ofItems {α : Type} {read : Read α} {write : α → Tree}
    (h : ∀ a, read (write a) = .ok a) (as : List α) :
    list read (.ofItems (as.map write)) = .ok as := by
  have hitems : (as.map write).mapM read = .ok as := by
    induction as with
    | nil => rfl
    | cons a as ih => rw [List.map_cons, List.mapM_cons, h, ih]; rfl
  rw [Tree.ofItems, list, hitems]
  rfl

namespace Shape

variable {σ α : Type}

/-- The entries fill the slots of a record, field by field. -/
inductive Fills (s : Shape σ α) : σ → List (String × Tree) → σ → Prop where
  | done (slots : σ) : Fills s slots [] slots
  | field {slots next last : σ} {name : String} {t : Tree} {f : RecordField σ}
      {es : List (String × Tree)} : s.fields.find? (·.name = name) = some f →
      f.isFilled slots = false → f.fill t slots = .ok next → Fills s next es last →
      Fills s slots ((name, t) :: es) last

theorem Fills.of {s : Shape σ α} {τ : Type} {slots last : σ} {name name' : String} {t : Tree}
    {required : Bool} {slot : σ → Option τ} {put : σ → τ → σ} {read : Read τ} {v : τ}
    {es : List (String × Tree)}
    (hf : s.fields.find? (·.name = name) = some (.of name' required slot put read))
    (hempty : (slot slots).isSome = false) (hread : read t = .ok v)
    (h : s.Fills (put slots v) es last) : s.Fills slots ((name, t) :: es) last :=
  .field hf hempty (congrArg (Except.map (put slots)) hread) h

theorem Fills.foldlM {s : Shape σ α} {slots last : σ} {es : List (String × Tree)}
    (h : s.Fills slots es last) :
    (es.map fun (name, t) => (spell name, t)).foldlM s.readEntry slots = .ok last := by
  induction h with
  | done => rfl
  | @field slots next last name t f es hf he hn _ ih =>
    have hr : s.readEntry slots (spell name, t) = .ok next := by
      simp only [readEntry, readText_spell, bind, Except.bind, hf, he, hn]
      rfl
    rw [List.map_cons, List.foldlM_cons, hr]
    exact ih

/-- A record is made of what its entries fill in, if nothing is missing. -/
theorem read_ofEntries {s : Shape σ α} {slots : σ} {es : List (String × Tree)}
    (h : s.Fills s.empty es slots) (hm : s.missing? slots = none) :
    s.read (.ofEntries es) = s.build slots := by
  rw [Tree.ofEntries, read, h.foldlM]
  simp only [bind, Except.bind, hm]
  rfl

theorem read_ofEntries_eq_ok {s : Shape σ α} {slots : σ} {es : List (String × Tree)} {a : α}
    (h : s.Fills s.empty es slots) (hm : s.missing? slots = none) (hb : s.build slots = .ok a) :
    s.read (.ofEntries es) = .ok a :=
  (read_ofEntries h hm).trans hb

theorem read_ofEntries_eq_error {s : Shape σ α} {slots : σ} {es later : List (String × Tree)}
    {name : String} {t : Tree} {f : RecordField σ} {e : DecodeError}
    (h : s.Fills s.empty es slots) (hf : s.fields.find? (·.name = name) = some f)
    (hempty : f.isFilled slots = false) (hread : f.fill t slots = .error e) :
    s.read (.ofEntries (es ++ (name, t) :: later)) = .error e := by
  have hr : s.readEntry slots (spell name, t) = .error e := by
    simp only [readEntry, readText_spell, bind, Except.bind, hf, hempty, hread]
    rfl
  rw [Tree.ofEntries, read, List.map_append, List.map_cons, List.foldlM_append, h.foldlM]
  simp only [bind, Except.bind, List.foldlM_cons, hr]

end Shape

end HectocDuel.Json
