/-
  Frames whose entries are given in another order, or among others.

  * `HoldsEntries`: a text is an object with the given entries, however it is written;
  * `Frame.independent`: the fields of a frame have a slot each;
  * `Message.decode_rearranged`: so their order does not matter to what is read, and neither
    do entries of other names.
-/
import HectocDuel.Proofs.Wire.Address
import Mathlib.Data.List.Forall2

namespace HectocDuel

open Json

/-! ## Texts -/

namespace Json

/-- An entry of an object is the one of that name. -/
def Names (e : List UInt8 × Tree) (e' : String × Tree) : Prop :=
  text? e.1 = some e'.1 ∧ e.2 = e'.2

/-- A text is an object with the given entries, in their order.  Blanks may stand between
    the lexemes, and a key may be spelled in any way that names a text. -/
def HoldsEntries (text : List UInt8) (entries : List (String × Tree)) : Prop :=
  ∃ es, lex text = (Tree.object es .closed).lexemes ∧ (Tree.object es .closed).WellFormed ∧
    List.Forall₂ Names es entries

/-- The entries with their keys spelled out. -/
def spelled (entries : List (String × Tree)) : List (List UInt8 × Tree) :=
  entries.map fun (name, t) => (spell name, t)

section
variable {text : List UInt8} {es : List (List UInt8 × Tree)} {entries : List (String × Tree)}

theorem names_spelled (entries : List (String × Tree)) :
    List.Forall₂ Names (spelled entries) entries := by
  induction entries with
  | nil => exact .nil
  | cons e entries ih => exact .cons ⟨text?_spell e.1, rfl⟩ ih

theorem holds_encode (h : ∀ e ∈ entries, e.2.WellFormed) :
    HoldsEntries (encode (.ofEntries entries)) entries := by
  have hwell : (Tree.ofEntries entries).WellFormed :=
    .object (List.forall_mem_map.2 fun e _ => spelled_spell e.1) (List.forall_mem_map.2 h)
  exact ⟨spelled entries, hwell.lexed, hwell, names_spelled entries⟩

theorem HoldsEntries.wellFormed (h : HoldsEntries text entries) :
    ∀ e ∈ entries, e.2.WellFormed := by
  obtain ⟨es, -, hwell, hnames⟩ := h
  cases hwell with
  | object hkeys hvalues =>
    clear hkeys
    induction hnames with
    | nil => exact nofun
    | cons he _ ih =>
      obtain ⟨ht, hvalues⟩ := List.forall_mem_cons.1 hvalues
      exact List.forall_mem_cons.2 ⟨he.2 ▸ ht, ih hvalues⟩

theorem foldlM_readEntry_names {σ α : Type} {s : Shape σ α} (h : List.Forall₂ Names es entries)
    (slots : σ) : es.foldlM s.readEntry slots = (spelled entries).foldlM s.readEntry slots := by
  induction h generalizing slots with
  | nil => rfl
  | @cons e e' es entries he _ ih =>
    have hentry : ∀ slots, s.readEntry slots e = s.readEntry slots (spell e'.1, e'.2) :=
      fun slots => Shape.readEntry_congr (he.1.trans (text?_spell e'.1).symm) he.2
    rw [spelled, List.map_cons, List.foldlM_cons, List.foldlM_cons, hentry]
    exact congrArg _ (funext ih)

theorem exists_names {σ α : Type} {s : Shape σ α} {slots last : σ}
    (h : es.foldlM s.readEntry slots = .ok last) : ∃ entries, List.Forall₂ Names es entries := by
  induction es generalizing slots with
  | nil => exact ⟨[], .nil⟩
  | cons e es ih =>
    obtain ⟨next, he, hes⟩ := foldlM_cons_eq_ok.1 h
    obtain ⟨key, hkey, -⟩ := Shape.readEntry_eq_ok_iff.1 he
    obtain ⟨entries, hnames⟩ := ih hes
    exact ⟨(key, e.2) :: entries, .cons ⟨hkey, rfl⟩ hnames⟩

/-- A text that holds an object is read as the record with its entries. -/
theorem HoldsEntries.parse (h : HoldsEntries text entries) : ∃ t, parse (lex text) = (t, true) ∧
    ∀ {σ α : Type} (s : Shape σ α), s.read t = s.read (.ofEntries entries) := by
  obtain ⟨es, hlex, hwell, hnames⟩ := h
  refine ⟨_, hlex ▸ parse_lexemes hwell, fun s => ?_⟩
  rw [Tree.ofEntries, Shape.read, Shape.read, foldlM_readEntry_names hnames]
  rfl

end

end Json

/-! ## Frames -/

theorem Frame.independent : Frame.shape.Independent where
  fills f hf t slots next h := by
    simp only [shape, fields, List.mem_cons, List.not_mem_nil, or_false] at hf
    rcases hf with rfl | rfl | rfl | rfl <;> obtain ⟨v, -, rfl⟩ := fill_of.1 h <;> rfl
  leaves f hf g hg hne t slots next h := by
    simp only [shape, fields, List.mem_cons, List.not_mem_nil, or_false] at hf hg
    rcases hf with rfl | rfl | rfl | rfl <;> rcases hg with rfl | rfl | rfl | rfl <;>
      first
      | exact absurd rfl hne
      | obtain ⟨v, -, rfl⟩ := fill_of.1 h
        rfl
  swaps f hf g hg hne t u slots mid last h h' := by
    simp only [shape, fields, List.mem_cons, List.not_mem_nil, or_false] at hf hg
    rcases hf with rfl | rfl | rfl | rfl <;> rcases hg with rfl | rfl | rfl | rfl <;>
      first
      | exact absurd rfl hne
      | obtain ⟨v, hv, rfl⟩ := fill_of.1 h
        obtain ⟨w, hw, rfl⟩ := fill_of.1 h'
        exact ⟨_, fill_of.2 ⟨w, hw, rfl⟩, fill_of.2 ⟨v, hv, rfl⟩⟩

theorem Frame.find?_eq_none {name : String} (h : name ∉ ["type", "content", "roomId", "senderId"]) :
    shape.fields.find? (·.name = name) = none := by
  refine List.find?_eq_none.2 fun f hf => ?_
  have hmem : f.name ∈ shape.fields.map (·.name) := List.mem_map_of_mem hf
  rw [decide_eq_true_eq]
  rintro rfl
  exact h hmem

section
variable {text : List UInt8} {entries extra entries' : List (String × Tree)} {m : Message}

/-- A message is read from a text by its entries. -/
theorem Message.decode_of_holds (h : HoldsEntries text entries) :
    Message.decode text = .ok m ↔ Message.ofJson (.ofEntries entries) = .ok m := by
  obtain ⟨t, hparse, hread⟩ := h.parse
  have hofJson : Message.ofJson t = Message.ofJson (.ofEntries entries) := by
    rw [ofJson, ofJson, hread]
  rw [Message.decode, decode_eq_ok_iff]
  constructor
  · rintro ⟨t', ht', hm⟩
    obtain rfl : t = t' := congrArg Prod.fst (hparse.symm.trans ht')
    exact hofJson ▸ hm
  · exact fun hm => ⟨t, hparse, hofJson ▸ hm⟩

/-- What a message is read from is an object with entries, if it begins as one. -/
theorem Message.exists_holds (h : Message.decode text = .ok m)
    (hobject : (lex text).head? = some .openBrace) : ∃ entries, HoldsEntries text entries := by
  obtain ⟨t, hparse, -⟩ := decode_eq_ok_iff.1 h
  obtain ⟨f, hread, -⟩ := exists_read_of_decode h
  obtain ⟨hlex, hwell⟩ := of_parse (fun _ => Lexeme.wellFormed_of_mem_lex) hparse
  rw [hparse] at hread
  rcases Frame.read_cases hread with ⟨es, ht, hes⟩ | ⟨items, rest, ht, -⟩
  · obtain rfl : t = _ := ht
    obtain ⟨entries, hnames⟩ := exists_names hes
    exact ⟨entries, es, hlex, hwell, hnames⟩
  · obtain rfl : t = _ := ht
    rw [hlex] at hobject
    cases hobject

/-- Entries that are given in another order, and among others, fill the same frame. -/
theorem Frame.read_rearranged {f : Frame} (h : shape.read (.ofEntries entries) = .ok f)
    (hextra : ∀ e ∈ extra, e.1 ∉ ["type", "content", "roomId", "senderId"] ∧ e.2.WellFormed)
    (hperm : entries'.Perm (entries ++ extra)) : shape.read (.ofEntries entries') = .ok f := by
  rcases read_cases h with ⟨es, ht, hread⟩ | ⟨items, rest, ht, -⟩
  · obtain rfl : spelled entries = es := (Tree.object.inj ht).1
    have hunknown : (spelled extra).foldlM shape.readEntry f = .ok f := by
      refine Shape.foldlM_unknown rfl (List.forall_mem_map.2 fun e he => ?_)
      obtain ⟨hname, ht⟩ := hextra e he
      exact ⟨ht.complete, e.1, text?_spell e.1, find?_eq_none hname⟩
    have hboth : (spelled (entries ++ extra)).foldlM shape.readEntry {} = .ok f := by
      rw [spelled, List.map_append]
      exact foldlM_append_eq_ok.2 ⟨f, hread, hunknown⟩
    have hread' : (spelled entries').foldlM shape.readEntry {} = .ok f :=
      independent.foldlM_perm (hperm.map _).symm hboth
    have hsame : shape.read (.ofEntries entries') = shape.read (.ofEntries entries) := by
      change shape.read (.object (spelled entries') .closed) =
        shape.read (.object (spelled entries) .closed)
      rw [Shape.read, Shape.read, show shape.empty = {} from rfl, hread, hread']
    exact hsame.trans h
  · cases ht

/-- **The order of a frame's entries does not matter, nor do entries of other names.**  A
    text that begins as an object and is read as a message is an object with entries.  Put
    these in any order, with any values of any other names before, between and behind them:
    there are texts with these entries, and each of them is read as the same message. -/
theorem Message.decode_rearranged (h : Message.decode text = .ok m)
    (hobject : (lex text).head? = some .openBrace) :
    (∃ entries, HoldsEntries text entries) ∧
      ∀ entries, HoldsEntries text entries → ∀ extra : List (String × Tree),
        (∀ e ∈ extra, e.1 ∉ ["type", "content", "roomId", "senderId"] ∧ e.2.WellFormed) →
        ∀ entries' : List (String × Tree), entries'.Perm (entries ++ extra) →
          (∃ text', HoldsEntries text' entries') ∧
            ∀ text', HoldsEntries text' entries' → Message.decode text' = .ok m := by
  refine ⟨exists_holds h hobject, fun entries hholds extra hextra entries' hperm => ⟨?_, ?_⟩⟩
  · refine ⟨_, holds_encode fun e he => ?_⟩
    exact (List.mem_append.1 (hperm.mem_iff.1 he)).elim (hholds.wellFormed e)
      fun he => (hextra e he).2
  · intro text' hholds'
    have hm := (decode_of_holds hholds).1 h
    refine (decode_of_holds hholds').2 ?_
    obtain ⟨f, hread, hmessage⟩ := Message.ofJson_eq_ok_iff.1 hm
    exact Message.ofJson_eq_ok_iff.2 ⟨f, Frame.read_rearranged hread hextra hperm, hmessage⟩

end

/-- The kind comes last, behind values that no field asks for. -/
theorem Message.decode_rearranged_submit :
    let m : Message := ⟨.text .submit "1+1", ⟨"r"⟩, none⟩
    let x : Tree := .array [.null, .object [] .closed] true
    let entries : List (String × Tree) := [("x", .bool true), ("x", x), ("roomId", .ofText "r"),
      ("content", .ofText "1+1"), ("type", .ofText "submit")]
    Message.decode m.encode = .ok m ∧ (lex m.encode).head? = some .openBrace ∧
      Message.decode (Json.encode (.ofEntries entries)) = .ok m := by
  intro m x entries
  have htext : ∀ s, (Tree.ofText s).WellFormed := fun s => (Tree.Written.text s).wellFormed
  have hx : x.WellFormed := by
    refine .array (List.forall_mem_cons.2 ⟨.null, List.forall_mem_singleton.2 ?_⟩)
    exact .object wellFormedEntries_nil.1 wellFormedEntries_nil.2
  have hlex : lex m.encode = m.toJson.lexemes := m.written_toJson.wellFormed.lexed
  have hobject : (lex m.encode).head? = some .openBrace := hlex ▸ rfl
  let written : List (String × Tree) := [("type", .ofText "submit"), ("content", .ofText "1+1"),
    ("roomId", .ofText "r")]
  let extra : List (String × Tree) := [("x", x), ("x", .bool true)]
  have hwritten : ∀ e ∈ written, e.2.WellFormed := by simp [written, htext]
  have hholds : HoldsEntries m.encode written := holds_encode hwritten
  have hextra : ∀ e ∈ extra, e.1 ∉ ["type", "content", "roomId", "senderId"] ∧ e.2.WellFormed := by
    simp [extra, hx, Tree.WellFormed.bool]
  have hperm : entries.Perm (written ++ extra) := List.reverse_perm (written ++ extra)
  have hentries : ∀ e ∈ entries, e.2.WellFormed := by
    simp [entries, htext, hx, Tree.WellFormed.bool]
  refine ⟨m.decode_encode, hobject, ?_⟩
  have hread := (Message.decode_rearranged m.decode_encode hobject).2 written hholds
  exact (hread extra hextra entries hperm).2 _ (holds_encode hentries)

end HectocDuel
