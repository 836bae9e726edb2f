/-
  What a frame says, whatever it names as room and sender.

  * `Tree.unaddressed` leaves out of a frame the room and the sender, whether the frame is
    an object or an array;
  * `SameSaying`: two texts hold frames that differ in nothing else;
  * `SameSaying.body_eq`: they are read as messages with one body.
-/
import HectocDuel.Proofs.Json.Entries
import HectocDuel.Proofs.Wire.RoundTrip

namespace HectocDuel

open Json

/-- Whether a key of a frame is that of the room or of the sender. -/
def Json.isAddress (key : List UInt8) : Bool :=
  text? key = some "roomId" || text? key = some "senderId"

/-- A frame without its room and its sender. -/
def Json.Tree.unaddressed : Tree → Tree
  | .object entries ending => .object (entries.filter (!isAddress ·.1)) ending
  | .array items closed => .array (items.take 2) closed
  | t => t

namespace Frame

/-- What was read of two frames makes the same body. -/
structure SameBody (f g : Frame) : Prop where
  kind : g.kind = f.kind
  content : g.content = f.content

theorem SameBody.refl (f : Frame) : f.SameBody f :=
  ⟨rfl, rfl⟩

theorem SameBody.symm {f g : Frame} (h : f.SameBody g) : g.SameBody f :=
  ⟨h.kind.symm, h.content.symm⟩

theorem SameBody.trans {f g k : Frame} (h : f.SameBody g) (h' : g.SameBody k) : f.SameBody k :=
  ⟨h'.kind.trans h.kind, h'.content.trans h.content⟩

/-! ## Fields -/

/-- The field is about the room or the sender, and keeps out of the body. -/
structure Addresses (field : RecordField Frame) : Prop where
  name : field.name = "roomId" ∨ field.name = "senderId"
  fill : ∀ {t f f'}, field.fill t f = .ok f' → f.SameBody f'

/-- The field is about the body, and neither room nor sender matters to it. -/
structure Speaks (field : RecordField Frame) : Prop where
  name : ¬ (field.name = "roomId" ∨ field.name = "senderId")
  isFilled : ∀ {f g}, f.SameBody g → field.isFilled g = field.isFilled f
  fill : ∀ {t f g f'}, f.SameBody g → field.fill t f = .ok f' →
    ∃ g', field.fill t g = .ok g' ∧ f'.SameBody g'

theorem fill_of {τ : Type} {name : String} {required : Bool} {slot : Frame → Option τ}
    {put : Frame → τ → Frame} {read : Read τ} {t : Tree} {f f' : Frame} :
    (RecordField.of name required slot put read).fill t f = .ok f' ↔
      ∃ v, read t = .ok v ∧ put f v = f' := by
  rw [RecordField.of]
  cases hv : read t with
  | error e => simp [hv, Except.map]
  | ok v => simp [hv, Except.map]

/-- The fields `type` and `content` make the body, the others the address. -/
theorem addresses_or_speaks {field : RecordField Frame} (h : field ∈ fields) :
    Addresses field ∨ Speaks field := by
  simp only [fields, List.mem_cons, List.not_mem_nil, or_false] at h
  rcases h with rfl | rfl | rfl | rfl
  · refine .inr ⟨by decide, fun h => congrArg Option.isSome h.kind, ?_⟩
    intro t f g f' h hf
    obtain ⟨v, hv, rfl⟩ := fill_of.1 hf
    exact ⟨_, fill_of.2 ⟨v, hv, rfl⟩, rfl, h.content⟩
  · refine .inr ⟨by decide, fun h => congrArg Option.isSome h.content, ?_⟩
    intro t f g f' h hf
    obtain ⟨v, hv, rfl⟩ := fill_of.1 hf
    exact ⟨_, fill_of.2 ⟨v, hv, rfl⟩, h.kind, rfl⟩
  · refine .inl ⟨.inl rfl, ?_⟩
    intro t f f' hf
    obtain ⟨v, -, rfl⟩ := fill_of.1 hf
    exact ⟨rfl, rfl⟩
  · refine .inl ⟨.inr rfl, ?_⟩
    intro t f f' hf
    obtain ⟨v, -, rfl⟩ := fill_of.1 hf
    exact ⟨rfl, rfl⟩

/-! ## Objects -/

section
variable {f f' g : Frame} {entry : List UInt8 × Tree}

theorem readEntry_address (ha : isAddress entry.1) (h : shape.readEntry f entry = .ok f') :
    f.SameBody f' := by
  obtain ⟨key, hkey, ⟨field, hfind, -, hfill⟩ | ⟨-, -, -, rfl⟩⟩ := Shape.readEntry_eq_ok_iff.1 h
  · rcases addresses_or_speaks (List.mem_of_find?_eq_some hfind) with hf | hf
    · exact hf.fill hfill
    · have hname : field.name = key := by simpa using List.find?_some hfind
      simp only [isAddress, hkey, Option.some.injEq, Bool.or_eq_true, decide_eq_true_eq] at ha
      exact absurd ha (hname ▸ hf.name)
  · exact .refl f

/-- An entry that is none does the same to the body, whatever the address is. -/
theorem readEntry_body (ha : ¬ isAddress entry.1) (hs : f.SameBody g)
    (h : shape.readEntry f entry = .ok f') :
    ∃ g', shape.readEntry g entry = .ok g' ∧ f'.SameBody g' := by
  obtain ⟨key, hkey, ⟨field, hfind, hempty, hfill⟩ | ⟨hfind, hlenient, hc, rfl⟩⟩ :=
    Shape.readEntry_eq_ok_iff.1 h
  · rcases addresses_or_speaks (List.mem_of_find?_eq_some hfind) with hf | hf
    · have hname : field.name = key := by simpa using List.find?_some hfind
      simp only [isAddress, hkey, Option.some.injEq, Bool.or_eq_true, decide_eq_true_eq] at ha
      exact absurd (hname ▸ hf.name) ha
    · obtain ⟨g', hg, hs'⟩ := hf.fill hs hfill
      exact ⟨g', Shape.readEntry_eq_ok_iff.2
        ⟨key, hkey, .inl ⟨field, hfind, (hf.isFilled hs).trans hempty, hg⟩⟩, hs'⟩
  · exact ⟨g, Shape.readEntry_eq_ok_iff.2 ⟨key, hkey, .inr ⟨hfind, hlenient, hc, rfl⟩⟩, hs⟩

/-- The entries that are no address make the body. -/
theorem foldlM_unaddressed {entries : List (List UInt8 × Tree)} (hs : f.SameBody g)
    (h : entries.foldlM shape.readEntry f = .ok f') :
    ∃ g', (entries.filter (!isAddress ·.1)).foldlM shape.readEntry g = .ok g' ∧
      f'.SameBody g' := by
  induction entries generalizing f g with
  | nil =>
    obtain rfl := Except.ok.inj h
    exact ⟨g, rfl, hs⟩
  | cons entry entries ih =>
    obtain ⟨next, hentry, h⟩ := foldlM_cons_eq_ok.1 h
    by_cases ha : isAddress entry.1 = true
    · rw [List.filter_cons_of_neg (by simp [ha])]
      exact ih ((readEntry_address ha hentry).symm.trans hs) h
    · obtain ⟨next', hnext, hs'⟩ := readEntry_body ha hs hentry
      obtain ⟨last, hlast, hs''⟩ := ih hs' h
      rw [List.filter_cons_of_pos (by simpa using ha)]
      exact ⟨last, foldlM_cons_eq_ok.2 ⟨next', hnext, hlast⟩, hs''⟩

end

end Frame

/-! ## Arrays -/

namespace Json.Shape

variable {σ α : Type} {s : Shape σ α} {closed : Bool} {fs fs' : List (RecordField σ)} {n : Nat}
  {items rest : List Tree} {slots last : σ}

theorem readItems_append :
    s.readItems closed (fs ++ fs') n items slots = .ok (last, rest) ↔
      ∃ between mid, s.readItems closed fs n items slots = .ok (mid, between) ∧
        s.readItems closed fs' (n + fs.length) between mid = .ok (last, rest) := by
  induction fs generalizing n items slots with
  | nil =>
    simp only [List.nil_append, readItems, Except.ok.injEq, Prod.mk.injEq, List.length_nil,
      Nat.add_zero]
    exact ⟨fun h => ⟨items, slots, ⟨rfl, rfl⟩, h⟩, fun ⟨_, _, ⟨hs, hi⟩, h⟩ => hs ▸ hi ▸ h⟩
  | cons field fs ih =>
    cases items with
    | nil =>
      simp only [List.cons_append, readItems]
      split
      · simp
      · split
        · simp
        · rw [ih, List.length_cons, Nat.add_right_comm, Nat.add_assoc]
    | cons t items =>
      simp only [List.cons_append, readItems]
      cases hfill : field.fill t slots with
      | error e => simp [bind, Except.bind]
      | ok next =>
        rw [List.length_cons, ← Nat.add_assoc, Nat.add_right_comm]
        exact ih

theorem readItems_take (h : s.readItems closed fs n items slots = .ok (last, rest)) :
    s.readItems closed fs n (items.take fs.length) slots = .ok (last, []) := by
  induction fs generalizing n items slots with
  | nil =>
    obtain ⟨rfl, -⟩ := Prod.mk.inj (Except.ok.inj h)
    rfl
  | cons field fs ih =>
    cases items with
    | nil =>
      rw [readItems] at h
      split at h
      · cases h
      · next hclosed =>
        split at h
        · cases h
        · next hoptional =>
          rw [List.take_nil, readItems, if_neg hclosed, if_neg hoptional]
          simpa using ih h
    | cons t items =>
      rw [List.length_cons, List.take_succ_cons]
      rw [readItems] at h ⊢
      cases hfill : field.fill t slots with
      | error e =>
        rw [hfill] at h
        cases h
      | ok next =>
        rw [hfill] at h
        exact ih h

end Json.Shape

namespace Frame

theorem readItems_address {fs : List (RecordField Frame)} (hfs : ∀ field ∈ fs, Addresses field)
    {closed : Bool} {n : Nat} {items rest : List Tree} {f f' : Frame}
    (h : shape.readItems closed fs n items f = .ok (f', rest)) : f.SameBody f' := by
  induction fs generalizing n items f with
  | nil =>
    obtain ⟨rfl, -⟩ := Prod.mk.inj (Except.ok.inj h)
    exact .refl f
  | cons field fs ih =>
    obtain ⟨hfield, hfs⟩ := List.forall_mem_cons.1 hfs
    cases items with
    | nil =>
      rw [Shape.readItems] at h
      split at h
      · cases h
      · split at h
        · cases h
        · exact ih hfs h
    | cons t items =>
      rw [Shape.readItems] at h
      cases hfill : field.fill t f with
      | error e =>
        rw [hfill] at h
        cases h
      | ok next =>
        rw [hfill] at h
        exact (hfield.fill hfill).trans (ih hfs h)

/-- The first two items make the body. -/
theorem readItems_unaddressed {closed : Bool} {items rest : List Tree} {f : Frame}
    (h : shape.readItems closed fields 0 items {} = .ok (f, rest)) :
    ∃ g, shape.readItems closed (fields.take 2) 0 (items.take 2) {} = .ok (g, []) ∧
      f.SameBody g := by
  rw [← List.take_append_drop 2 fields] at h
  obtain ⟨between, g, hbody, haddress⟩ := Shape.readItems_append.1 h
  refine ⟨g, Shape.readItems_take hbody, (readItems_address ?_ haddress).symm⟩
  intro field hfield
  have hname : field.name = "roomId" ∨ field.name = "senderId" := by
    simp [fields] at hfield
    rcases hfield with rfl | rfl
    · exact .inl rfl
    · exact .inr rfl
  exact (addresses_or_speaks (List.mem_of_mem_drop hfield)).resolve_right fun hs => hs.name hname

/-! ## Frames -/

theorem read_cases {t : Tree} {f : Frame} (h : shape.read t = .ok f) :
    (∃ entries, t = .object entries .closed ∧ entries.foldlM shape.readEntry {} = .ok f) ∨
      ∃ items rest, t = .array items true ∧
        shape.readItems true fields 0 items {} = .ok (f, rest) := by
  cases t with
  | object entries ending =>
    rw [Shape.read] at h
    cases hread : entries.foldlM shape.readEntry shape.empty with
    | error e =>
      rw [hread] at h
      cases h
    | ok slots =>
      rw [hread] at h
      simp only [bind, Except.bind] at h
      split at h
      · cases h
      · next hclosed =>
        split at h
        · cases h
        · obtain rfl : slots = f := Except.ok.inj h
          exact .inl ⟨entries, congrArg _ (Decidable.not_not.1 hclosed), hread⟩
  | array items closed =>
    rw [Shape.read] at h
    cases hread : shape.readItems closed shape.fields 0 items shape.empty with
    | error e =>
      rw [hread] at h
      cases h
    | ok slots =>
      rw [hread] at h
      obtain ⟨g, rest⟩ := slots
      have hbuild : shape.build g = .ok g := rfl
      simp only [bind, Except.bind, hbuild] at h
      split at h
      · next hwhole =>
        obtain rfl : g = f := Except.ok.inj h
        obtain rfl : closed = true := (Bool.and_eq_true_iff.1 hwhole).2
        exact .inr ⟨items, rest, rfl, hread⟩
      · cases h
  | null | bool | number | string | broken => cases h

/-- What is left of a frame without its address makes its body. -/
theorem sameBody_of_read {t t' : Tree} {f f' : Frame} (hf : shape.read t = .ok f)
    (hf' : shape.read t' = .ok f') (ht : t'.unaddressed = t.unaddressed) : f.SameBody f' := by
  rcases read_cases hf with ⟨entries, rfl, hread⟩ | ⟨items, rest, rfl, hread⟩ <;>
    rcases read_cases hf' with ⟨entries', rfl, hread'⟩ | ⟨items', rest', rfl, hread'⟩
  · obtain ⟨g, hg, hs⟩ := foldlM_unaddressed (.refl {}) hread
    obtain ⟨g', hg', hs'⟩ := foldlM_unaddressed (.refl {}) hread'
    rw [(Tree.object.inj ht).1, hg] at hg'
    obtain rfl := Except.ok.inj hg'
    exact hs.trans hs'.symm
  · cases ht
  · cases ht
  · obtain ⟨g, hg, hs⟩ := readItems_unaddressed hread
    obtain ⟨g', hg', hs'⟩ := readItems_unaddressed hread'
    rw [(Tree.array.inj ht).1, hg] at hg'
    obtain ⟨rfl, -⟩ := Prod.mk.inj (Except.ok.inj hg')
    exact hs.trans hs'.symm

end Frame

/-! ## Texts -/

/-- Two texts hold frames that differ in what they name as room and as sender, and in
    nothing else. -/
structure SameSaying (text text' : List UInt8) : Prop where
  decodes : ∃ m, Message.decode text = .ok m
  decodes' : ∃ m, Message.decode text' = .ok m
  unaddressed : (parse (lex text')).1.unaddressed = (parse (lex text)).1.unaddressed

theorem exists_read_of_decode {text : List UInt8} {m : Message}
    (h : Message.decode text = .ok m) :
    ∃ f, Frame.shape.read (parse (lex text)).1 = .ok f ∧ f.message = .ok m := by
  obtain ⟨t, hparse, hm⟩ := decode_eq_ok_iff.1 h
  rw [hparse]
  exact Message.ofJson_eq_ok_iff.1 hm

theorem Frame.ofParts_of_message {f : Frame} {m : Message} (h : f.message = .ok m) :
    ∃ kind, f.kind = some kind ∧
      Body.ofParts kind ((f.content.getD none).getD "") = .ok m.body := by
  rw [message] at h
  split at h
  · cases h
  · next kind hkind =>
    split at h
    · next body hbody =>
      obtain rfl := Except.ok.inj h
      exact ⟨kind, hkind, hbody⟩
    · cases h

/-- What texts name as room and as sender does not matter to the body. -/
theorem SameSaying.body_eq {text text' : List UInt8} {m m' : Message}
    (h : SameSaying text text') (hm : Message.decode text = .ok m)
    (hm' : Message.decode text' = .ok m') : m'.body = m.body := by
  obtain ⟨f, hf, hmessage⟩ := exists_read_of_decode hm
  obtain ⟨f', hf', hmessage'⟩ := exists_read_of_decode hm'
  have hs := Frame.sameBody_of_read hf hf' h.unaddressed
  obtain ⟨kind, hkind, hbody⟩ := Frame.ofParts_of_message hmessage
  obtain ⟨kind', hkind', hbody'⟩ := Frame.ofParts_of_message hmessage'
  obtain rfl : kind' = kind := Option.some.inj (hkind'.symm.trans (hs.kind.trans hkind))
  rw [hs.content] at hbody'
  exact Except.ok.inj (hbody'.symm.trans hbody)

theorem parse_encode (m : Message) : (parse (lex m.encode)).1 = m.toJson :=
  congrArg Prod.fst (Json.parse_encode m.written_toJson.wellFormed)

/-- A message may be written with any room and any sender. -/
theorem sameSaying_encode (m : Message) (room : RoomId) (sender : Option PlayerId) :
    SameSaying m.encode ({ m with room, sender } : Message).encode := by
  refine ⟨⟨_, m.decode_encode⟩, ⟨_, Message.decode_encode _⟩, ?_⟩
  have hleft : ∀ n : Message, n.toJson.unaddressed =
      .ofEntries [("type", .ofText n.body.kind.name), ("content", .ofText n.body.content)] := by
    rintro ⟨body, room, _ | p⟩ <;>
      simp [Message.toJson, Tree.ofEntries, Tree.unaddressed, isAddress, text?_spell]
  rw [parse_encode, parse_encode, hleft, hleft]

end HectocDuel
