/-
  Settings and blanks around them.

  A number, a span of time or a truth value is what its text spells without the blanks around
  it.  An address is its whole text.

  * `readWord?_eq_some_iff`: the numbers that are read are those that are spelled;
  * `AsAsked` says of each setting what the environment asks for, and `asAsked_iff` that
    exactly this is read;
  * `padding_matters_to_address_only`: blanks at the ends of texts change an address that is
    not blank, and nothing else.
-/
import HectocDuel.Proofs.Text.Blank
import HectocDuel.Settings
import Mathlib.Data.Nat.Digits.Defs

namespace HectocDuel

/-! ## Spellings -/

/-- The text spells the number `n` below `2 ^ 64`: in decimal digits, with or without a plus
    sign in front. -/
def SpellsWord (s : String) (n : Nat) : Prop :=
  ∃ ds : List Char, (s.toList = ds ∨ s.toList = '+' :: ds) ∧ ds ≠ [] ∧ (∀ c ∈ ds, c.isDigit) ∧
    Nat.ofDigits 10 (ds.reverse.map fun c => c.toNat - '0'.toNat) = n ∧ n < 2 ^ 64

/-- The text spells a truth value. -/
def SpellsBool (s : String) (b : Bool) : Prop :=
  s = "true" ∧ b = true ∨ s = "false" ∧ b = false

/-- The text spells a span of time in milliseconds. -/
def SpellsMillis (s : String) (d : Duration) : Prop :=
  ∃ n, SpellsWord s n ∧ d = .ofMillis n

theorem foldl_digits (ds : List Char) :
    ds.foldl (fun n c => 10 * n + (c.toNat - '0'.toNat)) 0 =
      Nat.ofDigits 10 (ds.reverse.map fun c => c.toNat - '0'.toNat) := by
  rw [Nat.ofDigits_eq_foldr, List.foldr_map, List.foldr_reverse]
  simp only [Nat.cast_id, Nat.add_comm]

theorem readWord?_eq (s : String) : ∃ ds : List Char,
    (s.toList = ds ∧ ds.head? ≠ some '+' ∨ s.toList = '+' :: ds) ∧
      readWord? s =
        if ds ≠ [] ∧ ds.all Char.isDigit ∧
            Nat.ofDigits 10 (ds.reverse.map fun c => c.toNat - '0'.toNat) < wordBound then
          some (Nat.ofDigits 10 (ds.reverse.map fun c => c.toNat - '0'.toNat))
        else none := by
  simp only [← foldl_digits, readWord?]
  split
  · next ds heq => exact ⟨ds, .inr heq, rfl⟩
  · next hplus =>
    refine ⟨s.toList, .inl ⟨rfl, fun h => ?_⟩, rfl⟩
    obtain ⟨ds, hds⟩ := List.head?_eq_some_iff.1 h
    exact hplus ds hds

/-- **The numbers that are read are those that are spelled.** -/
theorem readWord?_eq_some_iff {s : String} {n : Nat} : readWord? s = some n ↔ SpellsWord s n := by
  obtain ⟨ds, hs, hread⟩ := readWord?_eq s
  rw [hread]
  constructor
  · intro h
    split at h
    · next hds =>
      obtain rfl := Option.some.inj h
      exact ⟨ds, hs.imp_left (·.1), hds.1, List.all_eq_true.1 hds.2.1, rfl, hds.2.2⟩
    · cases h
  · rintro ⟨ds', hs', hne, hdigits, rfl, hbound⟩
    -- A digit is no plus sign, so both cut the text in the same way.
    have hplus : ds'.head? ≠ some '+' := fun h =>
      absurd (hdigits _ (List.mem_of_mem_head? h)) (by decide)
    obtain rfl : ds = ds' := by
      rcases hs with ⟨rfl, hs⟩ | hs <;> rcases hs' with rfl | hs'
      · rfl
      · rw [hs'] at hs
        exact absurd rfl hs
      · rw [hs] at hplus
        exact absurd rfl hplus
      · exact (List.cons.inj (hs.symm.trans hs')).2
    exact if_pos ⟨hne, List.all_eq_true.2 hdigits, hbound⟩

theorem readBool?_eq_some_iff {s : String} {b : Bool} : readBool? s = some b ↔ SpellsBool s b := by
  rw [readBool?, SpellsBool]
  split_ifs with ht hf
  · subst ht
    simp [eq_comm]
  · subst hf
    simp [eq_comm]
  · simp [ht, hf]

theorem readMillis?_eq_some_iff {s : String} {d : Duration} :
    (readWord? s).map Duration.ofMillis = some d ↔ SpellsMillis s d := by
  simp only [Option.map_eq_some_iff, readWord?_eq_some_iff, SpellsMillis, eq_comm]

/-! ## What is asked for -/

/-- What a setting is set to: the value that its text spells without the blanks around it, or
    else the default. -/
inductive SetTo {α : Type} (Spells : String → α → Prop) (default : α) :
    Option String → α → Prop where
  | unset : SetTo Spells default none default
  | spelled {s : String} {v : α} : Spells (Text.trim s) v → SetTo Spells default (some s) v
  | passedOver {s : String} : (∀ v, ¬ Spells (Text.trim s) v) →
      SetTo Spells default (some s) default

theorem setTo_iff {α : Type} {read? : String → Option α} {Spells : String → α → Prop}
    (hread : ∀ {s v}, read? s = some v ↔ Spells s v) {default v : α} {text : Option String} :
    SetTo Spells default text v ↔ v = valueOr read? default text := by
  cases text with
  | none =>
    rw [valueOr]
    refine ⟨fun h => ?_, fun h => h ▸ .unset⟩
    cases h
    rfl
  | some s =>
    rw [valueOr, Option.bind_some]
    rcases hs : read? (Text.trim s) with _ | u
    · have hnone : ∀ v, ¬ Spells (Text.trim s) v := fun v hv => by
        rw [hread.2 hv] at hs
        cases hs
      refine ⟨fun h => ?_, fun h => h ▸ .passedOver hnone⟩
      cases h with
      | spelled hv => exact absurd hv (hnone v)
      | passedOver => rfl
    · refine ⟨fun h => ?_, fun h => h ▸ .spelled (hread.1 hs)⟩
      cases h with
      | spelled hv => exact Option.some.inj ((hread.2 hv).symm.trans hs)
      | passedOver hnone => exact absurd (hread.1 hs) (hnone u)

/-- What an address is set to: its whole text unless that is blank, or else the default. -/
inductive AddressSetTo (default : String) : Option String → String → Prop where
  | unset : AddressSetTo default none default
  | asWritten {s : String} : Text.trim s ≠ "" → AddressSetTo default (some s) s
  | blank {s : String} : Text.trim s = "" → AddressSetTo default (some s) default

theorem addressSetTo_iff {default a : String} {text : Option String} :
    AddressSetTo default text a ↔ a = (text.filter (Text.trim · ≠ "")).getD default := by
  cases text with
  | none =>
    refine ⟨fun h => ?_, fun h => h ▸ .unset⟩
    cases h
    rfl
  | some s =>
    by_cases hs : Text.trim s = ""
    · have hnone : (some s).filter (Text.trim · ≠ "") = none :=
        Option.filter_some_neg (by simpa using hs)
      rw [hnone]
      refine ⟨fun h => ?_, fun h => h ▸ .blank hs⟩
      cases h with
      | asWritten hne => exact absurd hs hne
      | blank => rfl
    · have hsome : (some s).filter (Text.trim · ≠ "") = some s :=
        Option.filter_some_pos (by simpa using hs)
      rw [hsome]
      refine ⟨fun h => ?_, fun h => h ▸ .asWritten hs⟩
      cases h with
      | asWritten => rfl
      | blank heq => exact absurd heq hs

namespace Settings

/-- Each setting is set to what its own variable asks for, whatever the others hold. -/
structure AsAsked (lookup : String → Option String) (s : Settings) : Prop where
  address : AddressSetTo "0.0.0.0:8080" (lookup "HECTOCLASH_ADDR") s.address
  autoOpenGames : SetTo SpellsBool true (lookup "HECTOCLASH_AUTO_OPEN_GAMES") s.autoOpenGames
  outboundCapacity :
    SetTo SpellsWord 10 (lookup "HECTOCLASH_OUTBOUND_CAPACITY") s.hub.outboundCapacity
  intakeCapacity : SetTo SpellsWord 32 (lookup "HECTOCLASH_INTAKE_CAPACITY") s.hub.intakeCapacity
  deliveryTimeout : SetTo SpellsMillis (.ofMillis 50) (lookup "HECTOCLASH_DELIVERY_TIMEOUT_MS")
    s.hub.deliveryTimeout

/-- The settings that are read are those that the environment asks for. -/
theorem asAsked_iff {lookup : String → Option String} {s : Settings} :
    AsAsked lookup s ↔ s = ofEnvironment lookup := by
  constructor
  · intro h
    obtain ⟨address, autoOpenGames, outbound, intake, timeout⟩ := s
    obtain rfl := addressSetTo_iff.1 h.address
    obtain rfl := (setTo_iff readBool?_eq_some_iff).1 h.autoOpenGames
    obtain rfl := (setTo_iff readWord?_eq_some_iff).1 h.outboundCapacity
    obtain rfl := (setTo_iff readWord?_eq_some_iff).1 h.intakeCapacity
    obtain rfl := (setTo_iff readMillis?_eq_some_iff).1 h.deliveryTimeout
    rfl
  · rintro rfl
    exact ⟨addressSetTo_iff.2 rfl, (setTo_iff readBool?_eq_some_iff).2 rfl,
      (setTo_iff readWord?_eq_some_iff).2 rfl, (setTo_iff readWord?_eq_some_iff).2 rfl,
      (setTo_iff readMillis?_eq_some_iff).2 rfl⟩

/-! ## Blanks around texts -/

/-- The variables that are read. -/
def names : List String :=
  ["HECTOCLASH_ADDR", "HECTOCLASH_AUTO_OPEN_GAMES", "HECTOCLASH_OUTBOUND_CAPACITY",
    "HECTOCLASH_INTAKE_CAPACITY", "HECTOCLASH_DELIVERY_TIMEOUT_MS"]

/-- The two environments set the same variables, to texts that differ in blanks at their ends
    at most. -/
def SamePadded (lookup lookup' : String → Option String) : Prop :=
  ∀ name ∈ names, Option.Rel Text.SameInside (lookup name) (lookup' name)

/-- Blanks around a text do not matter to the value that it spells. -/
theorem valueOr_of_sameInside {α : Type} {text text' : Option String}
    (h : Option.Rel Text.SameInside text text') (read? : String → Option α) (default : α) :
    valueOr read? default text' = valueOr read? default text := by
  cases h with
  | none => rfl
  | some hs => rw [valueOr, Option.bind_some, ← Text.sameInside_iff.1 hs, valueOr, Option.bind_some]

/-- They matter to an address unless there is nothing else. -/
theorem address_eq_iff {text text' : Option String} {default : String}
    (h : Option.Rel Text.SameInside text text') :
    (text'.filter (Text.trim · ≠ "")).getD default = (text.filter (Text.trim · ≠ "")).getD default ↔
      text' = text ∨ ∀ s ∈ text, Text.trim s = "" := by
  cases h with
  | none => simp
  | @some s t hs =>
    have heq := Text.sameInside_iff.1 hs
    by_cases hblank : Text.trim s = ""
    · simp [Option.filter_some, ← heq, hblank]
    · simp [Option.filter_some, ← heq, hblank]

/-- **Blanks around a setting matter to an address and to nothing else.**

    * Each setting is set to what its own variable asks for: a number below `2 ^ 64`, a span
      of time and a truth value to what the text spells without the blanks around it, or else
      to its default, and an address to its whole text or, if that is blank, to its default;
    * so blanks at the ends of texts, where there are more or fewer of them, leave all
      settings but the address as they are, and they leave the address as it is iff its text
      is not changed or is blank. -/
theorem padding_matters_to_address_only (lookup : String → Option String) :
    (∀ s : Settings, AsAsked lookup s ↔ s = ofEnvironment lookup) ∧
      ∀ lookup', SamePadded lookup lookup' →
        (ofEnvironment lookup').autoOpenGames = (ofEnvironment lookup).autoOpenGames ∧
          (ofEnvironment lookup').hub = (ofEnvironment lookup).hub ∧
          (ofEnvironment lookup' = ofEnvironment lookup ↔
            lookup' "HECTOCLASH_ADDR" = lookup "HECTOCLASH_ADDR" ∨
              ∀ s ∈ lookup "HECTOCLASH_ADDR", Text.trim s = "") := by
  refine ⟨fun s => asAsked_iff, fun lookup' h => ?_⟩
  simp only [SamePadded, names, List.forall_mem_cons] at h
  obtain ⟨haddress, hopen, houtbound, hintake, htimeout, -⟩ := h
  have hauto : (ofEnvironment lookup').autoOpenGames = (ofEnvironment lookup).autoOpenGames :=
    valueOr_of_sameInside hopen _ _
  have hhub : (ofEnvironment lookup').hub = (ofEnvironment lookup).hub := by
    simp only [ofEnvironment, valueOr_of_sameInside houtbound, valueOr_of_sameInside hintake,
      valueOr_of_sameInside htimeout]
  refine ⟨hauto, hhub, ?_⟩
  rw [← address_eq_iff haddress]
  refine ⟨fun heq => congrArg Settings.address heq, fun heq => ?_⟩
  have hext : ∀ {s s' : Settings}, s.address = s'.address →
      s.autoOpenGames = s'.autoOpenGames → s.hub = s'.hub → s = s' := by
    rintro ⟨⟩ ⟨⟩ rfl rfl rfl
    rfl
  exact hext heq hauto hhub

/-- Numbers on both sides of the bound and a truth value stay with blanks of any kind around
    them, and an address that is blank is not taken. -/
theorem padding_matters_to_address_only_blank :
    let lookup : String → Option String := fun name =>
      [("HECTOCLASH_ADDR", " "), ("HECTOCLASH_AUTO_OPEN_GAMES", "false\n"),
        ("HECTOCLASH_OUTBOUND_CAPACITY", "+18446744073709551615"),
        ("HECTOCLASH_INTAKE_CAPACITY", "18446744073709551616")].lookup name
    let lookup' : String → Option String := fun name =>
      [("HECTOCLASH_ADDR", ""), ("HECTOCLASH_AUTO_OPEN_GAMES", "\t false"),
        ("HECTOCLASH_OUTBOUND_CAPACITY", "\u3000+18446744073709551615 "),
        ("HECTOCLASH_INTAKE_CAPACITY", "18446744073709551616\u00a0")].lookup name
    SamePadded lookup lookup' ∧ ofEnvironment lookup' = ofEnvironment lookup ∧
      AsAsked lookup
        { autoOpenGames := false, hub := { outboundCapacity := 18446744073709551615 } } := by
  intro lookup lookup'
  have hpadded : SamePadded lookup lookup' := by
    simp only [SamePadded, names, List.forall_mem_cons]
    exact ⟨.some (Text.sameInside_iff.2 (by decide +kernel)),
      .some (Text.sameInside_iff.2 (by decide +kernel)),
      .some (Text.sameInside_iff.2 (by decide +kernel)),
      .some (Text.sameInside_iff.2 (by decide +kernel)), .none, nofun⟩
  obtain ⟨hasked, hsame⟩ := padding_matters_to_address_only lookup
  refine ⟨hpadded, (hsame lookup' hpadded).2.2.2 (.inr ?_), (hasked _).2 (by decide +kernel)⟩
  intro s hs
  obtain rfl : " " = s := Option.some.inj hs
  decide +kernel

/-- An address is kept with the blanks around it, and then the server cannot listen there. -/
theorem padded_address_not_trimmed :
    let lookup : String → Option String := fun name =>
      [("HECTOCLASH_ADDR", "127.0.0.1:9000")].lookup name
    let lookup' : String → Option String := fun name =>
      [("HECTOCLASH_ADDR", " 127.0.0.1:9000 ")].lookup name
    SamePadded lookup lookup' ∧ ofEnvironment lookup' ≠ ofEnvironment lookup ∧
      addressError? (ofEnvironment lookup).address = none ∧
      addressError? (ofEnvironment lookup').address = some .badPort := by
  intro lookup lookup'
  refine ⟨?_, by decide +kernel, by decide +kernel, by decide +kernel⟩
  simp only [SamePadded, names, List.forall_mem_cons]
  exact ⟨.some (Text.sameInside_iff.2 (by decide +kernel)), .none, .none, .none, .none, nofun⟩

end Settings

end HectocDuel
