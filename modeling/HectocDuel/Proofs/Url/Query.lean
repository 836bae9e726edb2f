/-
  Queries that are written as forms.

  A name or value is written byte by byte: letters, digits and four marks as they are, a
  space as a plus sign, and all else escaped (`formEncode`).

  * `formText_formEncode`: it is read back as it was, whatever it is;
  * `queryValue?_formPair`: and so is the value of a name, as no mark between names and values
    is written for either.
-/
import HectocDuel.Proofs.Text.Split
import HectocDuel.Proofs.Url.Percent

namespace HectocDuel.Url

open Text

/-! ## Writing -/

/-- Whether a byte is written as it is in a form. -/
def isFormByte (b : UInt8) : Bool :=
  (Char.ofNat b.toNat).isAlphanum || b = 0x2a || b = 0x2d || b = 0x2e || b = 0x5f

/-- A byte as it is written in a form. -/
def formByte (b : UInt8) : List Char :=
  if b = 0x20 then ['+'] else if isFormByte b then [Char.ofNat b.toNat] else escapeByte b

/-- A name or value as it is written in a form. -/
def formEncode (s : String) : List Char :=
  (bytesOf s).flatMap formByte

/-- A name and its value as they are written in a form. -/
def formPair (name value : String) : List Char :=
  formEncode name ++ '=' :: formEncode value

/-! ## Reading -/

/-- Nothing that separates names and values is written for a byte, and nothing that ends them. -/
theorem formByte_spec (b : UInt8) :
    (formByte b).all (fun c => ' ' < c && c ≠ '#') = true ∧
      ((formByte b).flatMap String.utf8EncodeChar).all (fun x => x ≠ 0x26 && x ≠ 0x3d) = true :=
  forall_byte (p := fun b => (formByte b).all (fun c => ' ' < c && c ≠ '#') = true ∧
    ((formByte b).flatMap String.utf8EncodeChar).all (fun x => x ≠ 0x26 && x ≠ 0x3d) = true)
    (by decide +kernel) b

/-- Spaces apart, what is written for a byte is the byte or its escape. -/
theorem map_formByte (b : UInt8) :
    ((formByte b).flatMap String.utf8EncodeChar).map (fun x => if x = 0x2b then 0x20 else x) =
      if b = 0x20 || isFormByte b then [b] else escapeBytes b :=
  forall_byte (p := fun b =>
    ((formByte b).flatMap String.utf8EncodeChar).map (fun x => if x = 0x2b then 0x20 else x) =
      if b = 0x20 || isFormByte b then [b] else escapeBytes b) (by decide +kernel) b

/-- **A name or value that is written in a form is read back.** -/
theorem formText_formEncode (s : String) :
    formText ((formEncode s).flatMap String.utf8EncodeChar) = s := by
  -- Plus signs become spaces before escapes are resolved; none stands in an escape.
  have hbytes : ((formEncode s).flatMap String.utf8EncodeChar).map
      (fun x => if x = 0x2b then 0x20 else x) =
        respell (fun b => b = 0x20 || isFormByte b) (bytesOf s) := by
    rw [formEncode, List.flatMap_assoc, List.map_flatMap]
    exact List.flatMap_congr fun b _ => map_formByte b
  rw [formText, hbytes, decode_respell_of_escaped rfl, ofBytesLossy_bytesOf]

theorem bounds_of_mem_formEncode {s : String} {c : Char} (hc : c ∈ formEncode s) :
    ' ' < c ∧ c ≠ '#' := by
  obtain ⟨b, -, hc⟩ := List.mem_flatMap.1 hc
  simpa using List.all_eq_true.1 (formByte_spec b).1 c hc

theorem not_separator_of_mem_formEncode {s : String} {x : UInt8}
    (hx : x ∈ (formEncode s).flatMap String.utf8EncodeChar) : x ≠ 0x26 ∧ x ≠ 0x3d := by
  rw [formEncode, List.flatMap_assoc] at hx
  obtain ⟨b, -, hx⟩ := List.mem_flatMap.1 hx
  simpa using List.all_eq_true.1 (formByte_spec b).2 x hx

/-- **The value that is written for a name is the one that is read.** -/
theorem queryValue?_formPair (name value : String) :
    queryValue? (bytesOf (String.ofList (formPair name value))) name = some value := by
  have hbytes : bytesOf (String.ofList (formPair name value)) =
      (formEncode name).flatMap String.utf8EncodeChar ++
        0x3d :: (formEncode value).flatMap String.utf8EncodeChar := by
    rw [bytesOf_eq, String.toList_ofList, formPair, List.flatMap_append]
    rfl
  have hsingle : ∀ x ∈ (formEncode name).flatMap String.utf8EncodeChar ++
      0x3d :: (formEncode value).flatMap String.utf8EncodeChar, decide (x = 0x26) = false := by
    rw [List.forall_mem_append, List.forall_mem_cons]
    exact ⟨fun x hx => decide_eq_false (not_separator_of_mem_formEncode hx).1, rfl,
      fun x hx => decide_eq_false (not_separator_of_mem_formEncode hx).1⟩
  have hcut := cut_append (p := fun x => decide (x = 0x3d))
    (fun x hx => decide_eq_false (not_separator_of_mem_formEncode (s := name) hx).2)
    (decide_eq_true rfl) ((formEncode value).flatMap String.utf8EncodeChar)
  rw [queryValue?, queryPairs, hbytes, pieces_of_forall_not hsingle, List.filter_cons_of_pos]
  · simp only [List.filter_nil, List.map_cons, List.map_nil, hcut, Option.getD_some,
      formText_formEncode, List.lookup_cons_self]
  · rw [Bool.not_eq_true', List.isEmpty_eq_false_iff]
    exact List.append_ne_nil_of_right_ne_nil _ (List.cons_ne_nil _ _)

end HectocDuel.Url
