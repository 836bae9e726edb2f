/-
  Reading values of given types from JSON text.

  A text can be malformed, or it can be well formed as far as it was read and
  hold something else than was asked for.  The first of these problems from the
  left is the error.

  * `Read` is a reader of trees; `natural`, `list`, `variant` and their like
    read single values;
  * `Shape` describes a record by its fields, and `Shape.read` reads one from an
    object or from an array;
  * `decode` reads a whole text, `encode` writes one.
-/
import HectocDuel.Decimal.Shortest
import HectocDuel.Json.Escape
import HectocDuel.Json.Number
import HectocDuel.Json.Tree
import HectocDuel.Text.Quoted

namespace HectocDuel.Json

/-! ## Errors -/

/-- A value that stands where another was expected. -/
inductive Found where
  | null
  | bool (b : Bool)
  | integer (n : Int)
  | double (x : Float)
  | string (s : String)
  | sequence
  | map

/-- What does not fit in a text that is well formed so far. -/
inductive Misfit where
  | wrongType (found : Found) (expected : String)
  /-- A number outside the range of its type. -/
  | wrongValue (n : Int) (expected : String)
  /-- An array with too few items. -/
  | wrongLength (n : Nat) (expected : String)
  | unknownVariant (name : String) (known : List String)
  | unknownField (name : String) (known : List String)
  | missingField (name : String)
  | duplicateField (name : String)
  /-- The value is of its type and refused for the given reason. -/
  | refused (reason : String)

/-- Why a text cannot be read. -/
inductive DecodeError where
  | malformed
  | misfit (m : Misfit)

/-- Doubles are written with a point up to sixteen digits before it and five
    behind it, and with a signed exponent of at least two digits beyond. -/
def doubleStyle : Decimal.Style :=
  ⟨-5, 15, 2⟩

/-- A text between backquotes. -/
def backquoted (s : String) : String :=
  String.singleton (Char.ofNat 0x60) ++ s ++ String.singleton (Char.ofNat 0x60)

/-- What was found, in words. -/
def Found.words : Found → String
  | null => "null"
  | bool b => "boolean " ++ backquoted (if b then "true" else "false")
  | integer n => "integer " ++ backquoted (toString n)
  | double x => "floating point " ++ backquoted (doubleStyle.text x)
  | string s => "string " ++ Text.quote s
  | sequence => "sequence"
  | map => "map"

/-- A list of names that were expected. -/
def oneOf (known : List String) : String :=
  match known.map backquoted with
  | [] => "nothing"
  | [a] => a
  | [a, b] => a ++ " or " ++ b
  | names => "one of " ++ ", ".intercalate names

/-- What does not fit, in words. -/
def Misfit.message : Misfit → String
  | wrongType found expected => "invalid type: " ++ found.words ++ ", expected " ++ expected
  | wrongValue n expected =>
    "invalid value: integer " ++ backquoted (toString n) ++ ", expected " ++ expected
  | wrongLength n expected => "invalid length " ++ toString n ++ ", expected " ++ expected
  | unknownVariant name known =>
    "unknown variant " ++ backquoted name ++ ", expected " ++ oneOf known
  | unknownField name known => "unknown field " ++ backquoted name ++ ", expected " ++ oneOf known
  | missingField name => "missing field " ++ backquoted name
  | duplicateField name => "duplicate field " ++ backquoted name
  | refused reason => reason

/-! ## Single values -/

/-- A reader of values of one type. -/
abbrev Read (α : Type) :=
  Tree → Except DecodeError α

/-- The string with a given spelling. -/
def readText (body : List UInt8) : Except DecodeError String :=
  match text? body with
  | some s => .ok s
  | none => .error .malformed

/-- The error at a value that begins with a lexeme, where something else is
    expected. -/
def mismatch (expected : String) (l : Lexeme) : DecodeError :=
  let found : Option Found :=
    match l with
    | .null => some .null
    | .bool b => some (.bool b)
    | .number n => n.number?.map fun
      | .integer n => .integer n
      | .double x => .double x
    | .string body => (text? body).map .string
    | .openBracket => some .sequence
    | .openBrace => some .map
    | _ => none
  match found with
  | some found => .misfit (.wrongType found expected)
  | none => .malformed

/-- Reads a string. -/
def string : Read String
  | .string body => readText body
  | t => .error (mismatch "a string" t.head)

/-- Reads a truth value. -/
def boolean : Read Bool
  | .bool b => .ok b
  | t => .error (mismatch "a boolean" t.head)

/-- Reads the value that stands for nothing. -/
def unit : Read Unit
  | .null => .ok ()
  | t => .error (mismatch "unit" t.head)

/-- Reads a natural number below a bound. -/
def natural (bound : Nat) (expected : String) : Read Nat
  | .number n =>
    match n.number? with
    | some (.integer i) =>
      if 0 ≤ i ∧ i < bound then .ok i.toNat else .error (.misfit (.wrongValue i expected))
    | _ => .error (mismatch expected (.number n))
  | t => .error (mismatch expected t.head)

/-- Reads a value, or nothing. -/
def nullable {α : Type} (read : Read α) : Read (Option α)
  | .null => .ok none
  | t => (read t).map some

/-- Reads an array of values. -/
def list {α : Type} (read : Read α) : Read (List α)
  | .array items closed => do
    let as ← items.mapM read
    if closed then return as else throw .malformed
  | t => .error (mismatch "a sequence" t.head)

/-- Reads one of the known names: a string, or the key of an object whose only
    value is nothing. -/
def variant (known : List String) : Read String
  | .string body => do check (← readText body)
  | .object ((key, t) :: entries) ending => do
    let name ← check (← readText key)
    unit t
    if entries = [] ∧ ending = .closed then return name else throw .malformed
  | .object [] (.oddKey l) => .error (mismatch "variant identifier" l)
  | _ => .error .malformed
where
  check (name : String) : Except DecodeError String :=
    if name ∈ known then .ok name else .error (.misfit (.unknownVariant name known))

/-! ## Records -/

/-- A field of a record.  The values read so far are kept in slots of type `σ`. -/
structure RecordField (σ : Type) where
  name : String
  isFilled : σ → Bool
  fill : Tree → σ → Except DecodeError σ
  required : Bool

/-- A field whose value is kept in one slot. -/
def RecordField.of {σ τ : Type} (name : String) (required : Bool) (slot : σ → Option τ)
    (put : σ → τ → σ) (read : Read τ) : RecordField σ where
  name := name
  isFilled slots := (slot slots).isSome
  fill t slots := (read t).map (put slots)
  required := required

/-- A record: how its fields are read and how it is made of their values. -/
structure Shape (σ α : Type) where
  /-- What is expected, in words. -/
  name : String
  /-- What is expected of an array with too few items, in words. -/
  listName : String
  fields : List (RecordField σ)
  /-- Whether keys other than those of the fields are passed over. -/
  lenient : Bool
  empty : σ
  build : σ → Except DecodeError α

namespace Shape

variable {σ α : Type}

/-- Reads an entry of an object. -/
def readEntry (s : Shape σ α) (slots : σ) (entry : List UInt8 × Tree) :
    Except DecodeError σ := do
  let key ← readText entry.1
  match s.fields.find? (·.name = key) with
  | some f =>
    if f.isFilled slots then throw (.misfit (.duplicateField key))
    else f.fill entry.2 slots
  | none =>
    if !s.lenient then throw (.misfit (.unknownField key (s.fields.map (·.name))))
    else if entry.2.complete then return slots
    else throw .malformed

/-- Reads the items of an array into fields, `n` of which were read before, and
    gives the items left over. -/
def readItems (s : Shape σ α) (closed : Bool) :
    List (RecordField σ) → Nat → List Tree → σ → Except DecodeError (σ × List Tree)
  | [], _, items, slots => .ok (slots, items)
  | f :: fs, n, t :: items, slots => do
    let slots ← f.fill t slots
    s.readItems closed fs (n + 1) items slots
  | f :: fs, n, [], slots =>
    if !closed then .error .malformed
    else if f.required then .error (.misfit (.wrongLength n s.listName))
    else s.readItems closed fs (n + 1) [] slots

/-- The first field that has to be given and was not. -/
def missing? (s : Shape σ α) (slots : σ) : Option (RecordField σ) :=
  s.fields.find? fun f => f.required && !f.isFilled slots

/-- Reads a record from an object, or from an array with the fields in order. -/
def read (s : Shape σ α) : Read α
  | .object entries ending => do
    let slots ← entries.foldlM s.readEntry s.empty
    if ending ≠ .closed then throw .malformed
    match s.missing? slots with
    | some f => throw (.misfit (.missingField f.name))
    | none => s.build slots
  | .array items closed => do
    let (slots, rest) ← s.readItems closed s.fields 0 items s.empty
    let a ← s.build slots
    if rest.isEmpty && closed then return a else throw .malformed
  | t => .error (mismatch s.name t.head)

end Shape

/-! ## Texts -/

/-- Reads a whole text. -/
def decode {α : Type} (read : Read α) (text : List UInt8) : Except DecodeError α :=
  let (t, whole) := parse (lex text)
  match read t with
  | .ok a => if whole then .ok a else .error .malformed
  | .error e => .error e

/-! ## Writing -/

/-- A string as a value. -/
def Tree.ofText (s : String) : Tree :=
  .string (spell s)

/-- A natural number as a value. -/
def Tree.ofNat (n : Nat) : Tree :=
  .number (.ofNat n)

/-- An array of values. -/
def Tree.ofItems (items : List Tree) : Tree :=
  .array items true

/-- An object with the given entries. -/
def Tree.ofEntries (entries : List (String × Tree)) : Tree :=
  .object (entries.map fun (name, t) => (spell name, t)) .closed

/-- The text of a value. -/
def encode (t : Tree) : List UInt8 :=
  render t.lexemes

end HectocDuel.Json
