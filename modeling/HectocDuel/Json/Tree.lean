/-
  Trees of JSON values, also of texts that break off.

  Reading stops at the first lexeme that does not fit.  The tree then holds all
  that was read before it: each container around the break keeps the values
  read so far, the unfinished one included, and says that it was not closed.  A
  reader of the tree thus meets a wrong value before a later break, and the
  break before anything behind it.

  * `parse` builds the tree of a sequence of lexemes, without recursion on the
    depth of the text.
  * `Tree.lexemes` lists the lexemes of a tree.
-/
import HectocDuel.Json.Lexeme

namespace HectocDuel.Json

/-! ## Trees -/

/-- How an object ends. -/
inductive Ending where
  | closed
  /-- Another lexeme stands where the first key should be. -/
  | oddKey (l : Lexeme)
  | cut
  deriving DecidableEq, Repr

/-- A value as far as it was read.  The strings are kept as they are spelled. -/
inductive Tree where
  | null
  | bool (b : Bool)
  | number (n : Numeral)
  | string (body : List UInt8)
  | array (items : List Tree) (closed : Bool)
  | object (entries : List (List UInt8 × Tree)) (ending : Ending)
  /-- No value stands here. -/
  | broken
  deriving Repr

namespace Tree

/-- Whether the value was read to its end. -/
def complete : Tree → Bool
  | array _ closed => closed
  | object _ ending => ending = .closed
  | broken => false
  | _ => true

/-- The lexeme with which a value begins. -/
def head : Tree → Lexeme
  | null => .null
  | bool b => .bool b
  | number n => .number n
  | string body => .string body
  | array _ _ => .openBracket
  | object _ _ => .openBrace
  | broken => .fault

mutual
/-- The lexemes of a complete value. -/
def lexemes : Tree → List Lexeme
  | array items _ => .openBracket :: (itemLexemes items ++ [.closeBracket])
  | object entries _ => .openBrace :: (entryLexemes entries ++ [.closeBrace])
  | null => [.null]
  | bool b => [.bool b]
  | number n => [.number n]
  | string body => [.string body]
  | broken => [.fault]

/-- The lexemes between the brackets of an array. -/
def itemLexemes : List Tree → List Lexeme
  | [] => []
  | [t] => t.lexemes
  | t :: ts => t.lexemes ++ .comma :: itemLexemes ts

/-- The lexemes between the braces of an object. -/
def entryLexemes : List (List UInt8 × Tree) → List Lexeme
  | [] => []
  | [(key, t)] => .string key :: .colon :: t.lexemes
  | (key, t) :: es => .string key :: .colon :: (t.lexemes ++ .comma :: entryLexemes es)
end

end Tree

/-! ## Reading a tree -/

/-- A container whose end was not met yet, with what it holds so far. -/
inductive Open where
  /-- An array whose next item is being read. -/
  | array (items : List Tree)
  /-- An object whose entry at `key` is being read. -/
  | member (entries : List (List UInt8 × Tree)) (key : List UInt8)

/-- Ends all open containers, the innermost first, around a value that was
    just read. -/
def unwind (t : Tree) : List Open → Tree
  | [] => t
  | .array items :: opens => unwind (.array (items ++ [t]) false) opens
  | .member entries key :: opens => unwind (.object (entries ++ [(key, t)]) .cut) opens

/-- What may come next; the open containers are listed from the innermost. -/
inductive Progress where
  /-- A value, or the end of an array without items. -/
  | value (opens : List Open)
  /-- A key, or the end of an object without entries. -/
  | key (entries : List (List UInt8 × Tree)) (opens : List Open)
  /-- The colon behind a key. -/
  | colon (entries : List (List UInt8 × Tree)) (key : List UInt8) (opens : List Open)
  /-- A comma or the end of the innermost container, behind a value. -/
  | after (t : Tree) (opens : List Open)
  /-- Nothing: a lexeme did not fit. -/
  | stopped (t : Tree)

namespace Progress

/-- The tree, if nothing more is read. -/
def tree : Progress → Tree
  | value opens => unwind .broken opens
  | key entries opens => unwind (.object entries .cut) opens
  | colon entries k opens => unwind (.object (entries ++ [(k, .broken)]) .cut) opens
  | after t opens => unwind t opens
  | stopped t => t

/-- Reads the beginning of a value. -/
def begin (opens : List Open) : Lexeme → Progress
  | .null => after .null opens
  | .bool b => after (.bool b) opens
  | .number n => after (.number n) opens
  | .string body => after (.string body) opens
  | .openBracket => value (.array [] :: opens)
  | .openBrace => key [] opens
  | .closeBracket =>
    match opens with
    | .array [] :: opens => after (.array [] true) opens
    | opens => stopped (value opens).tree
  | _ => stopped (value opens).tree

/-- Reads a key. -/
def beginEntry (entries : List (List UInt8 × Tree)) (opens : List Open) : Lexeme → Progress
  | .string body => colon entries body opens
  | l =>
    match entries with
    | [] =>
      if l = .closeBrace then after (.object [] .closed) opens
      else stopped (unwind (.object [] (.oddKey l)) opens)
    | entries => stopped (key entries opens).tree

/-- Reads what follows a value. -/
def proceed (t : Tree) : List Open → Lexeme → Progress
  | .array items :: opens, .comma => value (.array (items ++ [t]) :: opens)
  | .array items :: opens, .closeBracket => after (.array (items ++ [t]) true) opens
  | .member entries k :: opens, .comma => key (entries ++ [(k, t)]) opens
  | .member entries k :: opens, .closeBrace =>
    after (.object (entries ++ [(k, t)]) .closed) opens
  | opens, _ => stopped (after t opens).tree

/-- Reads one lexeme. -/
def step : Progress → Lexeme → Progress
  | value opens, l => begin opens l
  | key entries opens, l => beginEntry entries opens l
  | colon entries k opens, l =>
    if l = .colon then value (.member entries k :: opens)
    else stopped (colon entries k opens).tree
  | after t opens, l => proceed t opens l
  | stopped t, _ => stopped t

/-- Whether exactly one value was read. -/
def isWhole : Progress → Bool
  | after _ [] => true
  | _ => false

end Progress

/-- The tree at the front of a sequence of lexemes, and whether it is complete
    with nothing behind it. -/
def parse (ls : List Lexeme) : Tree × Bool :=
  let p := ls.foldl Progress.step (.value [])
  (p.tree, p.isWhole)

end HectocDuel.Json
