/-
  Messages between players and the server.

  Players and rooms bring their own names, which may be any text; connections and
  games are numbered by the server.

  A message has a body, and names a room and, if it has one, its sender.  The
  body is a text of some kind, the wish to leave, or the digits of a puzzle.
  On the wire a body is its kind and a content, which is always a text.

  * `Body.ofParts` makes a body of a kind and a content; only the digits of a
    puzzle can be refused.
-/
import HectocDuel.Puzzle.Digits

namespace HectocDuel

/-! ## Names -/

/-- The name by which a player is known. -/
structure PlayerId where
  text : String
  deriving DecidableEq, Repr, Inhabited

/-- The name of a room. -/
structure RoomId where
  text : String
  deriving DecidableEq, Repr, Inhabited

/-- The number of a connection. -/
structure ConnectionId where
  number : Nat
  deriving DecidableEq, Repr, Inhabited

/-- The number of a game on record. -/
structure GameId where
  number : Nat
  deriving DecidableEq, Repr, Inhabited

/-- A connection as it is shown. -/
def ConnectionId.label (c : ConnectionId) : String :=
  "conn-" ++ toString c.number

/-- A game as it is shown. -/
def GameId.label (g : GameId) : String :=
  "game-" ++ toString g.number

/-! ## Kinds -/

/-- The kinds of messages that carry a text. -/
inductive TextKind where
  | joinSuccess
  | leaveSuccess
  | opponentLeft
  | submit
  | roomCreated
  | roomFull
  | ended
  | error
  | wrongSubmission
  | correctSubmission
  deriving DecidableEq, Repr

/-- The kinds of messages. -/
inductive Kind where
  | text (k : TextKind)
  | leave
  | puzzleAssign
  deriving DecidableEq, Repr

/-- The kinds, in the order in which they are listed to clients. -/
def Kind.all : List Kind :=
  [.text .joinSuccess, .leave, .text .leaveSuccess, .text .opponentLeft, .text .submit,
    .text .roomCreated, .text .roomFull, .text .ended, .text .error, .text .wrongSubmission,
    .puzzleAssign, .text .correctSubmission]

/-- The name of a kind on the wire. -/
def Kind.name : Kind → String
  | text .joinSuccess => "join_success"
  | text .leaveSuccess => "leave_success"
  | text .opponentLeft => "opponent_left"
  | text .submit => "submit"
  | text .roomCreated => "room_created"
  | text .roomFull => "room_full"
  | text .ended => "end"
  | text .error => "error"
  | text .wrongSubmission => "wrong_submission"
  | text .correctSubmission => "correct_submission"
  | leave => "leave"
  | puzzleAssign => "puzzle_assign"

/-- The kind with a given name. -/
def Kind.ofName? (name : String) : Option Kind :=
  Kind.all.find? (·.name = name)

/-! ## Bodies -/

/-- What a message says. -/
inductive Body where
  | text (kind : TextKind) (content : String)
  | leave
  | puzzleAssign (digits : Digits)
  deriving DecidableEq

/-- Why a kind and a content make no message. -/
inductive MessageError where
  /-- The content does not write the digits of a puzzle. -/
  | badDigits (e : DigitsError)
  /-- For a reason given elsewhere. -/
  | other (reason : String)
  deriving DecidableEq, Repr

/-- The error in words. -/
def MessageError.message : MessageError → String
  | badDigits e => "invalid message: puzzle_assign: " ++ e.message
  | other reason => "invalid message: " ++ reason

namespace Body

/-- The kind of a body. -/
def kind : Body → Kind
  | text k _ => .text k
  | leave => .leave
  | puzzleAssign _ => .puzzleAssign

/-- The content that a body is sent with. -/
def content : Body → String
  | text _ s => s
  | leave => ""
  | puzzleAssign digits => digits.text

/-- The body of a kind with a content.  What is said when leaving is dropped. -/
def ofParts : Kind → String → Except MessageError Body
  | .text k, content => .ok (.text k content)
  | .leave, _ => .ok .leave
  | .puzzleAssign, content =>
    match Digits.parse content with
    | .ok digits => .ok (.puzzleAssign digits)
    | .error e => .error (.badDigits e)

end Body

/-! ## Messages -/

/-- A message, with the room it belongs to and its sender, if it names one. -/
structure Message where
  body : Body
  room : RoomId
  sender : Option PlayerId := none
  deriving DecidableEq

end HectocDuel
