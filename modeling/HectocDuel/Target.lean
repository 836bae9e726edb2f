/-
  Request targets.

  A client asks for a room in the path of its request and names its player in the
  query.

  * `parseTarget` reads both from a target.
-/
import HectocDuel.Text.Cut
import HectocDuel.Url.Percent
import HectocDuel.Url.Reference
import HectocDuel.Wire.Message

namespace HectocDuel

/-- Why a target asks for no room. -/
inductive TargetError where
  /-- The path is not the one that leads to a room. -/
  | unknownEndpoint
  /-- The path names no room. -/
  | missingRoom
  /-- The query names no player. -/
  | missingPlayer
  deriving DecidableEq, Repr

/-- The error in words. -/
def TargetError.message : TargetError → String
  | unknownEndpoint => "unknown endpoint"
  | missingRoom => "room ID is required"
  | missingPlayer => "user ID is required"

/-- The room that a path names, without blanks around it, which may be empty; none if
    the path does not lead to a room. -/
def roomOfPath? (segments : List (List Char)) : Option (List Char) :=
  match segments.map String.ofList with
  | ["api", "v1", "ws", "rooms", room, "join"] => some (Text.trimChars room.toList)
  | ["api", "v1", "ws", "rooms", "join"] => some []
  | _ => none

/-- The player that a query names, without blanks around the name. -/
def playerOfQuery? (query : List Char) : Option String :=
  ((Url.queryValue? (Text.bytesOf (String.ofList query)) "userId").map Text.trim).filter (· ≠ "")

/-- The room and the player that a target names. -/
def parseTarget [Url.HostNames] (target : String) : Except TargetError (RoomId × PlayerId) :=
  match Url.locate? target with
  | none => .error .unknownEndpoint
  | some location =>
    match roomOfPath? location.segments with
    | none => .error .unknownEndpoint
    | some [] => .error .missingRoom
    | some room =>
      match location.query.bind playerOfQuery? with
      | none => .error .missingPlayer
      | some player => .ok (⟨String.ofList room⟩, ⟨player⟩)

end HectocDuel
