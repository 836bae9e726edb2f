/-
  Messages as JSON text.

  A frame is a flat object with the fields `type`, `content`, `roomId` and
  `senderId`, in this order; a message without sender has no `senderId`.  When
  a frame is read, a content that is missing or null is empty, a room that is
  missing is the one without a name, and a body that cannot be made of kind and
  content is refused once the frame is complete.

  * `Message.encode` writes a frame, `Message.decode` reads one.
-/
import HectocDuel.Json.Reading
import HectocDuel.Wire.Message

namespace HectocDuel

open Json

/-! ## Writing -/

/-- The frame of a message. -/
def Message.toJson (m : Message) : Tree :=
  .ofEntries <|
    [("type", .ofText m.body.kind.name), ("content", .ofText m.body.content),
      ("roomId", .ofText m.room.text)] ++
    match m.sender with
    | some p => [("senderId", .ofText p.text)]
    | none => []

/-- The text of a message. -/
def Message.encode (m : Message) : List UInt8 :=
  Json.encode m.toJson

/-! ## Reading -/

/-- Reads the name of a kind. -/
def Kind.ofJson : Read Kind := fun t => do
  let name ← variant (Kind.all.map Kind.name) t
  match Kind.ofName? name with
  | some k => return k
  | none => throw .malformed

/-- The fields of a frame that were read so far. -/
structure Frame where
  kind : Option Kind := none
  content : Option (Option String) := none
  room : Option String := none
  sender : Option (Option String) := none

namespace Frame

/-- The fields of a frame, in order. -/
def fields : List (RecordField Frame) :=
  [.of "type" true (·.kind) (fun f k => { f with kind := some k }) Kind.ofJson,
   .of "content" false (·.content) (fun f s => { f with content := some s }) (nullable string),
   .of "roomId" false (·.room) (fun f s => { f with room := some s }) string,
   .of "senderId" false (·.sender) (fun f s => { f with sender := some s }) (nullable string)]

/-- The shape of a frame. -/
def shape : Shape Frame Frame where
  name := "struct WireFrame"
  listName := "struct WireFrame with 4 elements"
  fields := fields
  lenient := true
  empty := {}
  build := .ok

/-- The message of a frame whose kind was given. -/
def message (f : Frame) : Except DecodeError Message :=
  match f.kind with
  | none => .error .malformed
  | some kind =>
    match Body.ofParts kind ((f.content.getD none).getD "") with
    | .ok body => .ok ⟨body, ⟨f.room.getD ""⟩, (f.sender.getD none).map PlayerId.mk⟩
    | .error e => .error (.misfit (.refused e.message))

end Frame

/-- Reads a message. -/
def Message.ofJson : Read Message := fun t => do
  (← Frame.shape.read t).message

/-- Reads a text as a message. -/
def Message.decode (text : List UInt8) : Except DecodeError Message :=
  Json.decode Message.ofJson text

end HectocDuel
