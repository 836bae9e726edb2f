/-
  The other values that are written as JSON text.

  Names are plain strings and numbers plain numbers; records are objects.  A span
  of time is written in seconds and nanoseconds, of which a billion or more
  carry over into the seconds when it is read.

  * `toJson` makes the tree of a value, `ofJson` reads one.
-/
import HectocDuel.Hub.Room
import HectocDuel.Json.Reading
import HectocDuel.Settings
import HectocDuel.Store.Games

namespace HectocDuel

open Json

/-! ## Names and numbers -/

/-- A player as JSON. -/
def PlayerId.toJson (p : PlayerId) : Tree :=
  .ofText p.text

/-- Reads the name of a player. -/
def PlayerId.ofJson : Read PlayerId :=
  fun t => (string t).map PlayerId.mk

/-- A room as JSON. -/
def RoomId.toJson (r : RoomId) : Tree :=
  .ofText r.text

/-- Reads the name of a room. -/
def RoomId.ofJson : Read RoomId :=
  fun t => (string t).map RoomId.mk

/-- A game as JSON. -/
def GameId.toJson (g : GameId) : Tree :=
  .ofNat g.number

/-- Reads the number of a game. -/
def GameId.ofJson : Read GameId :=
  fun t => (natural wordBound "u64" t).map GameId.mk

/-- The state of a room as JSON. -/
def RoomState.toJson (s : RoomState) : Tree :=
  .ofText s.name

/-- Reads the state of a room. -/
def RoomState.ofJson : Read RoomState := fun t => do
  let name ← variant (RoomState.all.map RoomState.name) t
  match RoomState.all.find? (·.name = name) with
  | some s => return s
  | none => throw .malformed

/-! ## Puzzles -/

/-- Digits as JSON. -/
def Digits.toJson (ds : Digits) : Tree :=
  .ofText ds.text

/-- Reads digits. -/
def Digits.ofJson : Read Digits := fun t => do
  match Digits.parse (← string t) with
  | .ok ds => return ds
  | .error e => throw (.misfit (.refused e.message))

/-- A puzzle as JSON. -/
def Puzzle.toJson (p : Puzzle) : Tree :=
  .ofEntries [("problem", p.digits.toJson), ("solutions", .ofItems (p.solutions.map .ofText))]

/-- The fields of a puzzle that were read so far. -/
structure PuzzleFields where
  digits : Option Digits := none
  solutions : Option (List String) := none

/-- The shape of a puzzle. -/
def PuzzleFields.shape : Shape PuzzleFields Puzzle where
  name := "struct Puzzle"
  listName := "struct Puzzle with 2 elements"
  fields :=
    [.of "problem" true (·.digits) (fun f d => { f with digits := some d }) Digits.ofJson,
     .of "solutions" true (·.solutions) (fun f s => { f with solutions := some s }) (list string)]
  lenient := true
  empty := {}
  build
    | ⟨some digits, some solutions⟩ => .ok ⟨digits, solutions⟩
    | _ => .error .malformed

/-- Reads a puzzle. -/
def Puzzle.ofJson : Read Puzzle :=
  PuzzleFields.shape.read

/-! ## Submissions -/

/-- A recorded submission as JSON. -/
def SubmissionRecord.toJson (s : SubmissionRecord) : Tree :=
  .ofEntries
    [("gameId", s.game.toJson), ("playerId", s.submission.player.toJson),
     ("expression", .ofText s.submission.expression), ("correct", .bool s.submission.correct)]

/-- The fields of a recorded submission that were read so far. -/
structure SubmissionFields where
  game : Option GameId := none
  player : Option PlayerId := none
  expression : Option String := none
  correct : Option Bool := none

/-- The shape of a recorded submission. -/
def SubmissionFields.shape : Shape SubmissionFields SubmissionRecord where
  name := "struct SubmissionRecord"
  listName := "struct SubmissionRecord with 4 elements"
  fields :=
    [.of "gameId" true (·.game) (fun f g => { f with game := some g }) GameId.ofJson,
     .of "playerId" true (·.player) (fun f p => { f with player := some p }) PlayerId.ofJson,
     .of "expression" true (·.expression) (fun f e => { f with expression := some e }) string,
     .of "correct" true (·.correct) (fun f b => { f with correct := some b }) boolean]
  lenient := true
  empty := {}
  build
    | ⟨some game, some player, some expression, some correct⟩ =>
      .ok ⟨game, player, expression, correct⟩
    | _ => .error .malformed

/-- Reads a recorded submission. -/
def SubmissionRecord.ofJson : Read SubmissionRecord :=
  SubmissionFields.shape.read

/-! ## Settings -/

/-- The nanoseconds of a second. -/
def nanosPerSecond : Nat :=
  1000000000

/-- A span of time as JSON. -/
def Duration.toJson (d : Duration) : Tree :=
  .ofEntries
    [("secs", .ofNat (d.nanoseconds / nanosPerSecond)),
     ("nanos", .ofNat (d.nanoseconds % nanosPerSecond))]

/-- The fields of a span of time that were read so far. -/
structure DurationFields where
  secs : Option Nat := none
  nanos : Option Nat := none

/-- The shape of a span of time.  Unlike the other records it has no room for
    unknown keys. -/
def DurationFields.shape : Shape DurationFields Duration where
  name := "struct Duration"
  listName := "struct Duration"
  fields :=
    [.of "secs" true (·.secs) (fun f n => { f with secs := some n }) (natural wordBound "u64"),
     .of "nanos" true (·.nanos) (fun f n => { f with nanos := some n }) (natural UInt32.size "u32")]
  lenient := false
  empty := {}
  build
    | ⟨some secs, some nanos⟩ =>
      let total := secs * nanosPerSecond + nanos
      if total < wordBound * nanosPerSecond then .ok ⟨total⟩
      else .error (.misfit (.refused "overflow deserializing Duration"))
    | _ => .error .malformed

/-- Reads a span of time. -/
def Duration.ofJson : Read Duration :=
  DurationFields.shape.read

/-- The settings of a hub as JSON. -/
def HubSettings.toJson (s : HubSettings) : Tree :=
  .ofEntries
    [("outbound_capacity", .ofNat s.outboundCapacity),
     ("intake_capacity", .ofNat s.intakeCapacity),
     ("delivery_timeout", s.deliveryTimeout.toJson)]

/-- The settings of a hub that were read so far. -/
structure HubFields where
  outbound : Option Nat := none
  intake : Option Nat := none
  timeout : Option Duration := none

/-- The shape of the settings of a hub. -/
def HubFields.shape : Shape HubFields HubSettings where
  name := "struct HubConfig"
  listName := "struct HubConfig with 3 elements"
  fields :=
    [.of "outbound_capacity" true (·.outbound) (fun f n => { f with outbound := some n })
       (natural wordBound "usize"),
     .of "intake_capacity" true (·.intake) (fun f n => { f with intake := some n })
       (natural wordBound "usize"),
     .of "delivery_timeout" true (·.timeout) (fun f d => { f with timeout := some d })
       Duration.ofJson]
  lenient := true
  empty := {}
  build
    | ⟨some outbound, some intake, some timeout⟩ => .ok ⟨outbound, intake, timeout⟩
    | _ => .error .malformed

/-- Reads the settings of a hub. -/
def HubSettings.ofJson : Read HubSettings :=
  HubFields.shape.read

/-- The settings of a server as JSON. -/
def Settings.toJson (s : Settings) : Tree :=
  .ofEntries
    [("addr", .ofText s.address), ("auto_open_games", .bool s.autoOpenGames),
     ("hub", s.hub.toJson)]

/-- The settings of a server that were read so far. -/
structure SettingsFields where
  address : Option String := none
  autoOpen : Option Bool := none
  hub : Option HubSettings := none

/-- The shape of the settings of a server. -/
def SettingsFields.shape : Shape SettingsFields Settings where
  name := "struct ServerConfig"
  listName := "struct ServerConfig with 3 elements"
  fields :=
    [.of "addr" true (·.address) (fun f s => { f with address := some s }) string,
     .of "auto_open_games" true (·.autoOpen) (fun f b => { f with autoOpen := some b }) boolean,
     .of "hub" true (·.hub) (fun f h => { f with hub := some h }) HubSettings.ofJson]
  lenient := true
  empty := {}
  build
    | ⟨some address, some autoOpen, some hub⟩ => .ok ⟨address, autoOpen, hub⟩
    | _ => .error .malformed

/-- Reads the settings of a server. -/
def Settings.ofJson : Read Settings :=
  SettingsFields.shape.read

end HectocDuel
