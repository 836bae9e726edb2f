/-
  The server: connections, the hub and the books, step by step.

  A connection asks for a room; its game is looked up, its player registered and
  its session begun, each as a step of its own.  Events wait in line for the hub,
  and reports for those who keep the books.  The steps of all of these may come in
  any order.

  * `accept`, `advance`, `receive`, `takeEvent` and `takeReport` are the steps;
  * `settle` takes everything that waits, so that nothing is left to do.
-/
import HectocDuel.Hub.Step
import HectocDuel.Session
import HectocDuel.Store.Books
import HectocDuel.Target

namespace HectocDuel

/-- How far a connection has come. -/
inductive Stage where
  /-- The target was read. -/
  | asked (session : Session)
  /-- The game of the room was found. -/
  | found (session : Session) (game : GameId)
  /-- The player was registered, or could not be. -/
  | registered (session : Session)
  /-- The session has begun. -/
  | begun (session : Session)
  | ended
  deriving DecidableEq, Repr

/-- A server over a store with states of type `σ`. -/
structure Server (σ : Type) where
  store : σ
  hub : Hub := {}
  /-- How many connections were accepted. -/
  accepted : Nat := 0
  stages : Table ConnectionId Stage := .empty
  /-- The events that wait for the hub. -/
  intake : List Event := []
  /-- The reports that wait to be booked. -/
  reports : List Report := []

/-- What the hub reports by its effects. -/
def reportsOf (effects : List Effect) : List Report :=
  effects.filterMap fun
    | .report r => some r
    | _ => none

/-- The queues that are closed by effects. -/
def closedBy (effects : List Effect) : List QueueId :=
  effects.filterMap fun
    | .close q => some q
    | _ => none

/-- Tells a connection why it is turned away. -/
def turnAway (c : ConnectionId) (room : RoomId) (reason : String) : List Effect :=
  [.deliver c.queue (Notice.inRoom room (.text .error reason)), .close c.queue]

namespace Server

variable {σ : Type}

/-- Sets how far a connection has come. -/
def setStage (s : Server σ) (c : ConnectionId) (stage : Stage) : Server σ :=
  { s with stages := s.stages.insert c stage }

/-! ## Steps -/

/-- A connection with a target arrives. -/
def accept [Url.HostNames] (s : Server σ) (target : String) :
    ConnectionId × Server σ × List Effect :=
  let c : ConnectionId := ⟨s.accepted + 1⟩
  let s := { s with accepted := s.accepted + 1 }
  match parseTarget target with
  | .ok (room, player) => (c, s.setStage c (.asked ⟨room, player, c⟩), [])
  | .error e => (c, s.setStage c .ended, turnAway c ⟨""⟩ e.message)

/-- A connection that is not open yet goes one step on. -/
def advance (books : GameStore σ) (s : Server σ) (c : ConnectionId) : Server σ × List Effect :=
  match s.stages.get? c with
  | some (.asked session) =>
    match books.resolve session.room s.store with
    | (.ok game, store) => ({ s with store }.setStage c (.found session game), [])
    | (.error _, store) =>
      ({ s with store }.setStage c .ended, turnAway c session.room "room not found")
  | some (.found session game) =>
    let store := GameStore.perform (books.register game session.player) s.store
    ({ s with store }.setStage c (.registered session), [])
  | some (.registered session) =>
    ({ s with intake := s.intake ++ [session.joining] }.setStage c (.begun session), [])
  | _ => (s, [])

/-- Something arrives on an open connection. -/
def receive (s : Server σ) (c : ConnectionId) (i : Incoming) : Server σ :=
  match s.stages.get? c with
  | some (.begun session) =>
    let (e, goesOn) := session.react i
    let s := { s with intake := s.intake ++ [e] }
    if goesOn then s else s.setStage c .ended
  | _ => s

/-- The hub takes the next event. -/
def takeEvent (source : PuzzleSource) (s : Server σ) : Server σ × List Effect :=
  match s.intake with
  | [] => (s, [])
  | e :: intake =>
    let (hub, effects) := s.hub.step source e
    ({ s with hub, intake, reports := s.reports ++ reportsOf effects }, effects)

/-- The next report is booked. -/
def takeReport (books : GameStore σ) (s : Server σ) : Server σ :=
  match s.reports with
  | [] => s
  | r :: reports => { s with store := books.apply s.store r, reports }

/-! ## Nothing left to do -/

/-- The hub takes all events that wait. -/
def takeEvents (source : PuzzleSource) (s : Server σ) : Server σ × List Effect :=
  let (hub, effects) := s.hub.run source s.intake
  ({ s with hub, intake := [], reports := s.reports ++ reportsOf effects }, effects)

/-- All reports that wait are booked. -/
def takeReports (books : GameStore σ) (s : Server σ) : Server σ :=
  { s with store := s.reports.foldl books.apply s.store, reports := [] }

/-- A connection whose queue is closed is closed itself. -/
def hangUp (s : Server σ) (effects : List Effect) : Server σ :=
  (s.stages.keys.filter (·.queue ∈ closedBy effects)).foldl (receive · · .closed) s

/-- Takes everything that waits. -/
def settle (books : GameStore σ) (source : PuzzleSource) (s : Server σ) :
    Server σ × List Effect :=
  let (s, effects) := s.takeEvents source
  let (s, later) := (s.hangUp effects).takeEvents source
  (s.takeReports books, effects ++ later)

/-- A connection with a target arrives and goes as far as it can. -/
def connect [Url.HostNames] (books : GameStore σ) (source : PuzzleSource) (s : Server σ)
    (target : String) : ConnectionId × Server σ × List Effect :=
  let (c, s, first) := s.accept target
  let (s, second) := s.advance books c
  let (s, third) := s.advance books c
  let (s, fourth) := s.advance books c
  let (s, rest) := s.settle books source
  (c, s, first ++ second ++ third ++ fourth ++ rest)

/-- Something arrives on a connection, and all that follows from it happens. -/
def deliver (books : GameStore σ) (source : PuzzleSource) (s : Server σ) (c : ConnectionId)
    (i : Incoming) : Server σ × List Effect :=
  (s.receive c i).settle books source

end Server

end HectocDuel
