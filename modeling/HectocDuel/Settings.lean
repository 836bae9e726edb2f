/-
  Settings of a server.

  Each setting has a default.  The environment may hold a text for it; blanks
  around the text do not count, and a text that is no value of the setting is
  passed over.  An address is taken as it stands unless it is blank.

  * `Settings.ofEnvironment` reads the settings;
  * `addressError?` says what is wrong with an address.
-/
import HectocDuel.Text.Cut

namespace HectocDuel

/-! ## Settings -/

/-- Numbers of places are below this bound, as are seconds. -/
def wordBound : Nat :=
  UInt64.size

/-- A span of time in nanoseconds. -/
structure Duration where
  nanoseconds : Nat
  deriving DecidableEq, Repr

/-- The span of so many milliseconds. -/
def Duration.ofMillis (n : Nat) : Duration :=
  ⟨n * 1000000⟩

/-- Settings of the hub. -/
structure HubSettings where
  /-- Places in the outgoing queue of a client. -/
  outboundCapacity : Nat := 10
  /-- Places in the queue of events. -/
  intakeCapacity : Nat := 32
  /-- How long a message waits for a place in an outgoing queue. -/
  deliveryTimeout : Duration := .ofMillis 50
  deriving DecidableEq, Repr

/-- Settings of a server. -/
structure Settings where
  /-- Where the server listens. -/
  address : String := "0.0.0.0:8080"
  /-- Whether any room opens a game when it is first asked for. -/
  autoOpenGames : Bool := true
  hub : HubSettings := {}
  deriving DecidableEq, Repr

/-! ## Reading values -/

/-- A natural number below `wordBound`: decimal digits, perhaps behind a plus
    sign. -/
def readWord? (s : String) : Option Nat :=
  let digits : List Char :=
    match s.toList with
    | '+' :: cs => cs
    | cs => cs
  let n := digits.foldl (fun n c => 10 * n + (c.toNat - '0'.toNat)) 0
  if digits ≠ [] ∧ digits.all Char.isDigit ∧ n < wordBound then some n else none

/-- A truth value by its name. -/
def readBool? (s : String) : Option Bool :=
  if s = "true" then some true else if s = "false" then some false else none

/-- The value that a text denotes once blanks around it are removed, or else the
    default. -/
def valueOr {α : Type} (read? : String → Option α) (default : α) (text : Option String) : α :=
  (text.bind fun s => read? (Text.trim s)).getD default

namespace Settings

/-- The settings that an environment asks for. -/
def ofEnvironment (lookup : String → Option String) : Settings :=
  let defaults : Settings := {}
  { address := ((lookup "HECTOCLASH_ADDR").filter (Text.trim · ≠ "")).getD defaults.address
    autoOpenGames :=
      valueOr readBool? defaults.autoOpenGames (lookup "HECTOCLASH_AUTO_OPEN_GAMES")
    hub :=
      { outboundCapacity :=
          valueOr readWord? defaults.hub.outboundCapacity
            (lookup "HECTOCLASH_OUTBOUND_CAPACITY")
        intakeCapacity :=
          valueOr readWord? defaults.hub.intakeCapacity (lookup "HECTOCLASH_INTAKE_CAPACITY")
        deliveryTimeout :=
          valueOr (fun s => (readWord? s).map Duration.ofMillis)
            defaults.hub.deliveryTimeout (lookup "HECTOCLASH_DELIVERY_TIMEOUT_MS") } }

end Settings

/-! ## Addresses -/

/-- Why a server cannot listen on an address. -/
inductive AddressError where
  /-- What follows the last colon is no port. -/
  | badPort
  /-- There is no colon. -/
  | noPort
  deriving DecidableEq, Repr

/-- The error in words. -/
def AddressError.message : AddressError → String
  | badPort => "bind failed: invalid port value"
  | noPort => "bind failed: invalid socket address"

/-- What is wrong with the port of an address, if anything is. -/
def addressError? (address : String) : Option AddressError :=
  match Text.cutLast? (· = ':') address.toList with
  | none => some .noPort
  | some (_, port) =>
    if (readWord? (String.ofList port)).any (· < UInt16.size) then none else some .badPort

end HectocDuel
