/-
  Outgoing queues.

  A queue has a place for at least one message.  A message that finds no place is
  dropped.  When the hub closes a queue, the messages in it can still be read;
  when its reader goes away, they are lost and nothing more is taken.

  * `Outbox.send`, `Outbox.close` and `Outbox.abandon` are what happens to a
    queue, `Outbox.drain` is what its reader does;
  * `Outboxes.apply` brings the effects of the hub to the queues, and
    `Outboxes.drain` reads several of them.
-/
import HectocDuel.Hub.Event

namespace HectocDuel

/-! ## One queue -/

/-- An outgoing queue. -/
structure Outbox where
  capacity : Nat
  capacity_pos : 0 < capacity
  /-- The messages that wait to be read. -/
  waiting : List Message := []
  isClosed : Bool := false
  /-- Whether the reader has gone away. -/
  isAbandoned : Bool := false
  /-- Whether the reader has seen the end. -/
  isEnded : Bool := false

namespace Outbox

/-- An empty queue of the given capacity, or of one place if it is zero. -/
def ofCapacity (n : Nat) : Outbox :=
  { capacity := max n 1, capacity_pos := by omega }

/-- Adds a message, if the queue takes any and has a place. -/
def send (o : Outbox) (m : Message) : Outbox :=
  if o.isClosed || o.isAbandoned || o.capacity ≤ o.waiting.length then o
  else { o with waiting := o.waiting ++ [m] }

/-- Closes the queue. -/
def close (o : Outbox) : Outbox :=
  { o with isClosed := true }

/-- Lets the reader go away. -/
def abandon (o : Outbox) : Outbox :=
  { o with isAbandoned := true, waiting := [] }

/-- What a reader finds in a queue. -/
structure Reading where
  messages : List Message := []
  /-- Whether the end of the queue was found, which happens once. -/
  ended : Bool := false

/-- Reads all that is in the queue, and its end if it is closed. -/
def drain (o : Outbox) : Reading × Outbox :=
  if o.isAbandoned then ({}, o)
  else
    (⟨o.waiting, o.isClosed && !o.isEnded⟩, { o with waiting := [], isEnded := o.isClosed })

end Outbox

/-! ## All queues -/

/-- The outgoing queues by their names. -/
abbrev Outboxes :=
  Table QueueId Outbox

namespace Outboxes

/-- Changes one queue. -/
def change (os : Outboxes) (q : QueueId) (f : Outbox → Outbox) : Outboxes :=
  match os.get? q with
  | some o => os.insert q (f o)
  | none => os

/-- Brings an effect of the hub to the queue it is for. -/
def apply (os : Outboxes) : Effect → Outboxes
  | .deliver q m => os.change q (·.send m)
  | .close q => os.change q Outbox.close
  | _ => os

/-- Reads some of the queues, in order. -/
def drain (os : Outboxes) : List QueueId → List (QueueId × Outbox.Reading) × Outboxes
  | [] => ([], os)
  | q :: qs =>
    match os.get? q with
    | none => os.drain qs
    | some o =>
      let (reading, o) := o.drain
      let (readings, os) := Outboxes.drain (os.insert q o) qs
      ((q, reading) :: readings, os)

end Outboxes

end HectocDuel
