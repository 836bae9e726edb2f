/-
  The hub and the readers of its queues.

  The hub does what it does effect by effect, and the readers take from their queues in
  between, whenever they come to it.

  * `Exchange` is the hub with its queues and `Exchange.run` a run of both;
  * `run_accounted`: a run has taken some of the events and done what the hub does of
    these, whatever became of the messages;
  * `run_finishes`: no reader can hold the hub up;
  * `AgreesOff.run_filter`: what one reader does is not noticed anywhere else;
  * `run_conveys`: what that reader gets;
  * `stalled_reader_alone` puts these together.
-/
import HectocDuel.Proofs.Outbox

namespace HectocDuel

/-! ## Queues and effects -/

namespace Outboxes

theorem get?_change (os : Outboxes) (p q : QueueId) (f : Outbox → Outbox) :
    (os.change p f).get? q = if q = p then (os.get? q).map f else os.get? q := by
  rw [change]
  by_cases hq : q = p
  · subst hq
    cases ho : os.get? q with
    | none => simp [ho]
    | some o => simp [Table.get?_insert]
  · rw [if_neg hq]
    split
    · rw [Table.get?_insert, if_neg hq]
    · rfl

theorem get?_apply (os : Outboxes) (f : Effect) (q : QueueId) :
    (os.apply f).get? q = (os.get? q).map fun o => (signalsTo q [f]).foldl Outbox.heed o := by
  cases f with
  | deliver p m =>
    rw [apply, get?_change]
    by_cases hq : q = p
    · simp [hq, signalsTo, Effect.signal?]
      rfl
    · simp [hq, Ne.symm hq, signalsTo, Effect.signal?]
  | close p =>
    rw [apply, get?_change]
    by_cases hq : q = p
    · simp [hq, signalsTo, Effect.signal?]
      rfl
    · simp [hq, Ne.symm hq, signalsTo, Effect.signal?]
  | report | tellInfo | tellCount => simp [apply, signalsTo, Effect.signal?]

end Outboxes

/-! ## Runs of the hub and the readers -/

/-- The hub with the queues it answers on. -/
structure Exchange where
  hub : Hub := {}
  /-- The events that wait for the hub. -/
  events : List Event
  /-- What the hub has yet to do about the events it took. -/
  pending : List Effect := []
  queues : Outboxes
  /-- What the hub has done. -/
  performed : List Effect := []
  /-- What was read on each queue. -/
  readings : List (QueueId × Outbox.Reading) := []

/-- What comes next in a run. -/
inductive Tick where
  /-- The hub goes one step on. -/
  | hub
  /-- Somebody turns to a queue. -/
  | reader (q : QueueId) (u : Outbox.Use)
  deriving DecidableEq

/-- Whether it is the turn of the reader of a queue. -/
def Tick.isOf (q : QueueId) : Tick → Bool
  | .hub => false
  | .reader p _ => p = q

namespace Exchange

variable (source : PuzzleSource)

/-- The hub does the next thing it has to do, or takes the next event. -/
def proceed (x : Exchange) : Exchange :=
  match x.pending, x.events with
  | f :: fs, _ =>
    { x with pending := fs, queues := x.queues.apply f, performed := x.performed ++ [f] }
  | [], e :: es =>
    let (hub, effects) := x.hub.step source e
    { x with hub, events := es, pending := effects }
  | [], [] => x

/-- The reader of a queue does something. -/
def read (x : Exchange) (q : QueueId) (u : Outbox.Use) : Exchange :=
  match x.queues.get? q with
  | some o =>
    { x with
      queues := x.queues.insert q (o.use u).2
      readings := x.readings ++ [(q, (o.use u).1)] }
  | none => x

/-- One step of a run. -/
def tick (x : Exchange) : Tick → Exchange
  | .hub => x.proceed source
  | .reader q u => x.read q u

/-- A run of the hub over events, with queues and their readers. -/
def run (es : List Event) (os : Outboxes) (ticks : List Tick) : Exchange :=
  ticks.foldl (tick source) { events := es, queues := os }

/-- The messages that were read on a queue. -/
def readOn (x : Exchange) (q : QueueId) : List Message :=
  (x.readings.filter (·.1 = q)).flatMap (·.2.messages)

theorem run_append (es : List Event) (os : Outboxes) (ticks ticks' : List Tick) :
    run source es os (ticks ++ ticks') = ticks'.foldl (tick source) (run source es os ticks) :=
  List.foldl_append

theorem run_concat (es : List Event) (os : Outboxes) (ticks : List Tick) (t : Tick) :
    run source es os (ticks ++ [t]) = (run source es os ticks).tick source t :=
  List.foldl_concat ..

variable {source} in
theorem run_induction {Inv : Exchange → Prop} {es : List Event} {os : Outboxes}
    (hstart : Inv { events := es, queues := os })
    (hkeep : ∀ x t, Inv x → Inv (x.tick source t)) (ticks : List Tick) :
    Inv (run source es os ticks) := by
  induction ticks using List.reverseRecOn with
  | nil => exact hstart
  | append_singleton ticks t ih =>
    rw [run_concat]
    exact hkeep _ t ih

/-! ## What the hub does -/

/-- The hub has taken the first of the events, and what it does of these is done or has
    yet to be done. -/
structure Accounted (es taken : List Event) (x : Exchange) : Prop where
  events : es = taken ++ x.events
  hub : x.hub = Hub.after source taken
  effects : x.performed ++ x.pending = Hub.done source taken

variable {source} {es : List Event}

theorem Accounted.tick {taken : List Event} {x : Exchange} (h : x.Accounted source es taken)
    (t : Tick) : ∃ taken', (x.tick source t).Accounted source es taken' := by
  cases t with
  | hub =>
    rw [Exchange.tick, proceed]
    split
    · next f fs hp =>
      refine ⟨taken, h.events, h.hub, ?_⟩
      rw [List.append_assoc, List.singleton_append, ← hp]
      exact h.effects
    · next e es' hp he =>
      refine ⟨taken ++ [e], ?_, ?_, ?_⟩
      · rw [List.append_assoc, List.singleton_append, ← he]
        exact h.events
      · rw [Hub.after_concat, ← h.hub]
      · rw [Hub.done_concat, ← h.hub, ← h.effects, hp, List.append_nil]
    · exact ⟨taken, h⟩
  | reader q u =>
    rw [Exchange.tick, read]
    split <;> exact ⟨taken, h.events, h.hub, h.effects⟩

variable (source es) in
/-- Whatever becomes of the messages, the hub does what the events make it do. -/
theorem run_accounted (os : Outboxes) (ticks : List Tick) :
    ∃ taken, (run source es os ticks).Accounted source es taken := by
  refine @run_induction source (fun x => ∃ taken, x.Accounted source es taken) es os ?_ ?_ ticks
  · exact ⟨[], rfl, rfl, rfl⟩
  · rintro x t ⟨taken, h⟩
    exact h.tick t

variable (source) in
theorem exists_performed (x : Exchange) :
    ∃ n, ((List.replicate n .hub).foldl (tick source) x).pending = [] ∧
      ((List.replicate n .hub).foldl (tick source) x).events = x.events := by
  generalize hp : x.pending = fs
  induction fs generalizing x with
  | nil => exact ⟨0, hp, rfl⟩
  | cons f fs ih =>
    have hnext : (x.tick source .hub).pending = fs ∧ (x.tick source .hub).events = x.events := by
      rw [tick, proceed, hp]
      exact ⟨rfl, rfl⟩
    obtain ⟨n, hpending, hevents⟩ := ih _ hnext.1
    exact ⟨n + 1, hpending, hevents.trans hnext.2⟩

variable (source) in
theorem exists_finished (x : Exchange) :
    ∃ n, ((List.replicate n .hub).foldl (tick source) x).pending = [] ∧
      ((List.replicate n .hub).foldl (tick source) x).events = [] := by
  generalize he : x.events = es'
  induction es' generalizing x with
  | nil =>
    obtain ⟨n, hpending, hevents⟩ := exists_performed source x
    exact ⟨n, hpending, hevents.trans he⟩
  | cons e es' ih =>
    obtain ⟨n, hpending, hevents⟩ := exists_performed source x
    have hnext :
        (((List.replicate n .hub).foldl (tick source) x).tick source .hub).events = es' := by
      rw [tick, proceed, hpending, hevents, he]
    obtain ⟨m, hdone⟩ := ih _ hnext
    refine ⟨n + 1 + m, ?_⟩
    rw [List.replicate_add, List.foldl_append, List.replicate_succ', List.foldl_concat]
    exact hdone

variable (source es) in
/-- No reader can hold the hub up: at any moment of a run the hub comes to the end of the
    events by its own steps. -/
theorem run_finishes (os : Outboxes) (ticks : List Tick) :
    ∃ n, (run source es os (ticks ++ List.replicate n .hub)).hub = Hub.after source es ∧
      (run source es os (ticks ++ List.replicate n .hub)).performed = Hub.done source es := by
  obtain ⟨n, hpending, hevents⟩ := exists_finished source (run source es os ticks)
  rw [← run_append] at hpending hevents
  obtain ⟨taken, h⟩ := run_accounted source es os (ticks ++ List.replicate n .hub)
  have htaken : es = taken := by rw [h.events, hevents, List.append_nil]
  have heffects := h.effects
  rw [hpending, List.append_nil] at heffects
  exact ⟨n, h.hub.trans (htaken ▸ rfl), heffects.trans (htaken ▸ rfl)⟩

/-! ## What is not noticed elsewhere -/

/-- Two runs differ at most in one queue and in what was read on it. -/
structure AgreesOff (q : QueueId) (x x' : Exchange) : Prop where
  hub : x'.hub = x.hub
  events : x'.events = x.events
  pending : x'.pending = x.pending
  performed : x'.performed = x.performed
  queues : ∀ p, p ≠ q → x'.queues.get? p = x.queues.get? p
  /-- All others have read the same, and in the same order. -/
  readings : x'.readings.filter (·.1 ≠ q) = x.readings.filter (·.1 ≠ q)

namespace AgreesOff

variable {q : QueueId} {x x' x'' : Exchange}

theorem refl (q : QueueId) (x : Exchange) : x.AgreesOff q x :=
  ⟨rfl, rfl, rfl, rfl, fun _ _ => rfl, rfl⟩

theorem symm (h : x.AgreesOff q x') : x'.AgreesOff q x :=
  ⟨h.hub.symm, h.events.symm, h.pending.symm, h.performed.symm, fun p hp => (h.queues p hp).symm,
    h.readings.symm⟩

theorem trans (h : x.AgreesOff q x') (h' : x'.AgreesOff q x'') : x.AgreesOff q x'' :=
  ⟨h'.hub.trans h.hub, h'.events.trans h.events, h'.pending.trans h.pending,
    h'.performed.trans h.performed, fun p hp => (h'.queues p hp).trans (h.queues p hp),
    h'.readings.trans h.readings⟩

theorem proceed (h : x.AgreesOff q x') : (x.proceed source).AgreesOff q (x'.proceed source) := by
  rw [Exchange.proceed, Exchange.proceed, h.pending, h.events]
  split
  · refine ⟨h.hub, rfl, rfl, by rw [h.performed], fun p hp => ?_, h.readings⟩
    rw [Outboxes.get?_apply, Outboxes.get?_apply, h.queues p hp]
  · rw [h.hub]
    exact ⟨rfl, rfl, rfl, h.performed, h.queues, h.readings⟩
  · exact h

theorem read (h : x.AgreesOff q x') {p : QueueId} (hp : p ≠ q) (u : Outbox.Use) :
    (x.read p u).AgreesOff q (x'.read p u) := by
  rw [Exchange.read, Exchange.read, h.queues p hp]
  split
  · refine ⟨h.hub, h.events, h.pending, h.performed, fun p' hp' => ?_, ?_⟩
    · rw [Table.get?_insert, Table.get?_insert, h.queues p' hp']
    · rw [List.filter_append, List.filter_append, h.readings]
  · exact h

theorem tick (h : x.AgreesOff q x') {t : Tick} (ht : ¬ t.isOf q) :
    (x.tick source t).AgreesOff q (x'.tick source t) := by
  cases t with
  | hub => exact h.proceed
  | reader p u => exact h.read (by simpa [Tick.isOf] using ht) u

end AgreesOff

theorem agreesOff_tick {q : QueueId} (x : Exchange) {t : Tick} (ht : t.isOf q) :
    x.AgreesOff q (x.tick source t) := by
  cases t with
  | hub => exact absurd ht Bool.false_ne_true
  | reader p u =>
    obtain rfl : p = q := of_decide_eq_true ht
    rw [Exchange.tick, Exchange.read]
    split
    · refine ⟨rfl, rfl, rfl, rfl, fun p' hp' => ?_, ?_⟩
      · rw [Table.get?_insert, if_neg hp']
      · simp
    · exact .refl p x

/-- Elsewhere a run is as if the reader of a queue had never done anything. -/
theorem AgreesOff.run_filter {q : QueueId} {os os' : Outboxes}
    (hos : ∀ p, p ≠ q → os'.get? p = os.get? p) (ticks : List Tick) :
    (Exchange.run source es os ticks).AgreesOff q
      (Exchange.run source es os' (ticks.filter (!·.isOf q))) := by
  induction ticks using List.reverseRecOn with
  | nil => exact ⟨rfl, rfl, rfl, rfl, hos, rfl⟩
  | append_singleton ticks t ih =>
    rw [run_concat, List.filter_append]
    by_cases ht : t.isOf q = true
    · rw [List.filter_cons_of_neg (by simp [ht]), List.filter_nil, List.append_nil]
      exact (agreesOff_tick _ ht).symm.trans ih
    · rw [List.filter_cons_of_pos (by simpa using ht), List.filter_nil, run_concat]
      exact ih.tick ht

/-! ## What a reader gets -/

section
variable {q : QueueId} {n : Nat} {os : Outboxes}

theorem readOn_concat (x : Exchange) (os : Outboxes) (p q : QueueId) (r : Outbox.Reading) :
    readOn { x with queues := os, readings := x.readings ++ [(p, r)] } q =
      x.readOn q ++ if p = q then r.messages else [] := by
  rw [readOn, List.filter_append, List.flatMap_append, ← readOn]
  by_cases h : p = q <;> simp [h]

theorem read_of_get? {x : Exchange} {o : Outbox} (ho : x.queues.get? q = some o) (u : Outbox.Use) :
    ((x.read q u).queues.get? q = some (o.use u).2) ∧ (x.read q u).performed = x.performed ∧
      (x.read q u).readOn q = x.readOn q ++ (o.use u).1.messages := by
  rw [read, ho]
  exact ⟨by rw [Table.get?_insert, if_pos rfl], rfl, by rw [readOn_concat, if_pos rfl]⟩

theorem read_of_ne {p : QueueId} (hp : p ≠ q) (x : Exchange) (u : Outbox.Use) :
    ((x.read p u).queues.get? q = x.queues.get? q) ∧ (x.read p u).performed = x.performed ∧
      (x.read p u).readOn q = x.readOn q := by
  rw [read]
  split
  · refine ⟨by rw [Table.get?_insert, if_neg hp.symm], rfl, ?_⟩
    rw [readOn_concat, if_neg hp, List.append_nil]
  · exact ⟨rfl, rfl, rfl⟩

variable (source) in
theorem proceed_signals {x : Exchange} {o : Outbox} (ho : x.queues.get? q = some o) :
    ∃ ss, (x.proceed source).queues.get? q = some (ss.foldl Outbox.heed o) ∧
      signalsTo q (x.proceed source).performed = signalsTo q x.performed ++ ss ∧
      (x.proceed source).readOn q = x.readOn q := by
  rw [proceed]
  split
  · next f fs _ =>
    refine ⟨signalsTo q [f], ?_, signalsTo_append .., rfl⟩
    rw [Outboxes.get?_apply, ho]
    rfl
  · exact ⟨[], ho, (List.append_nil _).symm, rfl⟩
  · exact ⟨[], ho, (List.append_nil _).symm, rfl⟩

/-- The queue has conveyed what it heard of the hub. -/
def Conveys (x : Exchange) (q : QueueId) (n : Nat) : Prop :=
  ∃ o, x.queues.get? q = some o ∧ o.Conveys n (signalsTo q x.performed) (x.readOn q)

theorem Conveys.tick {x : Exchange} (h : x.Conveys q n) (t : Tick) :
    (x.tick source t).Conveys q n := by
  obtain ⟨o, ho, hconveys⟩ := h
  cases t with
  | hub =>
    obtain ⟨ss, hget, hsignals, hread⟩ := proceed_signals source ho
    refine ⟨_, hget, ?_⟩
    rw [Exchange.tick, hsignals, hread]
    exact hconveys.heed_all ss
  | reader p u =>
    by_cases hp : p = q
    · subst hp
      obtain ⟨hget, hperformed, hread⟩ := read_of_get? ho u
      refine ⟨_, hget, ?_⟩
      rw [Exchange.tick, hperformed, hread]
      exact hconveys.use u
    · obtain ⟨hget, hperformed, hread⟩ := read_of_ne hp x u
      refine ⟨o, hget.trans ho, ?_⟩
      rw [Exchange.tick, hperformed, hread]
      exact hconveys

variable (source es) in
theorem run_conveys (hq : os.get? q = some (.ofCapacity n)) (ticks : List Tick) :
    (run source es os ticks).Conveys q n := by
  refine @run_induction source (fun x => x.Conveys q n) es os ?_ ?_ ticks
  · exact ⟨_, hq, Outbox.conveys_ofCapacity n⟩
  · intro x t h
    exact h.tick t

/-! ### After the end -/

/-- The queue is closed, its reader is there, and `ms` is what it has read and can still
    read. -/
def Keeps (x : Exchange) (q : QueueId) (ms : List Message) : Prop :=
  ∃ o, x.queues.get? q = some o ∧ o.isClosed = true ∧ o.isAbandoned = false ∧
    x.readOn q ++ o.waiting = ms

variable {ms : List Message}

theorem Keeps.tick {x : Exchange} (h : x.Keeps q ms) {t : Tick} (ht : t ≠ .reader q .abandon) :
    (x.tick source t).Keeps q ms := by
  obtain ⟨o, ho, hclosed, hpresent, hms⟩ := h
  cases t with
  | hub =>
    obtain ⟨ss, hget, -, hread⟩ := proceed_signals source ho
    rw [Outbox.heed_all_of_closed hclosed] at hget
    exact ⟨o, hget, hclosed, hpresent, hread ▸ hms⟩
  | reader p u =>
    by_cases hp : p = q
    · subst hp
      obtain ⟨rest, isEnded, hw, huse⟩ := o.use_stays fun hu => ht (congrArg (Tick.reader p) hu)
      obtain ⟨hget, -, hread⟩ := read_of_get? ho u
      refine ⟨_, hget, by rw [huse]; exact hclosed, by rw [huse]; exact hpresent, ?_⟩
      rw [Exchange.tick, hread, huse, List.append_assoc, ← hw]
      exact hms
    · obtain ⟨hget, -, hread⟩ := read_of_ne hp x u
      exact ⟨o, hget.trans ho, hclosed, hpresent, hread ▸ hms⟩

theorem Keeps.foldl {x : Exchange} (h : x.Keeps q ms) {ticks : List Tick}
    (ht : .reader q .abandon ∉ ticks) : (ticks.foldl (Exchange.tick source) x).Keeps q ms := by
  induction ticks using List.reverseRecOn with
  | nil => exact h
  | append_singleton ticks t ih =>
    rw [List.mem_append, List.mem_singleton, not_or] at ht
    rw [List.foldl_concat]
    exact (ih ht.1).tick (Ne.symm ht.2)

theorem Keeps.drain {x : Exchange} (h : x.Keeps q ms) : (x.read q .drain).readOn q = ms := by
  obtain ⟨o, ho, -, hpresent, hms⟩ := h
  obtain ⟨-, -, hread⟩ := read_of_get? ho .drain
  rw [hread, ← hms, Outbox.use, Outbox.drain_of_present hpresent]

end

/-- **A stalled client affects nobody else.**  Take two runs of the hub over the same
    events, with queues that are the same but for one: the queue of some client, which is
    made for `n` messages in the one run and for any number in the other.  The hub and all
    other readers do the same in both runs, while the reader of this queue receives, drains
    or goes away in each of them when and as often as it likes.

    * The two runs agree in the rooms, in what the hub has done and reported and in what
      every other reader has read.
    * At every moment the hub is where the events it has taken bring it.
    * What the reader of the queue has read, and what waits there, was sent to it in this
      order and before the end, each message at most once; never do more messages wait
      than there are places; and none is lost while there are places and a reader.
    * What waits when the queue is closed is read after it. -/
theorem stalled_reader_alone (source : PuzzleSource) (es : List Event) (os os' : Outboxes)
    (q : QueueId) (n : Nat) (hq : os.get? q = some (.ofCapacity n))
    (hos : ∀ p, p ≠ q → os'.get? p = os.get? p) (ticks ticks' : List Tick)
    (hticks : ticks'.filter (!·.isOf q) = ticks.filter (!·.isOf q)) :
    (run source es os ticks).AgreesOff q (run source es os' ticks') ∧
      (∃ taken, (run source es os ticks).Accounted source es taken) ∧
      ∃ o, (run source es os ticks).queues.get? q = some o ∧
        o.Conveys n (signalsTo q (run source es os ticks).performed)
          ((run source es os ticks).readOn q) ∧
        (o.isClosed = true → o.isAbandoned = false →
          ∀ more, .reader q .abandon ∉ more →
            (run source es os (ticks ++ more ++ [.reader q .drain])).readOn q =
              (run source es os ticks).readOn q ++ o.waiting) := by
  refine ⟨?_, run_accounted source es os ticks, ?_⟩
  · have h : (run source es os ticks).AgreesOff q (run source es os (ticks.filter (!·.isOf q))) :=
      .run_filter (fun _ _ => rfl) ticks
    have h' : (run source es os' ticks').AgreesOff q
        (run source es os (ticks.filter (!·.isOf q))) :=
      hticks ▸ .run_filter (fun p hp => (hos p hp).symm) ticks'
    exact h.trans h'.symm
  · obtain ⟨o, ho, hconveys⟩ := run_conveys source es hq ticks
    refine ⟨o, ho, hconveys, ?_⟩
    intro hclosed hpresent more hmore
    have hkeeps : (run source es os ticks).Keeps q
        ((run source es os ticks).readOn q ++ o.waiting) :=
      ⟨o, ho, hclosed, hpresent, rfl⟩
    rw [run_concat, run_append]
    exact (hkeeps.foldl hmore).drain

/-- The queue of a player has one place in one run, and nobody reads there before the player
    has left; it has eight in another, and its reader goes away after one message. -/
theorem stalled_reader_alone_two_players :
    let ada : Client := .new ⟨"ada"⟩ ⟨1⟩ ⟨"r"⟩ ⟨"a"⟩
    let bob : Client := .new ⟨"bob"⟩ ⟨2⟩ ⟨"r"⟩ ⟨"b"⟩
    let es : List Event := [.join ada, .join bob, .leave ⟨"r"⟩ ⟨"ada"⟩ ⟨1⟩]
    let os : Outboxes := (Table.empty.insert ⟨"b"⟩ (.ofCapacity 8)).insert ⟨"a"⟩ (.ofCapacity 0)
    let os' : Outboxes := os.insert ⟨"a"⟩ (.ofCapacity 8)
    let ticks : List Tick := List.replicate 11 .hub ++ [.reader ⟨"b"⟩ .drain]
    let ticks' : List Tick := List.replicate 4 .hub ++ [.reader ⟨"a"⟩ .receive] ++
      List.replicate 3 .hub ++ [.reader ⟨"a"⟩ .abandon] ++ List.replicate 4 .hub ++
      [.reader ⟨"b"⟩ .drain]
    let x := run (fun _ => none) es os ticks
    os.get? ⟨"a"⟩ = some (.ofCapacity 0) ∧ (∀ p, p ≠ ⟨"a"⟩ → os'.get? p = os.get? p) ∧
      ticks'.filter (!·.isOf ⟨"a"⟩) = ticks.filter (!·.isOf ⟨"a"⟩) ∧
      x.AgreesOff ⟨"a"⟩ (run (fun _ => none) es os' ticks') ∧
      (x.readOn ⟨"b"⟩).map (·.body.kind) =
        [.text .joinSuccess, .puzzleAssign, .text .opponentLeft] ∧
      x.readOn ⟨"a"⟩ = [] ∧
      (run (fun _ => none) es os (ticks ++ [] ++ [.reader ⟨"a"⟩ .drain])).readOn ⟨"a"⟩ =
        [Notice.inRoom ⟨"r"⟩ Notice.roomCreated] := by
  intro ada bob es os os' ticks ticks' x
  have hq : os.get? ⟨"a"⟩ = some (.ofCapacity 0) := by rw [Table.get?_insert, if_pos rfl]
  have hos : ∀ p, p ≠ ⟨"a"⟩ → os'.get? p = os.get? p := by
    intro p hp
    rw [Table.get?_insert, if_neg hp]
  have hticks : ticks'.filter (!·.isOf ⟨"a"⟩) = ticks.filter (!·.isOf ⟨"a"⟩) := by decide +kernel
  obtain ⟨hagrees, -, o, ho, -, hafter⟩ :=
    stalled_reader_alone (fun _ => none) es os os' ⟨"a"⟩ 0 hq hos ticks ticks' hticks
  have hread : x.readOn ⟨"a"⟩ = [] := by decide +kernel
  have hstate : (x.queues.get? ⟨"a"⟩).map (fun o => (o.isClosed, o.isAbandoned, o.waiting)) =
      some (true, false, [Notice.inRoom ⟨"r"⟩ Notice.roomCreated]) := by decide +kernel
  rw [ho, Option.map_some, Option.some.injEq, Prod.mk.injEq, Prod.mk.injEq] at hstate
  obtain ⟨hclosed, hpresent, hw⟩ := hstate
  have hlater : (run (fun _ => none) es os (ticks ++ [] ++ [.reader ⟨"a"⟩ .drain])).readOn ⟨"a"⟩ =
      x.readOn ⟨"a"⟩ ++ o.waiting := hafter hclosed hpresent [] List.not_mem_nil
  rw [hread, hw] at hlater
  exact ⟨hq, hos, hticks, hagrees, by decide +kernel, hread, hlater⟩

end Exchange

end HectocDuel
