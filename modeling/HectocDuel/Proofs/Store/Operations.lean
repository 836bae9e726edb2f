/-
  The records under all operations, in any order.

  Games are opened and resolved, rooms are given up, and whatever was once returned is written
  to, also when its room has another game by then.

  * `OperationTurn` lists what an operation returns and does;
  * `Filed`: every game on record was given out, holds what belongs to it, and is open at most
    in its own room;
  * `GameRecord.Extends`: nothing is taken from a record;
  * `operations_keep_records`: this holds after all operations, and what was returned can be
    written to from then on.
-/
import HectocDuel.Proofs.Store.Games
import Mathlib.Data.List.Induction

namespace HectocDuel

/-! ## Records -/

/-- The record `r'` has all that `r` has. -/
structure GameRecord.Extends (r r' : GameRecord) : Prop where
  room : r'.room = r.room
  players : r.players <+: r'.players
  submissions : r.submissions <+: r'.submissions

theorem GameRecord.Extends.refl (r : GameRecord) : r.Extends r :=
  ⟨rfl, List.prefix_refl _, List.prefix_refl _⟩

theorem GameRecord.Extends.trans {r r' r'' : GameRecord} (h : r.Extends r') (h' : r'.Extends r'') :
    r.Extends r'' :=
  ⟨h'.room.trans h.room, h.players.trans h'.players, h.submissions.trans h'.submissions⟩

/-- What the record of the game `id` holds belongs to it. -/
structure GameRecord.Kept (id : GameId) (r : GameRecord) : Prop where
  players : r.players.Nodup
  submissions : ∀ s ∈ r.submissions, s.game = id
  ratings : r.ratings = [] ∨ r.ratings.length = 2

theorem GameRecord.kept_new (id : GameId) (room : RoomId) : GameRecord.Kept id { room } :=
  ⟨List.nodup_nil, nofun, .inl rfl⟩

/-- The game that a call writes to. -/
def Call.target? : Call → Option GameId
  | register id _ | savePuzzle id _ | recordRatings id _ _ => some id
  | recordSubmission s => some s.game
  | resolve _ | evict _ | rating _ => none

/-- What becomes of the record of the game that a call writes to. -/
def Call.edit : Call → GameRecord → GameRecord
  | register _ p, r => if p ∈ r.players then r else { r with players := r.players ++ [p] }
  | savePuzzle _ z, r => { r with puzzle := some z }
  | recordSubmission s, r => { r with submissions := r.submissions ++ [s] }
  | recordRatings _ first second, r => { r with ratings := [first, second] }
  | resolve _, r | evict _, r | rating _, r => r

theorem Call.extends_edit (c : Call) (r : GameRecord) : r.Extends (c.edit r) := by
  cases c with
  | register id p =>
    rw [edit]
    split
    · exact .refl r
    · exact ⟨rfl, List.prefix_append _ _, List.prefix_refl _⟩
  | recordSubmission s => exact ⟨rfl, List.prefix_refl _, List.prefix_append _ _⟩
  | _ => exact ⟨rfl, List.prefix_refl _, List.prefix_refl _⟩

theorem Call.kept_edit {c : Call} {id : GameId} (hc : c.target? = some id) {r : GameRecord}
    (hr : r.Kept id) : (c.edit r).Kept id := by
  cases c with
  | register id' p =>
    rw [edit]
    split
    · exact hr
    · next hp =>
      refine ⟨?_, hr.submissions, hr.ratings⟩
      exact List.nodup_append.2 ⟨hr.players, by simp, fun q hq q' hq' =>
        (List.mem_singleton.1 hq').symm ▸ fun heq => hp (heq ▸ hq)⟩
  | recordSubmission s =>
    refine ⟨hr.players, fun s' hs' => ?_, hr.ratings⟩
    rcases List.mem_append.1 hs' with hs' | hs'
    · exact hr.submissions s' hs'
    · exact (List.mem_singleton.1 hs').symm ▸ Option.some.inj hc
  | recordRatings id' first second => exact ⟨hr.players, hr.submissions, .inr rfl⟩
  | _ => exact ⟨hr.players, hr.submissions, hr.ratings⟩

/-! ## Operations -/

/-- An operation on the records. -/
inductive Operation where
  | openGame (room : RoomId)
  | call (c : Call)

namespace Games

/-- Work that returns no game. -/
def quietly {α : Type} (work : StoreM Games α) (gs : Games) :
    Except StoreError (Option GameId) × Games :=
  ((work gs).1.map fun _ => none, (work gs).2)

/-- What an operation returns, with the game if it returns one, and the records after it. -/
def operate (gs : Games) : Operation → Except StoreError (Option GameId) × Games
  | .openGame room => (.ok (some (gs.openGame room).1), (gs.openGame room).2)
  | .call (.resolve room) => ((resolve room gs).1.map some, (resolve room gs).2)
  | .call (.register id p) => quietly (register id p) gs
  | .call (.evict room) => quietly (evict room) gs
  | .call (.savePuzzle id z) => quietly (savePuzzle id z) gs
  | .call (.recordSubmission s) => quietly (recordSubmission s) gs
  | .call (.rating p) => quietly (rating p) gs
  | .call (.recordRatings id first second) => quietly (recordRatings id first second) gs

/-- The game that an operation returns. -/
def returns (gs : Games) (op : Operation) : Option GameId :=
  (gs.operate op).1.toOption.join

/-- The game that an operation opens: opening always opens one, and resolving does where the
    room has none. -/
def opens (gs : Games) : Operation → Option GameId
  | .openGame room => gs.returns (.openGame room)
  | .call (.resolve room) =>
    if (gs.gameFor room).isSome then none else gs.returns (.call (.resolve room))
  | .call _ => none

section
variable (autoOpen : Bool) (ops : List Operation)

/-- The records after operations, from the start. -/
def operated : Games :=
  ops.foldl (fun gs op => (operate gs op).2) { autoOpen }

/-- The games that are returned in the course of operations, from the start. -/
def returned : List GameId :=
  noted (fun gs op => (operate gs op).2) (fun gs op => (returns gs op).toList) { autoOpen } ops

/-- The games that are opened in the course of operations, from the start. -/
def opened : List GameId :=
  noted (fun gs op => (operate gs op).2) (fun gs op => (opens gs op).toList) { autoOpen } ops

variable {autoOpen ops}

theorem operated_concat (op : Operation) :
    operated autoOpen (ops ++ [op]) = ((operated autoOpen ops).operate op).2 :=
  List.foldl_append

theorem returned_concat (op : Operation) :
    returned autoOpen (ops ++ [op]) =
      returned autoOpen ops ++ ((operated autoOpen ops).returns op).toList :=
  noted_concat ..

theorem opened_concat (op : Operation) :
    opened autoOpen (ops ++ [op]) =
      opened autoOpen ops ++ ((operated autoOpen ops).opens op).toList :=
  noted_concat ..

end

/-! ## What an operation does -/

/-- What an operation returns, and the records after it. -/
inductive OperationTurn (gs : Games) :
    Operation → Except StoreError (Option GameId) → Games → Prop where
  /-- A game is opened. -/
  | opens {op : Operation} {room : RoomId} :
      op = .openGame room ∨ op = .call (.resolve room) ∧ gs.autoOpen →
      gs.opens op = some gs.next →
      OperationTurn gs op (.ok (some gs.next)) (gs.openGame room).2
  /-- The game of a room is found. -/
  | finds {room : RoomId} {id : GameId} : gs.gameFor room = some id →
      OperationTurn gs (.call (.resolve room)) (.ok (some id)) gs
  /-- A room has no game. -/
  | misses {room : RoomId} : gs.gameFor room = none → ¬ gs.autoOpen →
      OperationTurn gs (.call (.resolve room)) (.error (.roomNotFound room)) gs
  /-- A rating is looked up. -/
  | rates {p : PlayerId} : OperationTurn gs (.call (.rating p)) (.ok none) gs
  /-- A room is given up. -/
  | evicts {room : RoomId} : OperationTurn gs (.call (.evict room)) (.ok none) (evict room gs).2
  /-- A record is written to. -/
  | writes {c : Call} {id : GameId} {r : GameRecord} {ratings : Table PlayerId Int} :
      c.target? = some id → gs.game id = some r →
      OperationTurn gs (.call c) (.ok none)
        { gs with records := gs.records.insert id (c.edit r), ratings }
  /-- There is no record to write to. -/
  | fails {c : Call} {id : GameId} : c.target? = some id → gs.game id = none →
      OperationTurn gs (.call c) (.error (.gameNotFound id)) gs

section
variable {gs gs' : Games} {op : Operation} {result : Except StoreError (Option GameId)}
  {id : GameId} {r : GameRecord}

theorem operate_of_none {c : Call} (hc : c.target? = some id) (hg : gs.game id = none) :
    gs.operate (.call c) = (.error (.gameNotFound id), gs) := by
  cases c with
  | register | savePuzzle | recordSubmission =>
    obtain rfl := Option.some.inj hc
    simp only [operate, quietly, register, savePuzzle, recordSubmission, change_of_none hg]
    rfl
  | recordRatings id' first second =>
    obtain rfl := Option.some.inj hc
    rw [operate, quietly, recordRatings, bind_apply, change_of_none hg]
    rfl
  | _ => cases hc

theorem operate_of_game {c : Call} (hc : c.target? = some id) (hg : gs.game id = some r) :
    ∃ ratings, gs.operate (.call c) =
      (.ok none, { gs with records := gs.records.insert id (c.edit r), ratings }) := by
  cases c with
  | register | savePuzzle | recordSubmission =>
    obtain rfl := Option.some.inj hc
    simp only [operate, quietly, register, savePuzzle, recordSubmission, change_of_game hg]
    exact ⟨_, rfl⟩
  | recordRatings id' first second =>
    obtain rfl := Option.some.inj hc
    rw [operate, quietly, recordRatings, bind_apply, change_of_game hg]
    exact ⟨_, rfl⟩
  | _ => cases hc

/-- Every operation does one of these things. -/
theorem operationTurn (gs : Games) (op : Operation) :
    OperationTurn gs op (gs.operate op).1 (gs.operate op).2 := by
  have hwrites : ∀ {c : Call} {id : GameId}, c.target? = some id →
      OperationTurn gs (.call c) (gs.operate (.call c)).1 (gs.operate (.call c)).2 := by
    intro c id hc
    rcases hg : gs.game id with _ | r
    · rw [operate_of_none hc hg]
      exact .fails hc hg
    · obtain ⟨ratings, heq⟩ := operate_of_game hc hg
      rw [heq]
      exact .writes hc hg
  cases op with
  | openGame room => exact .opens (.inl rfl) rfl
  | call c =>
    cases c with
    | resolve room =>
      rcases hr : gs.gameFor room with _ | id
      · by_cases ha : gs.autoOpen
        · have hopens : gs.opens (.call (.resolve room)) = some gs.next := by
            rw [opens, hr, returns, operate, resolve_of_autoOpen hr ha]
            rfl
          rw [operate, resolve_of_autoOpen hr ha]
          exact .opens (.inr ⟨rfl, ha⟩) hopens
        · rw [operate, resolve_of_closed hr ha]
          exact .misses hr ha
      · rw [operate, resolve_of_gameFor hr]
        exact .finds hr
    | evict room => exact .evicts
    | rating p => exact .rates
    | _ => exact hwrites rfl

theorem autoOpen_turn (ht : OperationTurn gs op result gs') : gs'.autoOpen = gs.autoOpen := by
  cases ht <;> rfl

/-- The numbers that are given out are those of the games that are opened. -/
theorem latest_turn (ht : OperationTurn gs op result gs') :
    (gs.opens op = some gs.next ∧ gs'.latest = gs.latest + 1) ∨
      gs.opens op = none ∧ gs'.latest = gs.latest := by
  have hwrite : ∀ {c : Call} {id : GameId}, c.target? = some id → gs.opens (.call c) = none := by
    intro c id hc
    cases c with
    | resolve => cases hc
    | _ => rfl
  cases ht with
  | opens _ hop => exact .inl ⟨hop, rfl⟩
  | finds hr => exact .inr ⟨by rw [opens, hr]; rfl, rfl⟩
  | misses hr ha =>
    refine .inr ⟨?_, rfl⟩
    rw [opens, hr, returns, operate, resolve_of_closed hr ha]
    rfl
  | rates | evicts => exact .inr ⟨rfl, rfl⟩
  | writes hc | fails hc => exact .inr ⟨hwrite hc, rfl⟩

theorem game_write (c : Call) (id other : GameId) (ratings : Table PlayerId Int) :
    ({ gs with records := gs.records.insert id (c.edit r), ratings } : Games).game other =
      if other = id then some (c.edit r) else gs.game other :=
  gs.records.get?_insert id other _

/-! ## Records that are kept -/

/-- Every number up to the latest is on record and no other, with what belongs to it; a room is
    mapped to a game that is on record as its own. -/
structure Filed (gs : Games) : Prop where
  recorded : ∀ id, (gs.game id).isSome ↔ 1 ≤ id.number ∧ id.number ≤ gs.latest
  mapped : ∀ room id, gs.gameFor room = some id → ∃ r, gs.game id = some r ∧ r.room = room
  kept : ∀ id r, gs.game id = some r → r.Kept id

theorem filed_empty (autoOpen : Bool) : ({ autoOpen } : Games).Filed := by
  refine ⟨fun id => iff_of_false Bool.false_ne_true ?_, fun _ _ h => ?_, fun _ _ h => ?_⟩
  · exact fun h => absurd (Nat.le_trans h.1 h.2) (Nat.not_succ_le_zero 0)
  · cases h
  · cases h

theorem Filed.game_next (h : gs.Filed) : gs.game gs.next = none := by
  rw [← Option.not_isSome_iff_eq_none, h.recorded]
  exact fun hn => Nat.not_succ_le_self _ hn.2

theorem Filed.room_eq (h : gs.Filed) {room room' : RoomId} (hr : gs.gameFor room = some id)
    (hr' : gs.gameFor room' = some id) : room = room' := by
  obtain ⟨r, hg, rfl⟩ := h.mapped room id hr
  obtain ⟨r', hg', rfl⟩ := h.mapped room' id hr'
  exact congrArg GameRecord.room (Option.some.inj (hg.symm.trans hg'))

theorem Filed.game_turn (h : gs.Filed) (ht : OperationTurn gs op result gs')
    (hg : gs'.game id = some r) :
    (∃ r', gs.game id = some r' ∧ r'.Extends r ∧ (r'.Kept id → r.Kept id)) ∨
      gs.game id = none ∧ r.Kept id ∧ id = gs.next ∧
        ∃ room, op = .openGame room ∨ op = .call (.resolve room) ∧ gs.autoOpen := by
  have hstays : ∀ {r}, gs.game id = some r →
      ∃ r', gs.game id = some r' ∧ r'.Extends r ∧ (r'.Kept id → r.Kept id) := fun hg =>
    ⟨_, hg, .refl _, fun hr => hr⟩
  cases ht with
  | @opens _ room hop =>
    rw [game_openGame] at hg
    split at hg
    · next heq =>
      obtain rfl := Option.some.inj hg
      exact .inr ⟨heq ▸ h.game_next, GameRecord.kept_new id room, heq, room, hop⟩
    · exact .inl (hstays hg)
  | writes hc hg' =>
    rw [game_write] at hg
    split at hg
    · next heq =>
      obtain rfl := Option.some.inj hg
      subst heq
      exact .inl ⟨_, hg', Call.extends_edit _ _, Call.kept_edit hc⟩
    · exact .inl (hstays hg)
  | _ => exact .inl (hstays hg)

/-- No record is removed, and nothing is taken from one. -/
theorem Filed.extends_turn (h : gs.Filed) (ht : OperationTurn gs op result gs')
    (hg : gs.game id = some r) : ∃ r', gs'.game id = some r' ∧ r.Extends r' := by
  cases ht with
  | opens =>
    rw [game_openGame, if_neg, hg]
    · exact ⟨r, rfl, .refl r⟩
    · rintro rfl
      cases h.game_next.symm.trans hg
  | @writes c id' _ ratings _ hg' =>
    rw [game_write]
    split
    · next heq =>
      subst heq
      obtain rfl := Option.some.inj (hg.symm.trans hg')
      exact ⟨_, rfl, c.extends_edit _⟩
    · exact ⟨r, hg, .refl r⟩
  | _ => exact ⟨r, hg, .refl r⟩

theorem Filed.recorded_turn (h : gs.Filed) (ht : OperationTurn gs op result gs') (id : GameId) :
    (gs'.game id).isSome ↔ 1 ≤ id.number ∧ id.number ≤ gs'.latest := by
  cases ht with
  | opens =>
    rw [game_openGame]
    change _ ↔ 1 ≤ id.number ∧ id.number ≤ gs.latest + 1
    split
    · next heq =>
      subst heq
      exact iff_of_true rfl ⟨Nat.succ_pos _, Nat.le_refl _⟩
    · next hne =>
      have hnumber : id.number ≠ gs.latest + 1 := fun heq => hne (congrArg GameId.mk heq)
      rw [h.recorded]
      omega
  | writes hc hg =>
    rw [game_write]
    split
    · next heq =>
      subst heq
      exact iff_of_true rfl ((h.recorded _).1 (Option.isSome_iff_exists.2 ⟨_, hg⟩))
    · exact h.recorded id
  | _ => exact h.recorded id

/-- A room has the game it had, unless one is opened there. -/
theorem gameFor_turn (ht : OperationTurn gs op result gs') {room : RoomId}
    (hr : gs'.gameFor room = some id) :
    gs.gameFor room = some id ∨ gs'.game id = some { room } := by
  cases ht with
  | opens =>
    rw [gameFor_openGame] at hr
    split at hr
    · next heq =>
      obtain rfl := Option.some.inj hr
      exact .inr (by rw [game_openGame, if_pos rfl, heq])
    · exact .inl hr
  | evicts =>
    rw [gameFor_evict] at hr
    split at hr
    · cases hr
    · exact .inl hr
  | _ => exact .inl hr

/-- **Every operation keeps the records in order.** -/
theorem Filed.turn (h : gs.Filed) (ht : OperationTurn gs op result gs') : gs'.Filed := by
  refine ⟨h.recorded_turn ht, fun room id hr => ?_, fun id r hg => ?_⟩
  · rcases gameFor_turn ht hr with hr | hnew
    · obtain ⟨r, hg, hroom⟩ := h.mapped room id hr
      obtain ⟨r', hg', hextends⟩ := h.extends_turn ht hg
      exact ⟨r', hg', hextends.room.trans hroom⟩
    · exact ⟨_, hnew, rfl⟩
  · rcases h.game_turn ht hg with ⟨r', hg', -, hkept⟩ | ⟨-, hkept, -⟩
    · exact hkept (h.kept id r' hg')
    · exact hkept

theorem Filed.isSome_of_returns (h : gs.Filed) (hop : gs.returns op = some id) :
    ((gs.operate op).2.game id).isSome := by
  have ht := operationTurn gs op
  rw [returns] at hop
  generalize (gs.operate op).1 = result at ht hop
  generalize (gs.operate op).2 = gs' at ht
  cases ht with
  | opens =>
    obtain rfl := Option.some.inj hop
    rw [game_openGame, if_pos rfl]
    rfl
  | finds hr =>
    obtain rfl := Option.some.inj hop
    obtain ⟨r, hg, -⟩ := h.mapped _ _ hr
    exact Option.isSome_iff_exists.2 ⟨r, hg⟩
  | _ => cases hop

end

/-! ## All operations -/

section
variable {autoOpen : Bool} {ops : List Operation}

theorem autoOpen_operated (autoOpen : Bool) (ops : List Operation) :
    (operated autoOpen ops).autoOpen = autoOpen := by
  induction ops using List.reverseRecOn with
  | nil => rfl
  | append_singleton ops op ih =>
    rw [operated_concat, autoOpen_turn (operationTurn _ op), ih]

theorem filed_operated (autoOpen : Bool) (ops : List Operation) :
    (operated autoOpen ops).Filed := by
  induction ops using List.reverseRecOn with
  | nil => exact filed_empty autoOpen
  | append_singleton ops op ih =>
    rw [operated_concat]
    exact ih.turn (operationTurn _ op)

theorem extends_operated {id : GameId} {r : GameRecord}
    (hg : (operated autoOpen ops).game id = some r) (later : List Operation) :
    ∃ r', (operated autoOpen (ops ++ later)).game id = some r' ∧ r.Extends r' := by
  induction later using List.reverseRecOn with
  | nil =>
    rw [List.append_nil]
    exact ⟨r, hg, .refl r⟩
  | append_singleton later op ih =>
    obtain ⟨r', hg', hextends⟩ := ih
    obtain ⟨r'', hg'', hextends'⟩ :=
      (filed_operated autoOpen (ops ++ later)).extends_turn (operationTurn _ op) hg'
    rw [← List.append_assoc, operated_concat]
    exact ⟨r'', hg'', hextends.trans hextends'⟩

/-- The games that were opened are those with the numbers from one to the latest, in order. -/
theorem opened_eq (autoOpen : Bool) (ops : List Operation) :
    opened autoOpen ops = (List.range' 1 (operated autoOpen ops).latest).map GameId.mk := by
  induction ops using List.reverseRecOn with
  | nil => rfl
  | append_singleton ops op ih =>
    rw [opened_concat, operated_concat, ih]
    rcases latest_turn (operationTurn (operated autoOpen ops) op) with ⟨hop, hl⟩ | ⟨hop, hl⟩
    · rw [hop, hl, List.range'_concat, List.map_append, Nat.one_mul, Nat.add_comm 1]
      rfl
    · rw [hop, hl]
      exact List.append_nil _

theorem mem_opened_iff {id : GameId} :
    id ∈ opened autoOpen ops ↔ ((operated autoOpen ops).game id).isSome := by
  rw [opened_eq, (filed_operated autoOpen ops).recorded, List.mem_map]
  constructor
  · rintro ⟨n, hn, rfl⟩
    have hrange := List.mem_range'_1.1 hn
    exact ⟨hrange.1, show n ≤ _ by omega⟩
  · intro hid
    exact ⟨id.number, List.mem_range'_1.2 (by omega), rfl⟩

theorem isSome_of_returned {id : GameId} (hid : id ∈ returned autoOpen ops) :
    ((operated autoOpen ops).game id).isSome := by
  induction ops using List.reverseRecOn with
  | nil => cases hid
  | append_singleton ops op ih =>
    rw [returned_concat] at hid
    rcases List.mem_append.1 hid with hid | hid
    · obtain ⟨r, hg⟩ := Option.isSome_iff_exists.1 (ih hid)
      obtain ⟨r', hg', -⟩ := extends_operated hg [op]
      exact Option.isSome_iff_exists.2 ⟨r', hg'⟩
    · rw [operated_concat]
      exact (filed_operated autoOpen ops).isSome_of_returns (Option.mem_toList.1 hid)

/-- **The records are in order whatever operations come, and nothing that was returned is ever
    lost.**  After any operations, from the start:

    * the games that were opened have ascending numbers, none above their count, so no number
      is used twice;
    * every room is mapped to a game on record as its own, no two rooms to one, and every
      record holds what belongs to its game;
    * whatever comes later, no record is removed, its room stays, and its players and its
      submissions at most become more;
    * unless games open as they are asked for, only opening a game creates a record;
    * whatever was returned was opened, and writing to it succeeds. -/
theorem operations_keep_records (autoOpen : Bool) (ops : List Operation) :
    ((opened autoOpen ops).Pairwise (·.number < ·.number) ∧
        ∀ id ∈ opened autoOpen ops, id.number ≤ (opened autoOpen ops).length) ∧
      ((operated autoOpen ops).Filed ∧
        ∀ room room' id, (operated autoOpen ops).gameFor room = some id →
          (operated autoOpen ops).gameFor room' = some id → room = room') ∧
      (∀ later id r, (operated autoOpen ops).game id = some r →
        ∃ r', (operated autoOpen (ops ++ later)).game id = some r' ∧ r.Extends r') ∧
      (autoOpen = false → ∀ op id, (operated autoOpen ops).game id = none →
        ((operated autoOpen (ops ++ [op])).game id).isSome → ∃ room, op = .openGame room) ∧
      ∀ id ∈ returned autoOpen ops, id ∈ opened autoOpen ops ∧
        ∀ c : Call, c.target? = some id →
          ((operated autoOpen ops).operate (.call c)).1 = .ok none := by
  have hfiled := filed_operated autoOpen ops
  refine ⟨⟨?_, fun id hid => ?_⟩, ⟨hfiled, fun room room' id hr hr' => hfiled.room_eq hr hr'⟩,
    fun later id r hg => extends_operated hg later, fun hclosed op id hnone hsome => ?_,
    fun id hid => ?_⟩
  · rw [opened_eq, List.pairwise_map]
    exact List.pairwise_lt_range'
  · have hlength : (opened autoOpen ops).length = (operated autoOpen ops).latest := by
      rw [opened_eq, List.length_map, List.length_range']
    rw [hlength]
    exact ((hfiled.recorded id).1 (mem_opened_iff.1 hid)).2
  · rw [operated_concat] at hsome
    obtain ⟨r, hg⟩ := Option.isSome_iff_exists.1 hsome
    rcases hfiled.game_turn (operationTurn _ op) hg with ⟨r', hg', -⟩ | ⟨-, -, -, room, hop⟩
    · cases hnone.symm.trans hg'
    · rcases hop with rfl | ⟨-, ha⟩
      · exact ⟨room, rfl⟩
      · rw [autoOpen_operated, hclosed] at ha
        cases ha
  · have hsome := isSome_of_returned hid
    refine ⟨mem_opened_iff.2 hsome, fun c hc => ?_⟩
    obtain ⟨r, hg⟩ := Option.isSome_iff_exists.1 hsome
    obtain ⟨ratings, heq⟩ := operate_of_game hc hg
    rw [heq]

/-- An answer is recorded in a game whose room had another game since and was given up. -/
theorem operations_keep_records_replaced :
    let room : RoomId := ⟨"r"⟩
    let ops : List Operation := [.openGame room, .call (.register ⟨1⟩ ⟨"ada"⟩), .openGame room,
      .call (.evict room)]
    (operated false ops).gameFor room = none ∧ opened false ops = [⟨1⟩, ⟨2⟩] ∧
      ((operated false ops).operate
        (.call (.recordSubmission ⟨⟨1⟩, ⟨⟨"ada"⟩, "1+2", false⟩⟩))).1 = .ok none := by
  intro room ops
  have hreturned : ⟨1⟩ ∈ returned false ops := by decide +kernel
  obtain ⟨-, hwrite⟩ := (operations_keep_records false ops).2.2.2.2 ⟨1⟩ hreturned
  exact ⟨by decide +kernel, by decide +kernel, hwrite _ rfl⟩

end

end Games

end HectocDuel
