/-
  Targets and the names that are read from them.

  A target that asks for a room is written from the names of the room and of the player: the
  room as a segment of the path, the player in a form (`joinTarget`).

  * `addressable_of_parseTarget`: whatever target was read, the room is a segment as it is
    written, and no blanks stand around the player (`Addressable`);
  * `parseTarget_joinTarget_iff`: names like these, and no others, are read from the target that
    is written for them;
  * `parseTarget_stable`: so to write what was read and to read it again changes nothing.
-/
import HectocDuel.Proofs.Text.Blank
import HectocDuel.Proofs.Url.Query
import HectocDuel.Proofs.Url.Reference
import HectocDuel.Target

namespace HectocDuel

open Text Url

/-- The target that asks for a room in the name of a player. -/
def joinTarget (room : RoomId) (player : PlayerId) : String :=
  "/api/v1/ws/rooms/" ++ room.text ++ "/join?userId=" ++ String.ofList (formEncode player.text)

/-- The names can stand in a target. -/
structure Addressable (room : RoomId) (player : PlayerId) : Prop where
  room_ne : room.text ≠ ""
  segment : IsSegment room.text.toList
  player_ne : player.text ≠ ""
  trimmed : Trimmed player.text.toList

variable {room : RoomId} {player : PlayerId} {target : String}

/-! ## Reading -/

theorem Url.IsSegment.not_blank {cs : List Char} (h : IsSegment cs) :
    ∀ c ∈ cs, isBlank c = false := by
  intro c hc
  obtain ⟨hlow, hhigh⟩ := bounds_of_isPathChar (h.written c hc)
  exact isBlank_of_visible hlow hhigh

/-- A room that a path names is one of its segments, and there is nothing to trim. -/
theorem mem_of_roomOfPath? {segments : List (List Char)} {name : List Char} (hne : name ≠ [])
    (hsegments : ∀ cs ∈ segments, IsSegment cs) (h : roomOfPath? segments = some name) :
    name ∈ segments := by
  rw [roomOfPath?] at h
  split at h
  · next room heq =>
    obtain rfl := Option.some.inj h
    have hmem : room ∈ segments.map String.ofList := by
      rw [heq]
      simp
    obtain ⟨segment, hsegment, rfl⟩ := List.mem_map.1 hmem
    rwa [String.toList_ofList, trimChars_of_forall_not (hsegments segment hsegment).not_blank]
  · exact absurd (Option.some.inj h).symm hne
  · cases h

theorem trimmed_of_playerOfQuery? {query : List Char} {name : String}
    (h : playerOfQuery? query = some name) : name ≠ "" ∧ Trimmed name.toList := by
  obtain ⟨hsome, hne⟩ := Option.filter_eq_some_iff.1 h
  obtain ⟨value, -, rfl⟩ := Option.map_eq_some_iff.1 hsome
  refine ⟨of_decide_eq_true hne, ?_⟩
  rw [trim, String.toList_ofList]
  exact trimmed_trimChars _

/-- **Names that are read from a target can stand in one.** -/
theorem addressable_of_parseTarget [HostNames] (hslash : target.toList.head? = some '/')
    (h : parseTarget target = .ok (room, player)) : Addressable room player := by
  rw [parseTarget] at h
  split at h
  · cases h
  next location hlocation =>
  split at h
  · cases h
  · cases h
  next name hne hname =>
  split at h
  · cases h
  next who hwho =>
  -- Three errors are passed; what is left names a room and a player.
  obtain ⟨query, -, hquery⟩ := Option.bind_eq_some_iff.1 hwho
  obtain ⟨rfl, rfl⟩ := Prod.mk.inj (Except.ok.inj h)
  obtain ⟨hplayer, htrimmed⟩ := trimmed_of_playerOfQuery? hquery
  have hsegments := isSegment_of_locate? hslash hlocation
  have hsegment := hsegments name (mem_of_roomOfPath? hne hsegments hname)
  exact ⟨by simpa using hne, by rwa [String.toList_ofList], hplayer, htrimmed⟩

/-! ## Writing -/

/-- The segments of the path that leads to a room. -/
def segmentsTo (room : RoomId) : List (List Char) :=
  ["api", "v1", "ws", "rooms", room.text, "join"].map String.toList

theorem joinTarget_eq (room : RoomId) (player : PlayerId) : joinTarget room player =
    String.ofList ('/' :: (['/'].intercalate (segmentsTo room) ++
      '?' :: formPair "userId" player.text)) := by
  have hname : formEncode "userId" = "userId".toList := by
    rw [formEncode, bytesOf_eq]
    rfl
  apply String.toList_inj.1
  -- `rw` would evaluate the text to state the equation.
  delta joinTarget
  simp [formPair, hname, segmentsTo]

theorem Addressable.isSegment_of_mem (h : Addressable room player) :
    ∀ cs ∈ segmentsTo room, IsSegment cs := by
  simp only [segmentsTo, List.map_cons, List.map_nil, List.forall_mem_cons]
  exact ⟨by decide, by decide, by decide, by decide, h.segment, by decide,
    fun _ hcs => absurd hcs List.not_mem_nil⟩

theorem Addressable.roomOfPath?_segmentsTo (h : Addressable room player) :
    roomOfPath? (segmentsTo room) = some room.text.toList := by
  simp [roomOfPath?, segmentsTo, trimChars_of_forall_not h.segment.not_blank]

theorem Addressable.playerOfQuery?_formPair (h : Addressable room player) :
    playerOfQuery? (formPair "userId" player.text) = some player.text := by
  rw [playerOfQuery?, queryValue?_formPair, Option.map_some, trim,
    trimChars_eq_self_iff.2 h.trimmed, String.ofList_toList, Option.filter_some,
    if_pos (decide_eq_true h.player_ne)]

/-- **Names that can stand in a target are read from the one that is written for them.** -/
theorem parseTarget_joinTarget [HostNames] (h : Addressable room player) :
    parseTarget (joinTarget room player) = .ok (room, player) := by
  have hquery : ∀ c ∈ formPair "userId" player.text, ' ' < c ∧ c ≠ '#' := by
    rw [formPair, List.forall_mem_append, List.forall_mem_cons]
    exact ⟨fun c hc => bounds_of_mem_formEncode hc, by decide,
      fun c hc => bounds_of_mem_formEncode hc⟩
  have hlocation : locate? (joinTarget room player) =
      some ⟨segmentsTo room, some (formPair "userId" player.text)⟩ := by
    rw [joinTarget_eq]
    exact locate?_path (by decide) h.isSegment_of_mem hquery
  rw [parseTarget, hlocation]
  obtain ⟨c, cs, hroom⟩ := List.exists_cons_of_ne_nil (String.toList_eq_nil_iff.not.2 h.room_ne)
  simp only [h.roomOfPath?_segmentsTo, hroom, Option.bind_some, h.playerOfQuery?_formPair]
  rw [← hroom, String.ofList_toList]

/-- **No names are read from it that cannot stand in a target.** -/
theorem parseTarget_joinTarget_iff [HostNames] :
    parseTarget (joinTarget room player) = .ok (room, player) ↔ Addressable room player := by
  refine ⟨fun h => addressable_of_parseTarget ?_ h, parseTarget_joinTarget⟩
  rw [joinTarget_eq, String.toList_ofList]
  rfl

/-! ## Both -/

/-- **To read a target that begins with a slash is stable.**  The room is not empty, does not
    stand for one point or two in any spelling, and is made of visible characters of ASCII
    without slashes; the player is not empty and has no blanks around its name; and both are
    read again from the target that is written for them. -/
theorem parseTarget_stable [HostNames] (hslash : target.toList.head? = some '/')
    (h : parseTarget target = .ok (room, player)) :
    room.text ≠ "" ∧
      decode (bytesOf room.text) ≠ bytesOf "." ∧ decode (bytesOf room.text) ≠ bytesOf ".." ∧
      (∀ c ∈ room.text.toList, c ≠ '/' ∧ isBlank c = false ∧ ' ' < c ∧ c < '\x7f') ∧
      player.text ≠ "" ∧ Trimmed player.text.toList ∧
      parseTarget (joinTarget room player) = .ok (room, player) := by
  have hnames := addressable_of_parseTarget hslash h
  refine ⟨hnames.room_ne, fun hpoint => ?_, fun hpoints => ?_, fun c hc => ?_, hnames.player_ne,
    hnames.trimmed, parseTarget_joinTarget hnames⟩
  · rw [bytesOf_eq, bytesOf_eq] at hpoint
    exact Bool.eq_false_iff.1 hnames.segment.not_here (isHere_iff.2 hpoint)
  · rw [bytesOf_eq, bytesOf_eq] at hpoints
    exact Bool.eq_false_iff.1 hnames.segment.not_up (isUp_iff.2 hpoints)
  · refine ⟨?_, hnames.segment.not_blank c hc, bounds_of_isPathChar (hnames.segment.written c hc)⟩
    rintro rfl
    exact absurd (hnames.segment.not_slash _ hc) (by decide)

/-- A target with an authority, a step that stays, slashes of both kinds, a broken escape and
    bytes that are no text. -/
theorem parseTarget_stable_spelled :
    "//H%4Fst:80/api/v1/ws\\rooms/./%2g é/join?userId=+ann%20lee%ff%2B#f".toList.head? = some '/' ∧
      parseTarget "//H%4Fst:80/api/v1/ws\\rooms/./%2g é/join?userId=+ann%20lee%ff%2B#f" =
        .ok (⟨"%2g%20%C3%A9"⟩, ⟨"ann lee\uFFFD+"⟩) ∧
      Trimmed "ann lee\uFFFD+".toList ∧
      parseTarget (joinTarget ⟨"%2g%20%C3%A9"⟩ ⟨"ann lee\uFFFD+"⟩) =
        .ok (⟨"%2g%20%C3%A9"⟩, ⟨"ann lee\uFFFD+"⟩) := by
  have h : parseTarget "//H%4Fst:80/api/v1/ws\\rooms/./%2g é/join?userId=+ann%20lee%ff%2B#f" =
      .ok (⟨"%2g%20%C3%A9"⟩, ⟨"ann lee\uFFFD+"⟩) := by decide +kernel
  obtain ⟨-, -, -, -, -, hplayer, hagain⟩ := parseTarget_stable rfl h
  exact ⟨rfl, h, hplayer, hagain⟩

/-- Elsewhere than on the web a backslash is no slash, and stays in the name of the room. -/
example : parseTarget "x:/api/v1/ws/rooms/a\\b/join?userId=u" = .ok (⟨"a\\b"⟩, ⟨"u"⟩) ∧
    parseTarget "/api/v1/ws/rooms/a\\b/join?userId=u" = .error .unknownEndpoint := by
  decide +kernel

end HectocDuel
