/-
  The other values survive the wire.

  * `Puzzle.ofJson_toJson` and its like: each value is read back from its tree;
  * `Duration.ofJson_ofEntries`: seconds and nanoseconds are read iff the seconds, with those
    that carry over, fit;
  * `records_round_trip`: so all of them are read back from their texts.
-/
import HectocDuel.Proofs.Json.Encoding
import HectocDuel.Proofs.Puzzle.Digits
import HectocDuel.Wire.Records
import Mathlib.Data.List.Permutation

namespace HectocDuel

open Json

/-! ## Puzzles and games -/

theorem Digits.ofJson_toJson (ds : Digits) : Digits.ofJson ds.toJson = .ok ds := by
  simp only [Digits.ofJson, Digits.toJson, string_ofText, bind, Except.bind,
    Digits.parse_eq_ok_iff.2 rfl]
  rfl

theorem Puzzle.written_toJson (p : Puzzle) : p.toJson.Written := by
  refine .entries ?_
  simp only [List.forall_mem_cons]
  refine ⟨.text _, .items (List.forall_mem_map.2 fun s _ => .text s), nofun⟩

theorem Puzzle.ofJson_toJson (p : Puzzle) : Puzzle.ofJson p.toJson = .ok p :=
  Shape.read_ofEntries_eq_ok (.of rfl rfl p.digits.ofJson_toJson <|
    .of rfl rfl (list_ofItems string_ofText _) <| .done _) rfl rfl

theorem GameId.ofJson_toJson {g : GameId} (h : g.number < wordBound) :
    GameId.ofJson g.toJson = .ok g :=
  congrArg (Except.map GameId.mk) (natural_ofNat h (Nat.le_refl _) _)

theorem PlayerId.ofJson_toJson (p : PlayerId) : PlayerId.ofJson p.toJson = .ok p :=
  congrArg (Except.map PlayerId.mk) (string_ofText p.text)

theorem SubmissionRecord.ofJson_toJson {s : SubmissionRecord} (h : s.game.number < wordBound) :
    SubmissionRecord.ofJson s.toJson = .ok s :=
  Shape.read_ofEntries_eq_ok (.of rfl rfl (GameId.ofJson_toJson h) <|
    .of rfl rfl s.submission.player.ofJson_toJson <| .of rfl rfl (string_ofText _) <|
    .of rfl rfl rfl <| .done _) rfl rfl

/-! ## Spans of time -/

/-- Whether the seconds of a span of time fit. -/
def Duration.Fits (d : Duration) : Prop :=
  d.nanoseconds < wordBound * nanosPerSecond

/-- They fit iff the seconds do with those that carry over from the nanoseconds. -/
theorem Duration.fits_iff (secs nanos : Nat) :
    Duration.Fits ⟨secs * nanosPerSecond + nanos⟩ ↔ secs + nanos / nanosPerSecond < wordBound := by
  rw [Fits, ← Nat.div_lt_iff_lt_mul (by decide), Nat.mul_comm, Nat.mul_add_div (by decide)]

/-- Seconds and nanoseconds are read, in either order, iff the seconds fit with those that
    carry over. -/
theorem Duration.ofJson_ofEntries {secs nanos : Nat} {es : List (String × Tree)}
    (hs : secs < wordBound) (hn : nanos < UInt32.size)
    (hes : es.Perm [("secs", .ofNat secs), ("nanos", .ofNat nanos)]) :
    Duration.ofJson (.ofEntries es) =
      if secs + nanos / nanosPerSecond < wordBound then .ok ⟨secs * nanosPerSecond + nanos⟩
      else .error (.misfit (.refused "overflow deserializing Duration")) := by
  have hsecs := natural_ofNat hs (Nat.le_refl _) "u64"
  have hnanos := natural_ofNat hn (by decide) "u32"
  have hbuild : DurationFields.shape.build ⟨some secs, some nanos⟩ =
      if secs + nanos / nanosPerSecond < wordBound then .ok ⟨secs * nanosPerSecond + nanos⟩
      else .error (.misfit (.refused "overflow deserializing Duration")) :=
    if_congr (Duration.fits_iff secs nanos) rfl rfl
  rcases List.perm_pair.1 hes with rfl | rfl
  · exact (Shape.read_ofEntries (.of rfl rfl hsecs <| .of rfl rfl hnanos <| .done _) rfl).trans
      hbuild
  · exact (Shape.read_ofEntries (.of rfl rfl hnanos <| .of rfl rfl hsecs <| .done _) rfl).trans
      hbuild

theorem Duration.ofJson_toJson {d : Duration} (h : d.Fits) : Duration.ofJson d.toJson = .ok d := by
  have hsecs : d.nanoseconds / nanosPerSecond < wordBound :=
    (Nat.div_lt_iff_lt_mul (by decide)).2 h
  have hnanos : d.nanoseconds % nanosPerSecond < nanosPerSecond := Nat.mod_lt _ (by decide)
  rw [toJson, ofJson_ofEntries hsecs (Nat.lt_trans hnanos (by decide)) (.refl _), if_pos]
  · rw [Nat.div_add_mod']
  · rwa [Nat.div_eq_of_lt hnanos]

/-! ## Settings -/

/-- Whether the numbers of a hub's settings fit. -/
structure HubSettings.Fits (s : HubSettings) : Prop where
  outbound : s.outboundCapacity < wordBound
  intake : s.intakeCapacity < wordBound
  timeout : s.deliveryTimeout.Fits

theorem HubSettings.ofJson_ofEntries {outbound intake : Nat} (ho : outbound < wordBound)
    (hi : intake < wordBound) (t : Tree) :
    HubSettings.ofJson (.ofEntries [("outbound_capacity", .ofNat outbound),
        ("intake_capacity", .ofNat intake), ("delivery_timeout", t)]) =
      (Duration.ofJson t).map (HubSettings.mk outbound intake) := by
  have houtbound := natural_ofNat ho (Nat.le_refl _) "usize"
  have hintake := natural_ofNat hi (Nat.le_refl _) "usize"
  rcases ht : Duration.ofJson t with e | d
  · exact Shape.read_ofEntries_eq_error (.of rfl rfl houtbound <| .of rfl rfl hintake <| .done _)
      rfl rfl (congrArg (Except.map _) ht)
  · exact Shape.read_ofEntries_eq_ok (.of rfl rfl houtbound <| .of rfl rfl hintake <|
      .of rfl rfl ht <| .done _) rfl rfl

theorem HubSettings.ofJson_toJson {s : HubSettings} (h : s.Fits) :
    HubSettings.ofJson s.toJson = .ok s := by
  rw [toJson, ofJson_ofEntries h.outbound h.intake, Duration.ofJson_toJson h.timeout]
  rfl

theorem Settings.ofJson_toJson {s : Settings} (h : s.hub.Fits) :
    Settings.ofJson s.toJson = .ok s :=
  Shape.read_ofEntries_eq_ok (.of rfl rfl (string_ofText _) <| .of rfl rfl rfl <|
    .of rfl rfl (HubSettings.ofJson_toJson h) <| .done _) rfl rfl

/-! ## The round trip -/

theorem GameId.written_toJson (g : GameId) : g.toJson.Written :=
  .natural g.number

theorem SubmissionRecord.written_toJson (s : SubmissionRecord) : s.toJson.Written := by
  refine .entries ?_
  simp only [List.forall_mem_cons]
  exact ⟨s.game.written_toJson, .text _, .text _, .bool _, nofun⟩

theorem Duration.written_ofEntries {secs nanos : Nat} {es : List (String × Tree)}
    (hes : es.Perm [("secs", .ofNat secs), ("nanos", .ofNat nanos)]) :
    (Tree.ofEntries es).Written := by
  refine .entries fun e he => ?_
  rcases List.mem_pair.1 (hes.mem_iff.1 he) with rfl | rfl
  · exact .natural secs
  · exact .natural nanos

theorem Duration.written_toJson (d : Duration) : d.toJson.Written :=
  written_ofEntries (.refl _)

theorem HubSettings.written_ofEntries (outbound intake : Nat) {t : Tree} (ht : t.Written) :
    (Tree.ofEntries [("outbound_capacity", .ofNat outbound), ("intake_capacity", .ofNat intake),
      ("delivery_timeout", t)]).Written := by
  refine .entries ?_
  simp only [List.forall_mem_cons]
  exact ⟨.natural _, .natural _, ht, nofun⟩

theorem HubSettings.written_toJson (s : HubSettings) : s.toJson.Written :=
  written_ofEntries _ _ s.deliveryTimeout.written_toJson

theorem Settings.written_toJson (s : Settings) : s.toJson.Written := by
  refine .entries ?_
  simp only [List.forall_mem_cons]
  exact ⟨.text _, .bool _, s.hub.written_toJson, nofun⟩

/-- **Every other value is read back from its text**, too: all puzzles and, where their
    numbers fit the types of the wire, all games, recorded submissions and settings.  And
    an object with any seconds and nanoseconds, in either order, is read iff the seconds fit
    together with those that carry over, alone and as the timeout of a hub; then it is read
    as their sum, which is read back from its own text. -/
theorem records_round_trip :
    (∀ p : Puzzle, decode Puzzle.ofJson (encode p.toJson) = .ok p) ∧
      (∀ g : GameId, g.number < wordBound → decode GameId.ofJson (encode g.toJson) = .ok g) ∧
      (∀ s : SubmissionRecord, s.game.number < wordBound →
        decode SubmissionRecord.ofJson (encode s.toJson) = .ok s) ∧
      (∀ s : HubSettings, s.Fits → decode HubSettings.ofJson (encode s.toJson) = .ok s) ∧
      (∀ s : Settings, s.hub.Fits → decode Settings.ofJson (encode s.toJson) = .ok s) ∧
      ∀ secs nanos es, secs < wordBound → nanos < UInt32.size →
        es.Perm [("secs", .ofNat secs), ("nanos", .ofNat nanos)] →
        let read := decode Duration.ofJson (encode (.ofEntries es))
        ((∃ d, read = .ok d) ↔ secs + nanos / nanosPerSecond < wordBound) ∧
          (∀ d, read = .ok d → d.nanoseconds = secs * nanosPerSecond + nanos ∧
            decode Duration.ofJson (encode d.toJson) = .ok d) ∧
          ∀ outbound intake, outbound < wordBound → intake < wordBound →
            decode HubSettings.ofJson (encode (.ofEntries
                [("outbound_capacity", .ofNat outbound), ("intake_capacity", .ofNat intake),
                  ("delivery_timeout", .ofEntries es)])) =
              read.map (HubSettings.mk outbound intake) := by
  refine ⟨fun p => ?_, fun g hg => ?_, fun s hs => ?_, fun s hs => ?_, fun s hs => ?_,
    fun secs nanos es hsecs hnanos hes => ?_⟩
  · rw [decode_encode _ p.written_toJson, p.ofJson_toJson]
  · rw [decode_encode _ g.written_toJson, GameId.ofJson_toJson hg]
  · rw [decode_encode _ s.written_toJson, SubmissionRecord.ofJson_toJson hs]
  · rw [decode_encode _ s.written_toJson, HubSettings.ofJson_toJson hs]
  · rw [decode_encode _ s.written_toJson, Settings.ofJson_toJson hs]
  have hwritten := Duration.written_ofEntries hes
  intro read
  have hread : read = Duration.ofJson (.ofEntries es) := decode_encode _ hwritten
  refine ⟨?_, fun d hd => ?_, fun outbound intake ho hi => ?_⟩
  · rw [hread, Duration.ofJson_ofEntries hsecs hnanos hes]
    split
    · next hfits => exact iff_of_true ⟨_, rfl⟩ hfits
    · next hfits => exact iff_of_false nofun hfits
  · rw [hread, Duration.ofJson_ofEntries hsecs hnanos hes] at hd
    split at hd
    · next hfits =>
      obtain rfl := Except.ok.inj hd
      refine ⟨rfl, ?_⟩
      rw [decode_encode _ (Duration.written_toJson _),
        Duration.ofJson_toJson ((Duration.fits_iff secs nanos).2 hfits)]
    · cases hd
  · rw [decode_encode _ (HubSettings.written_ofEntries _ _ hwritten),
      HubSettings.ofJson_ofEntries ho hi, hread]

/-- The largest numbers of the wire are read back, and of two spans of time one nanosecond
    apart the larger one, which carries over, is not read. -/
theorem records_round_trip_largest :
    let span (nanos : Nat) : Except DecodeError Duration :=
      decode Duration.ofJson (encode (.ofEntries
        [("nanos", .ofNat nanos), ("secs", .ofNat 18446744073709551615)]))
    let hub : HubSettings := ⟨18446744073709551615, 0, ⟨18446744073709551615999999999⟩⟩
    decode GameId.ofJson (encode (GameId.toJson ⟨18446744073709551615⟩)) =
        .ok ⟨18446744073709551615⟩ ∧
      decode HubSettings.ofJson (encode hub.toJson) = .ok hub ∧
      decode Settings.ofJson (encode (Settings.toJson ⟨"", false, hub⟩)) = .ok ⟨"", false, hub⟩ ∧
      (∃ d, span 999999999 = .ok d) ∧ ¬ ∃ d, span 1000000000 = .ok d := by
  intro span hub
  obtain ⟨-, hgame, -, hhub, hsettings, hspan⟩ := records_round_trip
  have hfits : hub.Fits := ⟨by decide, by decide, show _ < _ by decide⟩
  have hless := (hspan 18446744073709551615 999999999 _ (by decide) (by decide)
    (.swap _ _ [])).1
  have hmore := (hspan 18446744073709551615 1000000000 _ (by decide) (by decide)
    (.swap _ _ [])).1
  exact ⟨hgame _ (by decide), hhub hub hfits, hsettings _ hfits, hless.2 (by decide),
    fun h => absurd (hmore.1 h) (by decide)⟩

end HectocDuel
