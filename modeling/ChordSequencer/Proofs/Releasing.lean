import ChordSequencer.CommandLine.Session
import ChordSequencer.Proofs.Configuring
import ChordSequencer.Proofs.Restating

/-!
# Giving up the MIDI output

A session opens its MIDI output first, then makes the conductor, sets up the instrument, plays, and
closes the output.  Only from the playing on is the output closed whatever happens.  A session that
fails between the opening and the playing leaves the device held, with its channels as they were.

* `Device.Released` : a device that was silenced and given up.  `Device.close_released` says that
  closing does it, whether messages can be sent or not.
* `conductor_ok_iff`, `Config.instrument_ok_iff` : what the two steps in between need.
* `perform_live` : the ways a session with a MIDI output can end, as far as its device is concerned.
* `device_released_iff` : a session releases the device it has opened exactly if its tempo is a
  positive number that a double is near and the settings of its instrument can be gone through.
-/

namespace ChordSequencer

namespace Device

variable {d : Device}

/-- What is logged when a message cannot be sent. -/
def sendFailure : LogLine := .fail "MIDI send failed (device may be disconnected)"

/-- A device that was silenced and given up.  What was sent last is what silences all channels; if
sending fails, it was tried. -/
structure Released (d : Device) : Prop where
  /-- It was closed. -/
  closed : d.closed = true
  /-- It is not held any more. -/
  givenUp : d.isOpen = false
  /-- The messages that silence all channels were sent last. -/
  silenced : d.sendFails = false → Message.silence.reverse <+: d.sent
  /-- If sending fails, it failed for each of them. -/
  attempted : d.sendFails = true →
    List.replicate Message.silence.length sendFailure <+: d.log

theorem foldl_transmit (held : d.isOpen = true) (ms : List Message) : ms.foldl transmit d =
    if d.sendFails then { d with log := List.replicate ms.length sendFailure ++ d.log }
    else { d with sent := ms.reverse ++ d.sent } := by
  induction ms generalizing d with
  | nil => simp
  | cons m ms ih =>
    rw [List.foldl_cons]
    cases fails : d.sendFails with
    | true =>
      have first : d.transmit m = { d with log := sendFailure :: d.log } := by
        simp only [transmit, held, fails, if_true, sendFailure]
      rw [first, ih (by exact held)]
      simp [fails, List.replicate_succ']
    | false =>
      have first : d.transmit m = { d with sent := m :: d.sent } := by
        simp [transmit, held, fails]
      rw [first, ih (by exact held)]
      simp [fails]

/-- **Closing releases a device that is held.** -/
theorem close_released (held : d.isOpen = true) : d.close.Released := by
  simp only [close, held, if_true, panic, foldl_transmit held]
  cases fails : d.sendFails with
  | true => exact ⟨rfl, rfl, fun sends => by simp at sends, fun _ => ⟨d.log, rfl⟩⟩
  | false => exact ⟨rfl, rfl, fun _ => ⟨d.sent, rfl⟩, fun sends => by simp at sends⟩

theorem close_name (d : Device) : d.close.name = d.name := by
  simp only [close]
  split
  · rename_i held
    simp only [panic, foldl_transmit held]
    split <;> rfl
  · rfl

/-- The device of this name is found and can be opened. -/
structure Opens (supply : DeviceSupply) (wanted : Option String) (name : String) : Prop where
  /-- The devices can be listed. -/
  listed : supply.listFailure = none
  /-- It is the one that is asked for. -/
  found : findDevice wanted supply.available = some name
  /-- It can be opened. -/
  opened : supply.openFailure = none

/-- The two kinds of output that are opened: one with the device that was found, and one with none,
if there is none or it cannot be opened. -/
theorem ofName_opens (supply : DeviceSupply) (wanted : Option String) :
    (∃ name, Opens supply wanted name ∧ ofName supply wanted = .holding name supply.sendFails) ∨
      (∀ name, ¬ Opens supply wanted name) ∧ ∃ reason, ofName supply wanted = .without reason := by
  simp only [ofName]
  cases listed : supply.listFailure with
  | some reason =>
    refine .inr ⟨fun name opens => ?_, _, rfl⟩
    simp [opens.listed] at listed
  | none =>
    cases found : findDevice wanted supply.available with
    | none =>
      refine .inr ⟨fun name opens => ?_, _, rfl⟩
      simp [opens.found] at found
    | some name =>
      cases opened : supply.openFailure with
      | some reason =>
        refine .inr ⟨fun name opens => ?_, _, rfl⟩
        simp [opens.opened] at opened
      | none => exact .inl ⟨name, ⟨listed, found, opened⟩, rfl⟩

theorem ofName_cases (supply : DeviceSupply) (wanted : Option String) :
    (∃ name, ofName supply wanted = .holding name supply.sendFails) ∨
      ∃ reason, ofName supply wanted = .without reason :=
  (ofName_opens supply wanted).imp (fun ⟨name, _, held⟩ => ⟨name, held⟩) And.right

theorem transmit_same (d : Device) (m : Message) :
    (d.transmit m).name = d.name ∧ (d.transmit m).isOpen = d.isOpen := by
  simp only [transmit]
  split
  · split <;> exact ⟨rfl, rfl⟩
  · exact ⟨rfl, rfl⟩

end Device

namespace CommandLine

/-! ### The output -/

namespace Output

theorem deviceFor_cases (supply : DeviceSupply) (wanted : Json) :
    (∃ name, deviceFor supply wanted = .holding name supply.sendFails) ∨
      ∃ reason, deviceFor supply wanted = .without reason := by
  simp only [deviceFor]
  split
  · exact Device.ofName_cases supply none
  · exact Device.ofName_cases supply _
  · split
    · exact .inr ⟨_, rfl⟩
    · split <;> exact .inr ⟨_, rfl⟩

theorem choose_live {args : Arguments} {supply : DeviceSupply} {bpm wanted : Json} {d : Device}
    (chosen : choose args supply bpm wanted = .ok (live d)) : d = deviceFor supply wanted := by
  simp only [choose] at chosen
  split at chosen
  · cases chosen
    rfl
  · split at chosen
    · cases chosen
      rfl
    · -- a recording is not a device
      obtain ⟨x, -, created⟩ := Setting.bind_ok chosen
      obtain ⟨r, -, recording⟩ := Setting.map_ok created
      cases recording

theorem sendAll_live (d : Device) (triggers : List (Float × Trigger)) :
    ∃ d', ((live d).sendAll triggers).1 = live d' ∧ d'.name = d.name ∧ d'.isOpen = d.isOpen := by
  induction triggers generalizing d with
  | nil => exact ⟨d, rfl, rfl, rfl⟩
  | cons trigger rest ih =>
    obtain ⟨time, t⟩ := trigger
    simp only [sendAll, send, Device.send, Message.check]
    split_ifs with channel data
    · exact ⟨d, rfl, rfl, rfl⟩
    · exact ⟨d, rfl, rfl, rfl⟩
    · obtain ⟨name, held⟩ := d.transmit_same (.ofTrigger t)
      obtain ⟨d', sent, name', held'⟩ := ih (d.transmit (.ofTrigger t))
      exact ⟨d', sent, name'.trans name, held'.trans held⟩

end Output

/-! ### The tempo -/

/-- A tempo that can be played in: a positive number, and not a whole number to which no double is
near. -/
structure PlayableTempo (bpm : Json) : Prop where
  /-- It is a number, and not zero at most. -/
  positive : ∃ x, bpm.double? = some x ∧ ¬ x ≤ 0.0
  /-- A double is near. -/
  fits : ∀ n : Int, bpm = .int n → ¬ Number.TooLarge n.natAbs

theorem isTooLarge_eq_false_iff {v : Json} :
    v.isTooLarge = false ↔ ∀ n : Int, v = .int n → ¬ Number.TooLarge n.natAbs := by
  have near (n : Int) : Number.ofInt? n = none ↔ Number.TooLarge n.natAbs := by
    rw [← Number.ofInt?_eq_none_iff]
    simp only [Number.ofInt?, Int.natAbs_natCast]
    split <;> simp_all
  cases v with
  | int n =>
    simp only [Json.isTooLarge, Option.isNone_eq_false_iff, Json.int.injEq, forall_eq', ← near,
      Option.isSome_iff_ne_none, ne_eq]
  | _ => simp [Json.isTooLarge]

theorem beats_ok_iff {bpm : Json} {x : Float} : beats bpm = .ok x ↔ bpm.double? = some x := by
  simp only [beats]
  cases bpm.double? <;> simp

theorem create_ok_iff {x : Float} :
    (∃ c, Conductor.create true .standard x = .ok c) ↔ ¬ x ≤ 0.0 := by
  simp only [Conductor.create, Conductor.checkTempo]
  split <;> simp_all [Except.map]

/-- **A session has a conductor exactly if its tempo can be played in.** -/
theorem conductor_ok_iff {bpm : Json} : (∃ c, conductor bpm = .ok c) ↔ PlayableTempo bpm := by
  simp only [conductor]
  constructor
  · rintro ⟨c, made⟩
    split at made
    · cases made
    · rename_i created
      split at made
      · cases made
      · rename_i near
        obtain ⟨x, number, created⟩ := Setting.bind_ok created
        refine ⟨⟨x, beats_ok_iff.1 number, create_ok_iff.1 ⟨_, created⟩⟩, ?_⟩
        exact isTooLarge_eq_false_iff.1 (Bool.eq_false_iff.2 near)
  · rintro ⟨⟨x, number, positive⟩, fits⟩
    obtain ⟨c, created⟩ := create_ok_iff.2 positive
    rw [beats_ok_iff.2 number, Except.bind, created, isTooLarge_eq_false_iff.2 fits]
    exact ⟨c, rfl⟩

/-! ### The instrument -/

namespace Config

variable {c : Catalog} {i : Instrument} {key : String} {value : Json}
  {settings rest : List (String × Json)}

/-- Settings of an instrument that can be gone through: no note value is of too large a number. -/
def Fits (settings : List (String × Json)) : Prop :=
  ∀ value, ("duration", value) ∈ settings →
    ∀ v, NoteValue.ofText value.display = .ok v → ¬ Number.TooLarge v.count

theorem fits_cons : Fits ((key, value) :: rest) ↔
    (key = "duration" → ∀ v, NoteValue.ofText value.display = .ok v → ¬ Number.TooLarge v.count) ∧
      Fits rest := by
  simp only [Fits, List.mem_cons, Prod.mk.injEq]
  constructor
  · intro fits
    exact ⟨fun named => fits value (.inl ⟨named.symm, rfl⟩), fun v hv => fits v (.inr hv)⟩
  · rintro ⟨first, later⟩ w (⟨rfl, rfl⟩ | hw)
    · exact first rfl
    · exact later w hw

/-- A setting that is neither made nor refused is a note value of too large a number. -/
theorem apply_fails {s : Setting} {why : Failure} (found : setting? key = some s)
    (failed : s.apply c i value.display 10 = .error why)
    (other : ∀ refusal, why ≠ .refused refusal) :
    key = "duration" ∧
      ∃ v, NoteValue.ofText value.display = .ok v ∧ Number.TooLarge v.count := by
  by_cases duration : s = .duration
  · subst duration
    refine ⟨(setting?_name found).symm, ?_⟩
    cases length : Setting.durationOfText value.display with
    | error why' =>
      simp only [Setting.apply, length, Except.map, Except.error.injEq] at failed
      subst failed
      rcases Setting.durationOfText_error length with ⟨refusal, refused⟩ | large
      · exact absurd refused (other refusal)
      · exact large
    | ok text => simp [Setting.apply, length, Except.map] at failed
  · obtain ⟨refusal, refused⟩ := Setting.apply_error duration failed
    exact absurd refused (other refusal)

/-- **Settings can be made one after another exactly if they fit**; those that are refused are
passed over. -/
theorem applySettings_ok_iff : (∃ j, (applySettings c i settings).2 = .ok j) ↔ Fits settings := by
  induction settings generalizing i with
  | nil => exact ⟨fun _ _ mem => absurd mem List.not_mem_nil, fun _ => ⟨i, rfl⟩⟩
  | cons setting rest ih =>
    obtain ⟨key, value⟩ := setting
    rw [fits_cons]
    simp only [applySettings]
    split
    · rename_i unknown
      have other : key ≠ "duration" := by
        rintro rfl
        cases unknown
      exact ih.trans ⟨fun fits => ⟨fun named => absurd named other, fits⟩, And.right⟩
    · rename_i s found
      -- a note value that is too large cannot be made
      have small (made : s.apply c i value.display 10 ≠ .error .tooLarge) (named : key = "duration")
          (v : NoteValue) (read : NoteValue.ofText value.display = .ok v) :
          ¬ Number.TooLarge v.count := by
        intro large
        subst named
        cases found
        simp [Setting.apply, Setting.durationOfText, NoteValue.beatsOfText_tooLarge read large,
          Except.map] at made
      split
      · rename_i j made
        exact ih.trans ⟨fun fits => ⟨small (by simp [made]), fits⟩, And.right⟩
      · rename_i refused
        exact ih.trans ⟨fun fits => ⟨small (by simp [refused]), fits⟩, And.right⟩
      · rename_i why other failed
        obtain ⟨named, v, read, large⟩ := apply_fails found failed other
        refine iff_of_false ?_ fun fits => fits.1 named v read large
        rintro ⟨j, made⟩
        cases made

/-- **A session has an instrument exactly if its section of the configuration is one, and fits.** -/
theorem instrument_ok_iff {config : Json} : (∃ i, (instrument c config).2 = .ok i) ↔
    ∃ settings, sectionOf config "instrument" "items" = .ok settings ∧ Fits settings := by
  simp only [instrument]
  cases sectionOf config "instrument" "items" with
  | error why => simp
  | ok settings => simp only [applySettings_ok_iff, Except.ok.injEq, exists_eq_left']

end Config

/-! ### Sessions -/

variable {turns : Nat} {args : Arguments} {config : Json} {song : Song} {bpm : Json}
  {log : List LogLine} {d : Device}

/-- **The ways a session with a MIDI output can end.**  It fails before it plays and leaves its
device as it was opened, or it plays, sends to its device and closes it. -/
theorem perform_live (turns : Nat) (args : Arguments) (config : Json) (song : Song) (bpm : Json)
    (log : List LogLine) (d : Device) :
    let ready := (∃ c, conductor bpm = .ok c) ∧ ∃ i, (Config.instrument .standard config).2 = .ok i
    let left := (perform turns args config song bpm log (.live d)).device
    ¬ ready ∧ left = some d ∨
      ready ∧ ∃ d' : Device, d'.name = d.name ∧ d'.isOpen = d.isOpen ∧ left = some d'.close := by
  intro ready left
  simp only [left, perform]
  split
  · rename_i failed
    refine .inl ⟨?_, rfl⟩
    rintro ⟨⟨c, made⟩, -⟩
    rw [failed] at made
    cases made
  · rename_i c made
    split
    · rename_i failed
      refine .inl ⟨?_, rfl⟩
      rintro ⟨-, i, built⟩
      rw [failed] at built
      cases built
    · rename_i i built
      refine .inr ⟨⟨⟨c, made⟩, i, by rw [built]⟩, ?_⟩
      obtain ⟨d', sent, name, held⟩ := Output.sendAll_live d
        ({ c with song := some song, instrument := some i }.play turns args.seconds).1.sent.reverse
      exact ⟨d', name, held, by simp only [Report.closing, sent]⟩

theorem perform_file (turns : Nat) (args : Arguments) (config : Json) (song : Song) (bpm : Json)
    (log : List LogLine) (path : String) (r : Recording) :
    (perform turns args config song bpm log (.file path r)).device = none := by
  have sent (r : Recording) (triggers : List (Float × Trigger)) :
      ∃ r', ((Output.file path r).sendAll triggers).1 = .file path r' := by
    induction triggers generalizing r with
    | nil => exact ⟨r, rfl⟩
    | cons trigger rest ih =>
      obtain ⟨time, t⟩ := trigger
      simp only [Output.sendAll, Output.send]
      cases r.record time (.ofTrigger t) with
      | error why => exact ⟨r, rfl⟩
      | ok r' => exact ih r'
  simp only [perform]
  split
  · rfl
  · rename_i c made
    split
    · rfl
    · rename_i i built
      obtain ⟨r', sent⟩ := sent r
        ({ c with song := some song, instrument := some i }.play turns args.seconds).1.sent.reverse
      simp only [Report.closing, sent]
      split <;> rfl

/-- What a session with a device comes from: the tempo was there, and the device is one that was
opened for it. -/
theorem prepare_live {supply : DeviceSupply}
    (prepared : prepare args config supply = .ok (bpm, .live d)) :
    tempo args config = .ok bpm ∧ ∃ wanted, d = Output.deviceFor supply wanted := by
  obtain ⟨bpm, named, prepared⟩ := Setting.bind_ok prepared
  obtain ⟨device, -, prepared⟩ := Setting.bind_ok prepared
  obtain ⟨output, chosen, same⟩ := Setting.map_ok prepared
  cases same
  exact ⟨named, device, Output.choose_live chosen⟩

/-- A session leaves a device behind only if it has opened its output. -/
theorem run_device {turns : Nat} {config : Option Json} {songText : String}
    {supply : DeviceSupply} (left : (run turns args config songText supply).device = some d) :
    ∃ bpm d₀ song log, prepare args (config.getD (.obj [])) supply = .ok (bpm, .live d₀) ∧
      (perform turns args (config.getD (.obj [])) song bpm log (.live d₀)).device = some d := by
  simp only [run] at left
  split at left
  · cases left
  · split at left
    · cases left
    · split at left
      · cases left
      · rename_i song log loaded _ bpm output prepared
        cases output with
        | file path r =>
          rw [perform_file] at left
          cases left
        | live d₀ => exact ⟨bpm, d₀, song, _, prepared, left⟩

/-- **When a session releases its device.**  Whatever the arguments, the configuration, the song and
the devices that are there: a device that the session has opened is silenced and closed at the end
exactly if the tempo is a positive number that a double is near, the instrument section is an object
or nothing, and none of its note values is of too large a number.  Otherwise the session fails
before it plays, and leaves the device open, with nothing sent to it. -/
theorem device_released_iff (turns : Nat) (args : Arguments) (config : Option Json)
    (songText : String) (supply : DeviceSupply) {d : Device} {name : String}
    (left : (run turns args config songText supply).device = some d) (opened : d.name = some name) :
    let settled := (∃ bpm, tempo args (config.getD (.obj [])) = .ok bpm ∧ PlayableTempo bpm) ∧
      ∃ settings, Config.sectionOf (config.getD (.obj [])) "instrument" "items" = .ok settings ∧
        Config.Fits settings
    (d.Released ↔ settled) ∧ (¬ settled → d = .holding name supply.sendFails) := by
  intro settled
  obtain ⟨bpm, d₀, song, log, prepared, ended⟩ := run_device left
  obtain ⟨named, wanted, rfl⟩ := prepare_live prepared
  have ready : ((∃ c, conductor bpm = .ok c) ∧
      ∃ i, (Config.instrument .standard (config.getD (.obj []))).2 = .ok i) ↔ settled := by
    simp only [settled, conductor_ok_iff, Config.instrument_ok_iff, named, Except.ok.injEq,
      exists_eq_left']
  -- the device has the name of the one that was opened
  have first : d.name = (Output.deviceFor supply wanted).name →
      Output.deviceFor supply wanted = .holding name supply.sendFails := by
    intro same
    rw [opened] at same
    rcases Output.deviceFor_cases supply wanted with ⟨other, held⟩ | ⟨reason, none_held⟩
    · rw [held] at same ⊢
      cases same
      rfl
    · rw [none_held] at same
      cases same
  rcases perform_live turns args (config.getD (.obj [])) song bpm log
    (Output.deviceFor supply wanted) with ⟨unready, kept⟩ | ⟨isReady, d', name', held, closed⟩
  · rw [ended] at kept
    cases kept
    rw [first rfl]
    refine ⟨iff_of_false (fun released => ?_) fun h => unready (ready.2 h), fun _ => rfl⟩
    cases released.givenUp
  · rw [ended] at closed
    cases closed
    rw [first (d'.close_name.trans name')] at held
    exact ⟨⟨fun _ => ready.1 isReady, fun _ => Device.close_released held⟩,
      fun unsettled => absurd (ready.1 isReady) unsettled⟩

/-- A session with the tempo of 120 beats per minute that is used when none is named. -/
theorem device_released_by_default : ∃ d,
    (run Conductor.patience ⟨"song.txt", "config.yaml", none, none, none, some 0.0⟩ none "O4:1"
      ⟨["A"], none, none, false⟩).device = some d ∧ d.name = some "A" ∧ d.Released := by
  let args : Arguments := ⟨"song.txt", "config.yaml", none, none, none, some 0.0⟩
  let supply : DeviceSupply := ⟨["A"], none, none, false⟩
  have named : (run Conductor.patience args none "O4:1" supply).device.map (·.name) =
      some (some "A") := by decide +kernel
  obtain ⟨d, left, opened⟩ := Option.map_eq_some_iff.1 named
  have positive : ¬ (120.0 : Float) ≤ 0.0 := by decide +kernel
  have playable : PlayableTempo (.int 120) := ⟨⟨120.0, by rfl, positive⟩, fun n same => by
    cases same
    decide +kernel⟩
  have fits : Config.Fits [] := fun _ mem => absurd mem List.not_mem_nil
  exact ⟨d, left, opened, (device_released_iff _ args none _ supply left opened).1.2
    ⟨⟨_, rfl, playable⟩, _, rfl, fits⟩⟩

/-- A session with the tempo `--bpm 0` opens the device `A`, fails, and leaves it open without
having silenced it. -/
theorem zero_tempo_keeps_device : ∃ args d,
    Arguments.ofTexts ["song.txt", "--bpm", "0"] = .ok args ∧
    (run Conductor.patience args (some (.obj [])) "O4:1" ⟨["A"], none, none, false⟩).device =
      some d ∧
    d.name = some "A" ∧ d.isOpen = true ∧ d.sent = [] ∧ ¬ d.Released := by
  let args : Arguments := ⟨"song.txt", "config.yaml", some 0.0, none, none, none⟩
  have ended : (run Conductor.patience args (some (.obj [])) "O4:1"
      ⟨["A"], none, none, false⟩).device.map (fun d => (d.name, d.isOpen, d.sent)) =
        some (some "A", true, []) := by decide +kernel
  obtain ⟨d, left, same⟩ := Option.map_eq_some_iff.1 ended
  obtain ⟨opened, held, sent⟩ : d.name = some "A" ∧ d.isOpen = true ∧ d.sent = [] := by
    simpa using same
  refine ⟨args, d, rfl, left, opened, held, sent, fun released => ?_⟩
  rw [released.givenUp] at held
  cases held

end CommandLine

end ChordSequencer
