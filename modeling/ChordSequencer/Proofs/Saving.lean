import ChordSequencer.Proofs.Commands
import ChordSequencer.Proofs.Timing

/-!
# Recordings that cannot be saved

A recording can be begun at every positive tempo, but a MIDI file holds the time between two beats
in 24 bits, in microseconds.  A recording at a slower tempo than `Track.slowest` takes all its
messages and fails only when it is to be written, when its messages are lost.

* `Track.slowest`, `Track.tempoOf_slow`, `Track.tempoOf_fast` : the slowest tempo that can be
  written, and what becomes of others.
* `Track.messagesFrom_ok_iff` : whether the messages can be written does not depend on their order.
* `Recording.saved_iff` : exactly when a recording is written.
-/

namespace ChordSequencer

open Number

namespace Track

variable {bpm : Float}

/-! ### Tempos -/

/-- The slowest tempo whose beats a MIDI file can hold. -/
def slowest : Float := 3.5762787931048514

/-- The tempo just below the slowest one. -/
def tooSlow : Float := 3.576278793104851

theorem wholeNumber_infinite {x : Float} (infinite : magnitude x = infinityBits) :
    wholeNumber x = .error .tooLarge := by
  rw [wholeNumber, exact_eq, if_neg (by omega), if_pos infinite]

theorem wholeNumber_undefined {x : Float} (undefined : infinityBits < magnitude x) :
    wholeNumber x = .error (.refused .undefinedTime) := by
  rw [wholeNumber, exact_eq, if_pos undefined]

theorem sign_beat (positive : ¬ bpm ≤ 0.0) (number : magnitude bpm ≤ infinityBits) :
    sign (60000000.0 / bpm) = .positive := by
  have minute : magnitude 60000000.0 < infinityBits := by decide +kernel
  obtain ⟨signed, some⟩ := (not_le_zero_iff number).1 positive
  rcases number.eq_or_lt with infinite | finite
  · rw [(magnitude_div_infinity minute infinite).1, signed]
    rfl
  · rw [(magnitude_div minute finite some).1, signed]
    rfl

theorem slowest_le_iff (positive : ¬ bpm ≤ 0.0) (number : magnitude bpm ≤ infinityBits) :
    slowest ≤ bpm ↔ magnitude slowest ≤ magnitude bpm := by
  have known : magnitude slowest ≤ infinityBits ∧ signed slowest = magnitude slowest := by
    decide +kernel
  rw [le_iff, known.2, signed, ((not_le_zero_iff number).1 positive).1]
  simp only [known.1, number, true_and, Float.Model.UnpackedFloat.Sign.apply, Nat.cast_le]

/-- Why a tempo cannot be written: its beats are too long for a MIDI file, or even for a double, or
it is no number. -/
theorem tempoOf_slow (positive : ¬ bpm ≤ 0.0) (slow : ¬ slowest ≤ bpm) :
    tempoOf bpm = .error (.refused .beatRange) ∨ tempoOf bpm = .error .tooLarge ∨
      tempoOf bpm = .error (.refused .undefinedTime) := by
  by_cases number : infinityBits < magnitude bpm
  · refine .inr (.inr ?_)
    rw [tempoOf, wholeNumber_undefined (undefined_of_div number)]
  rw [not_lt] at number
  have minute : magnitude 60000000.0 < infinityBits := by decide +kernel
  have next : magnitude slowest = magnitude tooSlow + 1 := by decide +kernel
  have finite : magnitude tooSlow < infinityBits := by decide +kernel
  have beat : whole (magnitude (60000000.0 / tooSlow)) = 16777216 := by decide +kernel
  obtain ⟨-, some⟩ := (not_le_zero_iff number).1 positive
  rw [slowest_le_iff positive number] at slow
  have longer := magnitude_div_le minute some (show magnitude bpm ≤ magnitude tooSlow by omega)
    finite.le
  have long : 16777216 ≤ whole (magnitude (60000000.0 / bpm)) := beat ▸ whole_mono longer
  have bounded : magnitude (60000000.0 / bpm) ≤ infinityBits := by
    rw [(magnitude_div minute (by omega) some).2]
    exact nearestBits_le _ _
  rcases bounded.eq_or_lt with infinite | fits
  · refine .inr (.inl ?_)
    rw [tempoOf, wholeNumber_infinite infinite]
  · refine .inl ?_
    have rounded := wholeNumber_ok_iff.2 ⟨fits, rfl⟩
    rw [sign_beat positive number] at rounded
    rw [tempoOf, rounded]
    have range : ¬ ((0 : Int) ≤ whole (magnitude (60000000.0 / bpm)) ∧
        (whole (magnitude (60000000.0 / bpm)) : Int) ≤ 16777215) := by omega
    exact if_neg range

theorem tempoOf_fast (positive : ¬ bpm ≤ 0.0) (fast : slowest ≤ bpm) :
    ∃ tempo, tempoOf bpm = .ok tempo := by
  have minute : magnitude 60000000.0 < infinityBits := by decide +kernel
  have some : magnitude slowest ≠ 0 := by decide +kernel
  have beat : magnitude (60000000.0 / slowest) < infinityBits ∧
      whole (magnitude (60000000.0 / slowest)) = 16777215 := by decide +kernel
  have number := (le_iff.1 fast).2.1
  have shorter := magnitude_div_le minute some ((slowest_le_iff positive number).1 fast) number
  have short : whole (magnitude (60000000.0 / bpm)) ≤ 16777215 := beat.2 ▸ whole_mono shorter
  have rounded := wholeNumber_ok_iff.2 ⟨shorter.trans_lt beat.1, rfl⟩
  rw [sign_beat positive number] at rounded
  refine ⟨whole (magnitude (60000000.0 / bpm)), ?_⟩
  rw [tempoOf, rounded]
  have range : (0 : Int) ≤ whole (magnitude (60000000.0 / bpm)) ∧
      (whole (magnitude (60000000.0 / bpm)) : Int) ≤ 16777215 :=
    ⟨Int.natCast_nonneg _, by exact_mod_cast short⟩
  exact if_pos range

/-! ### Messages -/

variable {latest : Int} {events : List (Float × Message)}

/-- **Messages can be written exactly if each of them has a tick.** -/
theorem messagesFrom_ok_iff : (∃ messages, messagesFrom bpm latest events = .ok messages) ↔
    ∀ e ∈ events, ∃ tick, tickOf bpm e.1 = .ok tick := by
  constructor
  · rintro ⟨messages, made⟩ e mem
    obtain ⟨ticks, timed, -⟩ := messagesFrom_ok made
    exact timed.tick mem
  · intro ticks
    induction events generalizing latest with
    | nil => exact ⟨[], rfl⟩
    | cons e rest ih =>
      obtain ⟨first, ticks⟩ := List.forall_mem_cons.1 ticks
      obtain ⟨tick, timed⟩ := first
      obtain ⟨messages, made⟩ := @ih (max tick latest) ticks
      refine ⟨((tick - latest).toNat, e.2) :: messages, ?_⟩
      simp only [messagesFrom, timed, made, Except.map]

theorem tickOf_ok_iff {seconds : Float} :
    (∃ tick, tickOf bpm seconds = .ok tick) ↔
      (seconds * (480.0 * bpm / 60.0)).isFinite = true := by
  rw [isFinite_iff]
  exact ⟨fun ⟨tick, timed⟩ => (wholeNumber_ok_iff.1 timed).1,
    fun finite => ⟨_, wholeNumber_ok_iff.2 ⟨finite, rfl⟩⟩⟩

end Track

namespace Recording

variable {bpm : Float} {r r₀ : Recording} {events : List (Float × Message)}

/-- Records messages one after another, each with what the clock reads then. -/
def recordAll (r : Recording) : List (Float × Message) → Except Refusal Recording
  | [] => .ok r
  | (clock, m) :: rest =>
    match r.record clock m with
    | .error why => .error why
    | .ok r => r.recordAll rest

theorem recordAll_ok (recorded : r₀.recordAll events = .ok r) :
    r.bpm = r₀.bpm ∧ r.events.length = r₀.events.length + events.length := by
  induction events generalizing r₀ with
  | nil =>
    cases recorded
    exact ⟨rfl, rfl⟩
  | cons e rest ih =>
    obtain ⟨clock, m⟩ := e
    simp only [recordAll] at recorded
    split at recorded
    · cases recorded
    · rename_i r₁ kept
      obtain ⟨tempo, length⟩ := ih recorded
      obtain ⟨m', -, rfl⟩ := Setting.map_ok kept
      refine ⟨tempo, ?_⟩
      rw [length]
      simp only [keep, List.length_cons]
      omega

theorem track_ok_iff : (∃ t, r.track = .ok t) ↔ (∃ tempo, Track.tempoOf r.bpm = .ok tempo) ∧
    ∀ e ∈ r.recorded, ∃ tick, Track.tickOf r.bpm e.1 = .ok tick := by
  have sorted : (∀ e ∈ r.recorded, ∃ tick, Track.tickOf r.bpm e.1 = .ok tick) ↔
      ∃ messages, Track.messagesFrom r.bpm 0 (r.recorded.mergeSort fun a b => a.1 ≤ b.1) =
        .ok messages := by
    simp only [Track.messagesFrom_ok_iff, List.mem_mergeSort]
  rw [sorted, track, Track.ofRecorded]
  cases Track.tempoOf r.bpm with
  | error why => simp
  | ok tempo =>
    cases Track.messagesFrom r.bpm 0 (r.recorded.mergeSort fun a b => a.1 ≤ b.1) with
    | error why => simp [Except.map]
    | ok messages => simp [Except.map]

/-- **When a recording is written.** -/
theorem saved_iff (created : create bpm = .ok r₀) (recorded : r₀.recordAll events = .ok r)
    (kept : events ≠ []) :
    ((∃ bytes, r.file = .ok (some bytes)) ↔ Track.slowest ≤ bpm ∧
      ∀ e ∈ r.recorded, (e.1 * (480.0 * bpm / 60.0)).isFinite = true) ∧
    (¬ Track.slowest ≤ bpm → r.file = .error (.refused .beatRange) ∨ r.file = .error .tooLarge ∨
      r.file = .error (.refused .undefinedTime)) := by
  have positive : ¬ bpm ≤ 0.0 := by
    intro none
    simp [create, none] at created
  obtain rfl : ⟨bpm, none, []⟩ = r₀ := by simpa [create, positive] using created
  obtain ⟨tempo, length⟩ := recordAll_ok recorded
  simp only at tempo
  have some : r.events ≠ [] := by
    intro none
    simp [none, eq_comm, kept] at length
  have written : r.file = r.track.map fun t => Option.some t.file := by
    rw [file, if_neg (by simpa using some)]
  have made : (∃ bytes, r.file = .ok (Option.some bytes)) ↔ ∃ t, r.track = .ok t := by
    rw [written]
    cases r.track <;> simp [Except.map]
  refine ⟨?_, fun slow => ?_⟩
  · rw [made, track_ok_iff, tempo]
    simp only [Track.tickOf_ok_iff]
    refine and_congr_left fun _ => ⟨fun ⟨beat, set⟩ => ?_, Track.tempoOf_fast positive⟩
    by_contra slow
    rcases Track.tempoOf_slow positive slow with h | h | h <;> rw [h] at set <;> cases set
  · have lost (why : Failure) (h : Track.tempoOf bpm = .error why) : r.file = .error why := by
      rw [written, track, Track.ofRecorded, tempo, h]
      rfl
    exact (Track.tempoOf_slow positive slow).imp (lost _) (Or.imp (lost _) (lost _))

/-- A recording at 120 beats per minute is written. -/
theorem saved_iff_moderate : ∃ r₀ r, create 120.0 = .ok r₀ ∧
    r₀.recordAll [(7.0, .noteOn 0 60 100), (7.5, .noteOff 0 60)] = .ok r ∧
    ∃ bytes, r.file = .ok (some bytes) := by
  have slowest : Track.slowest ≤ 120.0 := by decide +kernel
  exact ⟨_, _, rfl, rfl, (@saved_iff 120.0 _ _ [(7.0, .noteOn 0 60 100), (7.5, .noteOff 0 60)]
    rfl rfl (by simp)).1.2 ⟨slowest, by decide +kernel⟩⟩

/-- A recording at three beats per minute is lost, though it has taken its messages and all their
ticks are finite. -/
theorem slow_recording_lost : ∃ r₀ r, create 3.0 = .ok r₀ ∧
    r₀.recordAll [(0.0, .noteOn 0 60 100), (0.5, .noteOff 0 60)] = .ok r ∧
    (∀ e ∈ r.recorded, (e.1 * (480.0 * 3.0 / 60.0)).isFinite = true) ∧
    r.file = .error (.refused .beatRange) :=
  ⟨_, _, rfl, rfl, by decide +kernel, rfl⟩

end Recording

end ChordSequencer
