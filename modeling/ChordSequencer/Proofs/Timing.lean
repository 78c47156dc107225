import ChordSequencer.Midi.Recording
import ChordSequencer.Proofs.Arithmetic
import Mathlib.Data.List.Forall2

/-!
# The times of recorded messages

A recording is written as a track of messages with the ticks between them.  The ticks are taken from
the times of the messages since the first one, each rounded by itself, so that a message is off by
no more than its own rounding, however many came before it.  Clocks may step backwards: the messages
are put in the order of their times first, and none comes before the beginning.

* `Track.wholeNumber_ok_iff`, `Track.tickOf_mono` : which doubles are rounded, and that later times
  have no earlier ticks.
* `StablySorted` : the order in which the messages are written.
* `Track.messagesFrom_ok` : what the ticks between messages add up to.
* `Recording.track_times` : the messages and times of a track that is made.
-/

namespace ChordSequencer

open Number

/-! ### Rounded doubles -/

namespace Track

variable {x y : Float}

/-- The whole number nearest to a magnitude. -/
def whole (b : Nat) : Nat := roundQuotient (steps b) stepsPerOne

theorem whole_mono : Monotone whole := fun _ _ h =>
  roundQuotient_mono stepsPerOne_pos stepsPerOne_pos (Nat.mul_le_mul_right _ (steps_mono h))

theorem round_eq (s : Float.Model.UnpackedFloat.Sign) (b : Nat) :
    Exact.round (s == .negative) (mantissa b) (place b - 1074) = s.apply (whole b) := by
  have size : (if (place b : Int) - 1074 < 0 then
      roundQuotient (mantissa b) (Nat.pow 2 (-((place b : Int) - 1074)).toNat)
      else mantissa b <<< ((place b : Int) - 1074).toNat) = whole b := by
    rw [whole, steps]
    split
    · have power : Nat.pow 2 (-((place b : Int) - 1074)).toNat =
        2 ^ (-((place b : Int) - 1074)).toNat := rfl
      rw [power, ← roundQuotient_mul _ _ (Nat.two_pow_pos (place b)), ← Nat.pow_add,
        two_pow_eq (show (-((place b : Int) - 1074)).toNat + place b = 1074 by omega)]
    · have exact := roundQuotient_mul (mantissa b * 2 ^ ((place b : Int) - 1074).toNat) 1
        stepsPerOne_pos
      rw [roundQuotient_one, Nat.one_mul, Nat.mul_assoc, two_pow_mul_stepsPerOne
        (show ((place b : Int) - 1074).toNat + 1074 = place b by omega)] at exact
      rw [Nat.shiftLeft_eq, exact]
  simp only [Exact.round, size]
  cases s <;> rfl

/-- **Exactly the finite doubles are rounded.** -/
theorem wholeNumber_ok_iff {n : Int} : wholeNumber x = .ok n ↔
    magnitude x < infinityBits ∧ (sign x).apply (whole (magnitude x)) = n := by
  rw [wholeNumber, exact_eq]
  split_ifs with undefined infinite
  · exact iff_of_false nofun fun ⟨finite, _⟩ => undefined.not_gt finite
  · exact iff_of_false nofun fun ⟨finite, _⟩ => finite.ne infinite
  · have finite : magnitude x < infinityBits := by omega
    simp only [round_eq, Except.ok.injEq, finite, true_and]

theorem wholeNumber_mono {i j : Int} (order : x ≤ y) (hx : wholeNumber x = .ok i)
    (hy : wholeNumber y = .ok j) : i ≤ j := by
  obtain ⟨-, rfl⟩ := wholeNumber_ok_iff.1 hx
  obtain ⟨-, rfl⟩ := wholeNumber_ok_iff.1 hy
  have zero : whole 0 = 0 := by simp [whole, roundQuotient, steps_zero]
  exact apply_mono whole_mono zero (le_iff.1 order).2.2

theorem tickOf_ok {bpm seconds : Float} {tick : Int} (positive : ¬ bpm ≤ 0.0)
    (timed : tickOf bpm seconds = .ok tick) :
    magnitude (seconds * (480.0 * bpm / 60.0)) < infinityBits ∧
      sign (480.0 * bpm / 60.0) = .positive := by
  obtain ⟨finite, -⟩ := wholeNumber_ok_iff.1 timed
  have rate := (finite_of_mul finite).2
  have ticks := (finite_of_div rate).1
  have tempo := (finite_of_mul ticks).2
  have minute : magnitude 60.0 < infinityBits ∧ magnitude 60.0 ≠ 0 := by decide +kernel
  have beat : magnitude 480.0 < infinityBits := by decide +kernel
  refine ⟨finite, ?_⟩
  rw [(magnitude_div ticks minute.1 minute.2).1, (magnitude_mul beat tempo).1,
    ((not_le_zero_iff tempo.le).1 positive).1]
  rfl

/-- **Later times have no earlier ticks.** -/
theorem tickOf_mono {bpm a b : Float} {i j : Int} (positive : ¬ bpm ≤ 0.0) (order : a ≤ b)
    (ha : tickOf bpm a = .ok i) (hb : tickOf bpm b = .ok j) : i ≤ j := by
  obtain ⟨finite, rate⟩ := tickOf_ok positive ha
  obtain ⟨finite', -⟩ := tickOf_ok positive hb
  exact wholeNumber_mono (mul_le_mul rate order finite finite') ha hb

/-! ### Ticks between messages -/

variable {bpm : Float} {latest : Int} {events : List (Float × Message)}
  {messages : List (Nat × Message)}

/-- The ticks of events one after another. -/
def Timed (bpm : Float) (events : List (Float × Message)) (ticks : List Int) : Prop :=
  List.Forall₂ (fun e tick => tickOf bpm e.1 = .ok tick) events ticks

theorem Timed.event {ticks : List Int} {tick : Int} (timed : Timed bpm events ticks)
    (mem : tick ∈ ticks) : ∃ e ∈ events, tickOf bpm e.1 = .ok tick := by
  induction timed with
  | nil => cases mem
  | cons first rest ih =>
    rcases List.mem_cons.1 mem with rfl | mem
    · exact ⟨_, List.mem_cons_self, first⟩
    · obtain ⟨e, there, timed⟩ := ih mem
      exact ⟨e, List.mem_cons_of_mem _ there, timed⟩

theorem Timed.tick {ticks : List Int} {e : Float × Message} (timed : Timed bpm events ticks)
    (mem : e ∈ events) : ∃ tick, tickOf bpm e.1 = .ok tick := by
  induction timed with
  | nil => cases mem
  | cons first rest ih =>
    rcases List.mem_cons.1 mem with rfl | mem
    · exact ⟨_, first⟩
    · exact ih mem

/-- **The ticks between messages add up to the latest tick**, so that no rounding is carried on. -/
theorem messagesFrom_ok (made : messagesFrom bpm latest events = .ok messages) :
    ∃ ticks, Timed bpm events ticks ∧ messages.map Prod.snd = events.map Prod.snd ∧
      ∀ n, latest + ((messages.take n).map Prod.fst).sum = (ticks.take n).foldl max latest := by
  induction events generalizing latest messages with
  | nil =>
    cases made
    exact ⟨[], .nil, rfl, fun n => by simp⟩
  | cons e rest ih =>
    obtain ⟨seconds, m⟩ := e
    simp only [messagesFrom] at made
    split at made
    · cases made
    · rename_i tick timed
      cases later : messagesFrom bpm (max tick latest) rest with
      | error why => simp [later, Except.map] at made
      | ok messages' =>
        obtain ⟨ticks, times, same, sums⟩ := ih later
        simp only [later, Except.map, Except.ok.injEq] at made
        subst made
        refine ⟨tick :: ticks, .cons timed times, by simp [same], fun n => ?_⟩
        cases n with
        | zero => simp
        | succ n =>
          have sum := sums n
          simp only [List.take_succ_cons, List.map_cons, List.sum_cons, List.foldl_cons]
          rw [max_comm latest, ← sum]
          push_cast
          omega

theorem foldl_max {ticks : List Int} (ordered : ticks.Pairwise (· ≤ ·)) {n : Nat} {tick : Int}
    (last : ticks[n]? = some tick) : (ticks.take (n + 1)).foldl max latest = max latest tick := by
  induction ticks generalizing latest n with
  | nil => simp at last
  | cons t ticks ih =>
    obtain ⟨first, ordered⟩ := List.pairwise_cons.1 ordered
    cases n with
    | zero =>
      cases last
      simp
    | succ n =>
      have later : ticks[n]? = some tick := by simpa using last
      rw [List.take_succ_cons, List.foldl_cons, ih ordered later]
      have := first tick (List.mem_of_getElem? later)
      omega

theorem Timed.pairwise {ticks : List Int} (positive : ¬ bpm ≤ 0.0) (timed : Timed bpm events ticks)
    (ordered : events.Pairwise fun a b => a.1 ≤ b.1) : ticks.Pairwise (· ≤ ·) := by
  induction timed with
  | nil => exact .nil
  | cons first rest ih =>
    obtain ⟨earliest, ordered⟩ := List.pairwise_cons.1 ordered
    refine List.pairwise_cons.2 ⟨fun tick mem => ?_, ih ordered⟩
    obtain ⟨e, there, timed⟩ := Timed.event rest mem
    exact tickOf_mono positive (earliest e there) first timed

end Track

/-! ### The order of messages -/

/-- The events in the order of their times, those at the same time in the order in which they
came. -/
structure StablySorted (events sorted : List (Float × Message)) : Prop where
  /-- They are the same events. -/
  perm : sorted.Perm events
  /-- No time is before an earlier one. -/
  ordered : sorted.Pairwise fun a b => a.1 ≤ b.1
  /-- The events at any one time are as they were. -/
  stable : ∀ time : Float, sorted.filter (fun e => e.1 ≤ time ∧ time ≤ e.1) =
    events.filter fun e => e.1 ≤ time ∧ time ≤ e.1

/-- **Events whose times are numbers are sorted stably.** -/
theorem stablySorted_mergeSort {events : List (Float × Message)}
    (numbers : ∀ e ∈ events, magnitude e.1 ≤ infinityBits) :
    StablySorted events (events.mergeSort fun a b => a.1 ≤ b.1) := by
  -- all times are compared as the signed magnitudes, which are ordered totally
  have order (a) (ha : a ∈ events) (b) (hb : b ∈ events) : a.1 ≤ b.1 ↔ signed a.1 ≤ signed b.1 := by
    simp only [le_iff, numbers a ha, numbers b hb, true_and]
  let le (a b : Float × Message) : Bool := signed a.1 ≤ signed b.1
  have same : (events.mergeSort fun a b => a.1 ≤ b.1) = events.mergeSort le := by
    have mapped := List.map_mergeSort (r := fun a b => decide (a.1 ≤ b.1)) (s := le) (f := id)
      (l := events) fun a ha b hb => decide_eq_decide.2 (order a ha b hb)
    simpa using mapped
  have trans (a b c : Float × Message) (ab : le a b) (bc : le b c) : le a c := by
    simp only [le, decide_eq_true_eq] at ab bc ⊢
    omega
  have total (a b : Float × Message) : le a b || le b a := by
    simp only [le, Bool.or_eq_true, decide_eq_true_eq]
    omega
  have perm := List.mergeSort_perm events le
  rw [same]
  refine ⟨perm, ?_, fun time => ?_⟩
  · refine (List.pairwise_mergeSort trans total events).imp_of_mem fun ha hb ordered => ?_
    exact (order _ (perm.mem_iff.1 ha) _ (perm.mem_iff.1 hb)).2 (of_decide_eq_true ordered)
  · -- the events of this time are in order already, so that sorting keeps them in sequence
    have alike : (events.filter fun e => e.1 ≤ time ∧ time ≤ e.1).Pairwise fun a b => le a b := by
      refine List.pairwise_of_forall_mem_list fun a ha b hb => ?_
      simp only [List.mem_filter, decide_eq_true_eq, le_iff] at ha hb
      simp only [le, decide_eq_true_eq]
      omega
    have kept := (List.sublist_mergeSort trans total alike List.filter_sublist).filter
      fun e => e.1 ≤ time ∧ time ≤ e.1
    simp only [List.filter_filter, Bool.and_self] at kept
    exact (kept.eq_of_length (perm.filter _).length_eq.symm).symm

/-- **The times of recorded messages.** -/
theorem Recording.track_times (r : Recording) {t : Track} (made : r.track = .ok t) :
    ∃ sorted ticks, StablySorted r.recorded sorted ∧
      (r.recorded.Pairwise (fun a b => a.1 ≤ b.1) → sorted = r.recorded) ∧
      Track.Timed r.bpm sorted ticks ∧ Track.tempoOf r.bpm = .ok t.tempo ∧
      t.messages.map Prod.snd = sorted.map Prod.snd ∧
      (∀ n, (((t.messages.take n).map Prod.fst).sum : Int) = (ticks.take n).foldl max 0) ∧
      (¬ r.bpm ≤ 0.0 → ∀ n tick, ticks[n]? = some tick →
        (((t.messages.take (n + 1)).map Prod.fst).sum : Int) = max 0 tick) := by
  simp only [track, Track.ofRecorded] at made
  split at made
  · cases made
  · rename_i tempo set
    cases placed : Track.messagesFrom r.bpm 0 (r.recorded.mergeSort fun a b => a.1 ≤ b.1) with
    | error why => simp [placed, Except.map] at made
    | ok messages =>
      simp only [placed, Except.map, Except.ok.injEq] at made
      subst made
      obtain ⟨ticks, timed, same, sums⟩ := Track.messagesFrom_ok placed
      have numbers (e) (mem : e ∈ r.recorded) : magnitude e.1 ≤ infinityBits := by
        obtain ⟨tick, timed⟩ := timed.tick (List.mem_mergeSort.2 mem)
        exact (finite_of_mul (Track.wholeNumber_ok_iff.1 timed).1).1.le
      have sorted := stablySorted_mergeSort numbers
      simp only [zero_add] at sums
      refine ⟨_, ticks, sorted, fun ordered => ?_, timed, set, same, sums,
        fun positive n tick last => ?_⟩
      · exact List.mergeSort_of_pairwise (ordered.imp decide_eq_true)
      · rw [sums, Track.foldl_max (timed.pairwise positive sorted.ordered) last]

/-- A recording whose clock steps back twice, behind its beginning and to a time that a message has
already. -/
theorem Recording.track_times_unordered : ∃ t : Track,
    track ⟨120.0, some 0.0, [(0.25, .noteOff 0 60), (0.5, .noteOn 0 62 100),
      (0.25, .noteOn 0 60 100), (-0.125, .program 0 3)]⟩ = .ok t ∧
    t.messages = [(0, .program 0 3), (240, .noteOn 0 60 100), (0, .noteOff 0 60),
      (240, .noteOn 0 62 100)] ∧
    ∃ sorted ticks, StablySorted [(-0.125, .program 0 3), (0.25, .noteOn 0 60 100),
        (0.5, .noteOn 0 62 100), (0.25, .noteOff 0 60)] sorted ∧
      Track.Timed 120.0 sorted ticks ∧ t.messages.map Prod.snd = sorted.map Prod.snd := by
  have early : (-0.125 : Float) ≤ 0.25 := by decide +kernel
  have same : (0.25 : Float) ≤ 0.25 := by decide +kernel
  have late : ¬ (0.5 : Float) ≤ 0.25 := by decide +kernel
  let r : Recording := ⟨120.0, some 0.0, [(0.25, .noteOff 0 60), (0.5, .noteOn 0 62 100),
    (0.25, .noteOn 0 60 100), (-0.125, .program 0 3)]⟩
  have sorted : (r.recorded.mergeSort fun a b => a.1 ≤ b.1) = [(-0.125, .program 0 3),
      (0.25, .noteOn 0 60 100), (0.25, .noteOff 0 60), (0.5, .noteOn 0 62 100)] := by
    simp [r, recorded, List.mergeSort, List.MergeSort.Internal.splitInTwo, early, same, late]
  have made : r.track = .ok ⟨500000, [(0, .program 0 3), (240, .noteOn 0 60 100),
      (0, .noteOff 0 60), (240, .noteOn 0 62 100)]⟩ := by
    rw [track, Track.ofRecorded, sorted]
    decide +kernel
  obtain ⟨sorted, ticks, stable, -, timed, -, messages, -⟩ := track_times r made
  exact ⟨_, made, rfl, sorted, ticks, stable, timed, messages⟩

end ChordSequencer
