import ChordSequencer.Proofs.Alone
import ChordSequencer.Proofs.Endurance
import ChordSequencer.Proofs.Ending

/-!
# Stopping is a cut

Whoever stops playback where it waits hears what playback alone has sent up to there, then the end
of every voice that sounds, and nothing else (`Conductor.cutAt`).  The instrument, the song, the
tempo and what was counted stay as they were at the wait: only playback itself is gone.

* `Voice.sorted_ascends` : the voices are ended in ascending order, each once.
* `Conductor.stop_cuts` : to stop a task that lives is to cut it, wherever it waits.
* `Conductor.playedAt_sent` : playback that is not stopped only adds to what it has sent.
* `Ending.run_cuts` : each way to stop playback comes to this cut.
* `stopping_cuts` : all of it, for every history of a conductor.
-/

namespace ChordSequencer

/-! ### The order of the voices -/

namespace Voice

/-- A voice on a lower channel, or a lower one on the same channel. -/
def Below (v w : Voice) : Prop :=
  v.channel < w.channel ∨ v.channel = w.channel ∧ v.note < w.note

theorem le_iff {v w : Voice} :
    v.le w = true ↔ v.channel < w.channel ∨ v.channel = w.channel ∧ v.note ≤ w.note := by
  simp [le]

theorem le_trans {u v w : Voice} (h : u.le v = true) (h' : v.le w = true) : u.le w = true := by
  rw [le_iff] at h h' ⊢
  omega

theorem le_total (v w : Voice) : (v.le w || w.le v) = true := by
  rw [Bool.or_eq_true, le_iff, le_iff]
  omega

theorem below_of_le {v w : Voice} (h : v.le w = true) (other : v ≠ w) : v.Below w := by
  obtain ⟨channel, note⟩ := v
  obtain ⟨channel', note'⟩ := w
  have differ : channel = channel' → note ≠ note' := by
    rintro rfl rfl
    exact other rfl
  rw [le_iff] at h
  simp only [Below] at h ⊢
  omega

/-- Voices in ascending order ascend strictly if each is there once. -/
theorem sorted_ascends {voices : List Voice} (once : voices.Nodup) :
    (sorted voices).Pairwise Below := by
  have ascends : (voices.mergeSort le).Pairwise fun v w => v.le w = true :=
    @List.pairwise_mergeSort _ le (fun _ _ _ => le_trans) le_total voices
  have once : (sorted voices).Pairwise (· ≠ ·) := Conductor.nodup_sorted once
  exact (ascends.and once).imp fun h => below_of_le h.1 h.2

end Voice

namespace Conductor

variable {c : Conductor}

/-! ### What was sent -/

/-- The triggers that were sent, in their order. -/
def triggers (c : Conductor) : List Trigger := (c.sent.map (·.2)).reverse

theorem send_triggers (t : Trigger) :
    (c.send t).triggers = c.triggers ++ if c.audible then [t] else [] := by
  rw [send]
  split
  · simp only [triggers, List.map_cons, List.reverse_cons]
  · exact (List.append_nil _).symm

/-! ### To stop is to cut -/

/-- What was sent once the voices that sound have been ended in ascending order. -/
def sentEnding (c : Conductor) : List (Float × Trigger) :=
  if c.audible then ((Voice.sorted c.sounding).map fun v => (c.clock, v.off)).reverse ++ c.sent
  else c.sent

/-- Playback cut at a time: the voices that sound are ended, and playback is gone. -/
def cutAt (c : Conductor) (time : Float) : Conductor :=
  { c with
    clock := time
    sent := { c with clock := time }.sentEnding
    sounding := []
    task := none
    running := false
    stopRequested := true }

theorem foldl_off_sent (voices : List Voice) : ∀ c : Conductor,
    voices.foldl (fun c v => c.send v.off) c = { c with
      sent := if c.audible then (voices.map fun v => (c.clock, v.off)).reverse ++ c.sent
        else c.sent } := by
  induction voices with
  | nil => exact fun c => by simp
  | cons v voices ih =>
    intro c
    rw [List.foldl_cons, ih, send]
    split
    · simp
    · simp_all

theorem release_eq : c.release = { c with sent := c.sentEnding, sounding := [] } := by
  rw [release, foldl_off_sent]
  rfl

theorem release_silent (silent : c.sounding = []) : c.release = c := by
  have nothing : c.sentEnding = c.sent := by
    simp [sentEnding, silent, Voice.sorted]
  rw [release_eq, nothing, ← silent]

/-- Whether leaving a place has ended the voices or not, they have ended once it is cleared away. -/
theorem leave_collect (place : Place) :
    ({ c.leave place with task := some (.finished (.ok ())) }).collect =
      ({ c with task := none, running := false }.release, .ok ()) := by
  cases place with
  | beginning => rfl
  | filler => rfl
  | inBlock left before cursor =>
    have again : { c.release with task := none, running := false }.release =
        { c.release with task := none, running := false } := release_silent rfl
    have first : { c.release with task := none, running := false } =
        { c with task := none, running := false }.release := by
      rw [release_eq, release_eq]
      rfl
    exact congrArg (·, Except.ok ()) (again.trans first)

/-- **To stop a task that lives is to cut it**, wherever it waits: before its beginning, on the
filler of an empty pass, or in a selector, of which nothing is left to do. -/
theorem stop_cuts (live : c.task.any (·.live) = true) (time : Float) :
    { c with clock := time }.stop = (c.cutAt time, .ok ()) := by
  have cut : ({ c with clock := time, stopRequested := true, task := none, running := false }
      : Conductor).release = c.cutAt time := by
    rw [release_eq]
    rfl
  cases task : c.task with
  | none => rw [task] at live; cases live
  | some t =>
    cases t with
    | finished result => rw [task] at live; cases live
    | ready place | asleep wakes place =>
      simp only [stop, Option.isNone_some, Bool.false_eq_true, ↓reduceIte, requestStop,
        interrupt]
      rw [leave_collect, cut]

/-! ### Playback that is not stopped -/

theorem Change.sent_suffix {c c' : Conductor} (h : Change c c') : c.sent <:+ c'.sent := by
  have sends (c : Conductor) (t : Trigger) : c.sent <:+ (c.send t).sent := by
    simp only [send]
    split
    · exact List.suffix_cons _ _
    · exact List.suffix_rfl
  cases h with
  | begins i note =>
    simp only [noteOnOf, noteOn]
    split <;> exact sends c _
  | ends channel note =>
    simp only [noteOff]
    split
    · exact sends c _
    · exact List.suffix_rfl
  | silences =>
    rw [release_eq]
    simp only [sentEnding]
    split
    · exact List.suffix_append _ _
    · exact List.suffix_rfl
  | chooses => exact sends c _
  | quietly _ sent _ => rw [sent]

theorem Moves.sent_suffix {c c' : Conductor} (h : Moves c c') : c.sent <:+ c'.sent := by
  induction h with
  | refl => exact List.suffix_rfl
  | tail _ step ih =>
    cases step with
    | change change => exact ih.trans change.sent_suffix
    | steer _ sent _ _ =>
      rw [sent]
      exact ih

/-- **Playback that goes on** has sent before what it sends at a wait. -/
theorem playedAt_sent (c : Conductor) (times later : List Float) :
    (c.playedAt times).sent <:+ (c.playedAt (times ++ later)).sent := by
  rw [playedAt_append]
  exact (playedAt_moves later _).sent_suffix

/-! ### The virtual clock -/

variable (c) (turns : Nat)

/-- Playing comes to its end by stopping playback that was alone until then. -/
theorem playOut_playedAt (seconds cut : Option Float) : ∃ times time,
    c.playOut turns seconds cut = { c.playedAt times with clock := time }.stop := by
  have reached (time : Float) : ∃ times time',
      (playOut.stopAt turns c time).stop = { c.playedAt times with clock := time' }.stop := by
    obtain ⟨times, time', went⟩ := c.stopAt_playedAt turns time
    exact ⟨times, time', by rw [went]⟩
  unfold playOut
  split
  · obtain ⟨times, went⟩ := advance_playedAt none turns c
    exact ⟨times, (c.playedAt times).clock, by rw [went]⟩
  · exact reached _
  · split
    · obtain ⟨times, went⟩ := c.yield_playedAt
      exact ⟨times, (c.playedAt times).clock, by rw [went]⟩
    · dsimp only
      split <;> exact reached _

variable {c} {started : Conductor}

theorem play_playedAt (begun : c.start = .ok started) (seconds : Option Float) : ∃ times time,
    c.play turns seconds = { started.playedAt times with clock := time }.stop := by
  simp only [play, begun]
  exact started.playOut_playedAt turns seconds none

theorem yield_dead (dead : c.task.any (·.live) = false) : c.yield = c := by
  unfold yield
  split
  · rename_i place ready
    rw [ready] at dead
    cases dead
  · rfl

theorem playCancelled_playedAt (dead : c.task.any (·.live) = false)
    (begun : c.start = .ok started) (seconds : Option Float) (after : Float) :
    ∃ times time later, c.playCancelled turns seconds after =
      ({ ({ started.playedAt times with clock := time }.stop).1 with clock := later },
        ({ started.playedAt times with clock := time }.stop).2) := by
  simp only [playCancelled, yield_dead dead]
  split
  · cases seconds with
    | none =>
      simp only [begun]
      exact ⟨[], started.clock, started.stop.1.clock, rfl⟩
    | some limit =>
      obtain ⟨times, went⟩ := started.yield_playedAt
      simp only [begun, went]
      exact ⟨times, (started.playedAt times).clock, (started.playedAt times).stop.1.clock, rfl⟩
  · obtain ⟨times, time, went⟩ := started.playOut_playedAt turns seconds (some (c.clock + after))
    simp only [begun, went]
    exact ⟨times, time, c.clock + after, rfl⟩

end Conductor

/-! ### The ways to stop -/

open Conductor

/-- A way to play until playback is stopped. -/
inductive Ending
  /-- Playback is started and stopped. -/
  | stopped
  /-- It is played for a time, which is over. -/
  | expired (seconds : Float)
  /-- It is played for a time or without limit, and this is cancelled. -/
  | cancelled (seconds : Option Float)

namespace Ending

/-- The operation with which playback begins. -/
def operation : Ending → Operation
  | stopped => .start
  | expired seconds => .play (some seconds)
  | cancelled seconds => .play seconds

/-- What the caller waits for meanwhile. -/
def control : Ending → Control
  | stopped => .free
  | expired _ => .playing true
  | cancelled seconds => .playing seconds.isSome

/-- How playback is stopped. The caller waits for the task to end and clears it away; one who has
waited for the task itself learns of its end before. -/
def stopping : Ending → List Action
  | stopped => [.begin .stop, .interrupt, .finish]
  | expired _ => [.expire, .interrupt, .finish]
  | cancelled (some _) => [.cancel, .interrupt, .finish]
  | cancelled none => [.cancel, .interrupt, .finish, .finish]

/-- Playback begins, goes on at some times, and is stopped at another one. -/
def actions (e : Ending) (times : List Float) (time : Float) : List Action :=
  .begin e.operation ::
    ((times.flatMap fun time => [.pass time, .turn]) ++ .pass time :: e.stopping)

theorem stopping_run (e : Ending) {s : Scene} (waits : s.control = e.control)
    (there : s.conductor.task.isSome = true) :
    s.run e.stopping = s.returning s.conductor.stop := by
  cases e with
  | stopped => exact Scene.stop_run waits there
  | expired seconds => exact Scene.expire_run waits there
  | cancelled seconds =>
    cases seconds with
    | none => exact Scene.cancel_run waits there
    | some seconds => exact Scene.cancel_limited_run waits there

/-- **Each way to stop playback cuts it.** -/
theorem run_cuts (e : Ending) {c started : Conductor} (begun : c.start = .ok started)
    {times : List Float} (live : (started.playedAt times).task.any (·.live) = true)
    (time : Float) : (Scene.opening c).run (e.actions times time) =
      ⟨(started.playedAt times).cutAt time, .free, .ok (), []⟩ := by
  have first : (Scene.opening c).step (.begin e.operation) = ⟨started, e.control, .ok (), []⟩ := by
    cases e <;>
      simp [Scene.step, Scene.opening, operation, control, Scene.operate, Scene.beginPlay,
        Scene.attempting, Scene.returning, Operation.attempt, begun]
  have busy : e.control.cancelling = false := by
    cases e <;> rfl
  have there : (started.playedAt times).task.isSome = true := by
    cases task : (started.playedAt times).task with
    | none => rw [task] at live; cases live
    | some t => rfl
  have played := Scene.run_playedAt (s := ⟨started, e.control, .ok (), []⟩) times busy
  calc (Scene.opening c).run (e.actions times time)
      = Scene.run ((Scene.run ((Scene.opening c).step (.begin e.operation))
          (times.flatMap fun time => [.pass time, .turn])).step (.pass time)) e.stopping := by
        rw [actions, Scene.run, List.foldl_cons, List.foldl_append]
        rfl
    _ = Scene.run ⟨{ started.playedAt times with clock := time }, e.control, .ok (), []⟩
          e.stopping := by
        rw [first, played]
        rfl
    _ = ⟨(started.playedAt times).cutAt time, .free, .ok (), []⟩ := by
        rw [e.stopping_run rfl there, stop_cuts live]
        rfl

end Ending

/-- **Stopping is a pure cut.** Take any conductor after any operations, start playback, and let the
task go on alone at some times; the last of them has led it to its present wait.  In whatever way
playback is stopped there, the caller returns with the conductor as it was at this wait, cut at the
time of the stop: what it has sent is what playback that goes on has sent up to this wait, and then
the ends of all voices that sound, in ascending order and each once; the instrument, the song, the
tempo and the counts are those of the wait.  Under the virtual clock, too, playback is stopped at
such a wait. -/
theorem stopping_cuts {audible : Bool} {catalog : Catalog} {bpm : Float} {c₀ : Conductor}
    (created : create audible catalog bpm = .ok c₀) (turns : Nat) (operations : List Operation)
    {started : Conductor}
    (begun : (Operation.performAll turns c₀ operations).start = .ok started) :
    let c := Operation.performAll turns c₀ operations
    (∀ times time, let s := started.playedAt times
      s.task.any (·.live) = true →
        (∀ e : Ending, (Scene.opening c).run (e.actions times time) =
          ⟨s.cutAt time, .free, .ok (), []⟩) ∧
        { s with clock := time }.stop = (s.cutAt time, .ok ()) ∧
        ((s.cutAt time).instrument = s.instrument ∧ (s.cutAt time).song = s.song ∧
          (s.cutAt time).bpm = s.bpm ∧ (s.cutAt time).blocksPerformed = s.blocksPerformed ∧
          (s.cutAt time).stepsPerformed = s.stepsPerformed) ∧
        (s.cutAt time).sent = (if audible then
          ((Voice.sorted s.sounding).map fun v => (time, v.off)).reverse else []) ++ s.sent ∧
        (Voice.sorted s.sounding).Pairwise Voice.Below ∧
        (∀ v, v ∈ Voice.sorted s.sounding ↔ v ∈ s.sounding) ∧
        ∀ later, s.sent <:+ (started.playedAt (times ++ later)).sent) ∧
    (∀ waits : List Float, ∃ times time,
      Operation.performAll turns started (waits.map .sleep) =
      { started.playedAt times with clock := time }) ∧
    (∀ seconds, ∃ times time,
      c.play turns seconds = { started.playedAt times with clock := time }.stop) ∧
    (c.task.any (·.live) = false → ∀ seconds after, ∃ times time later,
      c.playCancelled turns seconds after =
        ({ ({ started.playedAt times with clock := time }.stop).1 with clock := later },
          ({ started.playedAt times with clock := time }.stop).2)) := by
  intro c
  have moved : Moves c₀ started :=
    (Operation.performAll_moves turns operations c₀).trans (start_moves begun)
  refine ⟨fun times time => ?_, started.sleeps_playedAt turns, play_playedAt turns begun,
    fun dead => playCancelled_playedAt turns dead begun⟩
  intro s live
  have reached : Moves c₀ s := moved.trans (playedAt_moves times started)
  have faithful : s.Faithful := (create_faithful created).moves reached
  have heard : s.audible = audible := reached.audible_eq.trans (create_audible created)
  refine ⟨fun e => e.run_cuts begun live time, stop_cuts live time, ⟨rfl, rfl, rfl, rfl, rfl⟩, ?_,
    Voice.sorted_ascends faithful.nodup, fun v => mem_sorted, started.playedAt_sent times⟩
  simp only [cutAt, sentEnding, heard]
  split <;> rfl

/-- A chord is cut in its step. -/
theorem stopping_cuts_chord : ∃ c₀ started, create true .standard 120.0 = .ok c₀ ∧
    (Operation.performAll 0 c₀
      [.setSong (some ⟨[⟨[], "1", none⟩]⟩), .setInstrument .initial]).start = .ok started ∧
    (started.playedAt [0.5]).task.any (·.live) = true ∧
    ∀ (e : Ending) (time : Float),
      (Scene.opening (Operation.performAll 0 c₀
        [.setSong (some ⟨[⟨[], "1", none⟩]⟩), .setInstrument .initial])).run
          (e.actions [0.5] time) = ⟨(started.playedAt [0.5]).cutAt time, .free, .ok (), []⟩ := by
  obtain ⟨c₀, created⟩ : ∃ c₀, create true .standard 120.0 = .ok c₀ := ⟨_, rfl⟩
  obtain ⟨able, blocks, ready⟩ :=
    started_able (by decide +kernel) created ⟨[⟨[], "1", none⟩]⟩
  set started := Operation.performAll 0 c₀
    [.setSong (some ⟨[⟨[], "1", none⟩]⟩), .setInstrument .initial, .start]
  have begun : (Operation.performAll 0 c₀
      [.setSong (some ⟨[⟨[], "1", none⟩]⟩), .setInstrument .initial]).start = .ok started := by
    cases created
    rfl
  have live : (started.playedAt [0.5]).task.any (·.live) = true := by
    have fits : ∀ b ∈ started.songBlocks, ¬ b.Overflows := by
      rw [blocks]
      simp [Block.Overflows]
    have woken : Able { started with clock := 0.5 } := ⟨able.goes, able.plays⟩
    have went := turn_enduring woken fits (show Place.beginning.Fine from trivial)
    have turned : started.playedAt [0.5] = { started with clock := 0.5 }.turn .beginning := by
      simp only [playedAt, List.foldl_cons, List.foldl_nil, Scene.proceed, ready]
    rw [turned]
    exact went.live
  refine ⟨c₀, started, created, begun, live, fun e time => ?_⟩
  exact ((stopping_cuts created 0 _ begun).1 [0.5] time live).1 e

end ChordSequencer
