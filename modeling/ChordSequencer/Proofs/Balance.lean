import ChordSequencer.Proofs.Ending
import ChordSequencer.Proofs.Handling
import ChordSequencer.Proofs.Restarts
import ChordSequencer.Proofs.Steering

/-!
# Beginnings and ends of notes

Each note that begins is to end once.  Whoever counts the beginnings and the ends of a voice between
two silences finds the same number exactly if no note began while its voice sounded, and playback
begins such a note exactly in the steps in which voices of a chord are in unison.

* `noRestarts_iff_counts` : restarts can be told from the numbers of beginnings and ends.
* `Conductor.Poised` : the invariant of a conductor that plays; `Conductor.Accounts` : what an
  action makes of it.
* `Conductor.Prepared.turn_inUnison` : chords in unison are struck.
* `Conductor.Poised.steer`, `Scene.Lone.run` : one action, and any actions.
* `Conductor.balanced_iff_apart` : when beginnings and ends are balanced.
-/

namespace ChordSequencer

/-! ### Counting -/

/-- The voice that a trigger begins. -/
def Trigger.begun? : Trigger → Option Voice
  | noteOn channel note _ => some ⟨channel, note⟩
  | _ => none

/-- The voice that a trigger ends. -/
def Trigger.ended? : Trigger → Option Voice
  | noteOff channel note => some ⟨channel, note⟩
  | _ => none

theorem Trigger.begun?_eq_some {t : Trigger} {v : Voice} :
    t.begun? = some v ↔ ∃ velocity, t = .noteOn v.channel v.note velocity := by
  obtain ⟨channel, note⟩ := v
  cases t <;> simp [begun?]

theorem noRestarts_cons_iff {event : Float × Trigger} {sent : List (Float × Trigger)} :
    NoRestarts (event :: sent) ↔
      NoRestarts sent ∧ ∀ v, event.2.begun? = some v → v ∉ soundingAfter sent := by
  rw [noRestarts_cons]
  refine and_congr_right fun _ => ⟨fun first v begun => ?_, fun first _ _ velocity same => ?_⟩
  · obtain ⟨velocity, same⟩ := Trigger.begun?_eq_some.1 begun
    exact first _ _ velocity same
  · exact first _ (Trigger.begun?_eq_some.2 ⟨velocity, same⟩)

/-- How often a voice begins among some triggers. -/
def begins (v : Voice) (sent : List (Float × Trigger)) : Nat :=
  sent.countP (·.2.begun? = some v)

/-- How often a voice ends. -/
def ends (v : Voice) (sent : List (Float × Trigger)) : Nat :=
  sent.countP (·.2.ended? = some v)

/-- Between any two moments at which nothing sounds, each voice has begun as often as it has
ended. -/
def Balanced (sent : List (Float × Trigger)) : Prop :=
  ∀ later earlier, later ++ earlier <:+ sent → soundingAfter earlier = ∅ →
    soundingAfter (later ++ earlier) = ∅ → ∀ v, begins v later = ends v later

/-- The beginnings that the ends of a voice and the voice that still sounds account for. -/
def due (v : Voice) (sent : List (Float × Trigger)) : Nat :=
  ends v sent + if v ∈ soundingAfter sent then 1 else 0

theorem begins_cons (v : Voice) (event : Float × Trigger) (sent : List (Float × Trigger)) :
    begins v (event :: sent) = begins v sent + if event.2.begun? = some v then 1 else 0 := by
  simp [begins, List.countP_cons]

theorem ends_cons (v : Voice) (event : Float × Trigger) (sent : List (Float × Trigger)) :
    ends v (event :: sent) = ends v sent + if event.2.ended? = some v then 1 else 0 := by
  simp [ends, List.countP_cons]

theorem due_cons (v : Voice) {event : Float × Trigger} {sent : List (Float × Trigger)}
    (sounds : ∀ w, event.2 = Voice.off w → w ∈ soundingAfter sent) :
    due v (event :: sent) = if event.2.begun? = some v then ends v sent + 1 else due v sent := by
  obtain ⟨time, t⟩ := event
  rw [due, ends_cons, due]
  cases t with
  | noteOn channel note velocity =>
    by_cases same : v = ⟨channel, note⟩
    · simp [same, Trigger.begun?, Trigger.ended?, soundingAfter, Trigger.hear]
    · simp [same, Ne.symm same, Trigger.begun?, Trigger.ended?, soundingAfter, Trigger.hear]
  | noteOff channel note =>
    have there := sounds ⟨channel, note⟩ rfl
    by_cases same : v = ⟨channel, note⟩
    · simp [same, there, Trigger.begun?, Trigger.ended?, soundingAfter, Trigger.hear]
    · simp [same, Ne.symm same, Trigger.begun?, Trigger.ended?, soundingAfter, Trigger.hear]
  | program channel number => rfl

theorem ends_le_due (v : Voice) (sent : List (Float × Trigger)) : ends v sent ≤ due v sent :=
  Nat.le_add_right _ _

theorem due_le_begins (v : Voice) {sent : List (Float × Trigger)} (stray : NoStrayEnds sent) :
    due v sent ≤ begins v sent := by
  induction sent with
  | nil => simp [due, ends, soundingAfter]
  | cons event sent ih =>
    obtain ⟨sounds, stray⟩ := noStrayEnds_cons.1 stray
    have before := ih stray
    have ended := ends_le_due v sent
    rw [due_cons v sounds, begins_cons]
    split <;> omega

theorem due_eq_ends_iff {v : Voice} {sent : List (Float × Trigger)} :
    due v sent = ends v sent ↔ v ∉ soundingAfter sent := by
  rw [due]
  split <;> simp [*]

/-- **Restarts can be told by counting**: no note begins once more if and only if each beginning of
a voice has its end, or the voice still sounds. -/
theorem noRestarts_iff_counts {sent : List (Float × Trigger)} (stray : NoStrayEnds sent) :
    NoRestarts sent ↔ ∀ v, begins v sent = due v sent := by
  induction sent with
  | nil => exact iff_of_true noRestarts_nil fun v => by simp [begins, due, ends, soundingAfter]
  | cons event sent ih =>
    obtain ⟨sounds, stray⟩ := noStrayEnds_cons.1 stray
    rw [noRestarts_cons_iff, ih stray, ← forall_and]
    -- the voices can be looked at one by one; only the one that the event begins matters
    refine forall_congr' fun v => ?_
    have low := ends_le_due v sent
    have high := due_le_begins v stray
    rw [begins_cons, due_cons v sounds]
    by_cases begun : event.2.begun? = some v
    · rw [if_pos begun, if_pos begun, ← due_eq_ends_iff, forall_prop_of_true begun]
      omega
    · rw [if_neg begun, if_neg begun, Nat.add_zero]
      exact and_iff_left fun same => absurd same begun

theorem NoRestarts.balanced {sent : List (Float × Trigger)} (h : NoRestarts sent)
    (stray : NoStrayEnds sent) : Balanced sent := by
  intro later earlier part silent silent' v
  -- a history that ends in silence is balanced as a whole, and so is what lies between two of them
  have counts {part : List (Float × Trigger)} (hs : part <:+ sent)
      (quiet : soundingAfter part = ∅) : begins v part = ends v part := by
    have stray' : NoStrayEnds part := fun time w rest hr => stray time w rest (hr.trans hs)
    have apart : NoRestarts part :=
      fun time channel note velocity rest hr => h time channel note velocity rest (hr.trans hs)
    rw [(noRestarts_iff_counts stray').1 apart v, due, quiet]
    simp
  have whole := counts part silent'
  have first := counts ((List.suffix_append _ _).trans part) silent
  simp only [begins, ends, List.countP_append] at whole first ⊢
  omega

/-- Where nothing sounds at the end, the numbers tell whether a note began once more. -/
theorem Balanced.noRestarts {sent : List (Float × Trigger)} (h : Balanced sent)
    (stray : NoStrayEnds sent) (silent : soundingAfter sent = ∅) : NoRestarts sent := by
  refine (noRestarts_iff_counts stray).2 fun v => ?_
  rw [due, silent]
  simpa using h sent [] (by simp) rfl (by simpa using silent) v

/-! ### Playback -/

namespace Conductor

variable {c c' : Conductor}

/-- Playback waits in the step of a number whose chord has voices in unison. -/
def InUnison (c : Conductor) : Prop := ∃ place, c.place? = some place ∧ c.StrikesAt place

/-- A conductor that plays: it is heard, and only in the steps of its selectors something sounds.
If no note has begun once more, it is in no step with voices in unison. -/
structure Poised (c : Conductor) : Prop extends c.Heard where
  /-- The place at which the task waits. -/
  settled : ∀ place, c.place? = some place → c.Settled place
  /-- Without a task that waits nothing sounds. -/
  silent : c.place? = none → c.Silent
  /-- A task that waits belongs to a conductor that runs. -/
  running : ∀ place, c.place? = some place → c.running = true
  /-- A chord in unison has been noticed. -/
  noticed : NoRestarts c.sent → ¬ c.InUnison

/-- What comes of a conductor: a note has begun once more if and only if one had before, or playback
is in a step with voices in unison. -/
structure Accounts (c c' : Conductor) : Prop where
  /-- The invariant. -/
  poised : c'.Poised
  /-- The account. -/
  restarts : NoRestarts c'.sent ↔ NoRestarts c.sent ∧ ¬ c'.InUnison

theorem not_inUnison (gone : c.place? = none) : ¬ c.InUnison := by
  rintro ⟨place, waits, -⟩
  rw [gone] at waits
  cases waits

theorem Poised.retains (h : c.Poised) {song : Option Song} {bpm clock : Float}
    {stopRequested : Bool} {i : Option Instrument} (kept : i = c.instrument ∨ c.place? = none) :
    c.Accounts { c with song, bpm, clock, stopRequested, instrument := i } := by
  set c' : Conductor := { c with song, bpm, clock, stopRequested, instrument := i }
  -- while a task waits the instrument is the same, and nothing else of this is looked at
  have same (place : Place) (waits : c.place? = some place) :
      (c'.Settled place ↔ c.Settled place) ∧ (c'.StrikesAt place ↔ c.StrikesAt place) := by
    obtain rfl := kept.resolve_right (by rw [waits]; exact Option.some_ne_none _)
    cases place <;> exact ⟨Iff.rfl, Iff.rfl⟩
  have unison : c'.InUnison ↔ c.InUnison :=
    exists_congr fun place => and_congr_right fun waits => (same place waits).2
  refine ⟨⟨h.toHeard.alike rfl rfl rfl rfl, fun place waits => (same place waits).1.2
    (h.settled place waits), h.silent, h.running, ?_⟩, ?_⟩
  · rw [unison]
    exact h.noticed
  · rw [unison]
    exact (and_iff_left_of_imp h.noticed).symm

theorem Poised.alike (h : c.Poised) {song : Option Song} {bpm clock : Float}
    {stopRequested : Bool} : c.Accounts { c with song, bpm, clock, stopRequested } :=
  h.retains (.inl rfl)

theorem Accounts.idle (heard : c'.Heard) (gone : c'.place? = none) (silent : c'.Silent)
    (restarts : NoRestarts c'.sent ↔ NoRestarts c.sent) : c.Accounts c' := by
  refine ⟨⟨heard, fun place waits => ?_, fun _ => silent, fun place waits => ?_,
    fun _ => not_inUnison gone⟩, restarts.trans (and_iff_left (not_inUnison gone)).symm⟩
  all_goals
    rw [gone] at waits
    cases waits

theorem Poised.refl (h : c.Poised) : c.Accounts c := h.alike

theorem Poised.setInstrument (h : c.Poised) {i : Instrument}
    (exchanged : c.setInstrument i = .ok c') : c.Accounts c' := by
  simp only [Conductor.setInstrument] at exchanged
  split at exchanged <;> cases exchanged
  rename_i idle
  refine h.retains (.inr ?_)
  exact Option.eq_none_iff_forall_ne_some.2 fun place waits => idle (h.running place waits)

theorem Poised.start (h : c.Poised) (begun : c.start = .ok c') : c.Accounts c' := by
  obtain ⟨-, rfl⟩ | ⟨idle, -, -, rfl⟩ := start_cases begun
  · exact h.refl
  · have gone : c.place? = none := by
      cases waits : c.place? with
      | none => rfl
      | some place =>
        rw [h.running place waits] at idle
        cases idle
    have unison : ¬ (restart { c with stopRequested := false }).InUnison := by
      rintro ⟨place, waits, strikes⟩
      cases waits
      exact strikes
    refine ⟨⟨h.toHeard.alike rfl rfl rfl rfl, fun place waits => ?_, fun none => ?_, fun _ _ => rfl,
      fun _ => unison⟩, (and_iff_left unison).symm⟩
    · cases waits
      exact h.silent gone
    · cases none

theorem Poised.interrupt (h : c.Poised) : c.Accounts c.interrupt := by
  cases waits : c.place? with
  | none =>
    rw [interrupt_none waits]
    exact h.refl
  | some place =>
    have settled := h.settled place waits
    rw [interrupt_place? waits]
    cases place with
    | beginning | filler => exact .idle (h.toHeard.alike rfl rfl rfl rfl) rfl settled Iff.rfl
    | inBlock left before cursor =>
      exact .idle ((h.toHeard.changes (.single .silences)).alike rfl rfl rfl rfl) rfl rfl
        noRestarts_release

theorem Poised.collect (h : c.Poised) : c.Accounts c.collect.1 := by
  have cleared : Heard { c with task := none, running := false } := h.toHeard.alike rfl rfl rfl rfl
  refine .idle (cleared.changes (.single .silences)) ?_ rfl noRestarts_release
  exact congrArg (Option.bind · Task.place?) (Changes.release .refl).task_eq

theorem Poised.turn (h : c.Poised) {place : Place} (waits : c.place? = some place) :
    c.Accounts (c.turn place) := by
  have walks := resumePlayback_walks h.toHeard (h.settled place waits)
  have changes := c.resumePlayback_changes place
  have runs := h.running place waits
  rw [Conductor.turn]
  cases resumed : c.resumePlayback place with
  | mk c₁ outcome =>
    rw [resumed] at walks changes
    have heard := h.toHeard.changes changes
    cases outcome with
    | waits seconds next =>
      obtain ⟨settled, restarts⟩ := walks
      have there := settle_place? (c₁, .waits seconds next)
      have strikes : (settle (c₁, .waits seconds next)).InUnison ↔ c₁.StrikesAt next := by
        simp only [InUnison, there, Option.some.injEq, exists_eq_left']
        cases next <;> rfl
      refine ⟨⟨heard.alike rfl rfl rfl rfl, fun place now => ?_, fun gone => ?_, fun _ _ => ?_,
        fun apart => ?_⟩, ?_⟩
      · rw [there] at now
        cases now
        cases next <;> exact settled
      · rw [there] at gone
        cases gone
      · exact (congrArg Frame.running changes.frame_eq).trans runs
      · rw [strikes]
        exact (restarts.1 apart).2
      · rw [strikes]
        exact restarts
    | ended => exact .idle (heard.alike rfl rfl rfl rfl) rfl walks.1 walks.2
    | failed why => exact .idle (heard.alike rfl rfl rfl rfl) rfl walks.1 walks.2

/-- **Whatever happens to a conductor that is only controlled.** -/
theorem Poised.steer (h : c.Poised) (steered : c.Steer c') : c.Accounts c' := by
  cases steered with
  | stays => exact h.refl
  | setSong changed =>
    simp only [Conductor.setSong] at changed
    split at changed <;> cases changed
    exact h.alike
  | setInstrument exchanged => exact h.setInstrument exchanged
  | setTempo changed =>
    simp only [Conductor.setTempo, checkTempo] at changed
    split at changed <;> cases changed
    exact h.alike
  | start begun => exact h.start begun
  | requestStop => exact h.alike
  | turn waits => exact h.turn waits
  | interrupt => exact h.interrupt
  | collect => exact h.collect
  | pass clock => exact h.alike

/-! ### Chords in unison are struck -/

section Struck

variable {c₁ : Conductor} {b : Block} {i j : Instrument} {notes : List Int} {step : Float}
  {selector : String} {rest : List String} {degree : Int}

theorem beginSelector_struck (length : c.stepSeconds = .ok step)
    (signs : ¬ (selector = "=" ∨ selector = "." ∨ selector = "s")) {base : Nat}
    (number : selectorDegree? selector base = some degree) (hi : c.instrument = some i)
    (selected : { i with selectedNote := degree }.selectNotes c.catalog = .ok (notes, j))
    (mode : j.playMode = .chord) : ∃ c', c.beginSelector selector base = (c', .waits step .step) ∧
      c'.instrument = some j ∧ c'.catalog = c.catalog := by
  obtain ⟨sent, released⟩ := c.counted.release_frame
  obtain ⟨sent', sounding, struck, -⟩ := playDegree_chord (i := i)
    (c := { c.counted with sent := sent, sounding := [] }) rfl step selected mode
  rw [beginSelector_number length signs number hi, released, struck]
  exact ⟨_, rfl, rfl, rfl⟩

variable (h : c.Prepared b c₁ i) (goes : c.stopRequested = false)
  (length : c₁.stepSeconds = .ok step) (first : b.selectors = selector :: rest)
  (signs : ¬ (selector = "=" ∨ selector = "." ∨ selector = "s"))
  (number : selectorDegree? selector b.base = some degree)
  (selected : { i with selectedNote := degree }.selectNotes c.catalog = .ok (notes, j))
  (mode : j.playMode = .chord) (unison : j.InUnison c.catalog)

include h goes length first signs number selected mode unison

/-- A block that begins with a number comes to its step, with the voices of the chord in unison. -/
theorem Prepared.strikes :
    ∃ c' cursor, c.beginBlock b = (c', .waits step cursor) ∧ c'.Strikes cursor := by
  obtain ⟨sent, announced⟩ := h.announced
  obtain ⟨log, kept⟩ := h.kept
  have long : (c₁.announced i).stepSeconds = .ok step := by
    rw [announced, stepSeconds_eq rfl]
    rw [stepSeconds_eq h.chosen, kept] at length
    exact length
  have going : (c₁.announced i).stopRequested = false := by rw [announced]; exact goes
  obtain ⟨c', begun, instrument, catalog⟩ := beginSelector_struck (c := c₁.announced i) long signs
    number (by rw [announced]) (by rw [announced]; exact selected) mode
  have scales : c'.catalog = c.catalog := by rw [catalog, announced]
  have again : i.repeats.toNat = i.repeats.toNat - 1 + 1 := by
    have := h.repeats
    omega
  refine ⟨c', ⟨b.base, rest, b.selectors, i.repeats.toNat - 1, .step⟩, ?_,
    ⟨selector, ?_, signs, ?_⟩, j, instrument, mode, ?_⟩
  · rw [h.beginBlock, again, first]
    simp only [nextSelector, enterSelector, going, begun, Nat.add_sub_cancel, Bool.false_eq_true,
      ↓reduceIte]
  · exact BlockCursor.current?_eq (by rw [first])
  · rw [number]
    rfl
  · rw [scales]
    exact unison

/-- **Chords in unison are struck**: if the first block of the song begins with such a chord,
playback comes to its step when it begins. -/
theorem Prepared.turn_inUnison {blocks : List Block} (song : c.songBlocks = b :: blocks) :
    (c.turn .beginning).InUnison := by
  obtain ⟨c', cursor, begun, strikes⟩ :=
    h.strikes goes length first signs number selected mode unison
  have turned : c.resumePlayback .beginning =
      (c', .waits step (.inBlock blocks c.stepsPerformed cursor)) := by
    simp only [resumePlayback, newPass, song, playBlocks, goes, begun, Bool.false_eq_true,
      ↓reduceIte]
  have there := settle_place? (c.resumePlayback .beginning)
  rw [turned] at there
  rw [turn, turned]
  exact ⟨_, there, strikes⟩

end Struck

/-- Five voices, the lowest of which the inversion raises to the pitch of the highest. -/
def meeting : Block := ⟨[⟨"W", "4"⟩, ⟨"I", "1"⟩], "1", none⟩

/-- The instrument that the commands of this block leave. -/
def inverted : Instrument := { Instrument.initial with density := 4, inversion := 1 }

theorem meeting_prepared (hi : c.instrument = some .initial) (scales : c.catalog = .standard) :
    c.Prepared meeting { c with instrument := some inverted } inverted := by
  have widened : Setting.applyCode .standard { Instrument.initial with repeats := 1 } "4" 16 "W" =
      .ok { Instrument.initial with density := 4 } := by decide +kernel
  have raised : Setting.applyCode .standard { Instrument.initial with density := 4 } "1" 16 "I" =
      .ok inverted := by decide +kernel
  refine ⟨⟨.initial, hi, ?_⟩, rfl⟩
  simp only [meeting, Block.base, applyCommands, applyCommand, requireInstrument, Except.bind,
    scales, widened, raised]

theorem meeting_turn (hi : c.instrument = some .initial) (scales : c.catalog = .standard)
    (goes : c.stopRequested = false) (song : c.songBlocks = [meeting]) :
    (c.turn .beginning).InUnison := by
  obtain ⟨beats, length⟩ := NoteValue.beatsOfText_ok
    (show NoteValue.ofText "4n" = .ok ⟨4, .note⟩ by decide +kernel) (by decide +kernel)
  have selected : { inverted with selectedNote := 0 }.selectNotes .standard =
      .ok ([72, 63, 67, 70, 72], { inverted with notes := [72, 63, 67, 70, 72] }) := by
    decide +kernel
  have unison : Instrument.InUnison { inverted with notes := [72, 63, 67, 70, 72] } .standard :=
    ⟨[0, 3, 7, 10, 12], 0, 4, 0, by decide +kernel, by decide, by decide, rfl, rfl, by decide⟩
  have first : meeting.selectors = ["1"] := by decide +kernel
  have number : selectorDegree? "1" meeting.base = some 0 := by decide +kernel
  rw [← scales] at selected unison
  exact (meeting_prepared hi scales).turn_inUnison goes
    ((stepSeconds_eq rfl).trans (congrArg _ length)) first (by decide) number selected rfl unison
    song

end Conductor

/-! ### Any playback -/

namespace Scene

open Conductor

/-- A scene with nothing but playback. -/
structure Lone (s : Scene) : Prop where
  /-- The conductor. -/
  conductor : s.conductor.Poised
  /-- No direct performance is under way. -/
  calls : s.calls = []

/-- **Any actions** that begin no direct performance: a note has begun once more if and only if one
had before, or playback has come through a step with voices in unison. -/
theorem Lone.run (actions : List Action)
    (playback : ∀ o, Action.begin o ∈ actions → o.controls = true) :
    ∀ {s : Scene}, s.Lone → (s.run actions).Lone ∧
      (NoRestarts (s.run actions).conductor.sent ↔ NoRestarts s.conductor.sent ∧
        ∀ before, before <+: actions → ¬ (s.run before).conductor.InUnison) := by
  induction actions with
  | nil =>
    intro s h
    refine ⟨h, (and_iff_left_of_imp fun apart before part => ?_).symm⟩
    rw [List.prefix_nil.1 part]
    exact h.conductor.noticed apart
  | cons a actions ih =>
    intro s h
    -- the first action accounts for itself, and the others for what comes after it
    have steered := step_steer h.calls fun o same => playback o (same ▸ List.mem_cons_self)
    have first := h.conductor.steer steered.conductor
    obtain ⟨lone, rest⟩ := ih (fun o mem => playback o (List.mem_cons_of_mem _ mem))
      ⟨first.poised, steered.calls⟩
    refine ⟨lone, rest.trans ?_⟩
    constructor
    · rintro ⟨apart, later⟩
      have before := (first.restarts.1 apart).1
      refine ⟨before, fun actions' part => ?_⟩
      rcases List.prefix_cons_iff.1 part with rfl | ⟨actions', rfl, part'⟩
      · exact h.conductor.noticed before
      · exact later actions' part'
    · rintro ⟨before, later⟩
      have now (actions' : List Action) (part : actions' <+: actions) :=
        later (a :: actions') (List.prefix_cons_iff.2 (.inr ⟨actions', rfl, part⟩))
      exact ⟨first.restarts.2 ⟨before, now [] List.nil_prefix⟩, now⟩

end Scene

namespace Conductor

theorem create_poised {catalog : Catalog} (scales : catalog.WellFormed) {bpm : Float}
    {c₀ : Conductor} (created : create true catalog bpm = .ok c₀) : c₀.Poised := by
  have faithful := create_faithful created
  have audible := create_audible created
  obtain ⟨bpm', -, rfl⟩ := Setting.map_ok created
  refine ⟨⟨faithful, audible, scales⟩, fun place waits => ?_, fun _ => rfl, fun place waits => ?_,
    fun _ => not_inUnison rfl⟩
  all_goals cases waits

/-- The block is played on the instrument to begin with, and playback is stopped in its step. -/
def meets : List Action :=
  [.begin (.setSong (some ⟨[meeting]⟩)), .begin (.setInstrument .initial), .begin .start, .turn,
    .begin .stop, .interrupt, .finish]

theorem meets_strikes {c₀ : Conductor} (created : create true .standard 120.0 = .ok c₀) :
    ((Scene.opening c₀).run (meets.take 4)).conductor.InUnison ∧
      ((Scene.opening c₀).run meets).conductor.AtRest := by
  set started : Conductor := { c₀ with
    song := some ⟨[meeting]⟩
    instrument := some .initial
    stopRequested := false
    running := true
    task := some (.ready .beginning) }
  have scales : started.catalog = .standard := by
    cases created
    rfl
  have turned : (Scene.opening c₀).run (meets.take 4) =
      Scene.opening (started.turn .beginning) := by
    cases created
    rfl
  have stopped : (Scene.opening c₀).run meets =
      ((Scene.opening c₀).run (meets.take 4)).run [.begin .stop, .interrupt, .finish] := rfl
  have faithful : started.Faithful := (create_faithful created).alike rfl rfl rfl
  have there : (started.turn .beginning).task.isSome = true := settle_task _
  refine ⟨?_, ?_⟩
  · rw [turned]
    exact meeting_turn rfl scales rfl rfl
  · rw [stopped, turned, Scene.stop_run rfl there]
    exact stop_atRest (faithful.moves (turn_moves _)) there

/-- **Beginnings and ends of notes are balanced** unless voices are in unison.  Let a conductor be
created, and whatever playback be controlled in whatever way, with any songs and instruments, while
the caller performs nothing beside it.  A note has begun while its voice sounded if and only if
playback has come through the step of a selector that struck a chord in unison: a chord of which the
inversion raises a voice to the pitch of one that it does not raise.  If this never happened, each
voice has begun as often as it has ended between any two silences; and where nothing is left that
sounds, the numbers agree only if it never happened. -/
theorem balanced_iff_apart {catalog : Catalog} (scales : catalog.WellFormed) {bpm : Float}
    {c₀ : Conductor} (created : create true catalog bpm = .ok c₀) (actions : List Action)
    (playback : ∀ o, Action.begin o ∈ actions → o.controls = true) :
    let c := ((Scene.opening c₀).run actions).conductor
    (NoRestarts c.sent ↔ ∀ before, before <+: actions →
      ¬ ((Scene.opening c₀).run before).conductor.InUnison) ∧
    (NoRestarts c.sent → Balanced c.sent) ∧
    (c.sounding = [] → Balanced c.sent → NoRestarts c.sent) := by
  have alone : (Scene.opening c₀).Lone := ⟨create_poised scales created, rfl⟩
  obtain ⟨⟨poised, -⟩, restarts⟩ := alone.run actions playback
  have fresh : NoRestarts c₀.sent := by
    obtain ⟨bpm', -, rfl⟩ := Setting.map_ok created
    exact noRestarts_nil
  refine ⟨restarts.trans (and_iff_right fresh), fun apart => apart.balanced poised.noStray,
    fun silent balanced => balanced.noRestarts poised.noStray ?_⟩
  rw [poised.sounding, silent]
  rfl

theorem balanced_iff_apart_meets : ∃ c₀, create true .standard 120.0 = .ok c₀ ∧
    ((Scene.opening c₀).run (meets.take 4)).conductor.InUnison ∧
    ¬ NoRestarts ((Scene.opening c₀).run meets).conductor.sent := by
  obtain ⟨c₀, created⟩ : ∃ c₀, create true .standard 120.0 = .ok c₀ := ⟨_, rfl⟩
  obtain ⟨restarts, -⟩ := balanced_iff_apart Catalog.standard_wellFormed created meets
    (by simp [meets, Operation.controls])
  have struck := (meets_strikes created).1
  exact ⟨c₀, created, struck, fun apart => restarts.1 apart _ (List.take_prefix 4 meets) struck⟩

/-- The song `W4,I1:1` on the instrument to begin with begins a note while it sounds, and ends it
once: between the silence before and the silence after, beginnings and ends are not balanced. -/
theorem meeting_unbalanced : (Song.load "W4,I1:1").1 = some ⟨[meeting]⟩ ∧
    Instrument.Valid .standard .initial ∧
    ∃ c₀, create true .standard 120.0 = .ok c₀ ∧
      let c := ((Scene.opening c₀).run meets).conductor
      soundingAfter c.sent = ∅ ∧ ¬ NoRestarts c.sent ∧ ¬ Balanced c.sent := by
  obtain ⟨c₀, created⟩ : ∃ c₀, create true .standard 120.0 = .ok c₀ := ⟨_, rfl⟩
  obtain ⟨struck, rest⟩ := meets_strikes created
  have alone : (Scene.opening c₀).Lone :=
    ⟨create_poised Catalog.standard_wellFormed created, rfl⟩
  obtain ⟨⟨poised, -⟩, restarts⟩ := alone.run meets (by simp [meets, Operation.controls])
  have again : ¬ NoRestarts ((Scene.opening c₀).run meets).conductor.sent :=
    fun apart => (restarts.1 apart).2 _ (List.take_prefix 4 meets) struck
  exact ⟨by decide +kernel, Bench.initial_valid, c₀, created, rest.heard, again,
    fun balanced => again (balanced.noRestarts poised.noStray rest.heard)⟩

end Conductor

end ChordSequencer
