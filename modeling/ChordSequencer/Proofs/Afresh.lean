import ChordSequencer.Proofs.Cut
import ChordSequencer.Proofs.Order
import ChordSequencer.Proofs.Parts
import ChordSequencer.Proofs.Unseen

/-!
# Blocks and past playback

A block that is performed directly adds to what was sent, counted and logged before, and never reads
it.  Two conductors that differ in this past alone perform it alike (`Conductor.PerformsAlike`):
with the same waits, and with the same triggers after each of them.  But the request to stop is not
of the past.  It stays when playback has come to its end, until playback is started once more, and
meanwhile no block plays anything.

* `Conductor.following_unseen` : the past is not seen.
* `Conductor.stretch_parallel`, `Conductor.finish_parallel` : what two conductors with different
  pasts do up to a wait, and to the end.
* `Conductor.performsAlike_iff` : the request to stop, and nothing else, comes between them.
* `Conductor.Outlasts.perform` : what one operation makes of the request, and
  `performAll_outlasts` any of them.
* `performsAlike_iff_ended` : which past playback makes a difference.
-/

namespace ChordSequencer

namespace Conductor

/-! ### The past -/

/-- What a performance adds to and never reads, and what stands aside meanwhile. -/
structure Past where
  /-- The song. -/
  song : Option Song
  /-- The playback task. -/
  task : Option Task
  /-- Playback was started and has not come to its end. -/
  running : Bool
  /-- The number of blocks performed. -/
  blocks : Nat
  /-- The number of selectors performed. -/
  steps : Nat
  /-- The time. -/
  clock : Float
  /-- What was sent. -/
  sent : List (Float × Trigger)
  /-- What was logged. -/
  log : List LogLine

/-- The past of a conductor. -/
def past (c : Conductor) : Past :=
  ⟨c.song, c.task, c.running, c.blocksPerformed, c.stepsPerformed, c.clock, c.sent, c.log⟩

/-- The conductor without its past. -/
def bare (c : Conductor) : Conductor :=
  { c with
    song := none
    task := none
    running := false
    blocksPerformed := 0
    stepsPerformed := 0
    clock := 0.0
    sent := []
    log := [] }

/-- The conductor after a past: what it has counted, sent and logged itself comes on top. -/
def following (c : Conductor) (p : Past) : Conductor :=
  { c with
    song := p.song
    task := p.task
    running := p.running
    blocksPerformed := p.blocks + c.blocksPerformed
    stepsPerformed := p.steps + c.stepsPerformed
    clock := p.clock
    sent := c.sent.map (fun event => (p.clock, event.2)) ++ p.sent
    log := c.log ++ p.log }

theorem bare_following (c : Conductor) : c.bare.following c.past = c := rfl

/-- **No performance sees the past.** -/
theorem following_unseen (p : Past) : Unseen (following · p) where
  catalog _ := rfl
  bpm _ := rfl
  instrument _ := rfl
  sounding _ := rfl
  stopRequested _ := rfl
  sends c t := by cases audible : c.audible <;> simp [send, following, audible]
  counts _ := rfl
  sounds _ _ := rfl
  plays _ _ := rfl
  warns _ _ _ := rfl

theorem beginBlock_following (c : Conductor) (p : Past) (b : Block) :
    (c.following p).beginBlock b = (c.beginBlock b).map (following · p) id :=
  (following_unseen p).beginBlock (fun _ => rfl) rfl rfl fun c _ =>
    (following_unseen p).applyCommands (fun _ _ => rfl) b.base b.commands c

/-! ### What is added -/

/-- Triggers with the times at which they are sent, stretch by stretch. -/
def stamped (times : List Float) (stretches : List (List Trigger)) : List (Float × Trigger) :=
  (List.zipWith (fun time triggers => triggers.map (time, ·)) times stretches).flatten

/-- What a performance adds to a conductor. -/
structure Gain where
  /-- The triggers of each stretch between two waits. -/
  stretches : List (List Trigger)
  /-- The number of blocks. -/
  blocks : Nat
  /-- The number of selectors. -/
  steps : Nat
  /-- The lines of the log, the latest first. -/
  log : List LogLine

/-- A conductor has added something, stretch by stretch at some times. -/
structure Gains (c : Conductor) (times : List Float) (g : Gain) (c' : Conductor) : Prop where
  /-- Each stretch has its time. -/
  span : times.length = g.stretches.length
  /-- What was sent. -/
  sent : c'.sent = (stamped times g.stretches).reverse ++ c.sent
  /-- The blocks. -/
  blocks : c'.blocksPerformed = c.blocksPerformed + g.blocks
  /-- The selectors. -/
  steps : c'.stepsPerformed = c.stepsPerformed + g.steps
  /-- The log. -/
  log : c'.log = g.log ++ c.log

variable {c c' c'' d d' : Conductor} {times later : List Float} {g g' : Gain}

theorem Gains.refl (c : Conductor) : c.Gains [] ⟨[], 0, 0, []⟩ c := ⟨rfl, rfl, rfl, rfl, rfl⟩

theorem Gains.trans (h : c.Gains times g c') (h' : c'.Gains later g' c'') :
    c.Gains (times ++ later)
      ⟨g.stretches ++ g'.stretches, g.blocks + g'.blocks, g.steps + g'.steps, g'.log ++ g.log⟩
      c'' where
  span := by rw [List.length_append, List.length_append, h.span, h'.span]
  sent := by
    rw [h'.sent, h.sent, stamped, stamped, stamped, List.zipWith_append h.span,
      List.flatten_append, List.reverse_append, List.append_assoc]
  blocks := by rw [h'.blocks, h.blocks, Nat.add_assoc]
  steps := by rw [h'.steps, h.steps, Nat.add_assoc]
  log := by rw [h'.log, h.log, List.append_assoc]

theorem following_gains (c e : Conductor) : c.Gains [c.clock]
    ⟨[e.triggers], e.blocksPerformed, e.stepsPerformed, e.log⟩ (e.following c.past) where
  span := rfl
  sent := by
    simp [stamped, triggers, following, past, List.map_reverse]
  blocks := rfl
  steps := rfl
  log := rfl

/-! ### Two conductors -/

/-- Two conductors have come to the same answer and have added the same, each at its own times: now
they differ in their pasts alone. -/
structure Parallel {α : Type} (c d : Conductor) (times times' : List Float)
    (r s : Conductor × α) : Prop where
  /-- The answer. -/
  answer : r.2 = s.2
  /-- The rest of the conductors. -/
  bare : r.1.bare = s.1.bare
  /-- What was added. -/
  gains : ∃ g, c.Gains times g r.1 ∧ d.Gains times' g s.1

variable {α β κ : Type}

theorem Parallel.refl (same : c.bare = d.bare) (answer : α) :
    Parallel c d [] [] (c, answer) (d, answer) :=
  ⟨rfl, same, _, .refl c, .refl d⟩

theorem Parallel.paused (same : c.bare = d.bare) {p q : Pause} :
    Parallel c d [] [] (c.pause p, ()) (d.pause q, ()) :=
  ⟨rfl, same, ⟨[], 0, 0, []⟩, ⟨rfl, rfl, rfl, rfl, rfl⟩, ⟨rfl, rfl, rfl, rfl, rfl⟩⟩

theorem Parallel.trans {times' later' : List Float} {r s : Conductor × α} {r' s' : Conductor × β}
    (h : Parallel c d times times' r s) (h' : Parallel r.1 s.1 later later' r' s') :
    Parallel c d (times ++ later) (times' ++ later') r' s' := by
  obtain ⟨g, gains, gains'⟩ := h.gains
  obtain ⟨g', more, more'⟩ := h'.gains
  exact ⟨h'.answer, h'.bare, _, gains.trans more, gains'.trans more'⟩

/-- **What is done between two waits** does not depend on the past. -/
theorem stretch_parallel {f : Conductor → Conductor × α}
    (follows : ∀ c p, f (c.following p) = (f c).map (following · p) id) (same : c.bare = d.bare) :
    Parallel c d [c.clock] [d.clock] (f c) (f d) := by
  have first := follows c.bare c.past
  have second := follows d.bare d.past
  rw [bare_following] at first second
  rw [← same] at second
  rw [first, second]
  exact ⟨rfl, rfl, _, following_gains c _, following_gains d _⟩

/-! ### To the end of a performance -/

/-- The waits of a caller who goes on to the end with a performance. -/
def waitsOf (turns : Nat) (resume : Conductor → κ → Conductor × Outcome κ) :
    Nat → Conductor × Outcome κ → List Float
  | n + 1, (c, .waits seconds next) =>
    seconds :: waitsOf turns resume n (resume (c.wait turns seconds) next)
  | _, _ => []

/-- The times after some waits, of which the first begins at a time. -/
def timesFrom : Float → List Float → List Float
  | _, [] => []
  | time, seconds :: waits => elapse time seconds :: timesFrom (elapse time seconds) waits

/-- **A caller who performs alone** comes to the end after the same waits whatever the past is. -/
theorem finish_parallel {resume : Conductor → κ → Conductor × Outcome κ}
    (follows : ∀ next c p, resume (c.following p) next = (resume c next).map (following · p) id)
    (kept : ∀ c next, (resume c next).1.task = c.task)
    (passes : ∀ c next, (resume c next).1.clock = c.clock) (turns : Nat) :
    ∀ (n : Nat) {r s : Conductor × Outcome κ}, r.2 = s.2 → r.1.bare = s.1.bare →
      r.1.task.any (·.live) = false → s.1.task.any (·.live) = false →
      let waits := waitsOf turns resume n r
      waits = waitsOf turns resume n s ∧
        Parallel r.1 s.1 (timesFrom r.1.clock waits) (timesFrom s.1.clock waits)
          (finish turns resume n r) (finish turns resume n s) := by
  intro n
  induction n with
  | zero =>
    rintro ⟨c, outcome⟩ ⟨d, _⟩ rfl same - -
    cases outcome <;> exact ⟨rfl, .refl same _⟩
  | succ n ih =>
    rintro ⟨c, outcome⟩ ⟨d, _⟩ rfl same dead dead'
    cases outcome with
    | ended | failed why => exact ⟨rfl, .refl same _⟩
    | waits seconds next =>
      simp only [waitsOf, finish, wait_dead dead, wait_dead dead', timesFrom]
      -- the wait, the stretch after it, and whatever comes then
      set c₁ := c.pause ⟨elapse c.clock seconds, c.task⟩
      set d₁ := d.pause ⟨elapse d.clock seconds, d.task⟩
      have waited : Parallel c d [] [] (c₁, ()) (d₁, ()) := .paused same
      have went : Parallel c₁ d₁ [c₁.clock] [d₁.clock] (resume c₁ next) (resume d₁ next) :=
        stretch_parallel (f := (resume · next)) (follows next) same
      have task : (resume c₁ next).1.task = c.task := kept c₁ next
      have task' : (resume d₁ next).1.task = d.task := kept d₁ next
      have clock : (resume c₁ next).1.clock = c₁.clock := passes c₁ next
      have clock' : (resume d₁ next).1.clock = d₁.clock := passes d₁ next
      obtain ⟨waits, later⟩ := ih (r := resume c₁ next) (s := resume d₁ next) went.answer went.bare
        (by rw [task]; exact dead) (by rw [task']; exact dead')
      rw [clock, clock'] at later
      exact ⟨congrArg (seconds :: ·) waits, (waited.trans went).trans later⟩

theorem finish_over {outcome : Outcome κ} (brief : ∀ seconds next, outcome ≠ .waits seconds next)
    (turns : Nat) (resume : Conductor → κ → Conductor × Outcome κ) (n : Nat) :
    ∃ answer, ∀ c : Conductor, finish turns resume n (c, outcome) = (c, answer) ∧
      waitsOf turns resume n (c, outcome) = [] := by
  cases outcome with
  | waits seconds next => exact absurd rfl (brief seconds next)
  | ended => exact ⟨.ok (), fun c => by cases n <;> exact ⟨rfl, rfl⟩⟩
  | failed why => exact ⟨.error why, fun c => by cases n <;> exact ⟨rfl, rfl⟩⟩

/-! ### A block -/

/-- The waits of a caller who performs a block. -/
def blockWaits (turns : Nat) (b : Block) (c : Conductor) : List Float :=
  waitsOf turns resumeBlock turns (c.beginBlock b)

/-- The times of the stretches between the waits of a caller who performs a block. -/
def blockTimes (turns : Nat) (b : Block) (c : Conductor) : List Float :=
  c.clock :: timesFrom c.clock (c.blockWaits turns b)

/-- Two conductors perform a block alike: with the same answer after the same waits, they do the
same to the instrument and the voices and add the same to what was sent, counted and logged. -/
structure PerformsAlike (turns : Nat) (b : Block) (c d : Conductor) : Prop where
  /-- The answer. -/
  answer : (c.performBlock turns b).2 = (d.performBlock turns b).2
  /-- The waits. -/
  waits : c.blockWaits turns b = d.blockWaits turns b
  /-- The instrument. -/
  instrument : (c.performBlock turns b).1.instrument = (d.performBlock turns b).1.instrument
  /-- The voices that sound. -/
  sounding : (c.performBlock turns b).1.sounding = (d.performBlock turns b).1.sounding
  /-- What is added. -/
  gains : ∃ g, c.Gains (c.blockTimes turns b) g (c.performBlock turns b).1 ∧
    d.Gains (d.blockTimes turns b) g (d.performBlock turns b).1

variable {b : Block} {c₁ : Conductor} {j : Instrument} {turns : Nat}

theorem finishBlock_parallel (turns : Nat) {r s : Conductor × Outcome BlockCursor}
    (outcome : r.2 = s.2) (same : r.1.bare = s.1.bare) (dead : r.1.task.any (·.live) = false)
    (dead' : s.1.task.any (·.live) = false) :
    let waits := waitsOf turns resumeBlock turns r
    waits = waitsOf turns resumeBlock turns s ∧
      Parallel r.1 s.1 (timesFrom r.1.clock waits) (timesFrom s.1.clock waits)
        (finish turns resumeBlock turns r) (finish turns resumeBlock turns s) := by
  have frames (c : Conductor) (cursor : BlockCursor) := (c.resumeBlock_changes cursor).frame_eq
  exact finish_parallel (fun next _ p => (following_unseen p).resumeBlock next)
    (fun c next => congrArg Frame.task (frames c next))
    (fun c next => congrArg Frame.clock (frames c next)) turns turns outcome same dead dead'

theorem beginBlock_clock (c : Conductor) (b : Block) : (c.beginBlock b).1.clock = c.clock :=
  congrArg Frame.clock (beginBlock_changes b).frame_eq

/-- **The past makes no difference.** -/
theorem performsAlike_of_bare (same : c.bare = d.bare) (dead : c.task.any (·.live) = false)
    (dead' : d.task.any (·.live) = false) (turns : Nat) (b : Block) :
    PerformsAlike turns b c d := by
  have begun : Parallel c d [c.clock] [d.clock] (c.beginBlock b) (d.beginBlock b) :=
    stretch_parallel (f := (beginBlock · b)) (beginBlock_following · · b) same
  obtain ⟨waits, finished⟩ := finishBlock_parallel turns begun.answer begun.bare
    (by rw [(beginBlock_changes b).task_eq]; exact dead)
    (by rw [(beginBlock_changes b).task_eq]; exact dead')
  have all := begun.trans finished
  rw [beginBlock_clock, beginBlock_clock] at all
  refine ⟨all.answer, waits, (congrArg Conductor.instrument all.bare :),
    (congrArg Conductor.sounding all.bare :), ?_⟩
  rw [blockTimes, blockTimes, ← show c.blockWaits turns b = d.blockWaits turns b from waits]
  exact all.gains

/-! ### The request to stop -/

/-- The conductor with or without a request to stop. -/
def withRequest (c : Conductor) (stopRequested : Bool) : Conductor := { c with stopRequested }

theorem applyCommand_withRequest (stop : Bool) (command : Command) (base : Nat) :
    (c.withRequest stop).applyCommand command base =
      (c.applyCommand command base).map (Prod.map (·.withRequest stop) id) := by
  have same : (c.withRequest stop).requireInstrument = c.requireInstrument := rfl
  simp only [applyCommand, same]
  cases c.requireInstrument with
  | error why => rfl
  | ok i =>
    have scales : (c.withRequest stop).catalog = c.catalog := rfl
    simp only [Except.bind, scales]
    split <;> rfl

theorem applyCommands_withRequest (stop : Bool) (base : Nat) (commands : List Command) :
    ∀ c : Conductor, applyCommands base (c.withRequest stop) commands =
      (applyCommands base c commands).map (·.withRequest stop) id := by
  induction commands with
  | nil => exact fun _ => rfl
  | cons command rest ih =>
    intro c
    rw [applyCommands, applyCommands, applyCommand_withRequest]
    cases c.applyCommand command base with
    | error why => rfl
    | ok r => exact ih r.1

theorem Prepared.withRequest (h : c.Prepared b c₁ j) (stop : Bool) :
    (c.withRequest stop).Prepared b (c₁.withRequest stop) j := by
  obtain ⟨⟨i, hi, applied⟩, chosen⟩ := h
  refine ⟨⟨i, hi, ?_⟩, chosen⟩
  have same := applyCommands_withRequest stop b.base b.commands
    { c with instrument := some { i with repeats := 1 } }
  rw [applied] at same
  exact same

theorem Prepared.announced_silent (h : c.Prepared b c₁ j) (silent : c.sounding = []) :
    (c₁.announced j).sounding = [] := by
  obtain ⟨sent, announced⟩ := h.announced
  rw [announced]
  exact silent

theorem announced_withRequest (c : Conductor) (j : Instrument) (stop : Bool) :
    (c.withRequest stop).announced j = (c.announced j).withRequest stop := by
  cases audible : c.audible <;> simp [announced, send, withRequest, audible]

theorem beginBlock_brief (nothing : b.selectors = [] ∨ ∀ c₁ j, ¬ c.Prepared b c₁ j)
    (seconds : Float) (cursor : BlockCursor) : (c.beginBlock b).2 ≠ .waits seconds cursor := by
  rcases beginBlock_prepared (c := c) b with ⟨why, failed⟩ | ⟨c₁, j, prepared⟩
  · intro waits
    cases failed.symm.trans waits
  · have empty : b.selectors = [] := nothing.resolve_right fun none => none c₁ j prepared
    rw [prepared.beginBlock, empty, nextSelector_over (by simp)]
    intro waits
    cases waits

theorem beginBlock_withRequest (silent : c.sounding = [])
    (nothing : b.selectors = [] ∨ ∀ c₁ j, ¬ c.Prepared b c₁ j) (stop : Bool) :
    (c.withRequest stop).beginBlock b = (c.beginBlock b).map (·.withRequest stop) id := by
  have same : (c.withRequest stop).instrument = c.instrument := rfl
  simp only [beginBlock, same]
  cases hi : c.instrument with
  | none => rfl
  | some i =>
    have applies : applyCommands b.base
        { c.withRequest stop with instrument := some { i with repeats := 1 } } b.commands =
          (applyCommands b.base { c with instrument := some { i with repeats := 1 } }
            b.commands).map (·.withRequest stop) id :=
      applyCommands_withRequest stop b.base b.commands
        { c with instrument := some { i with repeats := 1 } }
    dsimp only
    rw [applies]
    cases applied : applyCommands b.base { c with instrument := some { i with repeats := 1 } }
        b.commands with
    | mk c₁ failed =>
      cases failed with
      | some why => rfl
      | none =>
        have same₁ : (c₁.withRequest stop).instrument = c₁.instrument := rfl
        simp only [Prod.map_apply, id_eq, same₁]
        cases hj : c₁.instrument with
        | none => rfl
        | some j =>
          -- the commands could be applied, so that the block has no selectors
          have prepared : c.Prepared b c₁ j := ⟨⟨i, hi, applied⟩, hj⟩
          have empty : b.selectors = [] := nothing.resolve_right fun none => none c₁ j prepared
          have quiet : (c₁.announced j).sounding = [] := prepared.announced_silent silent
          have ends (c : Conductor) (quiet : c.sounding = []) :
              c.nextSelector b.base [] b.selectors j.repeats.toNat = (c, .ended) := by
            rw [nextSelector_over (by simp [empty]), release_silent quiet]
          change ((c₁.withRequest stop).announced j).nextSelector _ _ _ _ =
            ((c₁.announced j).nextSelector _ _ _ _).map (·.withRequest stop) id
          rw [announced_withRequest, ends _ quiet, ends ((c₁.announced j).withRequest stop) quiet]
          rfl

/-- **A block of which no selector is played** is performed alike whether playback was asked to stop
or not. -/
theorem performBlock_withRequest (silent : c.sounding = [])
    (nothing : b.selectors = [] ∨ ∀ c₁ j, ¬ c.Prepared b c₁ j) (stop : Bool) (turns : Nat) :
    (c.withRequest stop).performBlock turns b =
        (c.performBlock turns b).map (·.withRequest stop) id ∧
      (c.withRequest stop).blockWaits turns b = c.blockWaits turns b := by
  have brief := beginBlock_brief nothing
  rw [performBlock, performBlock, blockWaits, blockWaits, beginBlock_withRequest silent nothing]
  generalize c.beginBlock b = r at brief
  obtain ⟨c', outcome⟩ := r
  obtain ⟨answer, finishes⟩ := finish_over brief turns resumeBlock turns
  rw [Prod.map_apply, id_eq, (finishes c').1, (finishes c').2, (finishes _).1, (finishes _).2]
  exact ⟨rfl, rfl⟩

theorem PerformsAlike.ofRequest {stop : Bool} (h : PerformsAlike turns b (c.withRequest stop) d)
    (silent : c.sounding = []) (nothing : b.selectors = [] ∨ ∀ c₁ j, ¬ c.Prepared b c₁ j) :
    PerformsAlike turns b c d := by
  obtain ⟨performed, waits⟩ := performBlock_withRequest silent nothing stop turns
  have times : (c.withRequest stop).blockTimes turns b = c.blockTimes turns b :=
    congrArg (fun waits => c.clock :: timesFrom c.clock waits) waits
  obtain ⟨answer, waits', instrument, sounding, g, ⟨span, sent, blocks, steps, log⟩, gains⟩ := h
  rw [performed] at answer instrument sounding sent blocks steps log
  rw [times] at span sent
  exact ⟨answer, waits.symm.trans waits', instrument, sounding, g,
    ⟨span, sent, blocks, steps, log⟩, gains⟩

/-- **While a stop is requested a block plays nothing**: its commands are applied, the sound is
chosen, a block is counted, and that is all. -/
theorem performBlock_stopped (stopped : c.stopRequested = true) (silent : c.sounding = [])
    (prepared : c.Prepared b c₁ j) (turns : Nat) :
    c.performBlock turns b = (c₁.announced j, .ok ()) := by
  have quiet := prepared.announced_silent silent
  obtain ⟨sent, announced⟩ := prepared.announced
  have still : (c₁.announced j).stopRequested = true := by
    rw [announced]
    exact stopped
  have begun : c.beginBlock b = (c₁.announced j, .ended) := by
    rw [prepared.beginBlock]
    simp only [nextSelector, enterSelector, still, ↓reduceIte, release_silent quiet]
    split <;> rfl
  rw [performBlock, begun]
  cases turns <;> rfl

theorem performBlock_goes (goes : c.stopRequested = false) (dead : c.task.any (·.live) = false)
    (plays : b.selectors ≠ []) (done : (c.performBlock turns b).2 = .ok ()) :
    c.stepsPerformed < (c.performBlock turns b).1.stepsPerformed := by
  cases begun : c.beginBlock b with
  | mk c' outcome =>
    cases outcome with
    | failed why =>
      rw [performBlock, begun] at done
      cases turns <;> cases done
    | ended => exact absurd (congrArg Prod.snd begun) (beginBlock_goes goes plays)
    | waits seconds cursor =>
      have counted := beginBlock_counts begun
      obtain ⟨-, ⟨-, -, g, added, -⟩⟩ := finishBlock_parallel turns (r := c.beginBlock b) rfl rfl
        (by rw [(beginBlock_changes b).task_eq]; exact dead)
        (by rw [(beginBlock_changes b).task_eq]; exact dead)
      have steps : (c.performBlock turns b).1.stepsPerformed =
          (c.beginBlock b).1.stepsPerformed + g.steps := added.steps
      rw [begun] at steps
      dsimp only at steps
      omega

/-- A conductor that is asked to stop counts fewer selectors than one that is not. -/
theorem stopped_counts_fewer (stopped : c.stopRequested = true) (silent : c.sounding = [])
    (prepared : c.Prepared b c₁ j) (goes : d.stopRequested = false)
    (dead : d.task.any (·.live) = false) (plays : b.selectors ≠ [])
    (answer : (c.performBlock turns b).2 = (d.performBlock turns b).2) :
    (c.performBlock turns b).1.stepsPerformed + d.stepsPerformed <
      (d.performBlock turns b).1.stepsPerformed + c.stepsPerformed := by
  obtain ⟨sent, announced⟩ := prepared.announced
  have performed := performBlock_stopped stopped silent prepared turns
  rw [performed] at answer ⊢
  have none : (c₁.announced j).stepsPerformed = c.stepsPerformed := by rw [announced]
  have some := performBlock_goes goes dead plays answer.symm
  dsimp only
  omega

theorem PerformsAlike.counts (h : PerformsAlike turns b c d) :
    (c.performBlock turns b).1.stepsPerformed + d.stepsPerformed =
      (d.performBlock turns b).1.stepsPerformed + c.stepsPerformed := by
  obtain ⟨g, gains, gains'⟩ := h.gains
  have steps := gains.steps
  have steps' := gains'.steps
  omega

/-- **Nothing but the request to stop comes between two conductors**, unless the block has no
selectors or its commands cannot be applied. -/
theorem performsAlike_iff (alike : (c.withRequest d.stopRequested).bare = d.bare)
    (silent : c.sounding = []) (dead : c.task.any (·.live) = false)
    (dead' : d.task.any (·.live) = false) (turns : Nat) (b : Block) :
    PerformsAlike turns b c d ↔ c.stopRequested = d.stopRequested ∨
      b.selectors = [] ∨ ∀ c₁ j, ¬ c.Prepared b c₁ j := by
  set e := c.withRequest d.stopRequested
  have fresh : PerformsAlike turns b e d := performsAlike_of_bare alike dead dead' turns b
  refine ⟨fun same => ?_, ?_⟩
  · by_contra differ
    push Not at differ
    obtain ⟨request, plays, c₁, j, prepared⟩ := differ
    have other : e.stopRequested ≠ c.stopRequested := request.symm
    -- both have the answer of the other conductor and count as many selectors
    have answer := same.answer.trans fresh.answer.symm
    have counts := same.counts
    have counts' := fresh.counts
    cases requested : c.stopRequested with
    | true =>
      rw [requested, ne_eq, Bool.not_eq_true] at other
      have fewer := stopped_counts_fewer requested silent prepared other dead plays answer
      omega
    | false =>
      rw [requested, ne_eq, Bool.not_eq_false] at other
      have fewer := stopped_counts_fewer other silent (prepared.withRequest _) requested dead plays
        answer.symm
      omega
  · rintro (request | nothing)
    · have same : e = c := by
        simp only [e, withRequest, ← request]
      exact same ▸ fresh
    · exact fresh.ofRequest silent nothing

/-! ### What becomes of the request -/

/-- A task that lives belongs to a conductor that runs. -/
def Owned (c : Conductor) : Prop := c.task.any (·.live) = true → c.running = true

/-- Playback was neither begun nor ended, though its task may have gone on. -/
structure Abides (c c' : Conductor) : Prop where
  /-- A task is there or not. -/
  task : c'.task.isSome = c.task.isSome
  /-- Playback was asked to stop or not. -/
  request : c'.stopRequested = c.stopRequested
  /-- The task has its owner. -/
  owned : c.Owned → c'.Owned

theorem Abides.refl (c : Conductor) : c.Abides c := ⟨rfl, rfl, id⟩

theorem Abides.trans (h : c.Abides c') (h' : c'.Abides c'') : c.Abides c'' :=
  ⟨h'.task.trans h.task, h'.request.trans h.request, h'.owned ∘ h.owned⟩

theorem Abides.same (task : c'.task = c.task) (running : c'.running = c.running)
    (request : c'.stopRequested = c.stopRequested) : c.Abides c' := by
  refine ⟨by rw [task], request, fun owned live => ?_⟩
  rw [task] at live
  exact running.trans (owned live)

theorem Changes.abides (h : Changes c c') : c.Abides c' :=
  .same (congrArg Frame.task h.frame_eq) (congrArg Frame.running h.frame_eq)
    (congrArg Frame.stopRequested h.frame_eq)

theorem settle_abides {r : Conductor × Outcome Place} (live : c.task.any (·.live) = true)
    (h : Changes c r.1) : c.Abides (settle r) := by
  have there : (settle r).task.isSome = c.task.isSome :=
    (settle_task r).trans (Option.isSome_of_any live).symm
  have request : r.1.stopRequested = c.stopRequested := congrArg Frame.stopRequested h.frame_eq
  have running : r.1.running = c.running := h.running_eq
  obtain ⟨c', outcome⟩ := r
  cases outcome with
  | waits seconds next => exact ⟨there, request, fun owned _ => running.trans (owned live)⟩
  | ended | failed why => exact ⟨there, request, fun _ dead => by cases dead⟩

theorem turn_abides {place : Place} (waits : c.place? = some place) : c.Abides (c.turn place) :=
  settle_abides (live_of_place? waits) (c.resumePlayback_changes place)

theorem proceed_abides (c : Conductor) : c.Abides (Scene.proceed c) := by
  cases waits : c.place? with
  | none =>
    rw [proceed_none waits]
    exact .refl c
  | some place =>
    rw [proceed_place? waits]
    exact turn_abides waits

theorem playedAt_abides (times : List Float) : ∀ c : Conductor, c.Abides (c.playedAt times) := by
  induction times with
  | nil => exact .refl
  | cons time times ih =>
    intro c
    have passed : c.Abides { c with clock := time } := .same rfl rfl rfl
    exact (passed.trans (proceed_abides _)).trans (ih _)

theorem yield_abides (c : Conductor) : c.Abides c.yield := by
  obtain ⟨times, went⟩ := c.yield_playedAt
  rw [went]
  exact playedAt_abides times c

theorem waitUntil_abides (turns : Nat) (c : Conductor) (time : Float) :
    c.Abides (c.waitUntil turns time) := by
  obtain ⟨times, went⟩ := advance_playedAt (some time) turns c
  rw [waitUntil, went]
  exact (playedAt_abides times c).trans (.same rfl rfl rfl)

theorem wait_abides (turns : Nat) (c : Conductor) (seconds : Float) :
    c.Abides (c.wait turns seconds) := by
  rw [wait]
  split
  · exact yield_abides c
  · exact waitUntil_abides turns c _

/-- A direct performance abides, whatever the task does during its waits. -/
theorem finish_abides {resume : Conductor → κ → Conductor × Outcome κ}
    (keeps : ∀ c next, Changes c (resume c next).1) (turns : Nat) :
    ∀ (n : Nat) (r : Conductor × Outcome κ), r.1.Abides (finish turns resume n r).1 := by
  intro n
  induction n with
  | zero =>
    rintro ⟨c, outcome⟩
    cases outcome <;> exact .refl c
  | succ n ih =>
    rintro ⟨c, outcome⟩
    cases outcome with
    | waits seconds next =>
      exact ((wait_abides turns c seconds).trans (keeps _ next).abides).trans (ih _)
    | ended | failed why => exact .refl c

theorem stop_frame (there : c.task.isSome = true) :
    c.stop.1.task = none ∧ c.stop.1.running = false ∧ c.stop.1.stopRequested = true := by
  have some : ¬ c.task.isNone = true := by
    rw [Option.isNone_iff_eq_none]
    exact Option.isSome_iff_ne_none.1 there
  rw [stop, if_neg some, requestStop_interrupt, collect]
  have frame := (Changes.release
    (c := { c.interrupt.requestStop with task := none, running := false }) .refl).frame_eq
  exact ⟨congrArg Frame.task frame, congrArg Frame.running frame,
    congrArg Frame.stopRequested frame⟩

/-- A conductor after some operations, given whether one of them has ended playback: playback is
asked to stop if and only if its task is gone and it was ended at some time. -/
structure Outlasts (ended : Prop) (c : Conductor) : Prop where
  /-- The request. -/
  request : c.stopRequested = true ↔ c.task = none ∧ ended
  /-- The task has its owner. -/
  owned : c.Owned
  /-- A conductor that runs has a task. -/
  manned : c.Manned

variable {ended : Prop}

theorem Outlasts.abides (h : c.Outlasts ended) (abides : c.Abides c') (manned : c'.Manned) :
    c'.Outlasts ended := by
  refine ⟨?_, abides.owned h.owned, manned⟩
  rw [abides.request, h.request, ← Option.not_isSome_iff_eq_none, ← Option.not_isSome_iff_eq_none,
    abides.task]

theorem Outlasts.start (h : c.Outlasts ended) (begun : c.start = .ok c') : c'.Outlasts ended := by
  obtain ⟨-, rfl⟩ | ⟨-, -, -, rfl⟩ := start_cases begun
  · exact h
  · exact ⟨⟨(nomatch ·), fun ⟨gone, _⟩ => nomatch gone⟩, fun _ => rfl, fun _ => rfl⟩

theorem outlasts_stop (there : c.task.isSome = true) (later : ended) :
    c.stop.1.Outlasts ended := by
  obtain ⟨gone, idle, stopped⟩ := stop_frame there
  refine ⟨⟨fun _ => ⟨gone, later⟩, fun _ => stopped⟩, ?_, manned_of_idle idle⟩
  intro live
  rw [gone] at live
  cases live

theorem outlasts_playOut (there : c.task.isSome = true) (later : ended) (turns : Nat)
    (seconds cut : Option Float) : (c.playOut turns seconds cut).1.Outlasts ended := by
  obtain ⟨times, time, out⟩ := c.playOut_playedAt turns seconds cut
  rw [out]
  exact outlasts_stop ((playedAt_abides times c).task.trans there) later

theorem attempt_abides {r : Except Failure Conductor} (abides : ∀ c', r = .ok c' → c.Abides c') :
    c.Abides (Operation.attempt c r).1 := by
  cases r with
  | ok c' => exact abides c' rfl
  | error why => exact .refl c

/-- **One operation** leaves the request behind if it ends playback, and otherwise keeps it unless
it begins playback. -/
theorem Outlasts.perform (h : c.Outlasts ended) (turns : Nat) (o : Operation) :
    (o.perform turns c).1.Outlasts (ended ∨ o.ends c) := by
  have manned := (Operation.perform_moves turns c o).manned h.manned
  have keeps (abides : c.Abides (o.perform turns c).1) (other : ¬ o.ends c) :
      (o.perform turns c).1.Outlasts (ended ∨ o.ends c) := by
    rw [or_iff_left other]
    exact h.abides abides manned
  cases o with
  | setSong song =>
    refine keeps (attempt_abides fun c' set => ?_) id
    simp only [setSong] at set
    split at set <;> cases set
    exact .same rfl rfl rfl
  | setInstrument i =>
    refine keeps (attempt_abides fun c' set => ?_) id
    simp only [setInstrument] at set
    split at set <;> cases set
    exact .same rfl rfl rfl
  | setTempo bpm =>
    refine keeps (attempt_abides fun c' set => ?_) id
    obtain ⟨bpm', -, rfl⟩ := Setting.map_ok (Setting.refusing_ok set)
    exact .same rfl rfl rfl
  | start =>
    cases begun : c.start with
    | error why => exact keeps (attempt_abides fun c' ok => by rw [begun] at ok; cases ok) id
    | ok c' =>
      have performed : (Operation.start.perform turns c).1 = c' := by
        rw [Operation.perform, begun]
        rfl
      rw [performed, or_iff_left (by exact id)]
      exact h.start begun
  | stop =>
    by_cases there : c.task.isSome = true
    · exact outlasts_stop there (.inr there)
    · refine keeps ?_ there
      rw [Operation.perform, stop, if_pos (by simpa using there)]
      exact .refl c
  | sleep seconds => exact keeps (wait_abides turns c seconds) id
  | play seconds =>
    cases begun : c.start with
    | error why =>
      have other : ¬ ∃ started, c.start = .ok started := by simp [begun]
      refine keeps ?_ other
      rw [Operation.perform, play, begun]
      exact .refl c
    | ok started =>
      rw [Operation.perform, play, begun]
      exact outlasts_playOut (start_task h.manned begun) (.inr ⟨_, begun⟩) turns _ _
  | playCancelled seconds after =>
    have yielded := yield_abides c
    cases begun : c.yield.start with
    | error why =>
      have other : ¬ ∃ started, c.yield.start = .ok started := by simp [begun]
      refine keeps ?_ other
      simp only [Operation.perform, playCancelled, begun]
      split
      · exact yielded
      · exact yielded.trans (waitUntil_abides turns _ _)
    | ok started =>
      have there := start_task ((yield_moves c).manned h.manned) begun
      have later : ended ∨ (Operation.playCancelled seconds after).ends c := .inr ⟨_, begun⟩
      simp only [Operation.perform, playCancelled, begun]
      split
      · cases seconds with
        | none => exact outlasts_stop there later
        | some limit => exact outlasts_stop (yield_task there) later
      · have out := outlasts_playOut there later turns seconds (some (c.yield.clock + after))
        exact out.abides (.same rfl rfl rfl) out.manned
  | performBlock b =>
    exact keeps ((beginBlock_changes b).abides.trans
      (finish_abides (fun c cursor => c.resumeBlock_changes cursor) turns turns _)) id
  | performSelector selector base =>
    exact keeps ((beginSelector_changes selector base).abides.trans
      (finish_abides (fun c hold => c.resumeSelector_changes hold) turns turns _)) id

end Conductor

namespace Operation

/-- One of some operations has ended playback. -/
def Ended (turns : Nat) (c : Conductor) (operations : List Operation) : Prop :=
  ∃ earlier o later, operations = earlier ++ o :: later ∧ o.ends (performAll turns c earlier)

theorem ended_append (turns : Nat) (c : Conductor) (operations : List Operation) (o : Operation) :
    Ended turns c (operations ++ [o]) ↔
      Ended turns c operations ∨ o.ends (performAll turns c operations) := by
  constructor
  · rintro ⟨earlier, o', later, split, ends⟩
    rcases List.eq_nil_or_concat later with rfl | ⟨later, last, rfl⟩
    · obtain ⟨rfl, last⟩ := List.append_inj' split rfl
      cases last
      exact .inr ends
    · rw [List.concat_eq_append, ← List.cons_append, ← List.append_assoc] at split
      obtain ⟨rfl, -⟩ := List.append_inj' split rfl
      exact .inl ⟨earlier, o', later, rfl, ends⟩
  · rintro (⟨earlier, o', later, rfl, ends⟩ | ends)
    · exact ⟨earlier, o', later ++ [o], by simp, ends⟩
    · exact ⟨operations, o, [], rfl, ends⟩

end Operation

open Conductor

/-- **Any operations**: playback is asked to stop if and only if its task is gone and one of them
has ended it. -/
theorem performAll_outlasts {audible : Bool} {catalog : Catalog} {bpm : Float} {c₀ : Conductor}
    (created : create audible catalog bpm = .ok c₀) (turns : Nat) (operations : List Operation) :
    (Operation.performAll turns c₀ operations).Outlasts
      (Operation.Ended turns c₀ operations) := by
  induction operations using List.reverseRecOn with
  | nil =>
    have manned := create_manned created
    obtain ⟨bpm', -, rfl⟩ := Setting.map_ok created
    refine ⟨⟨(nomatch ·), ?_⟩, (nomatch ·), manned⟩
    rintro ⟨-, earlier, o, later, split, -⟩
    exact absurd split.symm (List.append_ne_nil_of_right_ne_nil _ (List.cons_ne_nil _ _))
  | append_singleton operations o ih =>
    have performed : Operation.performAll turns c₀ (operations ++ [o]) =
        (o.perform turns (Operation.performAll turns c₀ operations)).1 := by
      rw [Operation.performAll, List.foldl_append]
      rfl
    have next := ih.perform turns o
    rw [← Operation.ended_append] at next
    rw [performed]
    exact next

/-- Two conductors that are idle and silent have the same means to perform a block. -/
structure Conductor.Matches (c d : Conductor) : Prop where
  /-- Both are idle. -/
  idle : c.running = false ∧ d.running = false
  /-- Nothing sounds. -/
  silent : c.sounding = [] ∧ d.sounding = []
  /-- The output. -/
  audible : c.audible = d.audible
  /-- The scales. -/
  catalog : c.catalog = d.catalog
  /-- The tempo. -/
  bpm : c.bpm = d.bpm
  /-- The instrument. -/
  instrument : c.instrument = d.instrument

theorem Conductor.Matches.bare {c d : Conductor} (h : c.Matches d) :
    (c.withRequest d.stopRequested).bare = d.bare := by
  obtain ⟨-, ⟨silent, silent'⟩, audible, catalog, bpm, instrument⟩ := h
  simp only [Conductor.bare, withRequest, silent, silent', audible, catalog, bpm, instrument]

theorem Conductor.Outlasts.dead {ended : Prop} {c : Conductor} (h : c.Outlasts ended)
    (idle : c.running = false) : c.task.any (·.live) = false := by
  by_contra live
  have runs := h.owned (Bool.eq_true_of_not_eq_false live)
  rw [idle] at runs
  cases runs

/-- **When past playback makes a difference.**  Take two conductors after any operations each, which
are now idle and silent and have the same output, scales, tempo and instrument.  They perform a
block alike, after the same waits and with the same additions, if and only if neither or both have
ended playback at some time and have no task since, or the block has no selectors, or its commands
cannot be applied.  A conductor that has ended playback and has no task since applies the commands
of a block, chooses its sound and counts it, and plays none of its selectors. -/
theorem performsAlike_iff_ended {audible audible' : Bool} {catalog catalog' : Catalog}
    {bpm bpm' : Float} {c₀ d₀ : Conductor} (created : create audible catalog bpm = .ok c₀)
    (created' : create audible' catalog' bpm' = .ok d₀) (turns : Nat)
    (operations others : List Operation) (b : Block) :
    let c := Operation.performAll turns c₀ operations
    let d := Operation.performAll turns d₀ others
    c.Matches d →
    (PerformsAlike turns b c d ↔
      ((c.task = none ∧ Operation.Ended turns c₀ operations) ↔
        (d.task = none ∧ Operation.Ended turns d₀ others)) ∨
      b.selectors = [] ∨ ∀ c₁ j, ¬ c.Prepared b c₁ j) ∧
    (c.task = none → Operation.Ended turns c₀ operations → ∀ c₁ j, c.Prepared b c₁ j →
      c.performBlock turns b = (c₁.announced j, .ok ())) := by
  intro c d alike
  have outlasts : c.Outlasts _ := performAll_outlasts created turns operations
  have outlasts' : d.Outlasts _ := performAll_outlasts created' turns others
  refine ⟨?_, fun gone ended c₁ j prepared => ?_⟩
  · rw [performsAlike_iff alike.bare alike.silent.1 (outlasts.dead alike.idle.1)
      (outlasts'.dead alike.idle.2), Bool.eq_iff_iff, outlasts.request, outlasts'.request]
  · exact performBlock_stopped (outlasts.request.2 ⟨gone, ended⟩) alike.silent.1 prepared turns

/-- Playback that was stopped in the step of a note makes a difference to a block with a selector,
and none to a block without selectors. -/
theorem performsAlike_iff_ended_inStep : ∃ c₀, create true .standard 120.0 = .ok c₀ ∧
    let begun := [.setSong (some ⟨[⟨[], "1", none⟩]⟩), .setInstrument .initial, .start, .sleep 0.0]
    let c := Operation.performAll 2 c₀ (begun ++ [.stop, .setInstrument .initial])
    let d := Operation.performAll 2 c₀ [.setInstrument .initial]
    (Operation.performAll 2 c₀ begun).sounding = [⟨0, 60⟩] ∧ c.Matches d ∧
      ¬ PerformsAlike 2 ⟨[], "1", none⟩ c d ∧ PerformsAlike 2 ⟨[⟨"R", "2"⟩], "", none⟩ c d := by
  obtain ⟨c₀, created⟩ : ∃ c₀, create true .standard 120.0 = .ok c₀ := ⟨_, rfl⟩
  refine ⟨c₀, created, ?_⟩
  intro begun c d
  have request : c.stopRequested = true ↔ _ := (performAll_outlasts created 2 _).request
  have request' : d.stopRequested = true ↔ _ := (performAll_outlasts created 2 _).request
  have alike : c.Matches d := by
    cases created
    refine ⟨⟨?_, ?_⟩, ⟨?_, ?_⟩, ?_, ?_, ?_, ?_⟩ <;> decide +kernel
  have ends (b : Block) := (performsAlike_iff_ended created created 2 _ _ b alike).1
  refine ⟨?_, alike, fun same => ?_, (ends _).2 (.inr (.inl rfl))⟩
  · cases created
    decide +kernel
  · rcases (ends _).1 same with both | none | refuses
    · rw [← request, ← request'] at both
      cases created
      revert both
      decide +kernel
    · revert none
      decide +kernel
    · have instrument : c.instrument = some .initial := by
        cases created
        decide +kernel
      exact refuses _ _ ⟨⟨.initial, instrument, rfl⟩, rfl⟩

/-- A block of one note after playback was started and stopped, and without that. -/
theorem performs_differently_after_stop : ∃ c₀, create true .standard 120.0 = .ok c₀ ∧
    let c := Operation.performAll 2 c₀
      [.setSong (some ⟨[⟨[], "1", none⟩]⟩), .setInstrument .initial, .start, .stop]
    let d := Operation.performAll 2 c₀ [.setInstrument .initial]
    c.Matches d ∧ ¬ PerformsAlike 2 ⟨[], "1", none⟩ c d := by
  obtain ⟨c₀, created⟩ : ∃ c₀, create true .standard 120.0 = .ok c₀ := ⟨_, rfl⟩
  refine ⟨c₀, created, ?_⟩
  intro c d
  set started := Operation.performAll 2 c₀
    [.setSong (some ⟨[⟨[], "1", none⟩]⟩), .setInstrument .initial, .start]
  have live : started.task.any (·.live) = true := by
    cases created
    rfl
  have stopped : c = started.cutAt started.clock :=
    congrArg Prod.fst (stop_cuts live started.clock)
  have alike : c.Matches d := by
    rw [stopped]
    cases created
    exact ⟨⟨rfl, rfl⟩, ⟨rfl, rfl⟩, rfl, rfl, rfl, rfl⟩
  have gone : c.task = none := by rw [stopped]; rfl
  have dead : c.task.any (·.live) = false := by rw [gone]; rfl
  have dead' : d.task.any (·.live) = false := by
    cases created
    rfl
  refine ⟨alike, fun same => ?_⟩
  rcases (performsAlike_iff alike.bare alike.silent.1 dead dead' 2 _).1 same with
    request | none | refuses
  · rw [stopped] at request
    cases created
    cases request
  · revert none
    decide +kernel
  · have instrument : c.instrument = some .initial := by
      rw [stopped]
      cases created
      rfl
    exact refuses _ _ ⟨⟨.initial, instrument, rfl⟩, rfl⟩

end ChordSequencer
