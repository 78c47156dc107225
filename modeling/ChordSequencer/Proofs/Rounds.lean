import ChordSequencer.Proofs.Parts

/-!
# Playback goes round

Playback performs the blocks of the song one after another and begins with the first one again after
the last.  What it does, a caller does alike who performs the rounds of the song directly
(`Conductor.performRounds`).

* `Conductor.newPass_round`, `Conductor.newPass_rounds` : playback is one round after another.
* `Conductor.playedAt_alone` : the playback task performs as anybody does who is alone.
* `Conductor.performRounds_waits`, `Conductor.performRounds_ended`,
  `Conductor.performRounds_failed` : what playback has come to is what the caller has come to.
* `Conductor.playback_goes_round` : all of it.
-/

namespace ChordSequencer

/-- The block in which a place of playback lies, with what is left of it. -/
def Place.cursor? : Place → Option BlockCursor
  | beginning => none
  | filler => none
  | inBlock _ _ cursor => some cursor

namespace Conductor

variable {c c' d : Conductor}

/-! ### A pass of playback -/

/-- Playback goes on with the blocks left of a pass. -/
def passOn (c : Conductor) (before : Nat) (left : List Block) : Conductor × Outcome Place :=
  match playBlocks before c left with
  | (c, .ended) => c.endPass before
  | r => r

/-- Playback goes on in a block of a pass, or after it. -/
def afterBlock (before : Nat) (left : List Block) :
    Conductor × Outcome BlockCursor → Conductor × Outcome Place
  | (c, .waits seconds cursor) => (c, .waits seconds (.inBlock left before cursor))
  | (c, .ended) => c.passOn before left
  | (c, .failed why) => (c, .failed why)

theorem resumePlayback_inBlock (before : Nat) (left : List Block) (cursor : BlockCursor) :
    c.resumePlayback (.inBlock left before cursor) =
      afterBlock before left (c.resumeBlock cursor) := by
  simp only [resumePlayback]
  cases c.resumeBlock cursor with
  | mk c' outcome => cases outcome <;> rfl

theorem passOn_cons (goes : c.stopRequested = false) (before : Nat) (b : Block)
    (left : List Block) :
    c.passOn before (b :: left) = afterBlock before left (c.beginBlock b) := by
  simp only [passOn, playBlocks, goes, Bool.false_eq_true, ↓reduceIte]
  cases c.beginBlock b with
  | mk c' outcome => cases outcome <;> rfl

theorem newPass_eq (goes : c.stopRequested = false) :
    c.newPass = c.passOn c.stepsPerformed c.songBlocks := by
  simp only [passOn]
  cases played : playBlocks c.stepsPerformed c c.songBlocks with
  | mk c' outcome =>
    cases outcome with
    | ended =>
      obtain ⟨steps, going⟩ := playBlocks_silent _ _ goes played
      simp only [newPass_silent goes played, endPass, going, steps, Bool.false_eq_true, ↓reduceIte]
    | waits | failed => simp only [newPass, goes, played, Bool.false_eq_true, ↓reduceIte]

/-- Playback has come to what the caller has come to, or goes on from there if the caller's
performance has ended. -/
def Agrees (r : Conductor × Outcome Place)
    (onward : Conductor → List Pause → Conductor × Outcome Place) :
    (Conductor × Outcome (Option BlockCursor)) × List Pause → Prop
  | ((d, .waits seconds next), _) =>
    ∃ place : Place, place.cursor? = next ∧ r = (d, .waits seconds place)
  | ((d, .ended), later) => r = onward d later
  | ((d, .failed why), _) => r = (d, .failed why)

theorem Agrees.andThen {r : Conductor × Outcome Place}
    {onward onward' : Conductor → List Pause → Conductor × Outcome Place}
    {q : (Conductor × Outcome (Option BlockCursor)) × List Pause} (h : Agrees r onward q)
    (parts : List Part) (more : ∀ d later, q = ((d, .ended), later) →
      Agrees (onward d later) onward' (inTurn d parts later)) :
    Agrees r onward' (andThen parts q) := by
  obtain ⟨⟨d, outcome⟩, later⟩ := q
  cases outcome with
  | waits seconds next => exact h
  | ended => exact (h : r = onward d later) ▸ more d later rfl
  | failed why => exact h

theorem afterBlock_agrees (before : Nat) (left : List Block) (pauses : List Pause) :
    ∀ r : Conductor × Outcome BlockCursor,
      Agrees (alone resumePlayback (afterBlock before left r) pauses)
        (fun d later => alone resumePlayback (d.passOn before left) later)
        (through resumePart (r.map id (.map some)) pauses) := by
  induction pauses with
  | nil =>
    rintro ⟨c, outcome⟩
    cases outcome with
    | waits seconds cursor => exact ⟨.inBlock left before cursor, rfl, rfl⟩
    | ended | failed why => rfl
  | cons p pauses ih =>
    rintro ⟨c, outcome⟩
    cases outcome with
    | waits seconds cursor =>
      have onward := ih ((c.pause p).resumeBlock cursor)
      rw [← resumePlayback_inBlock] at onward
      exact onward
    | ended => rfl
    | failed why => exact alone_failed c why _

theorem passOn_agrees (before : Nat) (left : List Block) :
    ∀ {c : Conductor} (pauses : List Pause), c.stopRequested = false →
      Agrees (alone resumePlayback (c.passOn before left) pauses)
        (fun d later => alone resumePlayback (d.endPass before) later)
        (inTurn c (left.map .block) pauses) := by
  induction left with
  | nil => exact fun _ _ => rfl
  | cons b left ih =>
    intro c pauses goes
    rw [passOn_cons goes, List.map_cons, inTurn_cons]
    refine (afterBlock_agrees before left pauses (c.beginBlock b)).andThen _ fun d later ended => ?_
    have performed : through resumePart (c.beginPart (.block b)) pauses = ((d, .ended), later) :=
      ended
    exact ih later ((performed_later performed).stopRequested.trans goes)

theorem fillStep_agrees (pauses : List Pause) :
    Agrees (alone resumePlayback c.fillStep pauses)
      (fun d later => alone resumePlayback d.newPass later) (inTurn c [.rest] pauses) := by
  simp only [inTurn, beginPart, fillStep]
  cases c.stepSeconds with
  | error why =>
    simp only [through_failed]
    exact alone_failed c why pauses
  | ok seconds =>
    cases pauses with
    | nil => exact ⟨.filler, rfl, rfl⟩
    | cons p pauses =>
      simp only [through, resumePart, through_ended]
      rfl

/-! ### Rounds -/

/-- **A pass of playback** is a round of the song. -/
theorem newPass_round {song : Song} (chosen : c.song = some song) (goes : c.stopRequested = false)
    (pauses : List Pause) : Agrees (alone resumePlayback c.newPass pauses)
      (fun d later => alone resumePlayback d.newPass later) (inTurn c song.round pauses) := by
  have blocks : c.songBlocks = song.blocks := by rw [songBlocks, chosen]
  rw [newPass_eq goes, blocks, Song.round, inTurn_append]
  refine (passOn_agrees c.stepsPerformed song.blocks pauses goes).andThen _ fun d later ended => ?_
  have going := (inTurn_later _ ended).stopRequested.trans goes
  simp only [endPass, going, Bool.false_eq_true, ↓reduceIte]
  rcases inTurn_blocks _ goes ended with ⟨silent, steps, -⟩ | ⟨plays, steps, -⟩
  · rw [if_pos steps, if_pos (show song.Silent from silent)]
    exact fillStep_agrees later
  · rw [if_neg steps.ne', if_neg (show ¬ song.Silent from plays)]
    rfl

theorem round_spends {song : Song} (goes : c.stopRequested = false) {pauses later : List Pause}
    (ended : inTurn c song.round pauses = ((d, .ended), later)) : later.length < pauses.length := by
  rw [Song.round, inTurn_append] at ended
  obtain ⟨c₁, pauses₁, blocks, after⟩ := andThen_ended ended
  rcases inTurn_blocks _ goes blocks with ⟨silent, -, rfl⟩ | ⟨plays, -, took⟩
  · rw [if_pos (show song.Silent from silent), inTurn_cons] at after
    obtain ⟨c₂, pauses₂, rested, nothing⟩ := andThen_ended after
    cases nothing
    simp only [beginPart] at rested
    split at rested
    · exact through_waits rested
    · rw [through_failed] at rested
      cases rested
  · rw [if_neg (show ¬ song.Silent from plays)] at after
    cases after
    exact took

theorem rounds_spend {song : Song} (n : Nat) :
    ∀ {c : Conductor} {pauses later : List Pause}, c.stopRequested = false →
      inTurn c (song.rounds n) pauses = ((d, .ended), later) →
      later.length + n ≤ pauses.length := by
  induction n with
  | zero =>
    intro c pauses later _ ended
    cases ended
    exact le_rfl
  | succ n ih =>
    intro c pauses later goes ended
    rw [Song.rounds_succ, inTurn_append] at ended
    obtain ⟨c₁, pauses₁, first, others⟩ := andThen_ended ended
    have took := round_spends goes first
    have rest := ih ((inTurn_later _ first).stopRequested.trans goes) others
    omega

/-- **Playback is one round after another.** -/
theorem newPass_rounds {song : Song} (n : Nat) :
    ∀ {c : Conductor}, c.song = some song → c.stopRequested = false → ∀ pauses : List Pause,
      Agrees (alone resumePlayback c.newPass pauses)
        (fun d later => alone resumePlayback d.newPass later)
        (inTurn c (song.rounds n) pauses) := by
  induction n with
  | zero => exact fun _ _ _ => rfl
  | succ n ih =>
    intro c chosen goes pauses
    rw [Song.rounds_succ, inTurn_append]
    refine (newPass_round chosen goes pauses).andThen _ fun d later ended => ?_
    have went := inTurn_later _ ended
    exact ih (went.song.trans chosen) (went.stopRequested.trans goes) later

/-! ### The playback task -/

/-- The playback task has taken note of what a performance has come to that has gone on at a time
for the last time; if it has ended before, time has passed. -/
structure Noted (p : Conductor) (r : Conductor × Outcome Place) (time : Float) : Prop where
  /-- What was performed, and the task. -/
  state : p = { settle (r.1.withTask true none, r.2) with clock := time }
  /-- A wait has begun at this time. -/
  clock : ∀ seconds next, r.2 = .waits seconds next → r.1.clock = time

theorem noted_settle (r : Conductor × Outcome Place) (task : Option Task) :
    Noted (settle (r.1.withTask true task, r.2)) r r.1.clock := by
  obtain ⟨c, outcome⟩ := r
  cases outcome <;> exact ⟨rfl, fun _ _ _ => rfl⟩

theorem resumePlayback_clock (c : Conductor) (place : Place) :
    (c.resumePlayback place).1.clock = c.clock :=
  congrArg Frame.clock (c.resumePlayback_changes place).frame_eq

theorem Noted.proceed {p : Conductor} {r : Conductor × Outcome Place} {time : Float}
    (h : Noted p r time) (pause : Pause) :
    Noted (Scene.proceed { p with clock := pause.time }) (goOn resumePlayback r pause)
      pause.time := by
  obtain ⟨rfl, -⟩ := h
  obtain ⟨c, outcome⟩ := r
  cases outcome with
  | waits seconds next =>
    -- what the task has noted of its wait is not looked at when it goes on
    let task := (settle (c.withTask true none, .waits seconds next)).task
    have there : ((c.pause pause).withTask true task).place? = some next :=
      settle_place? (c.withTask true none, .waits seconds next)
    have noted := noted_settle ((c.pause pause).resumePlayback next) task
    rw [← resumePlayback_withTask, resumePlayback_clock] at noted
    have went := proceed_place? there
    rw [turn] at went
    rw [← went] at noted
    exact noted
  | ended | failed why => exact ⟨rfl, fun _ _ waits => by cases waits⟩

/-- **The playback task performs alone** as anybody does who goes on at the same times. -/
theorem playedAt_alone {place : Place} {task : Option Task}
    (there : (c.withTask true task).place? = some place) (time : Float) (pauses : List Pause) :
    Noted ((c.withTask true task).playedAt (time :: pauses.map Pause.time))
      (alone resumePlayback ({ c with clock := time }.resumePlayback place) pauses)
      ((pauses.map Pause.time).getLastD time) := by
  induction pauses using List.reverseRecOn with
  | nil =>
    have went : (c.withTask true task).playedAt [time] =
        (({ c with clock := time } : Conductor).withTask true task).turn place :=
      proceed_place? there
    have noted := noted_settle (({ c with clock := time } : Conductor).resumePlayback place) task
    rw [resumePlayback_clock] at noted
    rw [List.map_nil, went, turn, resumePlayback_withTask]
    exact noted
  | append_singleton pauses last ih =>
    rw [List.map_append, ← List.cons_append, playedAt_append, alone_append, List.map_singleton,
      List.getLastD_concat]
    exact ih.proceed last

/-! ### Playback and the caller -/

theorem through_clock {κ : Type} {resume : Conductor → κ → Conductor × Outcome κ}
    (kept : ∀ (c : Conductor) next, (resume c next).1.clock = c.clock) (pauses : List Pause)
    (r : Conductor × Outcome κ) :
    ((through resume r pauses).2.map Pause.time).getLastD (through resume r pauses).1.1.clock =
      (pauses.map Pause.time).getLastD r.1.clock := by
  refine through_invariant (P := fun r' later => (later.map Pause.time).getLastD r'.1.clock =
    (pauses.map Pause.time).getLastD r.1.clock) (fun c _ next p later same => ?_) pauses r rfl
  rw [List.map_cons, List.getLastD_cons] at same
  rw [kept]
  exact same

theorem inTurn_clock (parts : List Part) : ∀ {c : Conductor} {pauses later : List Pause},
    inTurn c parts pauses = ((d, .ended), later) →
      (later.map Pause.time).getLastD d.clock = (pauses.map Pause.time).getLastD c.clock := by
  induction parts with
  | nil =>
    intro c pauses later ended
    cases ended
    rfl
  | cons part rest ih =>
    intro c pauses later ended
    rw [inTurn_cons] at ended
    obtain ⟨c₁, pauses₁, performed, others⟩ := andThen_ended ended
    have resumed (c : Conductor) (next : Option BlockCursor) :
        (c.resumePart next).1.clock = c.clock := by
      cases next with
      | none => rfl
      | some cursor => exact congrArg Frame.clock (c.resumeBlock_changes cursor).frame_eq
    have begun : (c.beginPart part).1.clock = c.clock := by
      cases part with
      | block b => exact congrArg Frame.clock (c.beginBlock_changes b).frame_eq
      | rest =>
        simp only [beginPart]
        split <;> rfl
    have first := through_clock resumed pauses (c.beginPart part)
    rw [performed, begun] at first
    exact (ih others).trans first

theorem restart_noted (c : Conductor) (time : Float) (pauses : List Pause) :
    Noted (c.restart.playedAt (time :: pauses.map Pause.time))
      (alone resumePlayback ({ c with clock := time } : Conductor).newPass pauses)
      ((pauses.map Pause.time).getLastD time) :=
  have there : (c.withTask true (some (.ready .beginning))).place? = some .beginning := rfl
  playedAt_alone there time pauses

/-- What the caller comes to who performs some rounds of a song directly, beginning at a time. -/
def performRounds (c : Conductor) (song : Song) (n : Nat) (time : Float) (pauses : List Pause) :
    (Conductor × Outcome (Option BlockCursor)) × List Pause :=
  inTurn { c with stopRequested := false, clock := time } (song.rounds n) pauses

theorem start_restart {started : Conductor} (idle : c.running = false)
    (begun : c.start = .ok started) :
    started = ({ c with stopRequested := false } : Conductor).restart := by
  obtain ⟨runs, -⟩ | ⟨-, -, -, same⟩ := start_cases begun
  · rw [idle] at runs
    cases runs
  · exact same

section Started

variable {started : Conductor} {song : Song} {n : Nat} {time : Float} {pauses later : List Pause}

/-- **Playback and the caller agree.** -/
theorem performRounds_agrees (idle : c.running = false) (chosen : c.song = some song)
    (begun : c.start = .ok started) (n : Nat) (time : Float) (pauses : List Pause) :
    ∃ r, Agrees r (fun d later => alone resumePlayback d.newPass later)
        (c.performRounds song n time pauses) ∧
      Noted (started.playedAt (time :: pauses.map Pause.time)) r
        ((pauses.map Pause.time).getLastD time) := by
  have noted := ({ c with stopRequested := false } : Conductor).restart_noted time pauses
  rw [← start_restart idle begun] at noted
  exact ⟨_, newPass_rounds n (c := { c with stopRequested := false, clock := time }) chosen rfl
    pauses, noted⟩

/-- **Playback waits** where the caller waits. -/
theorem performRounds_waits (idle : c.running = false) (chosen : c.song = some song)
    (begun : c.start = .ok started) {seconds : Float} {next : Option BlockCursor}
    (performed : c.performRounds song n time pauses = ((d, .waits seconds next), later)) :
    ∃ place : Place, place.cursor? = next ∧ started.playedAt (time :: pauses.map Pause.time) =
      settle ({ d with running := true }, .waits seconds place) := by
  obtain ⟨r, agrees, noted⟩ := performRounds_agrees idle chosen begun n time pauses
  rw [performed] at agrees
  obtain ⟨place, here, rfl⟩ := agrees
  refine ⟨place, here, ?_⟩
  rw [noted.state, ← noted.clock _ _ rfl]
  rfl

/-- **Where the caller ends, playback begins again** with the first block. -/
theorem performRounds_ended (idle : c.running = false) (chosen : c.song = some song)
    (begun : c.start = .ok started)
    (performed : c.performRounds song n time pauses = ((d, .ended), later)) :
    started.playedAt (time :: pauses.map Pause.time) =
      d.restart.playedAt (d.clock :: later.map Pause.time) := by
  obtain ⟨r, agrees, noted⟩ := performRounds_agrees idle chosen begun n time pauses
  have clocks := inTurn_clock _ performed
  have again := d.restart_noted d.clock later
  rw [performed] at agrees
  obtain rfl : r = alone resumePlayback d.newPass later := agrees
  rw [noted.state, again.state, clocks]

/-- **Playback fails** where the caller fails. -/
theorem performRounds_failed (idle : c.running = false) (chosen : c.song = some song)
    (begun : c.start = .ok started) {why : Failure}
    (performed : c.performRounds song n time pauses = ((d, .failed why), later)) :
    started.playedAt (time :: pauses.map Pause.time) = { d with
      running := false
      task := some (.finished (.error why))
      clock := (pauses.map Pause.time).getLastD time } := by
  obtain ⟨r, agrees, noted⟩ := performRounds_agrees idle chosen begun n time pauses
  rw [performed] at agrees
  obtain rfl : r = (d, .failed why) := agrees
  rw [noted.state]
  rfl

end Started

/-- **Playback goes round.**  Let playback be started, and let nobody interleave with it.  Beside it
stands the caller who performs rounds of the song directly from the same state, which is alone as
well and goes on at the same times; the `i`-th block of the rounds is the block `i` modulo the
number of blocks.  Then playback waits where the caller waits, and both have the same instrument,
voices, counters, output and log: they differ in the task alone.  At a wait in a block it is the
`i`-th one if `i` blocks were performed before.  Where the caller has performed all the rounds,
playback goes on as if it were started there.  Rounds take a pause at least, so that all of
playback is reached, and a failure is one of both.  Under the virtual clock the caller performs one
block after another in this order. -/
theorem playback_goes_round {c started : Conductor} {song : Song} (idle : c.running = false)
    (chosen : c.song = some song) (begun : c.start = .ok started) (n : Nat) :
    (∀ i < n * song.blocks.length,
      ((song.rounds n).filterMap Part.block?)[i]? = song.blocks[i % song.blocks.length]?) ∧
    (∀ (time : Float) (pauses : List Pause) d (later : List Pause),
      c.performRounds song n time pauses = ((d, .ended), later) →
      later.length + n ≤ pauses.length ∧
        d.blocksPerformed = c.blocksPerformed + n * song.blocks.length ∧
        started.playedAt (time :: pauses.map Pause.time) =
          d.restart.playedAt (d.clock :: later.map Pause.time)) ∧
    (∀ (time : Float) (pauses : List Pause) d seconds next (later : List Pause),
      c.performRounds song n time pauses = ((d, .waits seconds next), later) →
      (∃ place : Place, place.cursor? = next ∧
        started.playedAt (time :: pauses.map Pause.time) =
          settle ({ d with running := true }, .waits seconds place)) ∧
      ∀ cursor, next = some cursor → ∃ i b, song.blocks[i % song.blocks.length]? = some b ∧
        cursor.base = b.base ∧ cursor.all = b.selectors ∧
        d.blocksPerformed = c.blocksPerformed + i + 1) ∧
    (∀ (time : Float) (pauses : List Pause) d why (later : List Pause),
      c.performRounds song n time pauses = ((d, .failed why), later) →
      started.playedAt (time :: pauses.map Pause.time) = { d with
        running := false
        task := some (.finished (.error why))
        clock := (pauses.map Pause.time).getLastD time }) ∧
    (c.task.any (·.live) = false → ¬ song.Silent → ∀ turns,
      (∀ pauses : List Pause, turns ≤ pauses.length → ∃ d later,
        c.performRounds song n c.clock pauses = ((d, .ended), later)) →
      ∃ d, ∃ used : List Pause, performBlocks turns { c with stopRequested := false }
          (List.replicate n song.blocks).flatten = (d, .ok ()) ∧
        started.playedAt (c.clock :: used.map Pause.time) = d.restart.playedAt [d.clock]) := by
  obtain ⟨count, order⟩ := song.rounds_blocks n
  refine ⟨order, fun time pauses d later performed => ⟨?_, ?_, ?_⟩,
    fun time pauses d seconds next later performed => ⟨?_, ?_⟩,
    fun time pauses d why later performed => performRounds_failed idle chosen begun performed,
    fun dead plays turns ends => ?_⟩
  · exact rounds_spend n rfl performed
  · rw [inTurn_counts _ performed, count]
  · exact performRounds_ended idle chosen begun performed
  · exact performRounds_waits idle chosen begun performed
  · rintro cursor rfl
    obtain ⟨i, b, here, blocks, base, all⟩ := inTurn_waits _ performed
    refine ⟨i, b, ?_, base, all, blocks⟩
    have inside := (List.getElem?_eq_some_iff.1 here).1
    rw [← order i (count ▸ inside), here]
  · have same := song.rounds_of_plays plays n
    obtain ⟨d, used, performed, all⟩ := performBlocks_inTurn turns
      (List.replicate n song.blocks).flatten (c := { c with stopRequested := false }) dead
      fun pauses enough => by
        rw [← same]
        exact ends pauses enough
    rw [← same] at performed
    exact ⟨d, used, all, performRounds_ended idle chosen begun performed⟩

/-- After the second of two blocks the first one comes again, and a round of them does not end
without a pause. -/
theorem playback_goes_round_two_blocks : ∃ (c started : Conductor) (song : Song),
    song.blocks = [⟨[⟨"O", "4"⟩], "1", none⟩, ⟨[⟨"O", "5"⟩], "1", none⟩] ∧
    c.running = false ∧ c.song = some song ∧ c.start = .ok started ∧
    ((song.rounds 2).filterMap Part.block?)[2]? = some ⟨[⟨"O", "4"⟩], "1", none⟩ ∧
    ∀ time d later, c.performRounds song 1 time [] ≠ ((d, .ended), later) := by
  obtain ⟨c₀, created⟩ : ∃ c₀, create true .standard 120.0 = .ok c₀ := ⟨_, rfl⟩
  let song : Song := ⟨[⟨[⟨"O", "4"⟩], "1", none⟩, ⟨[⟨"O", "5"⟩], "1", none⟩]⟩
  let c : Conductor := { c₀ with song := some song, instrument := some .initial }
  have still : c₀.running = false := create_running created
  have idle : c.running = false := still
  have begun : c.start = .ok ({ c with stopRequested := false } : Conductor).restart := by
    rw [start, if_neg (by simp [idle])]
    rfl
  refine ⟨c, _, song, rfl, idle, rfl, begun, ?_, fun time d later ended => ?_⟩
  · exact ((playback_goes_round idle rfl begun 2).1 2 (by decide)).trans (by simp [song])
  · have took := ((playback_goes_round idle rfl begun 1).2.1 time [] d later ended).1
    simp at took

end Conductor

end ChordSequencer
