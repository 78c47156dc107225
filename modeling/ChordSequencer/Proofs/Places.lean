import ChordSequencer.Proofs.Alone
import ChordSequencer.Proofs.Endurance
import ChordSequencer.Proofs.Meaning

/-!
# Where playback waits

Playback waits in the steps of selectors, and each of these stands somewhere in the blocks of the
song (`Position`).  There are few ways in which playback comes to the step of a selector
(`Conductor.Comes`): a pass begins, the next block begins, the next selector of the block begins,
the block is repeated, or the selector has more voices to play.

* `Conductor.beginSelector_opens` : how a selector begins, in chords and otherwise.
* `Conductor.beginBlock_entered` : how a block comes to its first wait.
* `Conductor.resumeBlock_comes`, `Conductor.resumeBlock_over` : from one wait of a block to the
  next, or to its end.
* `Conductor.resumePlayback_reaches` : from one wait of playback to the next.
* `Conductor.Playing` : the invariant of playback alone; `Conductor.Playing.proceed` keeps it and
  says how each step is come to.
* `Conductor.Playing.sustain` : what a sustain in chords finds.
-/

namespace ChordSequencer

/-- The commands of a block choose a note value and nothing else. -/
def Block.OnlyTimed (b : Block) : Prop := ∃ d, b.commands = [⟨"D", d⟩]

namespace Conductor

variable {c c' : Conductor} {seconds : Float}

/-- The play mode of the instrument. -/
def mode? (c : Conductor) : Option PlayMode := c.instrument.map (·.playMode)

theorem mode?_congr (same : c'.instrument = c.instrument) : c'.mode? = c.mode? := by
  rw [mode?, same, mode?]

theorem mode?_some {i : Instrument} (hi : c.instrument = some i) : c.mode? = some i.playMode := by
  rw [mode?, hi, Option.map_some]

/-! ### Selectors -/

/-- How a selector begins: the play mode stays as it is, in chords nothing is left to do after the
first wait, and the selector ends without a wait only if playback was stopped. -/
structure Opens (c : Conductor) (r : Conductor × Outcome Hold) : Prop where
  /-- The play mode. -/
  mode : r.1.mode? = c.mode?
  /-- What is left in chords. -/
  chords : ∀ seconds hold, r.2 = .waits seconds hold → c.mode? = some .chord → hold = .step
  /-- A selector that ends at once. -/
  stopped : r.2 = .ended → c.stopRequested = true

theorem Opens.step (mode : c'.mode? = c.mode?) : c.Opens (c', .waits seconds .step) := by
  refine ⟨mode, fun seconds hold waits _ => ?_, fun ended => ?_⟩
  · cases waits
    rfl
  · cases ended

theorem Opens.failed (mode : c'.mode? = c.mode?) (why : Failure) : c.Opens (c', .failed why) := by
  refine ⟨mode, fun seconds hold waits => ?_, fun ended => ?_⟩
  · cases waits
  · cases ended

theorem Opens.alike {c₁ : Conductor} {r : Conductor × Outcome Hold} (h : c₁.Opens r)
    (mode : c₁.mode? = c.mode?) (stopped : c₁.stopRequested = c.stopRequested) : c.Opens r :=
  ⟨h.mode.trans mode, mode ▸ h.chords, fun ended => stopped ▸ h.stopped ended⟩

theorem sound_opens {i : Instrument} (hi : c.instrument = some i) (step : Float)
    (notes : List Int) : c.Opens (c.sound i step notes) := by
  simp only [sound]
  split
  · exact .step (mode?_congr (foldl_noteOnOf_instrument i notes c))
  · rename_i arpeggio
    split
    · exact .step rfl
    · rename_i note rest _
      simp only [startVoice]
      split
      · rename_i stopped
        exact ⟨rfl, fun _ _ waits => (by cases waits), fun _ => stopped⟩
      · refine ⟨mode?_congr (noteOn_instrument ..), fun _ _ _ chord => ?_,
          fun ended => (by cases ended)⟩
        rw [mode?_some hi] at chord
        exact absurd (Option.some.inj chord) arpeggio

theorem playDegree_opens {i : Instrument} (hi : c.instrument = some i) (step : Float)
    (degree : Int) : c.Opens (c.playDegree i step degree) := by
  simp only [playDegree]
  split
  · have same : ({ c with instrument := some { i with selectedNote := degree } }).mode? = c.mode? :=
      (mode?_some hi).symm
    exact .failed same _
  · rename_i notes j selected
    obtain ⟨-, rfl⟩ := Instrument.selectNotes_ok selected
    obtain ⟨frame, -, -, instrument⟩ := warnUnplayable_quiet
      (c := { c with instrument := some { { i with selectedNote := degree }.played with notes } })
      notes
    refine (sound_opens instrument step (notes.filter isPlayable)).alike ?_
      (congrArg Frame.stopRequested frame)
    exact (mode?_some instrument).trans (mode?_some hi).symm

/-- **A selector begins.** -/
theorem beginSelector_opens (selector : String) (base : Nat) :
    c.Opens (c.beginSelector selector base) := by
  obtain ⟨sent, released⟩ := c.counted.release_frame
  cases hi : c.instrument with
  | none =>
    simp only [beginSelector, hi]
    exact .failed rfl _
  | some i =>
    cases length : c.stepSeconds with
    | error why =>
      simp only [beginSelector, hi, length]
      exact .failed rfl _
    | ok step =>
      by_cases hold : selector = "="
      · rw [beginSelector_hold length hold]
        exact .step rfl
      · by_cases rest : selector = "." ∨ selector = "s"
        · rw [beginSelector_rest length rest, released]
          exact .step rfl
        · have signs : ¬ (selector = "=" ∨ selector = "." ∨ selector = "s") := not_or.2 ⟨hold, rest⟩
          cases number : selectorDegree? selector base with
          | none =>
            rw [beginSelector_unknown length signs number, released]
            exact .step rfl
          | some degree =>
            rw [beginSelector_number length signs number hi, released]
            exact (playDegree_opens (c := { c.counted with sent := sent, sounding := [] }) hi step
              degree).alike rfl rfl

theorem beginSelector_sustain (base : Nat) :
    (c.beginSelector "=" base).1.sounding = c.sounding := by
  cases length : c.stepSeconds with
  | error why => cases hi : c.instrument <;> simp only [beginSelector, hi, length]
  | ok step =>
    rw [beginSelector_hold length rfl]
    rfl

theorem resumeSelector_mode (hold : Hold) : (c.resumeSelector hold).1.mode? = c.mode? := by
  cases hold with
  | step => rfl
  | voice note rest seconds own =>
    simp only [resumeSelector]
    split
    · rfl
    · rename_i i _
      have off : (c.noteOff i.channel note).mode? = c.mode? := mode?_congr (noteOff_instrument ..)
      split
      · exact off
      · simp only [startVoice]
        split
        · exact off
        · exact (mode?_congr (noteOn_instrument ..)).trans off

/-- How a selector of a block has come to its first wait. -/
structure Entered (c : Conductor) (selector : String) (c' : Conductor) (hold : Hold) : Prop where
  /-- The play mode is the same. -/
  mode : c'.mode? = c.mode?
  /-- In chords nothing is left to do after the wait. -/
  chords : c'.mode? = some .chord → hold = .step
  /-- A sustain leaves the voices alone. -/
  held : selector = "=" → c'.sounding = c.sounding

theorem enterSelector_entered {base : Nat} {selector : String} {todo all : List String}
    {again : Nat} {cursor : BlockCursor}
    (waits : c.enterSelector base selector todo all again = (c', .waits seconds cursor)) :
    ∃ hold, cursor = ⟨base, todo, all, again, hold⟩ ∧ c.Entered selector c' hold := by
  have opens := c.beginSelector_opens selector base
  have sustain (hold : selector = "=") : (c.beginSelector selector base).1.sounding = c.sounding :=
    hold ▸ c.beginSelector_sustain base
  simp only [enterSelector] at waits
  split at waits
  · cases waits
  · split at waits <;> rename_i begun <;> rw [begun] at opens sustain <;> cases waits
    rename_i hold
    refine ⟨hold, rfl, opens.mode, fun chord => ?_, sustain⟩
    exact opens.chords seconds hold rfl (opens.mode.symm.trans chord)

/-- A selector of a block that was not stopped does not end without a wait. -/
theorem enterSelector_goes (goes : c.stopRequested = false) (base : Nat) (selector : String)
    (todo all : List String) (again : Nat) :
    (c.enterSelector base selector todo all again).2 ≠ .ended := by
  have stopped := (c.beginSelector_opens selector base).stopped
  simp only [enterSelector, goes, Bool.false_eq_true, ↓reduceIte]
  intro ended
  split at ended
  · cases ended
  · rename_i begun
    rw [begun, goes] at stopped
    cases stopped rfl
  · cases ended

theorem nextSelector_entered {base : Nat} {todo all : List String} {again : Nat}
    {cursor : BlockCursor}
    (waits : c.nextSelector base todo all again = (c', .waits seconds cursor)) :
    ∃ selector rest again' hold, cursor = ⟨base, rest, all, again', hold⟩ ∧
      c.Entered selector c' hold ∧ (todo = selector :: rest ∧ again = again' ∨
        todo = [] ∧ all = selector :: rest ∧ again = again' + 1) := by
  simp only [nextSelector] at waits
  split at waits
  · obtain ⟨hold, rfl, entered⟩ := enterSelector_entered waits
    exact ⟨_, _, _, hold, rfl, entered, .inl ⟨rfl, rfl⟩⟩
  · obtain ⟨hold, rfl, entered⟩ := enterSelector_entered waits
    exact ⟨_, _, _, hold, rfl, entered, .inr ⟨rfl, rfl, rfl⟩⟩
  · cases waits

/-- A block that plays something and was not stopped ends only after its last selector. -/
theorem nextSelector_ended (goes : c.stopRequested = false) {base : Nat} {todo all : List String}
    {again : Nat} (plays : all ≠ [])
    (ended : c.nextSelector base todo all again = (c', .ended)) :
    todo = [] ∧ again = 0 ∧ c' = c.release := by
  simp only [nextSelector] at ended
  split at ended
  · exact absurd (congrArg Prod.snd ended) (enterSelector_goes goes _ _ _ _ _)
  · exact absurd (congrArg Prod.snd ended) (enterSelector_goes goes _ _ _ _ _)
  · rename_i none
    cases ended
    refine ⟨rfl, ?_, rfl⟩
    cases again with
    | zero => rfl
    | succ n =>
      obtain ⟨selector, rest, rfl⟩ := List.exists_cons_of_ne_nil plays
      exact (none n selector rest rfl rfl).elim

end Conductor

/-! ### Positions -/

/-- A selector in the blocks of a song, by what stands around it. -/
@[ext] structure Position where
  /-- The blocks before its block. -/
  earlier : List Block
  /-- Its block. -/
  block : Block
  /-- The blocks after its block. -/
  later : List Block
  /-- The selectors before it in its block. -/
  before : List String
  /-- The selector. -/
  selector : String
  /-- The selectors after it in its block. -/
  after : List String
  /-- It stands in its block. -/
  selectors : block.selectors = before ++ selector :: after

namespace Position

/-- All the blocks. -/
def blocks (p : Position) : List Block := p.earlier ++ p.block :: p.later

/-- What is left of the block after a wait in the step of the selector. -/
def cursor (p : Position) (again : Nat) (hold : Hold) : BlockCursor :=
  ⟨p.block.base, p.after, p.block.selectors, again, hold⟩

/-- The place of such a wait. -/
def place (p : Position) (passed again : Nat) (hold : Hold) : Place :=
  .inBlock p.later passed (p.cursor again hold)

/-- What is left at such a wait: nothing of the selector in chords, and no repetition of a block
that only chooses a note value. -/
structure Fits (p : Position) (mode : Option PlayMode) (again : Nat) (hold : Hold) : Prop where
  /-- What is left in chords. -/
  chords : mode = some .chord → hold = .step
  /-- What is left of a block that only chooses a note value. -/
  once : p.block.OnlyTimed → again = 0

/-- `p` is the next selector of the block of `q`. -/
structure Next (q p : Position) : Prop where
  /-- The block is the same. -/
  block : q.earlier = p.earlier ∧ q.block = p.block ∧ q.later = p.later
  /-- The selectors follow one another. -/
  before : p.before = q.before ++ [q.selector]

/-- `q` is the last selector of its block, and `p` the first one of the next block. -/
structure Turns (q p : Position) : Prop where
  /-- The block of `q` stands right before that of `p`. -/
  earlier : p.earlier = q.earlier ++ [q.block]
  /-- The block of `p` stands right after that of `q`. -/
  later : q.later = p.block :: p.later
  /-- No selector of its block stands after `q`. -/
  last : q.after = []
  /-- No selector of its block stands before `p`. -/
  first : p.before = []

variable {p q : Position}

theorem Next.blocks_eq (h : q.Next p) : q.blocks = p.blocks := by
  obtain ⟨earlier, block, later⟩ := h.block
  rw [blocks, blocks, earlier, block, later]

theorem Turns.blocks_eq (h : q.Turns p) : q.blocks = p.blocks := by
  rw [blocks, blocks, h.earlier, h.later, List.append_assoc, List.singleton_append]

theorem eq_of_place (song : q.blocks = p.blocks) {passed passed' again again' : Nat}
    {hold hold' : Hold} (same : q.place passed again hold = p.place passed' again' hold') :
    q = p := by
  simp only [place, cursor, Place.inBlock.injEq, BlockCursor.mk.injEq] at same
  obtain ⟨later, -, -, after, -, -, -⟩ := same
  obtain ⟨earlier, block, later', before, selector, after', selectors⟩ := p
  obtain ⟨earlier₁, block₁, later₁, before₁, selector₁, after₁, selectors₁⟩ := q
  dsimp only at later after
  subst later after
  simp only [blocks, List.append_cons _ _ later₁, List.append_cancel_right_eq] at song
  obtain ⟨rfl, ⟨⟩⟩ := List.append_inj' song rfl
  rw [selectors, List.append_cons, List.append_cons before₁, List.append_cancel_right_eq]
    at selectors₁
  obtain ⟨rfl, ⟨⟩⟩ := List.append_inj' selectors₁ rfl
  rfl

end Position

namespace Conductor

variable {c c' : Conductor} {seconds : Float}

/-! ### Blocks -/

theorem Prepared.repeats {b : Block} {c₁ : Conductor} {j : Instrument} (h : c.Prepared b c₁ j) :
    1 ≤ j.repeats := by
  obtain ⟨⟨i, -, applied⟩, chosen⟩ := h
  obtain ⟨k, hk, least⟩ := applyCommands_kept (P := fun i => 1 ≤ i.repeats) b.base b.commands
    (c := { c with instrument := some { i with repeats := 1 } }) rfl le_rfl
    fun _ _ _ _ _ least => Setting.applyCode_repeats least
  rw [applied, chosen] at hk
  cases hk
  exact least

theorem Prepared.onlyTimed {b : Block} {c₁ : Conductor} {j : Instrument} (h : c.Prepared b c₁ j)
    (only : b.OnlyTimed) : c.mode? = some j.playMode ∧ j.repeats = 1 := by
  obtain ⟨⟨i, hi, applied⟩, chosen⟩ := h
  obtain ⟨d, commands⟩ := only
  obtain ⟨k, hk, same⟩ := applyCommands_kept
    (P := fun j => j.playMode = i.playMode ∧ j.repeats = 1) b.base b.commands
    (c := { c with instrument := some { i with repeats := 1 } }) rfl ⟨rfl, rfl⟩ (by
      rw [commands]
      refine List.forall_mem_singleton.2 fun _ j k same timed => ?_
      obtain ⟨mode, repeats⟩ := Setting.applyCode_onlyTimed timed
      exact ⟨mode.trans same.1, repeats.trans same.2⟩)
  rw [applied, chosen] at hk
  cases hk
  exact ⟨by rw [mode?_some hi, same.1], same.2⟩

/-- A block cannot be played, with nothing changed but the instrument and the log, or its commands
have been applied. -/
theorem beginBlock_cases (b : Block) :
    (∃ instrument log why, c.beginBlock b = ({ c with instrument, log }, .failed why)) ∨
      ∃ c₁ j, c.Prepared b c₁ j := by
  cases hi : c.instrument with
  | none =>
    simp only [beginBlock, hi]
    exact .inl ⟨none, c.log, _, by rw [← hi]⟩
  | some i =>
    obtain ⟨instrument, log, kept⟩ := applyCommands_keeps b.base b.commands
      { c with instrument := some { i with repeats := 1 } }
    cases applied : applyCommands b.base { c with instrument := some { i with repeats := 1 } }
        b.commands with
    | mk c₁ failed =>
      rw [applied] at kept
      dsimp only at kept
      cases failed with
      | some why =>
        simp only [beginBlock, hi, applied]
        exact .inl ⟨instrument, log, why, by rw [kept]⟩
      | none =>
        cases hj : c₁.instrument with
        | none =>
          simp only [beginBlock, hi, applied, hj]
          exact .inl ⟨instrument, log, _, by rw [kept]⟩
        | some j => exact .inr ⟨c₁, j, ⟨i, hi, applied⟩, hj⟩

theorem beginBlock_prepared (b : Block) :
    (∃ why, (c.beginBlock b).2 = .failed why) ∨ ∃ c₁ j, c.Prepared b c₁ j := by
  refine (beginBlock_cases b).imp_left ?_
  rintro ⟨instrument, log, why, failed⟩
  exact ⟨why, by rw [failed]⟩

/-- How a block has come to its first wait: in its first selector, which finds the voices that sound
and, if the block only chooses a note value, the play mode. -/
theorem beginBlock_entered {b : Block} {cursor : BlockCursor} (earlier later : List Block)
    (waits : c.beginBlock b = (c', .waits seconds cursor)) :
    ∃ (p : Position) (again : Nat) (hold : Hold), p.earlier = earlier ∧ p.block = b ∧
      p.later = later ∧ p.before = [] ∧ cursor = p.cursor again hold ∧ p.Fits c'.mode? again hold ∧
      (b.OnlyTimed → c'.mode? = c.mode?) ∧ (p.selector = "=" → c'.sounding = c.sounding) := by
  rcases beginBlock_prepared (c := c) b with ⟨why, failed⟩ | ⟨c₁, j, prepared⟩
  · rw [waits] at failed
    cases failed
  · obtain ⟨sent, announced⟩ := prepared.announced
    rw [prepared.beginBlock] at waits
    obtain ⟨selector, after, again, hold, rfl, entered, ⟨none, -⟩ | ⟨-, selectors, repeats⟩⟩ :=
      nextSelector_entered waits
    · cases none
    · refine ⟨⟨earlier, b, later, [], selector, after, selectors⟩, again, hold, rfl, rfl, rfl, rfl,
        rfl, ⟨entered.chords, fun only => ?_⟩, fun only => ?_, fun sustain => ?_⟩
      · have once := (prepared.onlyTimed only).2
        omega
      · rw [entered.mode, (prepared.onlyTimed only).1, announced]
        rfl
      · rw [entered.held sustain, announced]

theorem beginBlock_goes (goes : c.stopRequested = false) {b : Block} (plays : b.selectors ≠ []) :
    (c.beginBlock b).2 ≠ .ended := by
  rcases beginBlock_prepared (c := c) b with ⟨why, failed⟩ | ⟨c₁, j, prepared⟩
  · rw [failed]
    intro ended
    cases ended
  · obtain ⟨sent, announced⟩ := prepared.announced
    have going : (c₁.announced j).stopRequested = false := by
      rw [announced]
      exact goes
    intro ended
    rw [prepared.beginBlock] at ended
    obtain ⟨-, none, -⟩ := nextSelector_ended going plays (Prod.ext rfl ended)
    have least := prepared.repeats
    omega

/-! ### From one wait to the next -/

/-- How playback that has waited at a place has come to the step of a selector. -/
inductive Comes (c c' : Conductor) : Place → Position → Prop
  /-- A pass has begun. -/
  | first {place : Place} {p : Position} (earlier : p.earlier = []) (before : p.before = []) :
      Comes c c' place p
  /-- The block before is over, and its voices have ended. -/
  | turns {q p : Position} {passed again : Nat} {hold : Hold} (turns : q.Turns p)
      (mode : p.block.OnlyTimed → c'.mode? = c.mode?)
      (released : p.selector = "=" → c'.sounding = []) : Comes c c' (q.place passed again hold) p
  /-- The selector before is over. -/
  | next {q p : Position} {passed again : Nat} {hold : Hold} (next : q.Next p)
      (mode : c'.mode? = c.mode?)
      (held : p.selector = "=" → c'.mode? = some .chord → c'.sounding = c.sounding) :
      Comes c c' (q.place passed again hold) p
  /-- The block is played once more. -/
  | again {p : Position} {place : Place} (before : p.before = []) (more : ¬ p.block.OnlyTimed) :
      Comes c c' place p
  /-- The selector has another voice to play. -/
  | stays {place : Place} {p : Position} (mode : c'.mode? ≠ some .chord) : Comes c c' place p

theorem Comes.alike {c'' : Conductor} {place : Place} {p : Position} (h : c.Comes c' place p)
    (mode : c''.mode? = c'.mode?) (sounding : c''.sounding = c'.sounding) :
    c.Comes c'' place p := by
  cases h with
  | first earlier before => exact .first earlier before
  | turns turns timed released =>
    exact .turns turns (fun only => mode.trans (timed only))
      fun sustain => sounding.trans (released sustain)
  | next next same held =>
    exact .next next (mode.trans same)
      fun sustain chord => sounding.trans (held sustain (mode.symm.trans chord))
  | again before more => exact .again before more
  | stays other => exact .stays (mode.trans_ne other)

/-- **A block at a wait** has come to another one. -/
theorem resumeBlock_comes {p : Position} {again : Nat} {hold : Hold} {cursor : BlockCursor}
    (fits : p.Fits c.mode? again hold)
    (waits : c.resumeBlock (p.cursor again hold) = (c', .waits seconds cursor)) :
    ∃ (p' : Position) (again' : Nat) (hold' : Hold), p'.blocks = p.blocks ∧ p'.later = p.later ∧
      cursor = p'.cursor again' hold' ∧ p'.Fits c'.mode? again' hold' ∧
      ∀ passed, c.Comes c' (p.place passed again hold) p' := by
  have mode := c.resumeSelector_mode hold
  simp only [resumeBlock] at waits
  split at waits <;> rename_i c₁ _ resumed <;> dsimp only [Position.cursor] at resumed
  · cases waits
    rw [resumed] at mode
    -- in chords nothing is left of the selector, so that it cannot wait again
    have other : c'.mode? ≠ some .chord := by
      intro chord
      rw [fits.chords (mode.symm.trans chord)] at resumed
      cases resumed
    exact ⟨p, again, _, rfl, rfl, rfl, ⟨fun chord => absurd chord other, fits.once⟩,
      fun _ => .stays other⟩
  · rename_i c₁
    rw [resumed] at mode
    have voices (chord : c.mode? = some .chord) : c₁.sounding = c.sounding := by
      rw [fits.chords chord] at resumed
      cases resumed
      rfl
    obtain ⟨selector, rest, again', hold', rfl, entered, ⟨after, rfl⟩ | ⟨after, all, rfl⟩⟩ :=
      nextSelector_entered waits
    · have selectors : p.block.selectors = (p.before ++ [p.selector]) ++ selector :: rest := by
        rw [p.selectors, ← after, List.append_assoc, List.singleton_append]
        rfl
      refine ⟨⟨p.earlier, p.block, p.later, p.before ++ [p.selector], selector, rest, selectors⟩,
        again, hold', rfl, rfl, rfl, ⟨entered.chords, fits.once⟩, fun passed => ?_⟩
      refine .next ⟨⟨rfl, rfl, rfl⟩, rfl⟩ (entered.mode.trans mode) fun sustain chord => ?_
      exact (entered.held sustain).trans (voices ((entered.mode.trans mode).symm.trans chord))
    · have more : ¬ p.block.OnlyTimed := fun only => Nat.succ_ne_zero again' (fits.once only)
      exact ⟨⟨p.earlier, p.block, p.later, [], selector, rest, all⟩, again', hold', rfl, rfl, rfl,
        ⟨entered.chords, fun only => absurd only more⟩, fun passed => .again rfl more⟩
  · cases waits

/-- **A block that is over** at a wait was in its last selector, and has ended its voices. -/
theorem resumeBlock_over (goes : c.stopRequested = false) {p : Position} {again : Nat} {hold : Hold}
    (ended : c.resumeBlock (p.cursor again hold) = (c', .ended)) :
    p.after = [] ∧ c'.sounding = [] ∧ c'.mode? = c.mode? := by
  have mode := c.resumeSelector_mode hold
  have changes := c.resumeSelector_changes hold
  have plays : p.block.selectors ≠ [] := by
    rw [p.selectors]
    simp
  simp only [resumeBlock] at ended
  split at ended
  · cases ended
  · rename_i c₁ resumed
    dsimp only [Position.cursor] at resumed
    rw [resumed] at mode changes
    have going : c₁.stopRequested = false :=
      (congrArg Frame.stopRequested changes.frame_eq).trans goes
    obtain ⟨last, -, rfl⟩ := nextSelector_ended going plays ended
    exact ⟨last, rfl, (mode?_congr release_instrument).trans mode⟩
  · cases ended

theorem playBlocks_entered (goes : c.stopRequested = false) {blocks : List Block}
    (plays : ∀ b ∈ blocks, b.selectors ≠ []) {passed : Nat} {place : Place}
    (waits : playBlocks passed c blocks = (c', .waits seconds place)) :
    ∃ b left cursor, blocks = b :: left ∧ place = .inBlock left passed cursor ∧
      c.beginBlock b = (c', .waits seconds cursor) := by
  cases blocks with
  | nil => cases waits
  | cons b left =>
    simp only [playBlocks, goes, Bool.false_eq_true, ↓reduceIte] at waits
    split at waits
    · rename_i begun
      cases waits
      exact ⟨b, left, _, rfl, rfl, begun⟩
    · rename_i begun
      have ended := beginBlock_goes goes (plays b List.mem_cons_self)
      rw [begun] at ended
      exact absurd rfl ended
    · cases waits

theorem playBlocks_ended (goes : c.stopRequested = false) {blocks : List Block}
    (plays : ∀ b ∈ blocks, b.selectors ≠ []) {passed : Nat}
    (ended : playBlocks passed c blocks = (c', .ended)) : blocks = [] ∧ c' = c := by
  cases blocks with
  | nil =>
    cases ended
    exact ⟨rfl, rfl⟩
  | cons b left =>
    simp only [playBlocks, goes, Bool.false_eq_true, ↓reduceIte] at ended
    split at ended
    · cases ended
    · rename_i begun
      have begins := beginBlock_goes goes (plays b List.mem_cons_self)
      rw [begun] at begins
      exact absurd rfl begins
    · cases ended

/-- A place in the playback of some blocks with an instrument in some play mode. -/
inductive Placed (blocks : List Block) (mode : Option PlayMode) : Place → Prop
  /-- Before the first pass. -/
  | beginning : Placed blocks mode .beginning
  /-- In the step after a pass that played nothing. -/
  | filler : Placed blocks mode .filler
  /-- In the step of a selector. -/
  | inStep {p : Position} (song : blocks = p.blocks) (passed : Nat) {again : Nat} {hold : Hold}
      (fits : p.Fits mode again hold) : Placed blocks mode (p.place passed again hold)

/-- Playback that has waited at a place has come to another one. -/
inductive Reaches (c : Conductor) (place : Place) (c' : Conductor) : Place → Prop
  /-- A pass has played nothing. -/
  | filler : Reaches c place c' .filler
  /-- It is in the step of a selector. -/
  | inStep {p : Position} (song : c.songBlocks = p.blocks) (passed : Nat) {again : Nat}
      {hold : Hold} (fits : p.Fits c'.mode? again hold) (comes : c.Comes c' place p) :
      Reaches c place c' (p.place passed again hold)

theorem fillStep_reaches {c₀ : Conductor} (place₀ : Place) {place : Place}
    (waits : c.fillStep = (c', .waits seconds place)) : c₀.Reaches place₀ c' place := by
  simp only [fillStep] at waits
  split at waits <;> cases waits
  exact .filler

theorem newPass_reaches {c₀ : Conductor} (song : c.songBlocks = c₀.songBlocks)
    (goes : c.stopRequested = false) (plays : ∀ b ∈ c₀.songBlocks, b.selectors ≠ [])
    (place₀ : Place) {place : Place} (waits : c.newPass = (c', .waits seconds place)) :
    c₀.Reaches place₀ c' place := by
  simp only [newPass, goes, Bool.false_eq_true, ↓reduceIte, song] at waits
  split at waits
  · split at waits
    · cases waits
    · exact fillStep_reaches place₀ waits
  · obtain ⟨b, left, cursor, blocks, rfl, begun⟩ := playBlocks_entered goes plays waits
    obtain ⟨p, again, hold, first, rfl, rfl, before, rfl, fits, -, -⟩ :=
      beginBlock_entered [] left begun
    have here : c₀.songBlocks = p.blocks := by
      rw [blocks, Position.blocks, first]
      rfl
    exact .inStep here _ fits (.first first before)

/-- **Playback goes on** from a place to another one. -/
theorem resumePlayback_reaches (goes : c.stopRequested = false)
    (plays : ∀ b ∈ c.songBlocks, b.selectors ≠ []) {place place' : Place}
    (placed : Placed c.songBlocks c.mode? place)
    (waits : c.resumePlayback place = (c', .waits seconds place')) :
    c.Reaches place c' place' := by
  cases placed with
  | beginning => exact newPass_reaches rfl goes plays _ waits
  | filler => exact newPass_reaches rfl goes plays _ waits
  | @inStep p song passed again hold fits =>
    have changes := c.resumeBlock_changes (p.cursor again hold)
    simp only [resumePlayback, Position.place] at waits
    split at waits
    · rename_i resumed
      cases waits
      obtain ⟨p', again', hold', blocks, later, rfl, fits', comes⟩ := resumeBlock_comes fits resumed
      rw [← later]
      exact .inStep (song.trans blocks.symm) passed fits' (comes passed)
    · rename_i c₁ resumed
      rw [resumed] at changes
      obtain ⟨last, silent, mode⟩ := resumeBlock_over goes resumed
      have going : c₁.stopRequested = false :=
        (congrArg Frame.stopRequested changes.frame_eq).trans goes
      have same : c₁.songBlocks = c.songBlocks :=
        songBlocks_eq (congrArg Frame.song changes.frame_eq)
      have left : ∀ b ∈ p.later, b.selectors ≠ [] := by
        intro b mem
        refine plays b ?_
        rw [song, Position.blocks]
        exact List.mem_append_right _ (List.mem_cons_of_mem _ mem)
      split at waits
      · rename_i ended
        obtain ⟨-, rfl⟩ := playBlocks_ended going left ended
        simp only [endPass, going, Bool.false_eq_true, ↓reduceIte] at waits
        split at waits
        · exact fillStep_reaches _ waits
        · exact newPass_reaches same going plays _ waits
      · obtain ⟨b, rest, cursor, later, rfl, begun⟩ := playBlocks_entered going left waits
        obtain ⟨q, again', hold', earlier, rfl, rfl, first, rfl, fits', timed, held⟩ :=
          beginBlock_entered (p.earlier ++ [p.block]) rest begun
        have turns : p.Turns q := ⟨earlier, later, last, first⟩
        refine .inStep (song.trans turns.blocks_eq) passed fits' (.turns turns (fun only => ?_)
          fun sustain => ?_)
        · exact (timed only).trans mode
        · exact (held sustain).trans silent
    · cases waits

/-! ### Playback -/

/-- Playback in the step of a selector. -/
structure InStep (c : Conductor) (p : Position) : Prop where
  /-- The selector stands in the song. -/
  song : c.songBlocks = p.blocks
  /-- The task waits there. -/
  waits : ∃ passed again hold, c.place? = some (p.place passed again hold)

/-- Playback that was not stopped, of a song in which each block plays something. -/
structure Playing (c : Conductor) : Prop where
  /-- Playback was not stopped. -/
  goes : c.stopRequested = false
  /-- Each block plays something. -/
  plays : ∀ b ∈ c.songBlocks, b.selectors ≠ []
  /-- The task waits at a place in the song. -/
  placed : ∀ place, c.place? = some place → Placed c.songBlocks c.mode? place

theorem settle_song (r : Conductor × Outcome Place) : (settle r).song = r.1.song := by
  obtain ⟨c, outcome⟩ := r
  cases outcome <;> rfl

theorem proceed_songBlocks : (Scene.proceed c).songBlocks = c.songBlocks := by
  cases waits : c.place? with
  | none => rw [proceed_none waits]
  | some place =>
    have changes := c.resumePlayback_changes place
    rw [proceed_place? waits, turn]
    exact songBlocks_eq ((settle_song _).trans (congrArg Frame.song changes.frame_eq))

/-- **One turn of the task** keeps the invariant, and has come to the step of a selector in one of
the ways that there are. -/
theorem Playing.proceed (h : c.Playing) : (Scene.proceed c).Playing ∧
    ∀ p, (Scene.proceed c).InStep p →
      ∃ place, c.place? = some place ∧ c.Comes (Scene.proceed c) place p := by
  cases waits : c.place? with
  | none =>
    rw [proceed_none waits]
    refine ⟨h, ?_⟩
    rintro p ⟨-, passed, again, hold, there⟩
    rw [waits] at there
    cases there
  | some place =>
    have changes := c.resumePlayback_changes place
    have there := settle_place? (c.resumePlayback place)
    rw [proceed_place? waits, turn]
    obtain ⟨goes, plays, placed⟩ := h
    cases resumed : c.resumePlayback place with
    | mk c₁ outcome =>
      rw [resumed] at changes there
      have going : c₁.stopRequested = false :=
        (congrArg Frame.stopRequested changes.frame_eq).trans goes
      have same : c₁.songBlocks = c.songBlocks :=
        songBlocks_eq (congrArg Frame.song changes.frame_eq)
      rw [← same] at plays
      cases outcome with
      | waits seconds next =>
        have reached := resumePlayback_reaches goes (same ▸ plays) (placed place waits) resumed
        refine ⟨⟨going, plays, fun next' now => ?_⟩, ?_⟩
        · rw [there] at now
          cases now
          change Placed c₁.songBlocks c₁.mode? next
          rw [same]
          cases reached with
          | filler => exact .filler
          | inStep song passed fits comes => exact .inStep song passed fits
        · rintro p ⟨song, passed, again, hold, now⟩
          rw [there] at now
          cases now
          refine ⟨place, rfl, ?_⟩
          generalize marked : p.place passed again hold = next at reached
          cases reached with
          | filler => cases marked
          | @inStep p' song' passed' again' hold' fits comes =>
            obtain rfl := Position.eq_of_place (song'.symm.trans (same.symm.trans song)) marked.symm
            exact comes.alike rfl rfl
      | ended | failed why =>
        refine ⟨⟨going, plays, fun next now => ?_⟩, ?_⟩
        · rw [there] at now
          cases now
        · rintro p ⟨song, passed, again, hold, now⟩
          rw [there] at now
          cases now

theorem Playing.pass (h : c.Playing) (time : Float) : Playing { c with clock := time } :=
  ⟨h.goes, h.plays, h.placed⟩

/-- **Playback alone** keeps the invariant. -/
theorem Playing.playedAt (times : List Float) :
    ∀ {c : Conductor}, c.Playing → (c.playedAt times).Playing := by
  induction times with
  | nil => exact fun h => h
  | cons time times ih => exact fun h => ih (h.pass time).proceed.1

theorem playedAt_songBlocks (times : List Float) :
    ∀ c : Conductor, (c.playedAt times).songBlocks = c.songBlocks := by
  induction times with
  | nil => exact fun _ => rfl
  | cons time times ih => exact fun c => (ih _).trans proceed_songBlocks

theorem start_playing (plays : ∀ b ∈ c.songBlocks, b.selectors ≠ []) (idle : c.running = false)
    (begun : c.start = .ok c') : c'.Playing ∧ c'.songBlocks = c.songBlocks := by
  obtain ⟨runs, -⟩ | ⟨-, -, -, rfl⟩ := start_cases begun
  · rw [idle] at runs
    cases runs
  · refine ⟨⟨rfl, plays, fun place there => ?_⟩, rfl⟩
    cases there
    exact .beginning

/-- **A sustain in chords**, in a block that is not the first one of a pass or not at its beginning:
it keeps the voices of the selector before it in its block, but at the beginning of its block they
have ended. -/
theorem Playing.sustain (h : c.Playing) {p : Position} (there : (Scene.proceed c).InStep p)
    (hold : p.selector = "=") (chords : (Scene.proceed c).mode? = some .chord)
    (inner : p.before ≠ [] ∨ p.earlier ≠ [] ∧ p.block.OnlyTimed) :
    ∃ q, c.InStep q ∧ c.mode? = some .chord ∧
      (q.Next p ∧ (Scene.proceed c).sounding = c.sounding ∨
        q.Turns p ∧ (Scene.proceed c).sounding = []) := by
  obtain ⟨place, waits, comes⟩ := h.proceed.2 p there
  have song : c.songBlocks = p.blocks := proceed_songBlocks.symm.trans there.song
  cases comes with
  | first earlier before =>
    rcases inner with some | ⟨some, -⟩
    · exact absurd before some
    · exact absurd earlier some
  | turns turns timed released =>
    rcases inner with some | ⟨-, only⟩
    · exact absurd turns.first some
    · exact ⟨_, ⟨song.trans turns.blocks_eq.symm, _, _, _, waits⟩, (timed only).symm.trans chords,
        .inr ⟨turns, released hold⟩⟩
  | next next mode held =>
    exact ⟨_, ⟨song.trans next.blocks_eq.symm, _, _, _, waits⟩, mode.symm.trans chords,
      .inl ⟨next, held hold chords⟩⟩
  | again before more =>
    rcases inner with some | ⟨-, only⟩
    · exact absurd before some
    · exact absurd only more
  | stays other => exact absurd chords other

end Conductor

end ChordSequencer
