import ChordSequencer.Proofs.Commands
import ChordSequencer.Proofs.Stretch
import Mathlib.Order.Basic
import Mathlib.Data.Prod.Lex

/-!
# Steps that cannot fail

A conductor that was not stopped and has an instrument with a scale and a note value that can be
calculated with can perform (`Conductor.Able`).  Then no selector fails: each goes on to a wait.  A
block fails only where its commands choose a note value of too large a number (`Block.Overflows`),
and otherwise comes to its end after finitely many waits, since at each of its waits less is left of
it (`BlockCursor.Before`).

* `Conductor.beginSelector_able`, `Conductor.resumeSelector_able` : selectors.
* `Conductor.beginBlock_able`, `Conductor.resumeBlock_able` : blocks that do not overflow.
* `Conductor.beginBlock_overflows` : blocks that do.
-/

namespace ChordSequencer

/-- A block chooses a note value of too large a number: with a command that cannot even be applied,
or with the last of its commands that choose one. -/
def Block.Overflows (b : Block) : Prop :=
  (∃ command ∈ b.commands, command.Chokes) ∨
    ∃ n, (b.commands.filterMap (·.count? b.base)).getLast? = some n ∧ Number.TooLarge n

/-- The number of waits left of a selector after the present one. -/
def Hold.left : Hold → Nat
  | .step => 0
  | .voice _ rest _ _ => rest.length

namespace BlockCursor

/-- What is left of a block: repetitions, then selectors, then voices. -/
def left (cursor : BlockCursor) : Nat × Nat × Nat :=
  (cursor.again, cursor.todo.length, cursor.hold.left)

/-- Less is left at one place of a block than at another. -/
def Before : BlockCursor → BlockCursor → Prop :=
  InvImage (Prod.Lex (· < ·) (Prod.Lex (· < ·) (· < ·))) left

theorem before_wf : WellFounded Before :=
  InvImage.wf _ (WellFounded.prod_lex Nat.lt_wfRel.wf
    (WellFounded.prod_lex Nat.lt_wfRel.wf Nat.lt_wfRel.wf))

theorem before_of_again {a b : BlockCursor} (h : a.again < b.again) : a.Before b :=
  Prod.Lex.left _ _ h

theorem before_of_todo {a b : BlockCursor} (same : a.again = b.again)
    (h : a.todo.length < b.todo.length) : a.Before b :=
  Prod.lex_iff.2 (.inr ⟨same, Prod.Lex.left _ _ h⟩)

theorem before_of_hold {cursor : BlockCursor} {hold : Hold} (h : hold.left < cursor.hold.left) :
    Before { cursor with hold } cursor :=
  Prod.lex_iff.2 (.inr ⟨rfl, Prod.lex_iff.2 (.inr ⟨rfl, h⟩)⟩)

end BlockCursor

namespace Conductor

/-- A conductor that can perform. -/
structure Able (c : Conductor) : Prop where
  /-- Playback was not stopped. -/
  goes : c.stopRequested = false
  /-- There is an instrument that can play, and a step has a length. -/
  plays : ∃ i n, c.instrument = some i ∧ i.Playable c.catalog n ∧ ¬ Number.TooLarge n

variable {c : Conductor}

theorem Able.alike {c c' : Conductor} (h : c.Able) (frame : c'.frame = c.frame)
    (instrument : c'.instrument = c.instrument) : c'.Able := by
  obtain ⟨goes, plays⟩ := h
  have catalog : c'.catalog = c.catalog := congrArg Frame.catalog frame
  refine ⟨(congrArg Frame.stopRequested frame).trans goes, ?_⟩
  rw [instrument, catalog]
  exact plays

theorem Able.unstopped (h : c.Able) : ¬ c.stopRequested = true := by simp [h.goes]

theorem Able.release (h : c.Able) : c.release.Able :=
  h.alike (Changes.release .refl).frame_eq release_instrument

/-! ### Selectors -/

theorem stepSeconds_able (h : c.Able) : ∃ seconds, c.stepSeconds = .ok seconds := by
  obtain ⟨-, i, n, hi, hp, fits⟩ := h
  obtain ⟨unit, read⟩ := hp.value
  obtain ⟨beats, length⟩ := NoteValue.beatsOfText_ok read fits
  simp only [stepSeconds, requireInstrument, hi, Except.bind, length, Except.map]
  exact ⟨_, rfl⟩

theorem stepSeconds_tooLarge {n : Nat} {i : Instrument} (hi : c.instrument = some i)
    (hp : i.Playable c.catalog n) (large : Number.TooLarge n) :
    c.stepSeconds = .error .tooLarge := by
  obtain ⟨unit, read⟩ := hp.value
  simp only [stepSeconds, requireInstrument, hi, Except.bind,
    NoteValue.beatsOfText_tooLarge read large, Except.map]

theorem selectNotes_playable {catalog : Catalog} {n : Nat} {i : Instrument}
    (hp : i.Playable catalog n) :
    ∃ notes j, i.selectNotes catalog = .ok (notes, j) ∧ j.Playable catalog n := by
  obtain ⟨⟨s, found⟩, value, repeats⟩ := hp
  have chord : ∃ notes, i.chord catalog = .ok notes := by
    simp only [Instrument.chord]
    cases i.wheel with
    | some w => exact ⟨_, rfl⟩
    | none =>
      simp only [Instrument.scale, found, Except.map]
      exact ⟨_, rfl⟩
  obtain ⟨notes, chord⟩ := chord
  simp only [Instrument.selectNotes, Instrument.play, Instrument.pitches, chord, Except.map]
  exact ⟨_, _, rfl, ⟨s, found⟩, value, repeats⟩

theorem startVoice_goes (goes : c.stopRequested = false) (i : Instrument) (seconds : Float)
    (note : Int) (rest : List Int) (own : Option Instrument) :
    ∃ c', c.startVoice i seconds note rest own =
      (c', .waits seconds (.voice note rest seconds own)) ∧ c'.instrument = c.instrument := by
  simp only [startVoice, goes, Bool.false_eq_true, ↓reduceIte]
  exact ⟨_, rfl, noteOn_instrument ..⟩

theorem sound_goes (goes : c.stopRequested = false) (i : Instrument) (step : Float)
    (notes : List Int) :
    ∃ c' seconds hold, c.sound i step notes = (c', .waits seconds hold) ∧
      c'.instrument = c.instrument := by
  simp only [sound]
  split
  · exact ⟨_, _, _, rfl, foldl_noteOnOf_instrument i notes c⟩
  · split
    · exact ⟨_, _, _, rfl, rfl⟩
    · obtain ⟨c', started, same⟩ := startVoice_goes goes i _ _ _ none
      exact ⟨c', _, _, started, same⟩

theorem playDegree_able (h : c.Able) {n : Nat} {i : Instrument} (hp : i.Playable c.catalog n)
    (step : Float) (degree : Int) :
    ∃ c' seconds hold, c.playDegree i step degree = (c', .waits seconds hold) ∧
      ∃ j, c'.instrument = some j ∧ j.Playable c.catalog n := by
  obtain ⟨notes, j, played, playable⟩ := selectNotes_playable
    (i := { i with selectedNote := degree }) ⟨hp.scale, hp.value, hp.repeats⟩
  simp only [playDegree]
  rw [played]
  dsimp only
  obtain ⟨frame, -, -, kept⟩ := warnUnplayable_quiet (c := { c with instrument := some j }) notes
  have goes : ({ c with instrument := some j }.warnUnplayable notes).stopRequested = false :=
    (congrArg Frame.stopRequested frame).trans h.goes
  obtain ⟨c', seconds, hold, waits, same⟩ := sound_goes goes j step (notes.filter isPlayable)
  exact ⟨c', seconds, hold, waits, j, same.trans kept, playable⟩

/-- **A selector goes on to a wait.** -/
theorem beginSelector_able (h : c.Able) (selector : String) (base : Nat) :
    ∃ c' seconds hold, c.beginSelector selector base = (c', .waits seconds hold) ∧ c'.Able := by
  obtain ⟨step, hs⟩ := stepSeconds_able h
  obtain ⟨i, n, hi, hp, fits⟩ := h.plays
  have changes := beginSelector_changes (c := c) selector base
  -- all but the instrument is as before, since a selector makes only changes
  suffices reached : ∃ c' seconds hold, c.beginSelector selector base = (c', .waits seconds hold) ∧
      ∃ j, c'.instrument = some j ∧ j.Playable c.catalog n by
    obtain ⟨c', seconds, hold, waits, j, hj, playable⟩ := reached
    rw [waits] at changes
    have frame := changes.frame_eq
    have catalog : c'.catalog = c.catalog := congrArg Frame.catalog frame
    refine ⟨c', seconds, hold, waits, (congrArg Frame.stopRequested frame).trans h.goes, j, n, hj,
      ?_, fits⟩
    rw [catalog]
    exact playable
  unfold beginSelector
  split
  · rename_i missing
    rw [hi] at missing
    cases missing
  · rename_i failed
    rw [hs] at failed
    cases failed
  · rename_i i' step' hi' _
    rw [hi] at hi'
    cases hi'
    have counted : Able { c with stepsPerformed := c.stepsPerformed + 1 } := h.alike rfl rfl
    have released := counted.release
    have frame := (Changes.release (c := { c with stepsPerformed := c.stepsPerformed + 1 })
      .refl).frame_eq
    have catalog : Conductor.catalog _ = c.catalog := congrArg Frame.catalog frame
    have instrument : Conductor.instrument _ = some i :=
      (release_instrument (c := { c with stepsPerformed := c.stepsPerformed + 1 })).trans hi
    dsimp only
    split
    · exact ⟨_, _, _, rfl, i, hi, hp⟩
    · split
      · exact ⟨_, _, _, rfl, i, instrument, hp⟩
      · split
        · exact ⟨_, _, _, rfl, i, instrument, hp⟩
        · obtain ⟨c', seconds, hold, waits, j, hj, playable⟩ :=
            playDegree_able released (catalog.symm ▸ hp) _ _
          exact ⟨c', seconds, hold, waits, j, hj, catalog ▸ playable⟩

/-- A selector that waits goes on to another wait or to its end, and fewer waits are left of it. -/
theorem resumeSelector_able (h : c.Able) (hold : Hold) :
    ∃ c', c'.Able ∧ (c.resumeSelector hold = (c', .ended) ∨
      ∃ seconds hold', c.resumeSelector hold = (c', .waits seconds hold') ∧
        hold'.left < hold.left) := by
  cases hold with
  | step => exact ⟨c, h, .inl rfl⟩
  | voice note rest seconds own =>
    simp only [resumeSelector]
    cases own.or c.instrument with
    | none => exact ⟨c, h, .inl rfl⟩
    | some i =>
      have off : (c.noteOff i.channel note).Able :=
        h.alike (Changes.frame_eq (.single (.ends ..))) (noteOff_instrument ..)
      cases rest with
      | nil => exact ⟨_, off, .inl rfl⟩
      | cons next rest =>
        have changes := startVoice_changes (c := c.noteOff i.channel note) i seconds next rest own
        obtain ⟨c', started, same⟩ := startVoice_goes off.goes i seconds next rest own
        rw [started] at changes
        exact ⟨c', off.alike changes.frame_eq same, .inr ⟨_, _, started, Nat.lt_succ_self _⟩⟩

/-! ### Blocks -/

theorem enterSelector_able (h : c.Able) (base : Nat) (selector : String) (todo all : List String)
    (again : Nat) :
    ∃ c' seconds hold, c'.Able ∧ c.enterSelector base selector todo all again =
      (c', .waits seconds ⟨base, todo, all, again, hold⟩) := by
  obtain ⟨c', seconds, hold, waits, able⟩ := beginSelector_able h selector base
  simp only [enterSelector]
  rw [if_neg h.unstopped, waits]
  exact ⟨c', seconds, hold, able, rfl⟩

theorem enterSelector_fails (goes : c.stopRequested = false) {i : Instrument}
    (hi : c.instrument = some i) {why : Failure} (length : c.stepSeconds = .error why) (base : Nat)
    (selector : String) (todo all : List String) (again : Nat) :
    c.enterSelector base selector todo all again = (c.release, .failed why) := by
  have failed : c.beginSelector selector base = (c, .failed why) := by
    simp only [beginSelector, hi, length]
  simp only [enterSelector, goes, Bool.false_eq_true, ↓reduceIte, failed]

theorem nextSelector_able (h : c.Able) (base : Nat) (todo all : List String) (again : Nat) :
    ∃ c', c'.Able ∧ (c.nextSelector base todo all again = (c', .ended) ∨
      ∃ seconds cursor, c.nextSelector base todo all again = (c', .waits seconds cursor) ∧
        (cursor.again < again ∨ cursor.again = again ∧ cursor.todo.length < todo.length)) := by
  simp only [nextSelector]
  split
  · obtain ⟨c', seconds, hold, able, waits⟩ := enterSelector_able h ..
    exact ⟨c', able, .inr ⟨seconds, _, waits, .inr ⟨rfl, Nat.lt_succ_self _⟩⟩⟩
  · obtain ⟨c', seconds, hold, able, waits⟩ := enterSelector_able h ..
    exact ⟨c', able, .inr ⟨seconds, _, waits, .inl (Nat.lt_succ_self _)⟩⟩
  · exact ⟨_, h.release, .inl rfl⟩

/-- **A block that waits goes on** to another wait, at which less is left of it, or to its end. -/
theorem resumeBlock_able (h : c.Able) (cursor : BlockCursor) :
    ∃ c', c'.Able ∧ (c.resumeBlock cursor = (c', .ended) ∨
      ∃ seconds cursor', c.resumeBlock cursor = (c', .waits seconds cursor') ∧
        cursor'.Before cursor) := by
  obtain ⟨c₁, able₁, ended | ⟨seconds, hold, waits, less⟩⟩ := resumeSelector_able h cursor.hold
  · obtain ⟨c₂, able₂, done | ⟨seconds, next, waits, less⟩⟩ :=
      nextSelector_able able₁ cursor.base cursor.todo cursor.all cursor.again
    · refine ⟨c₂, able₂, .inl ?_⟩
      simp only [resumeBlock]
      rw [ended]
      exact done
    · refine ⟨c₂, able₂, .inr ⟨seconds, next, ?_, ?_⟩⟩
      · simp only [resumeBlock]
        rw [ended]
        exact waits
      · rcases less with again | ⟨same, todo⟩
        · exact BlockCursor.before_of_again again
        · exact BlockCursor.before_of_todo same todo
  · refine ⟨c₁, able₁, .inr ⟨seconds, { cursor with hold }, ?_, BlockCursor.before_of_hold less⟩⟩
    simp only [resumeBlock]
    rw [waits]

/-- How a block begins whose commands can all be applied or passed over: with its first selector, on
an instrument that can play. -/
theorem beginBlock_applied (h : c.Able) {b : Block}
    (fits : ∀ command ∈ b.commands, ¬ command.Chokes) :
    ∃ (c' : Conductor) (i : Instrument) (n again : Nat),
      c.beginBlock b = c'.nextSelector b.base [] b.selectors (again + 1) ∧
      c'.stopRequested = false ∧ c'.instrument = some i ∧ i.Playable c'.catalog n ∧
      ((b.commands.filterMap (·.count? b.base)).getLast? = some n ∨
        (b.commands.filterMap (·.count? b.base)).getLast? = none ∧ ¬ Number.TooLarge n) := by
  obtain ⟨goes, i, n, hi, hp, small⟩ := h
  have changes := applyCommands_changes (c := { c with instrument := some { i with repeats := 1 } })
    b.base b.commands
  obtain ⟨c₁, j, applied, hj, catalog, playable⟩ := applyCommands_ok b.base b.commands
    (c := { c with instrument := some { i with repeats := 1 } }) rfl
    ⟨hp.scale, hp.value, Int.le_refl 1⟩ fits
  rw [applied] at changes
  have goes₁ : c₁.stopRequested = false :=
    (congrArg Frame.stopRequested changes.frame_eq).trans goes
  obtain ⟨sent, hs⟩ := c₁.send_frame (.program j.channel j.timbre)
  have again : j.repeats.toNat = (j.repeats.toNat - 1) + 1 := by
    have := playable.repeats
    omega
  refine ⟨{ c₁.send (.program j.channel j.timbre) with
    blocksPerformed := (c₁.send (.program j.channel j.timbre)).blocksPerformed + 1 }, j,
    ((b.commands.filterMap (·.count? b.base)).getLast?).getD n, j.repeats.toNat - 1,
    ?_, ?_, ?_, ?_, ?_⟩
  rotate_left
  · rw [hs]
    exact goes₁
  · rw [hs]
    exact hj
  · rw [hs]
    change j.Playable c₁.catalog _
    rw [catalog]
    exact playable
  · cases (b.commands.filterMap (·.count? b.base)).getLast? with
    | none => exact .inr ⟨rfl, small⟩
    | some m => exact .inl rfl
  · simp only [beginBlock]
    rw [hi]
    dsimp only
    rw [applied]
    dsimp only
    rw [hj]
    dsimp only
    rw [← again]

/-- **A block that does not overflow begins** and goes on to its first wait, unless it plays
nothing. -/
theorem beginBlock_able (h : c.Able) {b : Block} (fits : ¬ b.Overflows) :
    ∃ c', c'.Able ∧ ((c.beginBlock b = (c', .ended) ∧ b.selectors = []) ∨
      ∃ seconds cursor, c.beginBlock b = (c', .waits seconds cursor)) := by
  obtain ⟨c₁, i, n, again, begun, goes, hi, hp, count⟩ :=
    beginBlock_applied h (b := b) fun command mem chokes => fits (.inl ⟨command, mem, chokes⟩)
  have small : ¬ Number.TooLarge n := by
    rcases count with last | ⟨-, small⟩
    · exact fun large => fits (.inr ⟨n, last, large⟩)
    · exact small
  have able : c₁.Able := ⟨goes, i, n, hi, hp, small⟩
  rw [begun]
  cases selectors : b.selectors with
  | nil => exact ⟨_, able.release, .inl ⟨rfl, rfl⟩⟩
  | cons selector rest =>
    obtain ⟨c', seconds, hold, able', waits⟩ :=
      enterSelector_able able b.base selector rest (selector :: rest) again
    exact ⟨c', able', .inr ⟨seconds, _, waits⟩⟩

/-- **A block that overflows fails** at its beginning, if it plays anything at all. -/
theorem beginBlock_overflows (h : c.Able) {b : Block} (overflow : b.Overflows)
    (plays : b.selectors ≠ []) : ∃ c', c.beginBlock b = (c', .failed .tooLarge) := by
  by_cases chokes : ∃ command ∈ b.commands, command.Chokes
  · obtain ⟨-, i, n, hi, hp, -⟩ := h
    obtain ⟨c', failed⟩ := applyCommands_chokes b.base b.commands
      (c := { c with instrument := some { i with repeats := 1 } }) rfl
      ⟨hp.scale, hp.value, Int.le_refl 1⟩ chokes
    refine ⟨c', ?_⟩
    simp only [beginBlock]
    rw [hi]
    dsimp only
    rw [failed]
  · obtain ⟨c₁, i, n, again, begun, goes, hi, hp, count⟩ :=
      beginBlock_applied h (b := b) fun command mem choke => chokes ⟨command, mem, choke⟩
    have large : Number.TooLarge n := by
      rcases overflow with choking | ⟨m, last, large⟩
      · exact absurd choking chokes
      · rcases count with last' | ⟨none, -⟩
        · rw [last] at last'
          cases last'
          exact large
        · rw [last] at none
          cases none
    obtain ⟨selector, rest, selectors⟩ := List.exists_cons_of_ne_nil plays
    refine ⟨c₁.release, ?_⟩
    rw [begun, selectors]
    exact enterSelector_fails goes hi (stepSeconds_tooLarge hi hp large) ..

end Conductor

end ChordSequencer
