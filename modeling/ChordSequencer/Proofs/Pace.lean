import ChordSequencer.Proofs.Places
import Mathlib.Data.List.Chain

/-!
# Playback never spins

Between the beginnings of two passes playback always waits, whatever the song: a selector waits for
its step, and a pass in which no selector is performed takes a step as well.  This is shown of the
run loop as it is written (`Conductor.loop`), with its test whether a selector was performed at all;
`Conductor.newPass` is this loop with the test left out where it cannot fail.

* `Conductor.playBlocks_silent` : a pass that ends without a wait has performed no selector.
* `Conductor.resumeLoop_eq` : the loop and playback come to the same wait, with one pass at most
  begun on the way.
* `Conductor.loopMarks_chain` : whatever happens during its waits, the loop never begins two passes
  without a wait between them.
* `Conductor.beginSelector_requests` : the waits that a selector requests.
* `Conductor.playback_keeps_time` : all of it.
-/

namespace ChordSequencer

/-- What the run loop does that can be noticed from outside. -/
inductive Mark
  /-- A pass begins. -/
  | pass
  /-- A wait is requested. -/
  | wait (seconds : Float)

/-- The wait that a stretch of a performance requests. -/
def Outcome.marks {κ : Type} : Outcome κ → List Mark
  | waits seconds _ => [.wait seconds]
  | ended => []
  | failed _ => []

namespace Conductor

variable {c c' : Conductor}

/-! ### The run loop -/

/-- The end of a pass that began when `before` steps had been performed: a step is filled if no
selector was performed, and otherwise the loop goes on. -/
def afterPass (again : Conductor → Option (List Mark × Conductor × Outcome Place)) (before : Nat)
    (c : Conductor) : Option (List Mark × Conductor × Outcome Place) :=
  if c.stopRequested then some ([], c, .ended)
  else if c.stepsPerformed = before then some (c.fillStep.2.marks, c.fillStep)
  else again c

/-- The run loop up to its next wait, with `n` passes begun at most; nothing if these are not
enough. -/
def loop : Nat → Conductor → Option (List Mark × Conductor × Outcome Place)
  | 0, _ => none
  | n + 1, c =>
    if c.stopRequested then some ([], c, .ended)
    else match playBlocks c.stepsPerformed c c.songBlocks with
      | (c', .ended) =>
        (afterPass (loop n) c.stepsPerformed c').map fun (marks, r) => (.pass :: marks, r)
      | r => some (.pass :: r.2.marks, r)

/-- The run loop from one wait to the next, with `n` passes begun at most. -/
def resumeLoop (n : Nat) (c : Conductor) : Place → Option (List Mark × Conductor × Outcome Place)
  | .beginning => loop n c
  | .filler => loop n c
  | .inBlock left before cursor =>
    match c.resumeBlock cursor with
    | (c, .waits seconds cursor) =>
      some ([.wait seconds], c, .waits seconds (.inBlock left before cursor))
    | (c, .ended) =>
      match playBlocks before c left with
      | (c, .ended) => afterPass (loop n) before c
      | r => some (r.2.marks, r)
    | (c, .failed why) => some ([], c, .failed why)

/-- What the run loop does that goes on from its waits in the given states, with `n` passes begun at
most from each wait to the next.  What else happens during the waits does not matter. -/
def loopMarks (n : Nat) : Place → List Conductor → Option (List Mark)
  | _, [] => some []
  | place, c :: states =>
    (resumeLoop n c place).bind fun (marks, _, outcome) =>
      match outcome with
      | .waits _ next => (loopMarks n next states).map (marks ++ ·)
      | _ => some marks

theorem beginBlock_silent (goes : c.stopRequested = false) {b : Block}
    (ended : c.beginBlock b = (c', .ended)) :
    c'.stepsPerformed = c.stepsPerformed ∧ c'.stopRequested = false := by
  rcases beginBlock_prepared (c := c) b with ⟨why, failed⟩ | ⟨c₁, j, prepared⟩
  · rw [ended] at failed
    cases failed
  · obtain ⟨sent, announced⟩ := prepared.announced
    have empty : b.selectors = [] := by
      by_contra plays
      exact beginBlock_goes goes plays (congrArg Prod.snd ended)
    rw [prepared.beginBlock, empty, nextSelector_over (by simp)] at ended
    cases ended
    obtain ⟨sent', released⟩ := (c₁.announced j).release_frame
    rw [released, announced]
    exact ⟨rfl, goes⟩

/-- **A pass that ends without a wait** has performed no selector. -/
theorem playBlocks_silent (before : Nat) (blocks : List Block) :
    ∀ {c : Conductor}, c.stopRequested = false → playBlocks before c blocks = (c', .ended) →
      c'.stepsPerformed = c.stepsPerformed ∧ c'.stopRequested = false := by
  induction blocks with
  | nil =>
    intro c goes ended
    cases ended
    exact ⟨rfl, goes⟩
  | cons b left ih =>
    intro c goes ended
    simp only [playBlocks, goes, Bool.false_eq_true, ↓reduceIte] at ended
    split at ended
    · cases ended
    · rename_i begun
      obtain ⟨steps, going⟩ := beginBlock_silent goes begun
      obtain ⟨steps', going'⟩ := ih going ended
      exact ⟨steps'.trans steps, going'⟩
    · cases ended

/-- A pass that ends without a wait fills a step. -/
theorem newPass_silent (goes : c.stopRequested = false)
    (silent : playBlocks c.stepsPerformed c c.songBlocks = (c', .ended)) :
    c.newPass = c'.fillStep := by
  have going := (playBlocks_silent _ _ goes silent).2
  simp only [newPass, goes, silent, going, Bool.false_eq_true, ↓reduceIte]

theorem fillStep_goes (c : Conductor) : c.fillStep.2 ≠ .ended := by
  simp only [fillStep]
  split <;> exact fun ended => by cases ended

theorem newPass_goes (goes : c.stopRequested = false) : c.newPass.2 ≠ .ended := by
  cases played : playBlocks c.stepsPerformed c c.songBlocks with
  | mk c' outcome =>
    cases outcome with
    | ended =>
      rw [newPass_silent goes played]
      exact fillStep_goes c'
    | waits | failed =>
      simp only [newPass, goes, played, Bool.false_eq_true, ↓reduceIte]
      exact fun ended => by cases ended

/-- **One pass is enough** for the loop to come to its next wait. -/
theorem loop_eq (n : Nat) (c : Conductor) : ∃ passes, (passes = [] ∨ passes = [.pass]) ∧
    c.loop (n + 1) = some (passes ++ c.newPass.2.marks, c.newPass) := by
  cases goes : c.stopRequested with
  | true =>
    refine ⟨[], .inl rfl, ?_⟩
    simp only [loop, newPass, goes, ↓reduceIte]
    rfl
  | false =>
    refine ⟨[.pass], .inr rfl, ?_⟩
    cases played : playBlocks c.stepsPerformed c c.songBlocks with
    | mk c' outcome =>
      cases outcome with
      | ended =>
        -- the counter is as it was, so that the loop fills a step
        obtain ⟨steps, going⟩ := playBlocks_silent _ _ goes played
        rw [newPass_silent goes played]
        simp only [loop, goes, played, afterPass, going, steps, Bool.false_eq_true, ↓reduceIte]
        rfl
      | waits | failed =>
        simp only [loop, newPass, goes, played, Bool.false_eq_true, ↓reduceIte]
        rfl

/-- **From one wait to the next** the loop and playback come to the same, with one pass at most
begun on the way. -/
theorem resumeLoop_eq (n : Nat) (c : Conductor) (place : Place) :
    ∃ passes, (passes = [] ∨ passes = [.pass]) ∧ c.resumeLoop (n + 1) place =
      some (passes ++ (c.resumePlayback place).2.marks, c.resumePlayback place) := by
  cases place with
  | beginning => exact loop_eq n c
  | filler => exact loop_eq n c
  | inBlock left before cursor =>
    simp only [resumeLoop, resumePlayback]
    cases c.resumeBlock cursor with
    | mk c₁ outcome =>
      cases outcome with
      | waits | failed => exact ⟨[], .inl rfl, rfl⟩
      | ended =>
        dsimp only
        cases playBlocks before c₁ left with
        | mk c₂ outcome =>
          cases outcome with
          | waits | failed => exact ⟨[], .inl rfl, rfl⟩
          | ended =>
            simp only [afterPass, endPass]
            split
            · exact ⟨[], .inl rfl, rfl⟩
            · split
              · exact ⟨[], .inl rfl, rfl⟩
              · exact loop_eq n c₂

/-- **Playback that was not stopped** goes on to a wait, unless it fails. -/
theorem resumePlayback_goes (goes : c.stopRequested = false) (place : Place) :
    (c.resumePlayback place).2 ≠ .ended := by
  cases place with
  | beginning => exact newPass_goes goes
  | filler => exact newPass_goes goes
  | inBlock left before cursor =>
    have frame := (c.resumeBlock_changes cursor).frame_eq
    simp only [resumePlayback]
    split
    · exact fun ended => by cases ended
    · rename_i c₁ resumed
      rw [resumed] at frame
      have going : c₁.stopRequested = false := (congrArg Frame.stopRequested frame).trans goes
      split
      · rename_i c₂ played
        have going' := (playBlocks_silent _ _ going played).2
        simp only [endPass, going', Bool.false_eq_true, ↓reduceIte]
        split
        · exact fillStep_goes c₂
        · exact newPass_goes going'
      · rename_i other
        exact fun ended => other _ (Prod.ext rfl ended)
    · exact fun ended => by cases ended

/-- Two passes do not begin one right after the other. -/
def Mark.Apart (m m' : Mark) : Prop := ¬ (m = .pass ∧ m' = .pass)

/-- **The loop never begins two passes without a wait between them.** -/
theorem loopMarks_chain (n : Nat) (states : List Conductor) :
    ∀ place, ∃ marks, loopMarks (n + 1) place states = some marks ∧ marks.IsChain Mark.Apart := by
  induction states with
  | nil => exact fun _ => ⟨[], rfl, .nil⟩
  | cons c states ih =>
    intro place
    obtain ⟨passes, few, reached⟩ := c.resumeLoop_eq n place
    have first : passes.IsChain Mark.Apart := by
      rcases few with rfl | rfl
      · exact .nil
      · exact .singleton _
    simp only [loopMarks, reached, Option.bind_some]
    cases (c.resumePlayback place).2 with
    | waits seconds next =>
      -- the wait stands between the pass and whatever comes later
      obtain ⟨marks, later, chain⟩ := ih next
      have waited : (Mark.wait seconds :: marks).IsChain Mark.Apart :=
        List.isChain_cons.2 ⟨fun _ _ both => Mark.noConfusion both.1, chain⟩
      refine ⟨passes ++ .wait seconds :: marks, ?_, first.append waited fun _ _ m mem both => ?_⟩
      · simp only [later, Outcome.marks, Option.map_some, List.append_assoc, List.singleton_append]
      · cases mem
        cases both.2
    | ended | failed why => exact ⟨passes, by simp [Outcome.marks], first⟩

/-! ### Selectors -/

section Requests

variable {κ : Type} (resume : Conductor → κ → Conductor × Outcome κ)

/-- The waits that a performance requests that goes on from them in the given states. -/
def requests : Conductor × Outcome κ → List Conductor → List Float
  | (_, .waits seconds next), c :: states => seconds :: requests (resume c next) states
  | (_, .waits seconds _), [] => [seconds]
  | _, _ => []

/-- What a performance comes to that goes on from its waits in the given states. -/
def amid (r : Conductor × Outcome κ) (states : List Conductor) : Conductor × Outcome κ :=
  states.foldl (fun r c => match r.2 with
    | .waits _ next => resume c next
    | _ => r) r

variable {resume}

theorem requests_ended (states : List Conductor) : requests resume (c, .ended) states = [] := by
  cases states <;> rfl

theorem amid_ended (states : List Conductor) :
    amid resume (c, .ended) states = (c, .ended) := by
  induction states with
  | nil => rfl
  | cons _ states ih => exact ih

theorem amid_waits (seconds : Float) (next : κ) (state : Conductor) (states : List Conductor) :
    amid resume (c, .waits seconds next) (state :: states) =
      amid resume (resume state next) states := rfl

end Requests

/-- A selector can go on: playback was not stopped, and there is an instrument. -/
structure Goes (c : Conductor) : Prop where
  /-- Playback was not stopped. -/
  goes : c.stopRequested = false
  /-- There is an instrument. -/
  instrument : c.instrument.isSome = true

/-- A selector requests exactly these waits, whatever happens during them. -/
def Requests (r : Conductor × Outcome Hold) (waits : List Float) : Prop :=
  ∀ states : List Conductor, (∀ c ∈ states, c.Goes) →
    requests resumeSelector r states = waits.take (states.length + 1) ∧
      ((amid resumeSelector r states).2 = .ended ↔ waits.length ≤ states.length)

theorem step_requests (c : Conductor) (seconds : Float) :
    Requests (c, .waits seconds .step) [seconds] := by
  intro states _
  cases states with
  | nil => exact ⟨rfl, by simp [amid]⟩
  | cons state states =>
    rw [amid_waits]
    simp only [requests, resumeSelector, requests_ended, amid_ended]
    simp

/-- An arpeggio waits once for each of its voices. -/
theorem voice_requests (seconds : Float) (own : Option Instrument) (rest : List Int) :
    ∀ (c : Conductor) (note : Int), Requests (c, .waits seconds (.voice note rest seconds own))
      (List.replicate (rest.length + 1) seconds) := by
  induction rest with
  | nil =>
    intro c note states goes
    cases states with
    | nil => exact ⟨rfl, by simp [amid]⟩
    | cons state states =>
      have ended : ∃ c', state.resumeSelector (.voice note [] seconds own) = (c', .ended) := by
        simp only [resumeSelector]
        split <;> exact ⟨_, rfl⟩
      obtain ⟨c', ended⟩ := ended
      rw [amid_waits, ended]
      simp only [requests, ended, requests_ended, amid_ended]
      simp
  | cons next rest ih =>
    intro c note states goes
    cases states with
    | nil => exact ⟨rfl, by simp [amid]⟩
    | cons state states =>
      obtain ⟨⟨going, there⟩, later⟩ := List.forall_mem_cons.1 goes
      obtain ⟨i, hi⟩ : ∃ i, own.or state.instrument = some i := by
        cases own with
        | none => exact Option.isSome_iff_exists.1 there
        | some i => exact ⟨i, rfl⟩
      have frame := (Deed.ends (c := state) i.channel note : Deed .step _ _).change.frame_eq
      have still : (state.noteOff i.channel note).stopRequested = false :=
        (congrArg Frame.stopRequested frame).trans going
      obtain ⟨c', resumed, -⟩ := startVoice_goes still i seconds next rest own
      have went : state.resumeSelector (.voice note (next :: rest) seconds own) =
          (c', .waits seconds (.voice next rest seconds own)) := by
        simp only [resumeSelector, hi]
        exact resumed
      obtain ⟨asked, ended⟩ := ih c' next states later
      rw [amid_waits, went, ended]
      simp only [requests, went, asked]
      simp [List.replicate_succ]

/-- The voices that a selector plays one after another; there are none in chords, and none of what
is no number. -/
def arpeggioOf (c : Conductor) (selector : String) (base : Nat) : List Int :=
  if selector = "=" ∨ selector = "." ∨ selector = "s" then []
  else match selectorDegree? selector base, c.instrument with
    | some degree, some i =>
      match { i with selectedNote := degree }.selectNotes c.catalog with
      | .ok (notes, j) => j.playMode.arpeggio (notes.filter isPlayable)
      | .error _ => []
    | _, _ => []

/-- The waits of a selector: a full step, or an equal part of it for each of some voices. -/
def paces (step : Float) : List Int → List Float
  | [] => [step]
  | _ :: rest =>
    List.replicate (rest.length + 1) (step / Number.nearest (rest.length + 1) 1)

theorem sound_requests (goes : c.stopRequested = false) (i : Instrument) (step : Float)
    (notes : List Int) :
    Requests (c.sound i step notes) (paces step (i.playMode.arpeggio notes)) := by
  simp only [sound]
  split
  · rename_i chord
    rw [chord]
    exact step_requests _ step
  · split
    · rename_i none
      rw [none]
      exact step_requests _ step
    · rename_i note rest order
      obtain ⟨c', started, -⟩ := startVoice_goes goes i
        (step / Number.nearest (rest.length + 1) 1) note rest none
      rw [order, started]
      exact voice_requests _ none rest c' note

/-- **The waits of a selector** that does not fail. -/
theorem beginSelector_requests (goes : c.stopRequested = false) {selector : String} {base : Nat}
    (fine : ∀ why, (c.beginSelector selector base).2 ≠ .failed why) :
    ∃ step, c.stepSeconds = .ok step ∧
      Requests (c.beginSelector selector base) (paces step (c.arpeggioOf selector base)) := by
  cases length : c.stepSeconds with
  | error why =>
    cases hi : c.instrument <;> simp [beginSelector, hi, length] at fine
  | ok step =>
    refine ⟨step, rfl, ?_⟩
    obtain ⟨i, hi⟩ := stepSeconds_instrument length
    by_cases signs : selector = "=" ∨ selector = "." ∨ selector = "s"
    · simp only [arpeggioOf, if_pos signs]
      rcases signs with hold | rest
      · rw [beginSelector_hold length hold]
        exact step_requests _ step
      · rw [beginSelector_rest length rest]
        exact step_requests _ step
    · simp only [arpeggioOf, if_neg signs, hi]
      cases number : selectorDegree? selector base with
      | none =>
        rw [beginSelector_unknown length signs number]
        exact step_requests _ step
      | some degree =>
        obtain ⟨sent, released⟩ := c.counted.release_frame
        rw [beginSelector_number length signs number hi, released] at fine ⊢
        simp only [playDegree] at fine ⊢
        cases selected : { i with selectedNote := degree }.selectNotes c.catalog with
        | error why =>
          simp [counted, selected] at fine
        | ok found =>
          obtain ⟨notes, j⟩ := found
          simp only [counted, selected]
          refine sound_requests ?_ j step _
          exact (congrArg Frame.stopRequested (warnUnplayable_quiet notes).1).trans goes

/-- **Playback never spins.**  Whatever the song and whatever happens during the waits, the run loop
never begins two passes without a wait between them; playback is this loop, and comes from one wait
to the next with one pass at most begun on the way.  Unless it is stopped or fails, playback goes on
from each wait to another one, a pass that ends without a wait of a selector requests one full step,
and a selector requests one wait of a full step, or, where it plays `n` voices one after another,
`n` waits of an `n`-th of it. -/
theorem playback_keeps_time (c : Conductor) :
    (∀ n place states, ∃ marks, loopMarks (n + 1) place states = some marks ∧
      marks.IsChain Mark.Apart) ∧
    (∀ n place, ∃ passes, (passes = [] ∨ passes = [Mark.pass]) ∧ c.resumeLoop (n + 1) place =
      some (passes ++ (c.resumePlayback place).2.marks, c.resumePlayback place)) ∧
    (c.stopRequested = false →
      (∀ place, (∀ why, (c.resumePlayback place).2 ≠ .failed why) →
        ∃ seconds next, (c.resumePlayback place).2 = .waits seconds next) ∧
      (∀ c', playBlocks c.stepsPerformed c c.songBlocks = (c', .ended) →
        (∀ why, c.newPass.2 ≠ .failed why) → c'.stepsPerformed = c.stepsPerformed ∧
          ∃ step, c'.stepSeconds = .ok step ∧ c.newPass = (c', .waits step .filler)) ∧
      ∀ selector base, (∀ why, (c.beginSelector selector base).2 ≠ .failed why) →
        ∃ step, c.stepSeconds = .ok step ∧
          Requests (c.beginSelector selector base) (paces step (c.arpeggioOf selector base))) := by
  refine ⟨fun n place states => loopMarks_chain n states place, fun n => c.resumeLoop_eq n,
    fun goes => ⟨fun place fine => ?_, fun c' silent fine => ?_,
      fun selector base fine => beginSelector_requests goes fine⟩⟩
  · have lasts := resumePlayback_goes goes place
    cases outcome : (c.resumePlayback place).2 with
    | waits seconds next => exact ⟨seconds, next, rfl⟩
    | ended => exact absurd outcome lasts
    | failed why => exact absurd outcome (fine why)
  · refine ⟨(playBlocks_silent _ _ goes silent).1, ?_⟩
    rw [newPass_silent goes silent] at fine ⊢
    cases length : c'.stepSeconds with
    | ok step => exact ⟨step, rfl, by simp only [fillStep, length]⟩
    | error why => exact absurd (by simp only [fillStep, length]) (fine why)

/-- A song of a block without content takes its steps. -/
theorem playback_keeps_time_without_content : ∃ c : Conductor,
    c.songBlocks = [⟨[], "", none⟩] ∧ c.stopRequested = false ∧
      ∃ seconds next, (c.resumePlayback .beginning).2 = .waits seconds next := by
  obtain ⟨c₀, created⟩ : ∃ c₀, create true .standard 120.0 = .ok c₀ := ⟨_, rfl⟩
  obtain ⟨able, blocks, -⟩ := started_able (by decide +kernel) created ⟨[⟨[], "", none⟩]⟩
  refine ⟨_, blocks, able.goes, ((playback_keeps_time _).2.2 able.goes).1 .beginning fun why => ?_⟩
  obtain ⟨c', seconds, place, waits, -⟩ := newPass_lasts able (by
    rw [blocks]
    simp [Block.Overflows])
  intro failed
  change Prod.snd (newPass _) = _ at failed
  rw [waits] at failed
  cases failed

end Conductor

end ChordSequencer
