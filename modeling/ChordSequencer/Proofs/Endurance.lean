import ChordSequencer.Conductor.Operation
import ChordSequencer.Proofs.Loading
import ChordSequencer.Proofs.Steps
import ChordSequencer.Proofs.Task

/-!
# What can abort playback

Playback has no end of its own.  It goes on for ever if no block of the song chooses a note value of
too large a number, and it fails at the first block that does, as soon as it comes there.

* `Conductor.Enduring` : the invariant of playback that goes on.
* `Conductor.advance_enduring` : it holds after any number of turns.
* `Conductor.playBlocks_dies` : playback comes to every block, so it comes to one that overflows;
  the induction is on the blocks left, and inside a block on what is left of it.
-/

namespace ChordSequencer

/-- A place in a pass of which no block left overflows. -/
def Place.Fine : Place → Prop
  | .inBlock left _ _ => ∀ b ∈ left, ¬ b.Overflows
  | _ => True

namespace Conductor

variable {c : Conductor}

/-! ### Songs that do not overflow -/

/-- A stretch of playback has come to a wait from which it can go on. -/
def Lasts (song : Option Song) (r : Conductor × Outcome Place) : Prop :=
  ∃ c seconds place, r = (c, .waits seconds place) ∧ c.Able ∧ c.song = song ∧ place.Fine

theorem fillStep_lasts (h : c.Able) : Lasts c.song c.fillStep := by
  obtain ⟨seconds, length⟩ := stepSeconds_able h
  refine ⟨c, seconds, .filler, ?_, h, rfl, trivial⟩
  simp only [fillStep]
  rw [length]

theorem playBlocks_lasts (before : Nat) (blocks : List Block) :
    ∀ {c : Conductor}, c.Able → (∀ b ∈ blocks, ¬ b.Overflows) →
      Lasts c.song (playBlocks before c blocks) ∨
        ∃ c', playBlocks before c blocks = (c', .ended) ∧ c'.Able ∧ c'.song = c.song := by
  induction blocks with
  | nil => exact fun h _ => .inr ⟨_, rfl, h, rfl⟩
  | cons b left ih =>
    intro c h fits
    have changes := beginBlock_changes (c := c) b
    obtain ⟨c₁, able, begun⟩ := beginBlock_able h (fits b List.mem_cons_self)
    have fits' : ∀ b ∈ left, ¬ b.Overflows := fun b mem => fits b (List.mem_cons_of_mem _ mem)
    rw [playBlocks, if_neg h.unstopped]
    rcases begun with ⟨ended, -⟩ | ⟨seconds, cursor, waits⟩
    · -- a block that plays nothing hands on to the next one
      rw [ended] at changes ⊢
      have song : c₁.song = c.song := congrArg Frame.song changes.frame_eq
      rw [← song]
      exact ih able fits'
    · rw [waits] at changes ⊢
      have song : c₁.song = c.song := congrArg Frame.song changes.frame_eq
      exact .inl ⟨c₁, seconds, _, rfl, able, song, fits'⟩

theorem newPass_lasts (h : c.Able) (fits : ∀ b ∈ c.songBlocks, ¬ b.Overflows) :
    Lasts c.song c.newPass := by
  simp only [newPass]
  rw [if_neg h.unstopped]
  rcases playBlocks_lasts c.stepsPerformed c.songBlocks h fits with lasts | ⟨c', ended, able, song⟩
  · obtain ⟨c', seconds, place, waits, rest⟩ := lasts
    rw [waits]
    exact ⟨c', seconds, place, rfl, rest⟩
  · -- a pass that plays nothing still takes a step
    rw [ended]
    dsimp only
    rw [if_neg able.unstopped, ← song]
    exact fillStep_lasts able

theorem endPass_lasts (h : c.Able) (fits : ∀ b ∈ c.songBlocks, ¬ b.Overflows) (before : Nat) :
    Lasts c.song (c.endPass before) := by
  simp only [endPass]
  rw [if_neg h.unstopped]
  split
  · exact fillStep_lasts h
  · exact newPass_lasts h fits

theorem songBlocks_eq {c c' : Conductor} (song : c'.song = c.song) :
    c'.songBlocks = c.songBlocks := by
  simp only [songBlocks]
  rw [song]

/-- **Playback of a song that does not overflow goes on** from every wait to another one. -/
theorem resumePlayback_lasts (h : c.Able) (fits : ∀ b ∈ c.songBlocks, ¬ b.Overflows) {place : Place}
    (fine : place.Fine) : Lasts c.song (c.resumePlayback place) := by
  cases place with
  | beginning => exact newPass_lasts h fits
  | filler => exact newPass_lasts h fits
  | inBlock left before cursor =>
    have changes := resumeBlock_changes (c := c) cursor
    obtain ⟨c₁, able, ended | ⟨seconds, cursor', waits, -⟩⟩ := resumeBlock_able h cursor
    · simp only [resumePlayback]
      rw [ended] at changes ⊢
      have song : c₁.song = c.song := congrArg Frame.song changes.frame_eq
      dsimp only
      rcases playBlocks_lasts before left able fine with lasts | ⟨c₂, done, able₂, song₂⟩
      · obtain ⟨c₂, seconds, place, waits, able₂, song₂, fine₂⟩ := lasts
        rw [waits]
        exact ⟨c₂, seconds, place, rfl, able₂, song₂.trans song, fine₂⟩
      · rw [done]
        dsimp only
        rw [← song, ← song₂]
        refine endPass_lasts able₂ ?_ before
        rw [songBlocks_eq (song₂.trans song)]
        exact fits
    · simp only [resumePlayback]
      rw [waits] at changes ⊢
      exact ⟨c₁, seconds, _, rfl, able, congrArg Frame.song changes.frame_eq, fine⟩

/-- Playback that goes on for ever: the conductor can perform, no block of the song overflows, and
the task waits at a place from which it can go on. -/
structure Enduring (c : Conductor) : Prop where
  /-- The conductor can perform. -/
  able : c.Able
  /-- No block of the song overflows. -/
  fits : ∀ b ∈ c.songBlocks, ¬ b.Overflows
  /-- The task waits. -/
  waits : ∃ place : Place, place.Fine ∧
    (c.task = some (.ready place) ∨ ∃ wakes, c.task = some (.asleep wakes place))

theorem Enduring.live (h : c.Enduring) : c.task.any (·.live) = true := by
  obtain ⟨place, -, ready | ⟨wakes, asleep⟩⟩ := h.waits
  · rw [ready]; rfl
  · rw [asleep]; rfl

theorem turn_enduring (h : c.Able) (fits : ∀ b ∈ c.songBlocks, ¬ b.Overflows) {place : Place}
    (fine : place.Fine) : (c.turn place).Enduring := by
  obtain ⟨c', seconds, next, waits, able, song, fine'⟩ := resumePlayback_lasts h fits fine
  have settled : c.turn place = settle (c', .waits seconds next) := by rw [turn, waits]
  have blocks : (settle (c', .waits seconds next)).songBlocks = c.songBlocks := songBlocks_eq song
  rw [settled]
  refine ⟨⟨able.goes, able.plays⟩, ?_, next, fine', ?_⟩
  · rw [blocks]
    exact fits
  · simp only [settle]
    by_cases atOnce : seconds ≤ 0.0
    · exact .inl (by simp only [if_pos atOnce])
    · exact .inr ⟨_, by simp only [if_neg atOnce]; rfl⟩

theorem advance_enduring (limit : Option Float) :
    ∀ (n : Nat) {c : Conductor}, c.Enduring → (advance n c limit).Enduring := by
  intro n
  induction n with
  | zero => exact fun h => h
  | succ n ih =>
    intro c h
    obtain ⟨able, fits, place, fine, ready | ⟨wakes, asleep⟩⟩ := h
    · rw [advance_ready ready]
      exact ih (turn_enduring able fits fine)
    · rw [advance_asleep asleep]
      split
      · have woken : Able { c with clock := wakes } := ⟨able.goes, able.plays⟩
        exact ih (turn_enduring woken fits fine)
      · exact ⟨able, fits, place, fine, .inr ⟨wakes, asleep⟩⟩

/-! ### Songs that overflow -/

/-- Playback fails after some turns. -/
def Dies (c : Conductor) : Prop :=
  ∃ turns, (advance turns c none).task = some (.finished (.error .tooLarge))

/-- A stretch that has come to a wait fails later on if the place fails whenever it is gone on
from. -/
theorem settle_dies {seconds : Float} {place : Place} (h : c.Able)
    (later : ∀ c' : Conductor, c'.Able → c'.songBlocks = c.songBlocks → Dies (c'.turn place)) :
    Dies (settle (c, .waits seconds place)) := by
  simp only [settle]
  split
  · obtain ⟨turns, dies⟩ := later { c with task := some (.ready place) } ⟨h.goes, h.plays⟩ rfl
    refine ⟨turns + 1, ?_⟩
    rw [advance_ready rfl]
    exact dies
  · obtain ⟨turns, dies⟩ := later { c with
      clock := c.clock + seconds
      task := some (.asleep (c.clock + seconds) place) } ⟨h.goes, h.plays⟩ rfl
    refine ⟨turns + 1, ?_⟩
    rw [advance_asleep rfl]
    exact dies

/-- **Playback comes to a block that overflows**, if such a block is left. -/
theorem playBlocks_dies (before : Nat) (blocks : List Block)
    (plays : ∀ b ∈ blocks, b.selectors ≠ []) (overflow : ∃ b ∈ blocks, b.Overflows) :
    ∀ {c : Conductor}, c.Able →
      Dies (settle (playBlocks before c blocks)) ∧ (playBlocks before c blocks).2 ≠ .ended := by
  induction blocks with
  | nil =>
    obtain ⟨b, mem, -⟩ := overflow
    cases mem
  | cons b left ih =>
    intro c h
    rw [playBlocks, if_neg h.unstopped]
    by_cases here : b.Overflows
    · obtain ⟨c', failed⟩ := beginBlock_overflows h here (plays b List.mem_cons_self)
      rw [failed]
      exact ⟨⟨0, rfl⟩, fun h => (by cases h)⟩
    · -- the block comes to its end, and an overflowing one is still left
      have rest : ∃ b ∈ left, b.Overflows := by
        obtain ⟨b', mem, overflows⟩ := overflow
        rcases List.mem_cons.1 mem with rfl | mem
        · exact absurd overflows here
        · exact ⟨b', mem, overflows⟩
      have ih := fun {c : Conductor} => ih (fun b mem => plays b (List.mem_cons_of_mem _ mem)) rest
        (c := c)
      -- inside the block the induction is on what is left of it
      have inside (cursor : BlockCursor) : ∀ (c : Conductor) (seconds : Float), c.Able →
          Dies (settle (c, .waits seconds (.inBlock left before cursor))) := by
        induction cursor using BlockCursor.before_wf.induction with
        | _ cursor less =>
          intro c seconds h
          refine settle_dies h fun c₁ able _ => ?_
          rw [turn, resumePlayback]
          obtain ⟨c₂, able₂, ended | ⟨seconds', cursor', waits, smaller⟩⟩ :=
            resumeBlock_able able cursor
          · rw [ended]
            dsimp only
            obtain ⟨dies, unended⟩ := ih able₂
            split
            · rename_i done
              rw [done] at unended
              exact absurd rfl unended
            · exact dies
          · rw [waits]
            exact less cursor' smaller c₂ seconds' able₂
      obtain ⟨c', able, ⟨-, nothing⟩ | ⟨seconds, cursor, waits⟩⟩ := beginBlock_able h here
      · exact absurd nothing (plays b List.mem_cons_self)
      · rw [waits]
        exact ⟨inside cursor c' seconds able, fun h => (by cases h)⟩

theorem newPass_dies (h : c.Able) (plays : ∀ b ∈ c.songBlocks, b.selectors ≠ [])
    (overflow : ∃ b ∈ c.songBlocks, b.Overflows) : Dies (settle c.newPass) := by
  obtain ⟨dies, unended⟩ := playBlocks_dies c.stepsPerformed c.songBlocks plays overflow h
  simp only [newPass]
  rw [if_neg h.unstopped]
  split
  · rename_i ended
    rw [ended] at unended
    exact absurd rfl unended
  · exact dies

end Conductor

open Conductor Notation Text

/-! ### Playback of a loaded song -/

theorem initial_playable {catalog : Catalog} (scales : catalog.entries ≠ []) :
    Instrument.initial.Playable catalog 4 := by
  obtain ⟨entry, rest, all⟩ := List.exists_cons_of_ne_nil scales
  refine ⟨⟨entry.2, ?_⟩, ⟨.note, by decide +kernel⟩, Int.le_refl 1⟩
  simp only [Catalog.byId]
  rw [all]
  rfl

theorem started_able {catalog : Catalog} (scales : catalog.entries ≠ []) {audible : Bool}
    {bpm : Float} {c₀ : Conductor} (created : create audible catalog bpm = .ok c₀) (song : Song) :
    let c := Operation.performAll 0 c₀ [.setSong (some song), .setInstrument .initial, .start]
    c.Able ∧ c.songBlocks = song.blocks ∧ c.task = some (.ready .beginning) := by
  simp only [create, checkTempo] at created
  split at created
  · cases created
  · cases created
    have small : ¬ Number.TooLarge 4 := by decide +kernel
    exact ⟨⟨rfl, .initial, 4, rfl, initial_playable scales, small⟩, rfl, rfl⟩

/-- Playback of a song whose blocks all play something fails if one of them overflows. -/
theorem started_dies {catalog : Catalog} (scales : catalog.entries ≠ []) {audible : Bool}
    {bpm : Float} {c₀ : Conductor} (created : create audible catalog bpm = .ok c₀) {song : Song}
    (plays : ∀ b ∈ song.blocks, b.selectors ≠ []) (overflow : ∃ b ∈ song.blocks, b.Overflows) :
    Dies (Operation.performAll 0 c₀ [.setSong (some song), .setInstrument .initial, .start]) := by
  obtain ⟨able, blocks, task⟩ := started_able scales created song
  rw [← blocks] at plays overflow
  obtain ⟨turns, dies⟩ := newPass_dies able plays overflow
  refine ⟨turns + 1, ?_⟩
  rw [advance_ready task]
  exact dies

/-- **What can abort playback.** Playback of a loaded song with the instrument to begin with fails
exactly if a block of the song chooses a note value of too large a number, and then with nothing but
this failure.  Otherwise it goes on for ever. -/
theorem playback_fails_iff {catalog : Catalog} (scales : catalog.entries ≠ []) {audible : Bool}
    {bpm : Float} {c₀ : Conductor} (created : create audible catalog bpm = .ok c₀) {text : String}
    {song : Song} (loaded : (Song.load text).1 = some song) :
    let c := Operation.performAll 0 c₀ [.setSong (some song), .setInstrument .initial, .start]
    ((∃ turns why, (advance turns c none).task = some (.finished (.error why))) ↔
      ∃ b ∈ song.blocks, b.Overflows) ∧
    (∀ turns why, (advance turns c none).task = some (.finished (.error why)) → why = .tooLarge) ∧
    ((∀ b ∈ song.blocks, ¬ b.Overflows) →
      ∀ turns, (advance turns c none).task.any (·.live) = true) := by
  intro c
  obtain ⟨able, blocks, task⟩ := started_able scales created song
  have lasts (fits : ∀ b ∈ song.blocks, ¬ b.Overflows) (turns : Nat) :
      (advance turns c none).task.any (·.live) = true := by
    have enduring : c.Enduring := ⟨able, by rw [blocks]; exact fits, .beginning, trivial, .inl task⟩
    exact (advance_enduring none turns enduring).live
  have overflows {turns : Nat} {why : Failure}
      (failed : (advance turns c none).task = some (.finished (.error why))) :
      ∃ b ∈ song.blocks, b.Overflows := by
    by_contra none
    have live := lasts (fun b mem overflow => none ⟨b, mem, overflow⟩) turns
    rw [failed] at live
    cases live
  have dies := started_dies scales created (Song.load_plays loaded)
  refine ⟨⟨?_, ?_⟩, ?_, lasts⟩
  · rintro ⟨turns, why, failed⟩
    exact overflows failed
  · intro overflow
    obtain ⟨turns, failed⟩ := dies overflow
    exact ⟨turns, .tooLarge, failed⟩
  · intro turns why failed
    -- playback has only one end, and it is known how it ends some time
    obtain ⟨turns', failed'⟩ := dies (overflows failed)
    have same := advance_add_of_finished none turns turns' c ⟨_, failed⟩
    have same' := advance_add_of_finished none turns' turns c ⟨_, failed'⟩
    rw [Nat.add_comm, same] at same'
    rw [same', failed'] at failed
    cases failed
    rfl

/-- A song with an ordinary pulse goes on. -/
theorem playback_lasts_with_a_pulse : ∃ c₀, create true .standard 120.0 = .ok c₀ ∧
    (Song.load "P4:1").1 = some ⟨[⟨[⟨"P", "4"⟩], "1", none⟩]⟩ ∧
    ∀ turns, (advance turns (Operation.performAll 0 c₀
      [.setSong (some ⟨[⟨[⟨"P", "4"⟩], "1", none⟩]⟩), .setInstrument .initial, .start])
        none).task.any (·.live) = true := by
  have loaded : (Song.load (String.ofList ['P', '4', ':', '1'])).1 =
      some ⟨[⟨[⟨"P", "4"⟩], "1", none⟩]⟩ :=
    Song.load_block (b := ⟨⟨"P", "4"⟩, [], "1"⟩) (by decide) (by decide) (by decide +kernel)
  refine ⟨_, rfl, loaded, ?_⟩
  refine (@playback_fails_iff .standard (by decide) true 120.0 _ rfl _ _ loaded).2.2 ?_
  intro b mem overflow
  rw [List.mem_singleton.1 mem] at overflow
  rcases overflow with ⟨command, among, code, -⟩ | ⟨n, last, large⟩
  · rw [List.mem_singleton.1 among] at code
    revert code
    decide
  · have four : ([⟨"P", "4"⟩] : List Command).filterMap (·.count? 16) = [4] := by decide +kernel
    change (([⟨"P", "4"⟩] : List Command).filterMap (·.count? 16)).getLast? = some n at last
    rw [four] at last
    cases last
    revert large
    decide +kernel

/-- The digits of the number before `2 ^ 1024` in the base of the compact form. -/
def hugeDigits : List Char := List.replicate 256 'F'

/-- A song with one note whose pulse is this number. -/
def hugePulse : String := String.ofList ('P' :: (hugeDigits ++ [':', '1']))

/-- **A song can abort its performance**: it is loaded, and its playback fails. -/
theorem playback_fails_with_a_huge_pulse : ∃ song c₀, (Song.load hugePulse).1 = some song ∧
    create true .standard 120.0 = .ok c₀ ∧
    ∃ turns, (advance turns (Operation.performAll 0 c₀
      [.setSong (some song), .setInstrument .initial, .start]) none).task =
        some (.finished (.error .tooLarge)) := by
  have read : CompactBlock.read ('P' :: (hugeDigits ++ [':', '1'])) =
      .ok ⟨⟨"P", String.ofList hugeDigits⟩, [], "1"⟩ := by decide +kernel
  have loaded : (Song.load hugePulse).1 =
      some ⟨[⟨[⟨"P", String.ofList hugeDigits⟩], "1", none⟩]⟩ :=
    Song.load_block (by decide) (by decide +kernel) read
  have number : Numeral.read? 16 (strip (String.ofList hugeDigits).toList) =
      some (2 ^ 1024 - 1) := by
    rw [String.toList_ofList]
    decide +kernel
  have large : Number.TooLarge (2 ^ 1024 - 1 : Int).toNat := by decide +kernel
  have chosen :=
    @Command.count?_pulse 16 ⟨"P", String.ofList hugeDigits⟩ _ rfl number (by decide +kernel)
  have scales : Catalog.standard.entries ≠ [] := by decide
  obtain ⟨c₀, created⟩ : ∃ c₀, create true .standard 120.0 = .ok c₀ := ⟨_, rfl⟩
  refine ⟨_, c₀, loaded, created, started_dies scales created (Song.load_plays loaded) ?_⟩
  refine ⟨_, List.mem_singleton_self _, .inr ⟨_, ?_, large⟩⟩
  change ([⟨"P", String.ofList hugeDigits⟩].filterMap (Command.count? 16)).getLast? = _
  rw [List.filterMap_cons, chosen]
  rfl

end ChordSequencer
