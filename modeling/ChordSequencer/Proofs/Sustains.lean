import ChordSequencer.Proofs.Flattening
import ChordSequencer.Proofs.Places

/-!
# Sustains across note values

A sustain keeps the voices of the selector before it.  But a block of a nested text comes to several
blocks of the song, since it is split at its groups and at notes with a note value of their own, and
each of these ends with all its voices: a sustain that is the first selector of one keeps nothing.

* `Song.Origin` : where in a text a selector of its song comes from.
* `Song.exists_origin` : each selector of the song comes from the text.
* `Song.sustain_kept_iff` : when a sustain keeps the voices of the selector before it.
-/

namespace ChordSequencer

open Notation Text

namespace Song

/-- The blocks that a block of a text comes to when it is played once. -/
def once (b : NestedBlock) : List Block := blocksOf b.commands (runs NoteValue.quarter b.items)

/-- Where in a text a selector of its song comes from: from a block of the text, which has been
played some times before. -/
structure Origin (parts : List (List NestedBlock)) (p : Position) where
  /-- The blocks of the text before its block. -/
  before : List NestedBlock
  /-- Its block of the text. -/
  source : NestedBlock
  /-- The blocks of the text after its block. -/
  after : List NestedBlock
  /-- How often its block has been played before. -/
  played : Nat
  /-- How often its block will be played again. -/
  left : Nat
  /-- What its block has come to before. -/
  firsts : List Block
  /-- What its block will come to. -/
  rest : List Block
  /-- It stands in the text. -/
  text : parts.flatten = before ++ source :: after
  /-- Its block is played as often as it says. -/
  copies : source.copies = played + 1 + left
  /-- It stands in its block. -/
  blocks : once source = firsts ++ p.block :: rest
  /-- What stands before it in the song. -/
  earlier : p.earlier =
    before.flatMap ofNestedBlock ++ (List.replicate played (once source)).flatten ++ firsts
  /-- What stands after it in the song. -/
  later : p.later =
    rest ++ (List.replicate left (once source)).flatten ++ after.flatMap ofNestedBlock

namespace Origin

variable {parts : List (List NestedBlock)} {p q : Position}

/-- The selector is the first one of its block of the text. -/
def IsFirst (o : Origin parts p) : Prop := o.firsts = [] ∧ p.before = []

/-- Two selectors come from the same block of the text, played for the same time. -/
structure Alike (o' : Origin parts q) (o : Origin parts p) : Prop where
  /-- The block of the text. -/
  text : o'.before = o.before ∧ o'.source = o.source ∧ o'.after = o.after
  /-- How often it has been played before. -/
  played : o'.played = o.played

/-- Only the first of the blocks that a block of the text comes to has more commands than the one
for its note value. -/
theorem onlyTimed (o : Origin parts p) (inner : o.firsts ≠ []) : p.block.OnlyTimed := by
  obtain ⟨first, firsts, split⟩ := List.exists_cons_of_ne_nil inner
  have blocks := o.blocks
  rw [split, once] at blocks
  cases runs : runs NoteValue.quarter o.source.items with
  | nil =>
    rw [runs] at blocks
    cases blocks
  | cons r rs =>
    rw [runs, blocksOf, List.cons_append] at blocks
    have mem : p.block ∈ rs.map (blockOf []) := by
      rw [(List.cons.inj blocks).2]
      exact List.mem_append_right _ List.mem_cons_self
    obtain ⟨r', -, same⟩ := List.mem_map.1 mem
    exact ⟨r'.duration, by rw [← same]; rfl⟩

theorem of_next (o : Origin parts p) (next : q.Next p) : ∃ o' : Origin parts q, o'.Alike o := by
  obtain ⟨earlier, block, later⟩ := next.block
  exact ⟨⟨o.before, o.source, o.after, o.played, o.left, o.firsts, o.rest, o.text, o.copies,
    block ▸ o.blocks, earlier.trans o.earlier, later.trans o.later⟩, ⟨rfl, rfl, rfl⟩, rfl⟩

theorem of_turns (o : Origin parts p) (turns : q.Turns p) (inner : o.firsts ≠ []) :
    ∃ o' : Origin parts q, o'.Alike o := by
  obtain ⟨firsts, last, split⟩ : ∃ firsts last, o.firsts = firsts ++ [last] :=
    ⟨_, _, (List.dropLast_append_getLast inner).symm⟩
  have earlier := turns.earlier.symm.trans o.earlier
  rw [split, ← List.append_assoc] at earlier
  obtain ⟨front, ⟨⟩⟩ := List.append_inj' earlier rfl
  refine ⟨⟨o.before, o.source, o.after, o.played, o.left, firsts, p.block :: o.rest, o.text,
    o.copies, ?_, front, ?_⟩, ⟨rfl, rfl, rfl⟩, rfl⟩
  · rw [o.blocks, split, List.append_assoc, List.singleton_append]
  · rw [turns.later, o.later]
    rfl

end Origin

theorem split_of_flatten {α : Type} {xss : List (List α)} {ys zs : List α} {z : α}
    (h : xss.flatten = ys ++ z :: zs) : ∃ before firsts rest after,
      xss = before ++ (firsts ++ z :: rest) :: after ∧ ys = before.flatten ++ firsts ∧
      zs = rest ++ after.flatten := by
  rcases List.flatten_eq_append_iff.1 h with ⟨as, bs, rfl, rfl, begins⟩ |
    ⟨as, bs, c, cs, ds, rfl, rfl, same⟩
  · obtain ⟨empty, rest, after, rfl, none, rfl⟩ := List.flatten_eq_cons_iff.1 begins.symm
    refine ⟨as ++ empty, [], rest, after, by simp, ?_, rfl⟩
    simp [List.flatten_eq_nil_iff.2 none]
  · obtain ⟨rfl, rfl⟩ := List.cons.inj same
    exact ⟨as, bs, cs, ds, rfl, rfl, rfl⟩

/-- **Each selector of the song comes from the text.** -/
theorem exists_origin {parts : List (List NestedBlock)} {p : Position}
    (song : (ofTree (.nested parts)).blocks = p.blocks) : Nonempty (Origin parts p) := by
  rw [ofTree, List.flatMap_def, Position.blocks] at song
  obtain ⟨_, _, _, _, each, earlier, later⟩ := split_of_flatten song
  obtain ⟨before, _, text, rfl, others⟩ := List.map_eq_append_iff.1 each
  obtain ⟨source, after, rfl, played, rfl⟩ := List.map_eq_cons_iff.1 others
  rw [ofNestedBlock_eq, ← once] at played
  obtain ⟨gone, firsts, rest, ahead, all, rfl, rfl⟩ := split_of_flatten played
  obtain ⟨number, copies, others⟩ := List.replicate_eq_append_iff.1 all
  rw [List.length_cons] at number others
  rw [List.replicate_succ] at others
  obtain ⟨here, copies'⟩ := List.cons.inj others
  refine ⟨⟨before, source, after, gone.length, ahead.length, firsts, rest, text, by omega,
    here.symm, ?_, ?_⟩⟩
  · rw [earlier, ← copies, List.flatMap_def, List.append_assoc]
  · rw [later, ← copies', List.flatMap_def]

end Song

/-! ### A sustain with a note value of its own -/

/-- The instrument of a block that only chooses a note value. -/
def Instrument.timed (i : Instrument) (d : String) : Instrument :=
  { i with repeats := 1, duration := String.ofList (strip d.toList) }

namespace Conductor

variable {c c' c₁ : Conductor} {i j : Instrument} {b : Block} {step : Float}

/-- An output hears what sounds while playback goes on alone. -/
theorem Faithful.playedAt_heard (h : c.Faithful) (audible : c.audible = true)
    (begun : c.start = .ok c') (times : List Float) :
    soundingAfter (c'.playedAt times).sent = (c'.playedAt times).sounding.toFinset := by
  have moved : Moves c (c'.playedAt times) := (start_moves begun).trans (playedAt_moves times c')
  exact (h.moves moved).heard_audible (moved.audible_eq.trans audible)

/-- A block that only chooses a note value can be played in chords by an instrument that plays
chords and has pitches for its numbers. -/
theorem chordal_of_onlyTimed (hi : c.instrument = some i) (mode : i.playMode = .chord)
    (pitches : ∀ selector ∈ b.selectors, ∀ degree, selectorDegree? selector b.base = some degree →
      ∃ notes, { i with selectedNote := degree }.pitches c.catalog = .ok notes)
    {d : String} (only : b.commands = [⟨"D", d⟩]) {v : NoteValue}
    (read : NoteValue.ofText d = .ok v) (fits : ¬ Number.TooLarge v.count) :
    ∃ step, c.Chordal b { c with instrument := some (i.timed d) } (i.timed d) step := by
  obtain ⟨beats, length⟩ := NoteValue.beatsOfText_ok read fits
  obtain ⟨beats', length'⟩ := NoteValue.beatsOfText_ok (NoteValue.ofText_strip read) fits
  have called : Setting.ofCode? "D" = some .duration := by decide
  refine ⟨beats' * 60.0 / c.bpm, ⟨⟨i, hi, ?_⟩, rfl⟩, mode, fun selector _ => ?_, pitches⟩
  · simp only [only, applyCommands, applyCommand, requireInstrument, Except.bind,
      Setting.applyCode, called, Setting.apply, Setting.durationOfText, length, Except.map]
    rfl
  · rw [stepSeconds_eq rfl]
    exact congrArg _ length'

/-- A block in chords with one selector, played once: after its only step nothing is left. -/
theorem Chordal.begins (h : c.Chordal b c₁ j step) (goes : c.stopRequested = false)
    (silent : c.sounding = []) (once : j.repeats = 1) {selector : String}
    (selectors : b.selectors = [selector]) :
    ∃ c' cursor, c.beginBlock b = (c', .waits step cursor) ∧
      c'.Plays j step b.base b.selectors ∧
      c'.sounding.toFinset = j.heldAfter c.catalog b.base [selector] ∧
      ∀ d : Conductor, d.resumeBlock cursor = (d.release, .ended) := by
  obtain ⟨sent, announced⟩ := h.prepared.announced
  have quiet : (c₁.announced j).sounding = [] := by
    rw [announced]
    exact silent
  have catalog : (c₁.announced j).catalog = c.catalog := by
    rw [announced]
  have left : (List.replicate 1 b.selectors).flatten = [selector] := by
    rw [selectors]
    rfl
  obtain ⟨plays, ⟨todo, again, waits, -, empty⟩, sounding, -⟩ := (h.plays goes).first quiet left
  rw [h.prepared.beginBlock, once]
  rw [catalog] at sounding
  exact ⟨_, _, Prod.ext rfl waits, plays, sounding, fun d => nextSelector_over empty⟩

/-- Playback whose next wait is the first one of a block is in the step of its first selector. -/
theorem inStep_of_begun {place : Place} (waits : c.place? = some place) {passed : Nat}
    {cursor : BlockCursor} {seconds : Float} {p : Position}
    (resumed : c.resumePlayback place = (c', .waits seconds (.inBlock p.later passed cursor)))
    {d : Conductor} (begun : d.beginBlock p.block = (c', .waits seconds cursor))
    (song : c.songBlocks = p.blocks) (first : p.before = []) :
    (∃ task, Scene.proceed c = { c' with task := task }) ∧ (Scene.proceed c).InStep p ∧
      (Scene.proceed c).place? = some (.inBlock p.later passed cursor) := by
  obtain ⟨q, again, hold, earlier, block, later, before, rfl, -⟩ :=
    beginBlock_entered p.earlier p.later begun
  have same : q = p := by
    have selectors := p.selectors
    rw [first, ← block, q.selectors, before] at selectors
    obtain ⟨selector, after⟩ := List.cons.inj selectors
    exact Position.ext earlier block later (before.trans first.symm) selector after
  subst same
  have there := settle_place? (c.resumePlayback place)
  have blocks := (proceed_songBlocks (c := c)).trans song
  rw [proceed_place? waits, turn] at blocks ⊢
  rw [resumed] at there blocks ⊢
  exact ⟨⟨_, rfl⟩, ⟨blocks, passed, again, hold, there⟩, there⟩

end Conductor

namespace Song

/-- A note, and a sustain with a note value of its own. -/
def tied : List (List NestedBlock) := [[⟨[.note "1" none, .note "=" (some "8n")], []⟩]]

/-- The note of this text. -/
def tiedNote : Position :=
  ⟨[], ⟨[⟨"D", "4n"⟩], "1", some " "⟩, [⟨[⟨"D", "8n"⟩], "=", some " "⟩], [], "1", [],
    by decide +kernel⟩

/-- The sustain of this text. -/
def tiedSustain : Position :=
  ⟨[⟨[⟨"D", "4n"⟩], "1", some " "⟩], ⟨[⟨"D", "8n"⟩], "=", some " "⟩, [], [], "=", [],
    by decide +kernel⟩

open Conductor

theorem tied_sustain {c : Conductor} {i : Instrument} {passed : Nat} {cursor : BlockCursor}
    (waits : c.place? = some (.inBlock tiedNote.later passed cursor))
    (ends : c.resumeBlock cursor = (c.release, .ended)) (goes : c.stopRequested = false)
    (hi : c.instrument = some i) (mode : i.playMode = .chord)
    (song : c.songBlocks = tiedSustain.blocks) :
    let s := Scene.proceed c
    s.InStep tiedSustain ∧ s.mode? = some .chord ∧ s.sounding = [] := by
  intro s
  obtain ⟨sent, released⟩ := c.release_frame
  have going : c.release.stopRequested = false := by
    rw [released]
    exact goes
  have pitches : ∀ selector ∈ tiedSustain.block.selectors, ∀ degree,
      selectorDegree? selector tiedSustain.block.base = some degree →
      ∃ notes, { i with selectedNote := degree }.pitches c.release.catalog = .ok notes := by
    intro selector mem degree number
    rw [tiedSustain.selectors] at mem
    rw [List.mem_singleton.1 mem] at number
    cases number
  obtain ⟨step, chordal⟩ := chordal_of_onlyTimed (release_instrument.trans hi) mode pitches rfl
    (show NoteValue.ofText "8n" = .ok ⟨8, .note⟩ by decide +kernel) (by decide +kernel)
  obtain ⟨c₁, cursor', begun, plays, silent, -⟩ :=
    chordal.begins going rfl rfl tiedSustain.selectors
  have resumed : c.resumePlayback (.inBlock tiedNote.later passed cursor) =
      (c₁, .waits step (.inBlock tiedSustain.later passed cursor')) := by
    have last : tiedNote.later = tiedSustain.block :: tiedSustain.later := rfl
    simp only [resumePlayback, ends, last, playBlocks, going, Bool.false_eq_true, ↓reduceIte, begun]
  obtain ⟨⟨task, same⟩, there, -⟩ := inStep_of_begun waits resumed begun song rfl
  obtain ⟨j, hj, kin⟩ := plays.instrument
  refine ⟨there, ?_, ?_⟩ <;> simp only [s, same]
  · exact (mode?_some hj).trans (congrArg some (kin.settings.playMode.trans mode))
  · exact (List.toFinset_eq_empty_iff _).1 silent

theorem tied_turns {c : Conductor} (waits : c.place? = some .beginning)
    (goes : c.stopRequested = false) (silent : c.sounding = []) (catalog : c.catalog = .standard)
    (hi : c.instrument = some .initial) (song : c.songBlocks = tiedNote.blocks) :
    let s := Scene.proceed c
    (s.InStep tiedNote ∧ s.sounding.toFinset = {⟨0, 60⟩}) ∧
    ∀ time, let s' := Scene.proceed { s with clock := time }
      s'.InStep tiedSustain ∧ s'.mode? = some .chord ∧ s'.sounding = [] := by
  intro s
  have pitches : ∀ selector ∈ tiedNote.block.selectors, ∀ degree,
      selectorDegree? selector tiedNote.block.base = some degree →
      ∃ notes, { Instrument.initial with selectedNote := degree }.pitches c.catalog =
        .ok notes := by
    intro selector _ degree _
    rw [catalog]
    exact ⟨_, rfl⟩
  obtain ⟨step, chordal⟩ := chordal_of_onlyTimed hi rfl pitches rfl
    (show NoteValue.ofText "4n" = .ok ⟨4, .note⟩ by decide +kernel) (by decide +kernel)
  obtain ⟨c₁, cursor, begun, plays, sounding, ends⟩ :=
    chordal.begins goes silent rfl tiedNote.selectors
  have resumed : c.resumePlayback .beginning =
      (c₁, .waits step (.inBlock tiedNote.later c.stepsPerformed cursor)) := by
    have first : tiedNote.blocks = tiedNote.block :: tiedNote.later := rfl
    simp only [resumePlayback, newPass, goes, Bool.false_eq_true, ↓reduceIte, song, first,
      playBlocks, begun]
  obtain ⟨⟨task, same⟩, there, place⟩ := inStep_of_begun waits resumed begun song rfl
  refine ⟨⟨there, ?_⟩, fun time => ?_⟩
  · simp only [s, same]
    rw [sounding, catalog]
    decide +kernel
  · obtain ⟨i, hi', kin⟩ := plays.instrument
    have going : s.stopRequested = false ∧ s.instrument = some i := by
      simp only [s, same]
      exact ⟨plays.goes, hi'⟩
    exact tied_sustain (c := { s with clock := time }) place (ends _) going.1 going.2
      kin.settings.playMode there.song

theorem tied_read : Notation.read "\x7b\x7b\x7b1 8n:=\x7d\x7d\x7d" = .success (.nested tied) := by
  cbv

theorem tied_origin : ∃ o : Origin tied tiedSustain, ¬ o.IsFirst := by
  have copies : NestedBlock.copies ⟨[.note "1" none, .note "=" (some "8n")], []⟩ = 1 := by
    decide +kernel
  have split : once ⟨[.note "1" none, .note "=" (some "8n")], []⟩ = tiedNote.blocks := by
    decide +kernel
  refine ⟨⟨[], _, [], 0, 0, [tiedNote.block], [], rfl, copies, split, rfl, rfl⟩, ?_⟩
  rintro ⟨none, -⟩
  cases none

theorem tied_played : ∃ c started : Conductor, c.song = some (ofTree (.nested tied)) ∧
    c.running = false ∧ c.start = .ok started ∧ (c.Faithful ∧ c.audible = true) ∧ ∀ time time',
      ((started.playedAt [time]).InStep tiedNote ∧
        (started.playedAt [time]).sounding.toFinset = {⟨0, 60⟩}) ∧
      (started.playedAt [time, time']).InStep tiedSustain ∧
      (started.playedAt [time, time']).mode? = some .chord ∧
      (started.playedAt [time, time']).sounding = [] := by
  obtain ⟨c₀, created⟩ : ∃ c₀, create true .standard 120.0 = .ok c₀ := ⟨_, rfl⟩
  have fresh : c₀.running = false ∧ c₀.sounding = [] ∧ c₀.catalog = .standard := by
    cases created
    exact ⟨rfl, rfl, rfl⟩
  obtain ⟨idle, silent, catalog⟩ := fresh
  have heard : Faithful { c₀ with
      song := some (ofTree (.nested tied)), instrument := some .initial } ∧ c₀.audible = true :=
    ⟨(create_faithful created).alike rfl rfl rfl, create_audible created⟩
  have blocks : (ofTree (.nested tied)).blocks = tiedNote.blocks := by decide +kernel
  have begun : start { c₀ with song := some (ofTree (.nested tied)), instrument := some .initial } =
      .ok { c₀ with
        song := some (ofTree (.nested tied))
        instrument := some .initial
        stopRequested := false
        running := true
        task := some (.ready .beginning) } := by
    simp [start, idle]
  refine ⟨{ c₀ with song := some (ofTree (.nested tied)), instrument := some .initial }, _, rfl,
    idle, begun, heard, fun time time' => ?_⟩
  obtain ⟨note, sustain⟩ := tied_turns (c := { c₀ with
      song := some (ofTree (.nested tied))
      instrument := some .initial
      stopRequested := false
      running := true
      task := some (.ready .beginning)
      clock := time }) rfl rfl silent catalog rfl blocks
  exact ⟨note, sustain time'⟩

/-! ### What a sustain keeps -/

/-- **When a sustain keeps the voices of the selector before it.**  Let a nested text be played
alone, and let playback be in the step of a sustain, in chords.  If the sustain is not the first
selector of its block of the text, the step before was that of the selector before it in this block.
If both stand in one block of the song, that is, if no group begins or ends between them and both
have the note value of their group, what sounded there still sounds; otherwise nothing does.  So the
voices are the same exactly if the sustain is not the first selector of its block of the song, or
nothing sounded before.  If the conductor has an output and remembers what the output heard, the
same is true of the voices that the output hears. -/
theorem sustain_kept_iff {text : String} {parts : List (List NestedBlock)}
    (read : Notation.read text = .success (.nested parts)) {c started : Conductor}
    (song : c.song = some (ofTree (.nested parts))) (idle : c.running = false)
    (begun : c.start = .ok started) (times : List Float) (time : Float) {p : Position}
    (there : (started.playedAt (times ++ [time])).InStep p) (sustain : p.selector = "=")
    (chords : (started.playedAt (times ++ [time])).mode? = some .chord) :
    let s := started.playedAt times
    let s' := started.playedAt (times ++ [time])
    Nonempty (Origin parts p) ∧ ∀ o : Origin parts p, ¬ o.IsFirst →
      ∃ (q : Position) (o' : Origin parts q), o'.Alike o ∧ s.InStep q ∧ s.mode? = some .chord ∧
        (q.Next p ∧ s'.sounding = s.sounding ∨ q.Turns p ∧ s'.sounding = []) ∧
        (s'.sounding.toFinset = s.sounding.toFinset ↔ p.before ≠ [] ∨ s.sounding = []) ∧
        (c.Faithful → c.audible = true →
          (soundingAfter s'.sent = soundingAfter s.sent ↔
            p.before ≠ [] ∨ soundingAfter s.sent = ∅)) := by
  intro s s'
  have loaded : (load text).1 = some (ofTree (.nested parts)) := by
    rw [load, read]
    rfl
  have blocks : c.songBlocks = (ofTree (.nested parts)).blocks := by
    rw [Conductor.songBlocks, song]
  obtain ⟨playing, same⟩ :=
    Conductor.start_playing (blocks ▸ load_plays loaded) idle begun
  have turned : s' = Scene.proceed { s with clock := time } := started.playedAt_append times [time]
  have now : s'.songBlocks = (ofTree (.nested parts)).blocks :=
    (Conductor.playedAt_songBlocks _ started).trans (same.trans blocks)
  refine ⟨exists_origin (now.symm.trans there.song), fun o inner => ?_⟩
  have reached : p.before ≠ [] ∨ o.firsts ≠ [] := by
    by_contra first
    obtain ⟨before, firsts⟩ := not_or.1 first
    exact inner ⟨not_not.1 firsts, not_not.1 before⟩
  have held := ((playing.playedAt times).pass time).sustain (p := p)
  rw [← turned] at held
  have heard (kept : s'.sounding.toFinset = s.sounding.toFinset ↔ p.before ≠ [] ∨ s.sounding = [])
      (faithful : c.Faithful) (audible : c.audible = true) :
      soundingAfter s'.sent = soundingAfter s.sent ↔ p.before ≠ [] ∨ soundingAfter s.sent = ∅ := by
    have before := faithful.playedAt_heard audible begun times
    have after := faithful.playedAt_heard audible begun (times ++ [time])
    rw [before, after, kept, List.toFinset_eq_empty_iff]
  have behind (some : o.firsts ≠ []) : p.earlier ≠ [] := by
    rw [o.earlier]
    exact List.append_ne_nil_of_right_ne_nil _ some
  obtain ⟨q, before, mode, next | turns⟩ :=
    held there sustain chords (reached.imp_right fun some => ⟨behind some, o.onlyTimed some⟩)
  · obtain ⟨next, sounding⟩ := next
    obtain ⟨o', alike⟩ := o.of_next next
    have inside : p.before ≠ [] := by
      rw [next.before]
      exact List.concat_ne_nil _ _
    have kept : s'.sounding.toFinset = s.sounding.toFinset ↔
        p.before ≠ [] ∨ s.sounding = [] :=
      iff_of_true (congrArg List.toFinset sounding) (.inl inside)
    exact ⟨q, o', alike, ⟨before.song, before.waits⟩, mode, .inl ⟨next, sounding⟩, kept,
      heard kept⟩
  · obtain ⟨turns, silent⟩ := turns
    obtain ⟨o', alike⟩ := o.of_turns turns (reached.resolve_left fun some => some turns.first)
    have kept : s'.sounding.toFinset = s.sounding.toFinset ↔
        p.before ≠ [] ∨ s.sounding = [] := by
      rw [silent, turns.first, List.toFinset_nil, eq_comm, List.toFinset_eq_empty_iff]
      simp
    exact ⟨q, o', alike, ⟨before.song, before.waits⟩, mode, .inr ⟨turns, silent⟩, kept,
      heard kept⟩

/-- The sustain of this text is such a sustain. -/
theorem sustain_kept_iff_tied : ∃ c started : Conductor,
    Notation.read "\x7b\x7b\x7b1 8n:=\x7d\x7d\x7d" = .success (.nested tied) ∧
    c.song = some (ofTree (.nested tied)) ∧ c.running = false ∧ c.start = .ok started ∧
    ∀ time time',
      (started.playedAt [time, time']).InStep tiedSustain ∧ tiedSustain.selector = "=" ∧
      (started.playedAt [time, time']).mode? = some .chord ∧
      ∃ q, (started.playedAt [time]).InStep q ∧
        ((started.playedAt [time, time']).sounding.toFinset =
            (started.playedAt [time]).sounding.toFinset ↔
          tiedSustain.before ≠ [] ∨ (started.playedAt [time]).sounding = []) ∧
        (soundingAfter (started.playedAt [time, time']).sent =
            soundingAfter (started.playedAt [time]).sent ↔
          tiedSustain.before ≠ [] ∨ soundingAfter (started.playedAt [time]).sent = ∅) := by
  obtain ⟨c, started, song, idle, begun, ⟨faithful, audible⟩, played⟩ := tied_played
  obtain ⟨o, inner⟩ := tied_origin
  refine ⟨c, started, tied_read, song, idle, begun, fun time time' => ?_⟩
  obtain ⟨-, there, chords, -⟩ := played time time'
  obtain ⟨-, kept⟩ := sustain_kept_iff tied_read song idle begun [time] time' there rfl chords
  obtain ⟨q, -, -, before, -, -, iff, heard⟩ := kept o inner
  exact ⟨there, rfl, chords, q, before, iff, heard faithful audible⟩

/-- **A sustain with a note value of its own loses the voices before it.**  In a text of a note and
such a sustain, the note sounds in its step, and an output hears it.  In the next step, which is
that of the sustain, nothing sounds and nothing is heard, though the sustain is not the first
selector of the text. -/
theorem sustain_lost_at_note_value : ∃ c started : Conductor,
    Notation.read "\x7b\x7b\x7b1 8n:=\x7d\x7d\x7d" = .success (.nested tied) ∧
    c.song = some (ofTree (.nested tied)) ∧ c.running = false ∧ c.start = .ok started ∧
    tiedSustain.selector = "=" ∧ (∃ o : Origin tied tiedSustain, ¬ o.IsFirst) ∧
    tiedNote.Turns tiedSustain ∧ ∀ time time',
      ((started.playedAt [time]).InStep tiedNote ∧
        (started.playedAt [time]).sounding.toFinset = {⟨0, 60⟩} ∧
        soundingAfter (started.playedAt [time]).sent = {⟨0, 60⟩}) ∧
      (started.playedAt [time, time']).InStep tiedSustain ∧
      (started.playedAt [time, time']).mode? = some .chord ∧
      (started.playedAt [time, time']).sounding = [] ∧
      soundingAfter (started.playedAt [time, time']).sent = ∅ := by
  obtain ⟨c, started, song, idle, begun, ⟨faithful, audible⟩, played⟩ := tied_played
  refine ⟨c, started, tied_read, song, idle, begun, rfl, tied_origin, ⟨rfl, rfl, rfl, rfl⟩,
    fun time time' => ?_⟩
  obtain ⟨⟨first, sounding⟩, there, chords, silent⟩ := played time time'
  have heard := faithful.playedAt_heard audible begun
  exact ⟨⟨first, sounding, (heard _).trans sounding⟩, there, chords, silent,
    (heard _).trans (by rw [silent]; rfl)⟩

end Song

end ChordSequencer
