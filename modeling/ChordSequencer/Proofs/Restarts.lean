import ChordSequencer.Proofs.Places
import ChordSequencer.Proofs.Unison

/-!
# Which notes begin once more

A note that begins while its voice sounds is heard as one that begins once more, but the voice is
remembered only once.  Playback releases its voices before it begins others, and an arpeggio ends
each voice before the next one: only the voices of one chord can meet, and they do if and only if
they are in unison.

* `NoRestarts` : no note begins while its voice sounds.
* `Conductor.Walks` : what a stretch of playback adds to this, up to its next wait.
* `Conductor.beginSelector_walks` : how a selector begins; here a chord is struck.
* `Conductor.resumePlayback_walks` : from one wait of playback to the next.
-/

namespace ChordSequencer

/-- No note among some triggers begins while its voice sounds. -/
def NoRestarts (sent : List (Float × Trigger)) : Prop :=
  ∀ time channel note velocity earlier,
    (time, Trigger.noteOn channel note velocity) :: earlier <:+ sent →
      ⟨channel, note⟩ ∉ soundingAfter earlier

theorem noRestarts_nil : NoRestarts [] := by
  intro time channel note velocity earlier h
  simp at h

theorem noRestarts_cons {event : Float × Trigger} {sent : List (Float × Trigger)} :
    NoRestarts (event :: sent) ↔ NoRestarts sent ∧ ∀ channel note velocity,
      event.2 = .noteOn channel note velocity → ⟨channel, note⟩ ∉ soundingAfter sent := by
  constructor
  · intro h
    refine ⟨fun time channel note velocity earlier hs => ?_, fun channel note velocity begins => ?_⟩
    · exact h time channel note velocity earlier (hs.trans (List.suffix_cons _ _))
    · refine h event.1 channel note velocity sent ?_
      rw [← begins]
  · rintro ⟨h, first⟩ time channel note velocity earlier hs
    rcases List.suffix_cons_iff.1 hs with here | hs
    · obtain ⟨rfl, rfl⟩ := List.cons.inj here
      exact first channel note velocity rfl
    · exact h time channel note velocity earlier hs

namespace Conductor

variable {c c' : Conductor} {i : Instrument} {notes : List Int}

/-! ### Triggers -/

/-- A conductor that is heard: it remembers what its output heard, and its scales can be found by
their names. -/
structure Heard (c : Conductor) : Prop extends c.Faithful where
  /-- It has an output. -/
  audible : c.audible = true
  /-- The scales. -/
  catalog : c.catalog.WellFormed

theorem Heard.sounding (h : c.Heard) : soundingAfter c.sent = c.sounding.toFinset := by
  rw [h.heard, if_pos h.audible]

theorem Heard.changes (h : c.Heard) (changes : Changes c c') : c'.Heard := by
  have frame := changes.frame_eq
  refine ⟨h.toFaithful.moves changes.moves, (congrArg Frame.audible frame).trans h.audible, ?_⟩
  have catalog : c'.catalog = c.catalog := congrArg Frame.catalog frame
  rw [catalog]
  exact h.catalog

theorem Heard.alike (h : c.Heard) (audible : c'.audible = c.audible)
    (catalog : c'.catalog = c.catalog) (sent : c'.sent = c.sent)
    (sounding : c'.sounding = c.sounding) : c'.Heard :=
  ⟨h.toFaithful.alike audible sent sounding, audible.trans h.audible, catalog ▸ h.catalog⟩

theorem noRestarts_send {t : Trigger}
    (other : ∀ channel note velocity, t ≠ .noteOn channel note velocity) :
    NoRestarts (c.send t).sent ↔ NoRestarts c.sent := by
  simp only [send]
  split
  · rw [noRestarts_cons]
    exact and_iff_left fun channel note velocity same => absurd same (other channel note velocity)
  · exact Iff.rfl

theorem noRestarts_noteOff (channel note : Int) :
    NoRestarts (c.noteOff channel note).sent ↔ NoRestarts c.sent := by
  simp only [noteOff]
  split
  · exact noRestarts_send fun _ _ _ => Trigger.noConfusion
  · exact Iff.rfl

theorem noRestarts_foldl_off (voices : List Voice) :
    ∀ c : Conductor, NoRestarts (voices.foldl (fun c v => c.send v.off) c).sent ↔
      NoRestarts c.sent := by
  induction voices with
  | nil => exact fun _ => Iff.rfl
  | cons v voices ih =>
    exact fun c => (ih (c.send v.off)).trans (noRestarts_send fun _ _ _ => Trigger.noConfusion)

theorem noRestarts_release : NoRestarts c.release.sent ↔ NoRestarts c.sent :=
  noRestarts_foldl_off _ c

theorem Heard.noRestarts_noteOnOf (h : c.Heard) (i : Instrument) (note : Int) :
    NoRestarts (c.noteOnOf i note).sent ↔ NoRestarts c.sent ∧ ⟨i.channel, note⟩ ∉ c.sounding := by
  have sent : (c.noteOnOf i note).sent =
      (c.clock, .noteOn i.channel note i.velocity) :: c.sent := by
    simp only [noteOnOf, noteOn, send, h.audible, ↓reduceIte]
    split <;> rfl
  rw [sent, noRestarts_cons, h.sounding]
  refine and_congr_right fun _ => ⟨fun first => ?_, fun silent channel note velocity same => ?_⟩
  · exact fun sounds => first _ _ _ rfl (List.mem_toFinset.2 sounds)
  · cases same
    exact fun sounds => silent (List.mem_toFinset.1 sounds)

/-- The notes of a chord begin once more if they sound, or if two of them are the same. -/
theorem Heard.noRestarts_foldl (i : Instrument) (notes : List Int) :
    ∀ {c : Conductor}, c.Heard →
      (NoRestarts (notes.foldl (noteOnOf · i) c).sent ↔ NoRestarts c.sent ∧ notes.Nodup ∧
        ∀ note ∈ notes, ⟨i.channel, note⟩ ∉ c.sounding) := by
  induction notes with
  | nil => simp
  | cons note notes ih =>
    intro c h
    obtain ⟨sent, sounding, same, added⟩ := noteOn_sounding (c := c) i.channel note i.velocity
    have voices (other : Int) : (⟨i.channel, other⟩ : Voice) ∈ (c.noteOnOf i note).sounding ↔
        other = note ∨ ⟨i.channel, other⟩ ∈ c.sounding := by
      rw [noteOnOf, same, ← List.mem_toFinset, added, Finset.mem_insert, List.mem_toFinset]
      simp
    -- after the first note its voice sounds as well: the others must differ from it
    rw [List.foldl_cons, ih (h.changes (.single (.begins i note))), h.noRestarts_noteOnOf,
      List.nodup_cons, List.forall_mem_cons]
    simp only [voices, not_or]
    constructor
    · rintro ⟨⟨before, first⟩, distinct, others⟩
      exact ⟨before, ⟨fun mem => (others note mem).1 rfl, distinct⟩, first,
        fun other mem => (others other mem).2⟩
    · rintro ⟨before, ⟨single, distinct⟩, first, others⟩
      refine ⟨⟨before, first⟩, distinct, fun other mem => ⟨?_, others other mem⟩⟩
      rintro rfl
      exact single mem

/-! ### Selectors -/

/-- What a stretch of playback from `c` adds to the notes that begin once more: none, unless it ends
with a chord that is struck.  `tidy` and `struck` are about the wait to which it comes, `rest`
about its end. -/
def Walks {κ : Type} (tidy struck : Conductor → κ → Prop) (rest : Conductor → Prop)
    (c : Conductor) : Conductor × Outcome κ → Prop
  | (c', .waits _ next) =>
    tidy c' next ∧ (NoRestarts c'.sent ↔ NoRestarts c.sent ∧ ¬ struck c' next)
  | (c', _) => rest c' ∧ (NoRestarts c'.sent ↔ NoRestarts c.sent)

section Walks

variable {κ : Type} {tidy tidy' struck struck' : Conductor → κ → Prop}
  {rest : Conductor → Prop} {r : Conductor × Outcome κ}

theorem Walks.after (w : Walks tidy struck rest c' r)
    (same : NoRestarts c'.sent ↔ NoRestarts c.sent) : Walks tidy struck rest c r := by
  obtain ⟨c₁, outcome⟩ := r
  cases outcome with
  | waits seconds next => exact ⟨w.1, w.2.trans (and_congr_left' same)⟩
  | ended | failed why => exact ⟨w.1, w.2.trans same⟩

theorem Walks.imp (w : Walks tidy struck rest c r)
    (h : ∀ c' next, tidy c' next → tidy' c' next ∧ (struck' c' next ↔ struck c' next)) :
    Walks tidy' struck' rest c r := by
  obtain ⟨c₁, outcome⟩ := r
  cases outcome with
  | waits seconds next =>
    obtain ⟨there, same⟩ := h c₁ next w.1
    exact ⟨there, w.2.trans (and_congr_right' (not_congr same.symm))⟩
  | ended | failed why => exact w

end Walks

/-- What is left of a selector at a wait: of an arpeggio only the voice sounds that is to end. -/
def Tidy (c : Conductor) : Hold → Prop
  | .step => True
  | .voice note _ _ own => own = none ∧ ∃ i, c.instrument = some i ∧ i.playMode ≠ .chord ∧
      ∀ v ∈ c.sounding, v = ⟨i.channel, note⟩

/-- The instrument plays chords, and voices of the present one are in unison. -/
def Clashes (c : Conductor) : Prop :=
  ∃ i, c.instrument = some i ∧ i.playMode = .chord ∧ i.InUnison c.catalog

theorem not_clashes (hi : c.instrument = some i) (arpeggio : i.playMode ≠ .chord) :
    ¬ c.Clashes := by
  rintro ⟨j, hj, chord, -⟩
  cases hi.symm.trans hj
  exact arpeggio chord

theorem startVoice_walks (heard : c.Heard) (silent : c.sounding = []) (hi : c.instrument = some i)
    (arpeggio : i.playMode ≠ .chord) (seconds : Float) (note : Int) (rest : List Int) :
    Walks (fun c' hold => c'.Tidy hold ∧ ¬ c'.Clashes) (fun _ _ => False) (fun _ => True) c
      (c.startVoice i seconds note rest none) := by
  simp only [startVoice]
  split
  · exact ⟨trivial, Iff.rfl⟩
  · have kept : (c.noteOnOf i note).instrument = some i := (noteOn_instrument ..).trans hi
    refine ⟨⟨⟨rfl, i, kept, arpeggio, fun v mem => ?_⟩, not_clashes kept arpeggio⟩, ?_⟩
    · obtain ⟨sent, sounding, same, added⟩ := noteOn_sounding (c := c) i.channel note i.velocity
      rw [noteOnOf, same, ← List.mem_toFinset, added, silent] at mem
      simpa using mem
    · rw [heard.noRestarts_noteOnOf, silent]
      simp

theorem sound_walks (heard : c.Heard) (silent : c.sounding = []) (hi : c.instrument = some i)
    (unison : notes.Nodup ↔ ¬ i.InUnison c.catalog) (step : Float) :
    Walks Tidy (fun c' _ => c'.Clashes) (fun _ => True) c (c.sound i step notes) := by
  simp only [sound]
  split
  · rename_i chord
    obtain ⟨sent, sounding, begun, -⟩ := foldl_noteOnOf_sounding i notes c
    have clashes : (notes.foldl (noteOnOf · i) c).Clashes ↔ i.InUnison c.catalog := by
      rw [begun]
      refine ⟨?_, fun meets => ⟨i, hi, chord, meets⟩⟩
      rintro ⟨j, hj, -, meets⟩
      cases hi.symm.trans hj
      exact meets
    -- all voices begin from silence, so that one meets another only if both have one pitch
    refine ⟨trivial, (heard.noRestarts_foldl i notes).trans ?_⟩
    simp only [silent, List.not_mem_nil, not_false_eq_true, implies_true, and_true, clashes, unison]
  · rename_i arpeggio
    split
    · exact ⟨trivial, (and_iff_left (not_clashes hi arpeggio)).symm⟩
    · exact (startVoice_walks heard silent hi arpeggio _ _ _).imp
        fun c' hold there => ⟨there.1, iff_false_intro there.2⟩

theorem playDegree_walks (heard : c.Heard) (silent : c.sounding = []) (step : Float)
    (degree : Int) :
    Walks Tidy (fun c' _ => c'.Clashes) (fun _ => True) c (c.playDegree i step degree) := by
  simp only [playDegree]
  split
  · exact ⟨trivial, Iff.rfl⟩
  · rename_i notes j selected
    obtain ⟨frame, sent, sounding, instrument⟩ :=
      warnUnplayable_quiet (c := { c with instrument := some j }) notes
    have catalog : ({ c with instrument := some j }.warnUnplayable notes).catalog = c.catalog :=
      congrArg Frame.catalog frame
    have heard' : ({ c with instrument := some j }.warnUnplayable notes).Heard :=
      heard.alike (congrArg Frame.audible frame) catalog sent sounding
    have unison := Instrument.nodup_selected_iff heard.catalog selected
    rw [← catalog] at unison
    exact (sound_walks heard' (sounding.trans silent) instrument unison step).after (by rw [sent])

/-- A selector that plays a degree. -/
def IsNumber (selector : String) (base : Nat) : Prop :=
  ¬ (selector = "=" ∨ selector = "." ∨ selector = "s") ∧
    (selectorDegree? selector base).isSome = true

/-- **A selector begins.** -/
theorem beginSelector_walks (heard : c.Heard) (selector : String) (base : Nat) :
    Walks Tidy (fun c' _ => IsNumber selector base ∧ c'.Clashes) (fun _ => True) c
      (c.beginSelector selector base) := by
  -- whatever is not held begins with the end of all voices
  have released : NoRestarts c.counted.release.sent ↔ NoRestarts c.sent := noRestarts_release
  cases length : c.stepSeconds with
  | error why =>
    cases hi : c.instrument <;> simp only [beginSelector, hi, length] <;> exact ⟨trivial, Iff.rfl⟩
  | ok step =>
    obtain ⟨i, hi⟩ := stepSeconds_instrument length
    have sign (same : selector = "=" ∨ selector = "." ∨ selector = "s") (c' : Conductor) :
        ¬ (IsNumber selector base ∧ c'.Clashes) := fun number => number.1.1 same
    by_cases hold : selector = "="
    · rw [beginSelector_hold length hold]
      exact ⟨trivial, (and_iff_left (sign (.inl hold) _)).symm⟩
    · by_cases rest : selector = "." ∨ selector = "s"
      · rw [beginSelector_rest length rest]
        exact ⟨trivial, released.trans (and_iff_left (sign (.inr rest) _)).symm⟩
      · have signs := not_or.2 ⟨hold, rest⟩
        cases number : selectorDegree? selector base with
        | none =>
          rw [beginSelector_unknown length signs number]
          refine ⟨trivial, released.trans (and_iff_left fun played => ?_).symm⟩
          rw [IsNumber, number] at played
          cases played.1.2
        | some degree =>
          rw [beginSelector_number length signs number hi]
          have known : IsNumber selector base := ⟨signs, by rw [number]; rfl⟩
          have counted : c.counted.Heard := heard.alike rfl rfl rfl rfl
          refine ((playDegree_walks (counted.changes (.single .silences)) rfl step degree).after
            released).imp fun c' hold tidy => ⟨tidy, and_iff_right known⟩

theorem resumeSelector_walks (heard : c.Heard) {hold : Hold} (tidy : c.Tidy hold) :
    Walks (fun c' hold => c'.Tidy hold ∧ ¬ c'.Clashes) (fun _ _ => False) (fun _ => True) c
      (c.resumeSelector hold) := by
  cases hold with
  | step => exact ⟨trivial, Iff.rfl⟩
  | voice note rest seconds own =>
    obtain ⟨rfl, i, hi, arpeggio, alone⟩ := tidy
    have off : NoRestarts (c.noteOff i.channel note).sent ↔ NoRestarts c.sent :=
      noRestarts_noteOff ..
    -- the voice that ends is the only one, and the next one begins from silence
    have silent : (c.noteOff i.channel note).sounding = [] := by
      simp only [noteOff]
      split
      · exact List.filter_eq_nil_iff.2 fun v mem => by simpa using alone v mem
      · rename_i other
        refine List.eq_nil_iff_forall_not_mem.2 fun v mem => other ?_
        rw [← alone v mem]
        exact mem
    simp only [resumeSelector, Option.none_or, hi]
    split
    · exact ⟨trivial, off⟩
    · exact (startVoice_walks (heard.changes (.single (.ends ..))) silent
        ((noteOff_instrument ..).trans hi) arpeggio _ _ _).after off

/-! ### Blocks -/

end Conductor

/-- The selector in the step of which a block waits: the one before those that are left. -/
def BlockCursor.current? (cursor : BlockCursor) : Option String :=
  cursor.all.reverse[cursor.todo.length]?

theorem BlockCursor.current?_eq {base again : Nat} {selector : String} {todo all : List String}
    {hold : Hold} (stands : selector :: todo <:+ all) :
    BlockCursor.current? ⟨base, todo, all, again, hold⟩ = some selector := by
  obtain ⟨before, rfl⟩ := stands
  simp [current?]

namespace Conductor

variable {c c' : Conductor}

/-- A wait of a block: the selectors that are left are the last ones. -/
def Stands (c : Conductor) (cursor : BlockCursor) : Prop :=
  c.Tidy cursor.hold ∧ cursor.todo <:+ cursor.all

/-- In the step of a number a chord sounds of which voices are in unison. -/
def Strikes (c : Conductor) (cursor : BlockCursor) : Prop :=
  (∃ selector, cursor.current? = some selector ∧ IsNumber selector cursor.base) ∧ c.Clashes

/-- Nothing sounds. -/
def Silent (c : Conductor) : Prop := c.sounding = []

theorem enterSelector_walks (heard : c.Heard) (base : Nat) {selector : String}
    {todo all : List String} (again : Nat) (stands : selector :: todo <:+ all) :
    Walks Stands Strikes Silent c (c.enterSelector base selector todo all again) := by
  have walks := beginSelector_walks heard selector base
  simp only [enterSelector]
  split
  · exact ⟨rfl, noRestarts_release⟩
  · split <;> rename_i begun <;> rw [begun] at walks
    · rename_i c' seconds hold
      refine ⟨⟨walks.1, (List.suffix_cons _ _).trans stands⟩, walks.2.trans ?_⟩
      rw [Strikes, BlockCursor.current?_eq stands]
      simp
    · exact ⟨rfl, noRestarts_release.trans walks.2⟩
    · exact ⟨rfl, noRestarts_release.trans walks.2⟩

theorem nextSelector_walks (heard : c.Heard) (base : Nat) {todo all : List String} (again : Nat)
    (stands : todo <:+ all) :
    Walks Stands Strikes Silent c (c.nextSelector base todo all again) := by
  simp only [nextSelector]
  split
  · exact enterSelector_walks heard base _ stands
  · exact enterSelector_walks heard base _ List.suffix_rfl
  · exact ⟨rfl, noRestarts_release⟩

theorem resumeBlock_walks (heard : c.Heard) {cursor : BlockCursor} (stands : c.Stands cursor) :
    Walks Stands Strikes Silent c (c.resumeBlock cursor) := by
  have walks := resumeSelector_walks heard stands.1
  have changes := c.resumeSelector_changes cursor.hold
  simp only [resumeBlock]
  split <;> rename_i resumed <;> rw [resumed] at walks changes
  · refine ⟨⟨walks.1.1, stands.2⟩, walks.2.trans (and_congr_right' (not_congr ?_))⟩
    exact (iff_false_intro fun strikes => walks.1.2 strikes.2).symm
  · exact (nextSelector_walks (heard.changes changes) _ _ stands.2).after walks.2
  · exact ⟨rfl, noRestarts_release.trans walks.2⟩

theorem beginBlock_walks (heard : c.Heard) (silent : c.Silent) (b : Block) :
    Walks Stands Strikes Silent c (c.beginBlock b) := by
  rcases beginBlock_cases (c := c) b with ⟨instrument, log, why, failed⟩ | ⟨c₁, j, prepared⟩
  · rw [failed]
    exact ⟨silent, Iff.rfl⟩
  · obtain ⟨log, kept⟩ := prepared.kept
    have heard' : c₁.Heard := by
      rw [kept]
      exact heard.alike rfl rfl rfl rfl
    have sent : NoRestarts (c₁.announced j).sent ↔ NoRestarts c.sent := by
      rw [show NoRestarts c.sent ↔ NoRestarts c₁.sent by rw [kept]]
      exact noRestarts_send fun _ _ _ => Trigger.noConfusion
    have announced : (c₁.announced j).Heard :=
      (heard'.changes (.single (.chooses prepared.chosen))).alike rfl rfl rfl rfl
    rw [prepared.beginBlock]
    exact (nextSelector_walks announced _ _ (List.nil_suffix)).after sent

/-! ### Playback -/

/-- A wait of playback: outside the blocks nothing sounds. -/
def Settled (c : Conductor) : Place → Prop
  | .inBlock _ _ cursor => c.Stands cursor
  | _ => c.Silent

/-- In the step of a number a chord sounds of which voices are in unison. -/
def StrikesAt (c : Conductor) : Place → Prop
  | .inBlock _ _ cursor => c.Strikes cursor
  | _ => False

theorem playBlocks_walks (before : Nat) (blocks : List Block) :
    ∀ {c : Conductor}, c.Heard → c.Silent →
      Walks Settled StrikesAt Silent c (playBlocks before c blocks) := by
  induction blocks with
  | nil => exact fun _ silent => ⟨silent, Iff.rfl⟩
  | cons b rest ih =>
    intro c heard silent
    have walks := beginBlock_walks heard silent b
    have changes := c.beginBlock_changes b
    rw [playBlocks]
    split
    · exact ⟨silent, Iff.rfl⟩
    · split <;> rename_i begun <;> rw [begun] at walks changes
      · exact walks
      · exact (ih (heard.changes changes) walks.1).after walks.2
      · exact walks

theorem fillStep_walks (silent : c.Silent) : Walks Settled StrikesAt Silent c c.fillStep := by
  simp only [fillStep]
  split
  · exact ⟨silent, (and_iff_left not_false).symm⟩
  · exact ⟨silent, Iff.rfl⟩

theorem newPass_walks (heard : c.Heard) (silent : c.Silent) :
    Walks Settled StrikesAt Silent c c.newPass := by
  have walks := playBlocks_walks c.stepsPerformed c.songBlocks heard silent
  simp only [newPass]
  split
  · exact ⟨silent, Iff.rfl⟩
  · split
    · rename_i played
      rw [played] at walks
      split
      · exact walks
      · exact (fillStep_walks walks.1).after walks.2
    · exact walks

theorem endPass_walks (heard : c.Heard) (silent : c.Silent) (before : Nat) :
    Walks Settled StrikesAt Silent c (c.endPass before) := by
  simp only [endPass]
  split
  · exact ⟨silent, Iff.rfl⟩
  · split
    · exact fillStep_walks silent
    · exact newPass_walks heard silent

/-- **Playback goes on** from one wait to the next: no note begins once more, unless it comes to the
step of a number whose chord has voices in unison. -/
theorem resumePlayback_walks (heard : c.Heard) {place : Place} (settled : c.Settled place) :
    Walks Settled StrikesAt Silent c (c.resumePlayback place) := by
  cases place with
  | beginning => exact newPass_walks heard settled
  | filler => exact newPass_walks heard settled
  | inBlock rest before cursor =>
    have walks := resumeBlock_walks heard settled
    have changes := c.resumeBlock_changes cursor
    simp only [resumePlayback]
    split
    · rename_i resumed
      rw [resumed] at walks
      exact walks
    · rename_i c' resumed
      rw [resumed] at walks changes
      have heard' := heard.changes changes
      have played := playBlocks_walks before rest heard' walks.1
      have changes' : Changes c' (playBlocks before c' rest).1 :=
        (playBlocks_does before rest : Does .step Place.hold c' _).deeds.changes
      split
      · rename_i ended
        rw [ended] at played changes'
        have passed := endPass_walks (heard'.changes changes') played.1 before
        exact (passed.after played.2).after walks.2
      · exact played.after walks.2
    · rename_i resumed
      rw [resumed] at walks
      exact walks

end Conductor

end ChordSequencer
