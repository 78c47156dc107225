import ChordSequencer.Proofs.Arranging
import ChordSequencer.Proofs.Meaning

/-!
# Voicing

What an instrument plays is told by its settings and by the flags of its wheel, not by the chord
that the wheel was left with (`Instrument.VoicedLike`).  Since an instrument that selects its notes
touches nothing but itself, an orchestra comes to the same notes in whatever order its instruments
are perceived.  If one of them cannot play, the order tells which ones have selected their notes.

* `Instrument.VoicedLike.pitches` : two instruments that are voiced alike play the same.
* `Instrument.play_frame` : what playing changes.
* `Orchestra.Refreshed` : the instruments at some places have selected their notes;
  `Orchestra.Refreshed.select` : one more does.
* `Orchestra.selectAt_cases` : all do, or those before the first that cannot.
* `Orchestra.voicing_independent` : all of it.
-/

namespace ChordSequencer

variable {c : Catalog}

/-! ### One instrument -/

namespace Instrument

variable {i j : Instrument} {notes : List Int}

/-- Two instruments agree in all that is told by the pitches they play. -/
structure VoicedLike (i j : Instrument) : Prop where
  /-- The scale. -/
  scaleId : j.scaleId = i.scaleId
  /-- The degree. -/
  selectedNote : j.selectedNote = i.selectedNote
  /-- The number of tones above the root. -/
  density : j.density = i.density
  /-- The key. -/
  tonality : j.tonality = i.tonality
  /-- The octave. -/
  octave : j.octave = i.octave
  /-- The number of voices that are raised. -/
  inversion : j.inversion = i.inversion
  /-- The flags of their wheels, if they have any. -/
  flags : j.wheel.map (·.flags) = i.wheel.map (·.flags)

/-- **The chord of a wheel is built anew** each time, whatever chord the wheel has. -/
theorem turn_chordNotes (i : Instrument) (w : Wheel) : (i.turn w).chordNotes =
    w.climb (max 0 (min (i.density + 1) w.tones)).toNat
      (Nat.repeat w.next i.selectedNote.toNat 0) := by
  rw [← Int.add_sub_cancel i.selectedNote 1]
  exact Wheel.climb_congr (v := i.turn w) (w := w) rfl _ _

theorem VoicedLike.turn (h : i.VoicedLike j) {w v : Wheel} (same : v.flags = w.flags) :
    (j.turn v).chordNotes = (i.turn w).chordNotes := by
  have root : v.next = w.next := funext (Wheel.next_congr same)
  have tones : v.tones = w.tones := by rw [Wheel.tones, Wheel.tones, same]
  rw [turn_chordNotes, turn_chordNotes, Wheel.climb_congr same, root, tones, h.selectedNote,
    h.density]

theorem VoicedLike.chord (h : i.VoicedLike j) : j.chord c = i.chord c := by
  have flags := h.flags
  cases here : i.wheel with
  | none =>
    rw [here, Option.map_none, Option.map_eq_none_iff] at flags
    simp only [Instrument.chord, here, flags, Instrument.scale, h.scaleId, h.selectedNote,
      h.density, h.tonality]
  | some w =>
    rw [here, Option.map_some, Option.map_eq_some_iff] at flags
    obtain ⟨v, there, same⟩ := flags
    simp only [Instrument.chord, here, there, h.turn same, h.tonality]

/-- **Instruments that are voiced alike play the same pitches**, or refuse for the same reason. -/
theorem VoicedLike.pitches (h : i.VoicedLike j) : j.pitches c = i.pitches c := by
  rw [Instrument.pitches, Instrument.pitches, h.chord, h.octave, h.inversion]

theorem map_fst_play (i : Instrument) (c : Catalog) : (i.play c).map (·.1) = i.pitches c := by
  rw [play]
  cases i.pitches c <;> rfl

/-- **Playing** changes nothing but the root and the number of voices of the wheel's chord. -/
theorem play_frame (played : i.play c = .ok (notes, j)) :
    ∃ root voices, j = { i with wheel := i.wheel.map fun w =>
      (w.withRoot root).withVoices voices } := by
  obtain ⟨notes', -, same⟩ := Setting.map_ok played
  cases same
  cases here : i.wheel with
  | none => exact ⟨0, 0, by rw [Instrument.played, here]; rfl⟩
  | some w => exact ⟨_, _, by rw [Instrument.played, here]; rfl⟩

theorem selectNotes_eq (played : i.play c = .ok (notes, j)) :
    i.selectNotes c = .ok (notes, { j with notes }) := by
  rw [selectNotes, played]
  rfl

theorem selectNotes_fails {why : Refusal} (refused : i.play c = .error why) :
    i.selectNotes c = .error why := by
  rw [selectNotes, refused]
  rfl

end Instrument

/-! ### An orchestra -/

namespace Orchestra

variable {o p q : Orchestra} {done places : List Nat} {place : Nat} {i j : Instrument}
  {notes : List Int}

/-- The instrument at a place plays, and keeps the notes that it has selected in another
orchestra. -/
def Selects (c : Catalog) (o p : Orchestra) (place : Nat) : Prop :=
  ∃ i notes j, o.instruments[place]? = some i ∧ i.play c = .ok (notes, j) ∧
    p.instruments[place]? = some { j with notes }

theorem Selects.unique {o' : Orchestra} (h : Selects c o p place) (h' : Selects c o' q place)
    (same : o'.instruments = o.instruments) : p.instruments[place]? = q.instruments[place]? := by
  obtain ⟨i, notes, j, here, played, selected⟩ := h
  obtain ⟨i', notes', j', here', played', selected'⟩ := h'
  rw [same, here] at here'
  cases here'
  rw [played] at played'
  cases played'
  rw [selected, selected']

/-- The instruments at some places have selected their notes, and nothing else has changed. -/
structure Refreshed (c : Catalog) (o : Orchestra) (done : List Nat) (p : Orchestra) : Prop where
  /-- The order is the same. -/
  order : p.order = o.order
  /-- No instrument comes or goes. -/
  length : p.instruments.length = o.instruments.length
  /-- These have selected their notes. -/
  selects : ∀ place ∈ done, Selects c o p place
  /-- The others are as they were. -/
  keeps : ∀ place ∉ done, p.instruments[place]? = o.instruments[place]?

theorem Refreshed.refl (c : Catalog) (o : Orchestra) : Refreshed c o [] o :=
  ⟨rfl, rfl, nofun, fun _ _ => rfl⟩

/-- **One more instrument** selects its notes. -/
theorem Refreshed.select (h : Refreshed c o done p) (fresh : place ∉ done)
    (here : o.instruments[place]? = some i) (played : i.play c = .ok (notes, j)) :
    Refreshed c o (done ++ [place]) (p.update place { j with notes }) := by
  have still : p.instruments[place]? = some i := (h.keeps place fresh).trans here
  have inside : place < p.instruments.length := (List.getElem?_eq_some_iff.1 still).1
  have others (other : Nat) (ne : other ≠ place) :
      (p.update place { j with notes }).instruments[other]? = p.instruments[other]? :=
    List.getElem?_set_ne (Ne.symm ne)
  refine ⟨h.order, List.length_set.trans h.length, fun other mem => ?_, fun other outside => ?_⟩
  · rcases List.mem_append.1 mem with before | last
    · have ne : other ≠ place := fun same => fresh (same ▸ before)
      obtain ⟨i', notes', j', there, played', kept⟩ := h.selects other before
      exact ⟨i', notes', j', there, played', (others other ne).trans kept⟩
    · cases List.mem_singleton.1 last
      exact ⟨i, notes, j, here, played, List.getElem?_set_self inside⟩
  · rw [List.mem_append, List.mem_singleton, not_or] at outside
    exact (others other outside.2).trans (h.keeps other outside.1)

/-- **The instruments select their notes in turn**: all of them, or those before the first that
cannot play. -/
theorem selectAt_cases (places : List Nat) : ∀ {done : List Nat} {p : Orchestra},
    Refreshed c o done p → (done ++ places).Nodup →
    (∀ place ∈ places, place < o.instruments.length) →
    (∃ q, selectAt c p places = (q, none) ∧ Refreshed c o (done ++ places) q) ∨
    ∃ before place after i why q, places = before ++ place :: after ∧
      o.instruments[place]? = some i ∧ i.play c = .error why ∧
      selectAt c p places = (q, some why) ∧ Refreshed c o (done ++ before) q := by
  induction places with
  | nil => exact fun h _ _ => .inl ⟨_, rfl, by rwa [List.append_nil]⟩
  | cons place rest ih =>
    intro done p h once inside
    obtain ⟨here, inside⟩ := List.forall_mem_cons.1 inside
    have fresh : place ∉ done := fun mem =>
      List.disjoint_of_nodup_append once mem List.mem_cons_self
    have there : o.instruments[place]? = some o.instruments[place] := List.getElem?_eq_getElem here
    have still := (h.keeps place fresh).trans there
    rw [selectAt, still]
    cases played : o.instruments[place].play c with
    | error why =>
      refine .inr ⟨[], place, rest, _, why, p, rfl, there, played, ?_, by rwa [List.append_nil]⟩
      simp only [Instrument.selectNotes_fails played]
    | ok r =>
      obtain ⟨notes, j⟩ := r
      have next := h.select fresh there played
      simp only [Instrument.selectNotes_eq played]
      rcases ih next (by rwa [← List.append_cons]) inside with
        ⟨q, went, all⟩ | ⟨before, other, after, i, why, q, rfl, there, refused, went, some⟩
      · exact .inl ⟨q, went, by rwa [List.append_cons]⟩
      · exact .inr ⟨place :: before, other, after, i, why, q, rfl, there, refused, went,
          by rwa [List.append_cons]⟩

theorem selectNotes_cases (arranged : o.Arranged) :
    (∃ q, o.selectNotes c = (q, none) ∧ Refreshed c o o.order q) ∨
    ∃ before place after i why q, o.order = before ++ place :: after ∧
      o.instruments[place]? = some i ∧ i.play c = .error why ∧
      o.selectNotes c = (q, some why) ∧ Refreshed c o before q := by
  refine selectAt_cases o.order (.refl c o) (arranged.nodup_iff.2 List.nodup_range) ?_
  intro place mem
  exact List.mem_range.1 (arranged.mem_iff.1 mem)

/-- The requests to swap the instruments of pairs of slots, one after another. -/
def movesOf (slots : List (Int × Int)) : List Request := slots.map fun pair => .move pair.1 pair.2

theorem Arranged.movesOf (arranged : o.Arranged) (slots : List (Int × Int)) :
    (o.attemptAll (movesOf slots)).Arranged ∧
      (o.attemptAll (movesOf slots)).instruments = o.instruments := by
  obtain ⟨still, grown⟩ := arranged.attemptAll (Orchestra.movesOf slots)
  have none_added : (Orchestra.movesOf slots).filterMap (·.added?) = [] := by
    simp [Orchestra.movesOf, Request.added?]
  rw [none_added, List.append_nil] at grown
  exact ⟨still, grown⟩

/-- **The order does not matter** if all instruments can play. -/
theorem selectNotes_moved (arranged : o.Arranged) (slots : List (Int × Int))
    (all : ∀ place < o.instruments.length, Selects c o q place)
    (length : q.instruments.length = o.instruments.length) :
    ∃ p, (o.attemptAll (movesOf slots)).selectNotes c = (p, none) ∧
      p.instruments = q.instruments := by
  obtain ⟨still, same⟩ := arranged.movesOf slots
  rcases selectNotes_cases (c := c) still with
    ⟨p, went, refreshed⟩ | ⟨before, place, after, i, why, p, -, here, refused, -, -⟩
  · have total : p.instruments.length = o.instruments.length :=
      refreshed.length.trans (congrArg List.length same)
    refine ⟨p, went, List.ext_getElem? fun place => ?_⟩
    by_cases inside : place < o.instruments.length
    · have mem : place ∈ (o.attemptAll (Orchestra.movesOf slots)).order := by
        rw [still.mem_iff, same]
        exact List.mem_range.2 inside
      exact (refreshed.selects place mem).unique (all place inside) same.symm
    · rw [List.getElem?_eq_none (by omega), List.getElem?_eq_none (by omega)]
  · -- the instrument that refuses is one of those that have played
    rw [same] at here
    obtain ⟨i', notes, j, here', played, -⟩ := all place (List.getElem?_eq_some_iff.1 here).1
    cases here.symm.trans here'
    cases refused.symm.trans played

/-- **Voicing depends neither on the past nor on the order of an ensemble.**  Two instruments with
the same settings, and with wheels of the same flags if they have wheels, play the same pitches,
whatever chords their wheels were left with; and to play changes nothing but the root and the number
of voices of a wheel's chord.  If the instruments of an orchestra all select their notes, each of
them keeps those that it plays by itself, and however they are moved they come to the same notes.
If one of them refuses, those before it in the perceived order have selected their notes, and
nothing else has changed. -/
theorem voicing_independent (c : Catalog) :
    (∀ i j : Instrument, i.VoicedLike j → (j.play c).map (·.1) = (i.play c).map (·.1)) ∧
    (∀ (i j : Instrument) notes, i.play c = .ok (notes, j) → ∃ root voices,
      j = { i with wheel := i.wheel.map fun w => (w.withRoot root).withVoices voices }) ∧
    ∀ o : Orchestra, o.Arranged → ∀ p : Orchestra,
      (o.selectNotes c = (p, none) →
        p.order = o.order ∧ p.instruments.length = o.instruments.length ∧
        (∀ place < o.instruments.length, Selects c o p place) ∧
        ∀ slots, ∃ p', (o.attemptAll (movesOf slots)).selectNotes c = (p', none) ∧
          p'.instruments = p.instruments) ∧
      (∀ why, o.selectNotes c = (p, some why) → ∃ before place after i,
        o.order = before ++ place :: after ∧ o.instruments[place]? = some i ∧
        i.play c = .error why ∧ p.order = o.order ∧
        p.instruments.length = o.instruments.length ∧
        (∀ earlier ∈ before, Selects c o p earlier) ∧
        ∀ other ∉ before, p.instruments[other]? = o.instruments[other]?) := by
  refine ⟨fun i j alike => ?_, fun i j notes => Instrument.play_frame, fun o arranged p => ?_⟩
  · rw [j.map_fst_play, i.map_fst_play, alike.pitches]
  · rcases selectNotes_cases (c := c) arranged with
      ⟨q, went, refreshed⟩ |
      ⟨before, place, after, i, why, q, split, here, refused, went, refreshed⟩
    · refine ⟨fun selected => ?_, fun why selected => ?_⟩
      · cases went.symm.trans selected
        have all (place : Nat) (inside : place < o.instruments.length) : Selects c o p place :=
          refreshed.selects place (arranged.mem_iff.2 (List.mem_range.2 inside))
        exact ⟨refreshed.order, refreshed.length, all, fun slots =>
          selectNotes_moved arranged slots all refreshed.length⟩
      · cases went.symm.trans selected
    · refine ⟨fun selected => ?_, fun why' selected => ?_⟩
      · cases went.symm.trans selected
      · cases went.symm.trans selected
        exact ⟨before, place, after, i, split, here, refused, refreshed.order, refreshed.length,
          refreshed.selects, refreshed.keeps⟩

/-- A wheel that was left with a chord, beside one that was not; and an ensemble in which the second
instrument in the perceived order has no scale. -/
theorem voicing_independent_stale :
    let wheel (chord : WheelChord) : Wheel := ⟨[true, false, true], by decide, "", 0, 0, chord⟩
    let i (chord : WheelChord) : Instrument :=
      { Instrument.initial with wheel := some (wheel chord), density := 1 }
    let lost := { Instrument.initial with scaleId := 99 }
    let pair : Orchestra := ⟨[i ⟨7, 2, 0⟩, .initial], [1, 0]⟩
    let trio : Orchestra := ⟨[lost, i ⟨7, 2, 0⟩, .initial], [1, 0, 2]⟩
    ((i ⟨0, 0, 0⟩).play .standard).map (·.1) = ((i ⟨7, 2, 0⟩).play .standard).map (·.1) ∧
    (∃ notes j, (i ⟨7, 2, 0⟩).play .standard = .ok (notes, j) ∧ ∃ root voices,
      j = i ⟨root, voices, 0⟩) ∧
    (∃ p p', pair.selectNotes .standard = (p, none) ∧
      (pair.attemptAll (movesOf [(0, -1)])).selectNotes .standard = (p', none) ∧
      p'.instruments = p.instruments) ∧
    ∃ p before place after, trio.selectNotes .standard = (p, some (.unknownScaleId 99)) ∧
      trio.order = before ++ place :: after ∧
      (∀ earlier ∈ before, Selects .standard trio p earlier) ∧
      ∀ other ∉ before, p.instruments[other]? = trio.instruments[other]? := by
  intro wheel i lost pair trio
  obtain ⟨alike, frame, together⟩ := voicing_independent .standard
  refine ⟨alike _ _ ⟨rfl, rfl, rfl, rfl, rfl, rfl, rfl⟩, ?_, ?_, ?_⟩
  · obtain ⟨root, voices, same⟩ := frame (i ⟨7, 2, 0⟩) _ _ rfl
    exact ⟨_, _, rfl, root, voices, same⟩
  · obtain ⟨-, -, -, moved⟩ := (together pair (by decide : [1, 0].Perm (List.range 2)) _).1 rfl
    obtain ⟨p', went, same⟩ := moved [(0, -1)]
    exact ⟨_, p', rfl, went, same⟩
  · obtain ⟨before, place, after, -, split, -, -, -, -, selects, keeps⟩ :=
      (together trio (by decide : [1, 0, 2].Perm (List.range 3)) _).2 _ rfl
    exact ⟨_, before, place, after, rfl, split, selects, keeps⟩

end Orchestra

end ChordSequencer
