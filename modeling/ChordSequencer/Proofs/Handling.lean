import ChordSequencer.Proofs.Range
import ChordSequencer.Proofs.Registering

/-!
# Handling an instrument

Between two performances an instrument is handled from outside: settings are changed by commands,
scales are chosen by their number or one after another, pitches are selected, and scales are
registered in the catalog that the instrument takes its scale from.  Any of this can be refused.
Whatever is tried, the instrument stays playable.

* `Instrument.Valid` : the invariant of an instrument beside a catalog.
* `Setting.apply_valid` : every setting that is applied keeps it.
* `Instrument.Valid.plays` : a valid instrument plays.
* `Bench.handled_valid` : an instrument is valid after any handling.
-/

namespace ChordSequencer

/-! ### Instruments -/

/-- An instrument that plays in a catalog. -/
structure Instrument.Valid (catalog : Catalog) (i : Instrument) : Prop extends i.InRange where
  /-- The number of tones above the root is not negative. -/
  density : 0 ≤ i.density
  /-- Neither is the number of voices that are raised. -/
  inversion : 0 ≤ i.inversion
  /-- A block is played at least once. -/
  repeats : 1 ≤ i.repeats
  /-- The catalog has the scale. -/
  scale : 0 ≤ i.scaleId ∧ i.scaleId < catalog.size
  /-- The note value is one. -/
  duration : NoteValue.Written i.duration
  /-- The wheel has positions, and some of them are flagged. -/
  wheel : ∀ w, i.wheel = some w → w.flags ≠ [] ∧ true ∈ w.flags

namespace Catalog

variable {c c' : Catalog}

theorem byId_ok_iff {id : Int} : (∃ s, c.byId id = .ok s) ↔ 0 ≤ id ∧ id < c.size := by
  simp only [byId, size]
  constructor
  · rintro ⟨s, found⟩
    split at found
    · rename_i entry there
      split at there
      · have bound := (List.getElem?_eq_some_iff.1 there).1
        omega
      · cases there
    · cases found
  · rintro ⟨low, high⟩
    rw [if_pos low, List.getElem?_eq_getElem (by omega)]
    exact ⟨_, rfl⟩

theorem Extends.size_le (h : c.Extends c') : c.size ≤ c'.size := h.length_le

end Catalog

namespace Setting

variable {catalog : Catalog} {i j : Instrument} {value : String} {base : Nat}

theorem durationOfText_written {text : String} (h : durationOfText value = .ok text) :
    NoteValue.Written text := by
  obtain ⟨beats, read, rfl⟩ := map_ok h
  simp only [NoteValue.beatsOfText] at read
  split at read
  · cases read
  · rename_i v known
    exact NoteValue.written_iff.2 ⟨v, NoteValue.ofText_strip known⟩

theorem pulseOfText_written {text : String} (h : pulseOfText value base = .ok text) :
    NoteValue.Written text := by
  simp only [pulseOfText, Except.bind] at h
  split at h
  · cases h
  · rename_i pulse read
    obtain ⟨n, rfl⟩ := Int.eq_ofNat_of_zero_le (Int.le_of_lt (number_low read))
    simp only [NoteValue.ofPulse] at h
    split at h
    · cases h
    · cases h
      exact NoteValue.written_iff.2 ⟨_, NoteValue.ofText_pulse (by omega)⟩

/-- **A setting that is applied keeps an instrument valid.** -/
theorem apply_valid {s : Setting} (hi : i.Valid catalog)
    (h : s.apply catalog i value base = .ok j) : j.Valid catalog := by
  have inRange := apply_inRange hi.toInRange h
  cases s with
  | scale =>
    obtain ⟨id, read, rfl⟩ := map_ok h
    exact { hi with
      toInRange := inRange
      scale := Catalog.byId_ok_iff.1 (idOfText_ok (refusing_ok read)) }
  | width =>
    obtain ⟨n, read, rfl⟩ := map_ok h
    exact { hi with toInRange := inRange, density := number_low (refusing_ok read) }
  | inversion =>
    obtain ⟨n, read, rfl⟩ := map_ok h
    exact { hi with toInRange := inRange, inversion := number_low (refusing_ok read) }
  | repeats =>
    obtain ⟨n, read, rfl⟩ := map_ok h
    exact { hi with toInRange := inRange, repeats := number_low (refusing_ok read) }
  | pulse =>
    obtain ⟨text, read, rfl⟩ := map_ok h
    exact { hi with toInRange := inRange, duration := pulseOfText_written (refusing_ok read) }
  | duration =>
    obtain ⟨text, read, rfl⟩ := map_ok h
    exact { hi with toInRange := inRange, duration := durationOfText_written read }
  | scheme =>
    obtain ⟨wheel, read, rfl⟩ := map_ok h
    exact { hi with
      toInRange := inRange
      wheel := fun w _ => ⟨List.ne_nil_of_mem w.hasFlag, w.hasFlag⟩ }
  | _ =>
    obtain ⟨a, -, rfl⟩ := map_ok h
    exact { hi with toInRange := inRange }

theorem applyCode_valid {code : String} (hi : i.Valid catalog)
    (h : applyCode catalog i value base code = .ok j) : j.Valid catalog := by
  simp only [applyCode] at h
  split at h
  · exact apply_valid hi h
  · cases h

end Setting

namespace Instrument

variable {c c' : Catalog} {i j : Instrument}

theorem Valid.extend (h : i.Valid c) (grown : c.Extends c') : i.Valid c' := by
  have bound := grown.size_le
  exact { h with scale := ⟨h.scale.1, by have := h.scale.2; omega⟩ }

theorem Valid.selectScale (h : i.Valid c) (id : Int) : (i.selectScale c id).Valid c := by
  have some : (0 : Int) < c.size := lt_of_le_of_lt h.scale.1 h.scale.2
  exact { h with scale := ⟨Int.emod_nonneg _ some.ne', Int.emod_lt_of_pos _ some⟩ }

/-- **A valid instrument plays.** -/
theorem Valid.plays (h : i.Valid c) : ∃ notes, i.play c = .ok (notes, i.played) := by
  obtain ⟨s, found⟩ := Catalog.byId_ok_iff.2 h.scale
  have chord : ∃ notes, i.chord c = .ok notes := by
    simp only [Instrument.chord]
    split
    · exact ⟨_, rfl⟩
    · simp only [Instrument.scale, found]
      exact ⟨_, rfl⟩
  obtain ⟨notes, chord⟩ := chord
  simp only [play, pitches, chord]
  exact ⟨_, rfl⟩

theorem Valid.played (h : i.Valid c) : i.played.Valid c :=
  { h with wheel := fun w _ => ⟨List.ne_nil_of_mem w.hasFlag, w.hasFlag⟩ }

theorem Valid.selectNotes (h : i.Valid c) {notes : List Int}
    (selected : i.selectNotes c = .ok (notes, j)) : j.Valid c := by
  obtain ⟨-, rfl⟩ := selectNotes_ok selected
  exact { h.played with }

end Instrument

/-! ### Handling -/

/-- What can be done to an instrument and its catalog. -/
inductive Handling
  /-- A setting is changed by a command. -/
  | apply (code value : String) (base : Nat)
  /-- A scale is chosen, counted around the catalog. -/
  | selectScale (id : Int)
  /-- The next scale is chosen. -/
  | nextScale
  /-- The scale before is chosen. -/
  | prevScale
  /-- The pitches are selected. -/
  | selectNotes
  /-- A scale is registered. -/
  | register (request : Catalog.Request)

/-- An instrument beside the catalog that it takes its scale from. -/
structure Bench where
  /-- The catalog. -/
  catalog : Catalog
  /-- The instrument. -/
  instrument : Instrument

namespace Bench

/-- The instrument and the catalog to begin with. -/
def initial : Bench := ⟨.standard, .initial⟩

variable (b : Bench)

/-- The instrument if it has come to something, or else as it was. -/
def keep {ε : Type} (result : Except ε Instrument) : Bench :=
  match result with
  | .ok i => { b with instrument := i }
  | .error _ => b

/-- What comes of a handling. -/
def handle : Handling → Bench
  | .apply code value base => b.keep (Setting.applyCode b.catalog b.instrument value base code)
  | .selectScale id => { b with instrument := b.instrument.selectScale b.catalog id }
  | .nextScale => { b with instrument := b.instrument.nextScale b.catalog }
  | .prevScale => { b with instrument := b.instrument.prevScale b.catalog }
  | .selectNotes => b.keep ((b.instrument.selectNotes b.catalog).map (·.2))
  | .register request => { b with catalog := b.catalog.attempt request }

variable {b}

theorem keep_valid {ε : Type} {result : Except ε Instrument} (h : b.instrument.Valid b.catalog)
    (valid : ∀ i, result = .ok i → i.Valid b.catalog) :
    (b.keep result).instrument.Valid (b.keep result).catalog := by
  cases result with
  | ok i => exact valid i rfl
  | error why => exact h

/-- **Whatever is tried, the instrument stays valid.** -/
theorem handle_valid (h : b.instrument.Valid b.catalog) (handling : Handling) :
    (b.handle handling).instrument.Valid (b.handle handling).catalog := by
  cases handling with
  | apply code value base => exact keep_valid h fun i applied => Setting.applyCode_valid h applied
  | selectScale id => exact h.selectScale id
  | nextScale => exact h.selectScale _
  | prevScale => exact h.selectScale _
  | selectNotes =>
    refine keep_valid h fun i selected => ?_
    obtain ⟨⟨notes, j⟩, played, rfl⟩ := Setting.map_ok selected
    exact h.selectNotes played
  | register request =>
    simp only [handle]
    exact h.extend (b.catalog.attempt_extends request)

theorem initial_valid : initial.instrument.Valid initial.catalog where
  channel := by decide
  velocity := by decide
  timbre := by decide
  density := by decide
  inversion := by decide
  repeats := by decide
  scale := by decide
  duration := NoteValue.written_iff.2 ⟨⟨4, .note⟩, by decide +kernel⟩
  wheel := by rintro w ⟨⟩

theorem foldl_handle_valid (handlings : List Handling) :
    ∀ {b : Bench}, b.instrument.Valid b.catalog →
      (handlings.foldl handle b).instrument.Valid (handlings.foldl handle b).catalog := by
  induction handlings with
  | nil => exact fun h => h
  | cons handling handlings ih => exact fun h => ih (handle_valid h handling)

/-- **Instruments stay playable.**  The instrument to begin with may be handled in any way: by
commands with any codes and values in any base, by choosing scales of any number, the next one and
the one before, by selecting pitches, and by registering scales in its catalog, whether any of this
succeeds or not.  After that it is valid in the catalog as it is then, so that it plays. -/
theorem handled_valid (handlings : List Handling) :
    let b := handlings.foldl handle initial
    b.instrument.Valid b.catalog ∧
      ∃ notes, b.instrument.play b.catalog = .ok (notes, b.instrument.played) := by
  have valid := foldl_handle_valid handlings initial_valid
  exact ⟨valid, valid.plays⟩

end Bench

end ChordSequencer
