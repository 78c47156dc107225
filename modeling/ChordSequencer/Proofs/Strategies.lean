import ChordSequencer.Proofs.Meaning
import ChordSequencer.Proofs.Octaves
import ChordSequencer.Proofs.Walks
import Mathlib.Data.List.Perm.Subperm

/-!
# Two ways to build a chord

A chord is stacked over a scale of the catalog or walked around a wheel.  For a scale that begins on
its tonic and the wheel of that scale, both go through the tones of the scale, one octave after
another (`Scale.tone`), but a stack that leaves the scale from its last degree lands on the tonic,
where the wheel goes one degree further.

* `Scale.map_tone_iterate` : a stack as tones; `Scale.third` says which tone comes next.
* `Wheel.climb_eq_tones` : a walk as tones, two further each time.
* `Scale.third_iterate` : they keep together as long as no third begins on the last degree.
* `Instrument.strategies_agree` : where the pitches of the two agree.
-/

namespace ChordSequencer

/-! ### Tones -/

namespace Scale

variable (s : Scale)

/-- The tones of a scale from its tonic upwards, through one octave after another. -/
def tone (n : Nat) : Int := s.offset (n % s.size) + (n / s.size : Nat) * semitones

/-- The tone that a stack puts on another one. -/
def third (n : Nat) : Nat := if n % s.size = s.size - 1 then n + 1 else n + 2

variable {s} {n : Nat}

theorem noteAt_natCast (n : Nat) : s.noteAt n = s.tone n := by
  rw [noteAt, tone, ← Int.natCast_mod, Int.toNat_natCast, Int.natCast_div]

/-- **The tones go up.** -/
theorem tone_lt_iff (h : s.Ascends) {m n : Nat} : s.tone m < s.tone n ↔ m < n := by
  rw [← noteAt_natCast, ← noteAt_natCast, (strictMono_noteAt h).lt_iff_lt, Int.ofNat_lt]

theorem exists_tone_iff (h : s.Ascends) {p : Int} (low : 0 ≤ p) :
    p % semitones ∈ s.offsets ↔ ∃ n, s.tone n = p := by
  constructor
  · intro mem
    obtain ⟨degree, bound, there⟩ := List.mem_iff_getElem.1 mem
    obtain ⟨octave, same⟩ := Int.eq_ofNat_of_zero_le
      (Int.ediv_nonneg low (show 0 ≤ semitones by decide))
    -- octaves of twelve positions are octaves of as many tones as the scale has
    refine ⟨degree + octave * s.size, ?_⟩
    rw [← noteAt_natCast, Int.natCast_add, Int.natCast_mul, noteAt_place bound, offset_eq bound,
      there, ← same]
    exact Int.emod_add_ediv_mul p semitones
  · rintro ⟨n, rfl⟩
    have rest := Nat.mod_lt n s.size_pos
    have range := h.offset_range rest
    rw [tone, Int.add_mul_emod_self_right, Int.emod_eq_of_lt range.1 range.2, offset_eq rest]
    exact List.getElem_mem _

theorem tone_nonneg (h : s.Ascends) (n : Nat) : 0 ≤ s.tone n := by
  have range := h.offset_range (Nat.mod_lt n s.size_pos)
  have octave := Int.natCast_nonneg (n / s.size)
  simp only [tone, semitones]
  omega

/-! ### Stacks -/

theorem thirdAbove_natCast (n : Nat) : s.thirdAbove n = (s.third n : Nat) := by
  obtain ⟨i, bound, octave, place⟩ := s.exists_place n
  have here := (place_div_mod bound octave).2
  rw [← place, ← Int.natCast_mod] at here
  rw [place, thirdAbove_place bound, third, Int.add_mul]
  -- the tone after the next one is in this octave, or it is the first one of the next octave
  split <;> split <;> omega

/-- **A stack as tones.** -/
theorem map_tone_iterate (count : Nat) : ∀ n : Nat,
    (List.iterate s.thirdAbove n count).map s.noteAt =
      (List.iterate s.third n count).map s.tone := by
  induction count with
  | zero => exact fun n => rfl
  | succ count ih =>
    intro n
    rw [List.iterate, List.map_cons, noteAt_natCast, thirdAbove_natCast, ih]
    rfl

/-- The degree is the last one of the scale, in whatever octave. -/
def IsLast (s : Scale) (degree : Int) : Prop := degree % s.size = s.size - 1

theorem isLast_natCast : s.IsLast n ↔ n % s.size = s.size - 1 := by
  have some := s.size_pos
  have cast := Int.natCast_mod n s.size
  rw [IsLast]
  omega

/-- A stack keeps to every other tone as long as it comes to no last degree. -/
theorem third_iterate (j : Nat) (inside : ∀ k < j, ¬ s.IsLast (n + 2 * k)) :
    s.third^[j] n = n + 2 * j := by
  induction j with
  | zero => rfl
  | succ j ih =>
    rw [Function.iterate_succ_apply', ih fun k less => inside k (Nat.lt_succ_of_lt less)]
    have here := inside j (Nat.lt_add_one j)
    rw [show (n : Int) + 2 * j = (n + 2 * j : Nat) by push_cast; rfl, isLast_natCast] at here
    rw [third, if_neg here]
    rfl

/-- From a last degree a stack goes to the tonic, and two tones further is the degree above it. -/
theorem tone_above_last (first : s.offset 0 = 0) (wide : 1 < s.size) (last : s.IsLast n) :
    ∃ tonic, s.tone (s.third n) = tonic ∧ tonic % semitones = 0 ∧
      s.tone (n + 2) = tonic + s.offset 1 := by
  obtain ⟨i, bound, octave, place⟩ := s.exists_place n
  rw [IsLast, place, (place_div_mod bound octave).2] at last
  have tonic := noteAt_place s.size_pos (octave + 1)
  rw [first, Int.natCast_zero, Int.zero_add, Int.zero_add] at tonic
  refine ⟨(octave + 1) * semitones, ?_, Int.mul_emod_left _ _, ?_⟩
  · rw [← noteAt_natCast, ← thirdAbove_natCast, place, thirdAbove_place bound, if_neg (by omega),
      tonic]
  · have next : ((n + 2 : Nat) : Int) = (1 : Nat) + (octave + 1) * s.size := by
      rw [Int.natCast_add, place, Int.add_mul]
      omega
    rw [← noteAt_natCast, next, noteAt_place wide, Int.add_comm]

end Scale

/-! ### Walks -/

namespace Wheel

variable {s : Scale} {w : Wheel}

/-- The wheel goes through the tones of a scale. -/
structure Follows (w : Wheel) (s : Scale) : Prop where
  /-- From one tone it goes to the next. -/
  next : ∀ n, w.next (s.tone n) = s.tone (n + 1)
  /-- It has as many tones. -/
  tones : s.size ≤ w.tones

/-- The flags of the wheel of a scale. -/
def flagsOf (s : Scale) : List Bool :=
  (List.range 12).map fun (i : Nat) => decide ((i : Int) ∈ s.offsets)

theorem ofScale_ok (h : s.Ascends) (name : String) :
    ∃ w, ofScale s name = .ok w ∧ w.flags = flagsOf s := by
  have folded : s.offsets.map (· % semitones) = s.offsets := by
    refine (List.map_congr_left fun n mem => ?_).trans (List.map_id _)
    exact Int.emod_eq_of_lt (h.inOctave n mem).1 (h.inOctave n mem).2
  have flags :
      ((List.range 12).map fun (i : Nat) => if (i : Int) ∈ s.offsets then (1 : Int) else 0).map
        (· == 1) = flagsOf s := by
    rw [List.map_map, flagsOf]
    refine List.map_congr_left fun i _ => ?_
    by_cases mem : (i : Int) ∈ s.offsets <;> simp [mem]
  have flagged : true ∈ flagsOf s := by
    -- the first offset is flagged
    have mem := List.head_mem s.nonempty
    obtain ⟨low, high⟩ := h.inOctave _ mem
    obtain ⟨o, same⟩ := Int.eq_ofNat_of_zero_le low
    rw [semitones] at high
    refine List.mem_map.2 ⟨o, List.mem_range.2 (by omega), decide_eq_true ?_⟩
    exact same ▸ mem
  have known :
      ((List.range 12).map fun (i : Nat) => if (i : Int) ∈ s.offsets then (1 : Int) else 0).all
        (fun f => f == 0 || f == 1) = true := by
    refine List.all_eq_true.2 fun f mem => ?_
    obtain ⟨i, -, rfl⟩ := List.mem_map.1 mem
    split <;> rfl
  refine ⟨⟨flagsOf s, flagged, name, 0, 0, ⟨0, 0, 0⟩⟩, ?_, rfl⟩
  simp only [ofScale, folded, ofFlags, flags, known]
  rw [if_neg (by simp), if_neg (by simp), dif_pos flagged]

theorem flagged_iff (flags : w.flags = flagsOf s) {p : Int} (low : 0 ≤ p) :
    w.flagged p = true ↔ p % semitones ∈ s.offsets := by
  have size : w.size = 12 := by simp [Wheel.size, flags, flagsOf]
  have bound : p.natAbs % 12 < 12 := Nat.mod_lt _ (by decide)
  have same : ((p.natAbs % 12 : Nat) : Int) = p % semitones := by
    simp only [semitones]
    omega
  rw [flagged, size, flags, flagsOf, List.getD_eq_getElem?_getD, List.getElem?_map,
    List.getElem?_range bound, ← same]
  simp

theorem size_le_tones (h : s.Ascends) (flags : w.flags = flagsOf s) : s.size ≤ w.tones := by
  have count : w.tones =
      ((List.range 12).filter fun (i : Nat) => decide ((i : Int) ∈ s.offsets)).length := by
    rw [tones, flags, flagsOf, List.count_eq_countP, List.countP_map, List.countP_eq_length_filter]
    congr 1
    refine List.filter_congr fun i _ => ?_
    simp
  have distinct : (s.offsets.map Int.toNat).Nodup := by
    refine List.Nodup.map_on (fun a ha b hb same => ?_) (h.ascending.imp ne_of_lt)
    have := (h.inOctave a ha).1
    have := (h.inOctave b hb).1
    omega
  rw [count, Scale.size, ← List.length_map Int.toNat]
  refine (distinct.subperm fun o mem => ?_).length_le
  obtain ⟨n, there, rfl⟩ := List.mem_map.1 mem
  obtain ⟨low, high⟩ := h.inOctave n there
  rw [semitones] at high
  refine List.mem_filter.2 ⟨List.mem_range.2 (by omega), decide_eq_true ?_⟩
  rwa [Int.toNat_of_nonneg low]

theorem follows_ofScale (h : s.Ascends) {name : String} (built : ofScale s name = .ok w) :
    w.Follows s := by
  obtain ⟨w', built', flags⟩ := ofScale_ok h name
  cases built.symm.trans built'
  have low := Scale.tone_nonneg h
  refine ⟨next_of_lists (fun _ _ => (Scale.tone_lt_iff h).2) (fun n => ?_) fun p above flag => ?_,
    size_le_tones h flags⟩
  · exact (flagged_iff flags (low _)).2 ((Scale.exists_tone_iff h (low _)).2 ⟨_, rfl⟩)
  · have positive : 0 ≤ p := (low 0).trans above.le
    exact (Scale.exists_tone_iff h positive).1 ((flagged_iff flags positive).1 flag)

namespace Follows

theorem repeat_next (h : w.Follows s) (n : Nat) : Nat.repeat w.next n (s.tone 0) = s.tone n :=
  repeat_next_of_steps h.next n

/-- **A walk as tones.** -/
theorem climb_eq_tones (h : w.Follows s) (count n : Nat) :
    w.climb count (s.tone n) = (List.iterate (· + 2) n count).map s.tone :=
  climb_of_steps h.next count n

end Follows

end Wheel

/-! ### Instruments -/

namespace Instrument

variable {catalog : Catalog} {s : Scale} {w : Wheel} {i : Instrument} {n d : Nat}

/-- What is added to a voice by the octave and by the inversion. -/
def lift (i : Instrument) (voice : Nat) : Int :=
  i.octave * semitones + if (voice : Int) < i.inversion then semitones else 0

theorem getElem?_invert_raise (i : Instrument) (notes : List Int) (j : Nat) :
    (invert i.inversion (raise i.octave notes))[j]? = notes[j]?.map (· + i.lift j) := by
  rw [invert, List.getElem?_mapIdx, raise, List.getElem?_map, Option.map_map]
  refine congrArg (Option.map · _) (funext fun note => ?_)
  simp only [Function.comp_apply, lift]
  split <;> omega

theorem lift_emod (i : Instrument) (voice : Nat) : i.lift voice % semitones = 0 := by
  simp only [lift, semitones]
  split <;> omega

/-- The pitches of some tones. -/
def voicing (i : Instrument) (s : Scale) (tones : List Nat) : List Int :=
  invert i.inversion (raise i.octave (tones.map s.tone))

theorem length_voicing (tones : List Nat) : (i.voicing s tones).length = tones.length := by
  simp [voicing, invert, raise]

theorem getElem?_voicing (tones : List Nat) (j : Nat) :
    (i.voicing s tones)[j]? = tones[j]?.map fun n => s.tone n + i.lift j := by
  rw [voicing, getElem?_invert_raise, List.getElem?_map, Option.map_map]
  rfl

/-- The pitches of a stack over a tone, of so many tones more. -/
def stacked (i : Instrument) (s : Scale) (n d : Nat) : List Int :=
  i.voicing s (List.iterate s.third n (d + 1))

/-- The pitches of a walk from a tone, to so many tones more. -/
def walked (i : Instrument) (s : Scale) (n d : Nat) : List Int :=
  i.voicing s (List.iterate (· + 2) n (d + 1))

@[simp] theorem length_stacked : (i.stacked s n d).length = d + 1 := by
  rw [stacked, length_voicing, List.length_iterate]

@[simp] theorem length_walked : (i.walked s n d).length = d + 1 := by
  rw [walked, length_voicing, List.length_iterate]

theorem getElem?_stacked {j : Nat} (reach : j ≤ d) :
    (i.stacked s n d)[j]? = some (s.tone (s.third^[j] n) + i.lift j) := by
  rw [stacked, getElem?_voicing, List.getElem?_iterate _ _ _ _ (Nat.lt_add_one_of_le reach)]
  rfl

theorem getElem?_walked {j : Nat} (reach : j ≤ d) :
    (i.walked s n d)[j]? = some (s.tone (n + 2 * j) + i.lift j) := by
  have twos : (· + 2)^[j] n = n + 2 * j := by simp [add_right_iterate, Nat.mul_comm]
  rw [walked, getElem?_voicing, List.getElem?_iterate _ _ _ _ (Nat.lt_add_one_of_le reach), twos]
  rfl

/-- The voices agree up to and including the first one on a last degree. -/
theorem stacked_agrees {j : Nat} (inside : ∀ k < j, ¬ s.IsLast (n + 2 * k)) :
    (i.stacked s n d)[j]? = (i.walked s n d)[j]? := by
  by_cases reach : j ≤ d
  · rw [getElem?_stacked reach, getElem?_walked reach, Scale.third_iterate j inside]
  · rw [List.getElem?_eq_none (by simp; omega), List.getElem?_eq_none (by simp; omega)]

/-- After that one the stack lands on the tonic, and the walk on the degree above it. -/
theorem stacked_parts (first : s.offset 0 = 0) (narrow : d + 1 ≤ s.size) {j : Nat} (less : j < d)
    (top : s.IsLast (n + 2 * j)) (inside : ∀ k < j, ¬ s.IsLast (n + 2 * k)) :
    ∃ tonic, (i.stacked s n d)[j + 1]? = some tonic ∧ tonic % semitones = 0 ∧
      (i.walked s n d)[j + 1]? = some (tonic + s.offset 1) := by
  obtain ⟨tonic, here, multiple, above⟩ := Scale.tone_above_last (n := n + 2 * j) first (by omega)
    (by exact_mod_cast top)
  refine ⟨tonic + i.lift (j + 1), ?_, ?_, ?_⟩
  · rw [getElem?_stacked (j := j + 1) less, Function.iterate_succ_apply',
      Scale.third_iterate j inside, here]
  · rw [Int.add_emod, multiple, lift_emod]
    rfl
  · rw [getElem?_walked (j := j + 1) less, show n + 2 * (j + 1) = n + 2 * j + 2 by omega, above]
    exact congrArg some (by omega)

/-- **A stack is a walk** if and only if no voice but the highest is on a last degree. -/
theorem stacked_eq_walked_iff (ascends : s.Ascends) (first : s.offset 0 = 0)
    (narrow : d + 1 ≤ s.size) :
    i.stacked s n d = i.walked s n d ↔ ∀ j < d, ¬ s.IsLast (n + 2 * j) := by
  constructor
  · intro same j less
    induction j using Nat.strongRecOn with
    | ind j ih =>
      intro top
      -- on the first last degree they part, and the degree above the tonic is another tone
      obtain ⟨tonic, stacked, -, walked⟩ := stacked_parts (i := i) first narrow less top
        fun k before => ih k before (before.trans less)
      have step := ascends.offset_lt Nat.zero_lt_one (by omega)
      have both := Option.some.inj ((same ▸ stacked).symm.trans walked)
      omega
  · intro inside
    refine List.ext_getElem? fun j => ?_
    by_cases reach : j ≤ d
    · exact stacked_agrees fun k before => inside k (by omega)
    · rw [List.getElem?_eq_none (by simp; omega), List.getElem?_eq_none (by simp; omega)]

theorem play_scale (known : catalog.byId i.scaleId = .ok s) (plain : i.wheel = none)
    (degree : i.selectedNote = n) (key : i.tonality = 0) (density : i.density = d) :
    i.play catalog = .ok (i.stacked s n d, i.played) := by
  have chord : i.chord catalog = .ok ((List.iterate s.third n (d + 1)).map s.tone) := by
    rw [chord_of_scale known plain, Scale.chord_eq_notesAt, degree, key, density, Int.add_zero,
      Scale.map_tone_iterate]
    rfl
  simp only [play, pitches, chord]
  rfl

theorem play_wheel (follows : w.Follows s) (first : s.offset 0 = 0) (wheel : i.wheel = some w)
    (degree : i.selectedNote = n) (key : i.tonality = 0) (density : i.density = d)
    (narrow : d + 1 ≤ s.size) : i.play catalog = .ok (i.walked s n d, i.played) := by
  have tonic : s.tone 0 = 0 := by
    rw [Scale.tone, Nat.zero_mod, first, Nat.zero_div]
    rfl
  have root : Nat.repeat w.next n 0 = s.tone n := by rw [← tonic, follows.repeat_next]
  have voices : (max 0 (min ((d : Int) + 1) w.tones)).toNat = d + 1 := by
    have := follows.tones
    omega
  -- a wheel is walked anew for each chord: only its flags matter, not the chord that it has
  have chord : i.chord catalog = .ok ((List.iterate (· + 2) n (d + 1)).map s.tone) := by
    simp only [chord, wheel, turn, degree, key, density, Int.add_zero, List.map_id']
    simp only [Wheel.chordNotes, Wheel.setVoices, Wheel.withVoices, Wheel.startAt, Wheel.withRoot,
      Int.add_sub_cancel, Int.toNat_natCast, root]
    rw [Wheel.climb_congr (w := w), ← follows.climb_eq_tones, ← voices]
    · rfl
    · rfl
  simp only [play, pitches, chord]
  rfl

/-- **Where two strategies agree.**  An instrument of tonality 0 plays a scale of the catalog that
begins on its tonic, with no more voices than the scale has notes.  With the wheel of that scale it
plays as many voices.  They agree up to and including the first one whose degree is the last of the
scale, and they all agree if and only if no voice but the highest has such a degree.  After the
first such voice the scale gives the tonic, and the wheel the degree above it.  This holds on every
degree, in every octave and inversion. -/
theorem strategies_agree (ascends : s.Ascends) (first : s.offset 0 = 0)
    (known : catalog.byId i.scaleId = .ok s) (plain : i.wheel = none) (degree : 0 ≤ i.selectedNote)
    (key : i.tonality = 0) (density : 0 ≤ i.density) (narrow : i.density + 1 ≤ s.size)
    (name : String) :
    let last (voice : Nat) : Prop := s.IsLast (i.selectedNote + 2 * voice)
    ∃ (w : Wheel) (stacked walked : List Int),
      Wheel.ofScale s name = .ok w ∧
      i.play catalog = .ok (stacked, i.played) ∧
      { i with wheel := some w }.play catalog =
        .ok (walked, { i with wheel := some w }.played) ∧
      stacked.length = walked.length ∧
      (∀ j, (∀ k < j, ¬ last k) → stacked[j]? = walked[j]?) ∧
      (stacked = walked ↔ ∀ j : Nat, j < i.density → ¬ last j) ∧
      ∀ j : Nat, j < i.density → last j → (∀ k < j, ¬ last k) →
        ∃ tonic, stacked[j + 1]? = some tonic ∧ tonic % semitones = 0 ∧
          walked[j + 1]? = some (tonic + s.offset 1) := by
  obtain ⟨n, degree⟩ := Int.eq_ofNat_of_zero_le degree
  obtain ⟨d, density⟩ := Int.eq_ofNat_of_zero_le density
  obtain ⟨w, built, -⟩ := Wheel.ofScale_ok ascends name
  have range : d + 1 ≤ s.size := by omega
  have overScale := play_scale known plain degree key density
  have aroundWheel : { i with wheel := some w }.play catalog = _ :=
    play_wheel (Wheel.follows_ofScale ascends built) first rfl degree key density range
  refine ⟨w, i.stacked s n d, i.walked s n d, built, overScale, aroundWheel, ?_⟩
  simp only [degree, density, Int.ofNat_lt]
  exact ⟨by rw [length_stacked, length_walked], fun j => stacked_agrees,
    stacked_eq_walked_iff ascends first range, fun j => stacked_parts first range⟩

/-- Five voices over the third degree of the scale `white`, of which the third has the last
degree. -/
theorem strategies_agree_white :
    ∃ (s : Scale) (i : Instrument) (w : Wheel) (stacked walked : List Int),
      s.Ascends ∧ s.offset 0 = 0 ∧ Catalog.standard.byId i.scaleId = .ok s ∧ i.wheel = none ∧
      i.selectedNote = 2 ∧ i.tonality = 0 ∧ i.density = 4 ∧ i.density + 1 ≤ s.size ∧
      Wheel.ofScale s "" = .ok w ∧ i.play .standard = .ok (stacked, i.played) ∧
      { i with wheel := some w }.play .standard = .ok (walked, { i with wheel := some w }.played) ∧
      stacked[2]? = walked[2]? ∧ stacked ≠ walked := by
  obtain ⟨s, known⟩ : ∃ s, Catalog.standard.byId 0 = .ok s := ⟨_, rfl⟩
  have ascends : s.Ascends := by
    cases known
    exact ⟨by decide, by decide⟩
  have first : s.offset 0 = 0 := by
    cases known
    decide
  have narrow : (4 : Int) + 1 ≤ s.size := by
    cases known
    decide
  have last : ∀ k < 3, s.IsLast (2 + 2 * (k : Nat)) ↔ k = 2 := by
    cases known
    simp only [Scale.IsLast]
    decide
  obtain ⟨w, stacked, walked, built, overScale, aroundWheel, -, agree, same, -⟩ := strategies_agree
    (i := { Instrument.initial with selectedNote := 2, density := 4 })
    ascends first known rfl (by decide) rfl (by decide) narrow ""
  refine ⟨s, _, w, stacked, walked, ascends, first, known, rfl, rfl, rfl, rfl, narrow, built,
    overScale, aroundWheel, agree 2 fun k less => ?_, fun equal => ?_⟩
  · exact (last k (by omega)).not.2 (by omega)
  · exact same.1 equal 2 (by decide) ((last 2 (by decide)).2 rfl)

end Instrument

end ChordSequencer
