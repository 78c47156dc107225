import ChordSequencer.Proofs.NoteValues
import ChordSequencer.Scale.Catalog
import Mathlib.Data.List.Chain

/-!
# Registering scales

A catalog only ever grows at its end, so that a scale keeps its number and its name for good.  Names
are compared in the form in which the catalog keeps them (`Catalog.key`), which is the same whoever
looks a name up.

* `Catalog.WellFormed` : the invariant of catalogs; names are distinct and not empty, and scales go
  up within one octave (`Scale.Ascends`).
* `Catalog.register_eq_ok_iff` : when a scale is registered, and what comes of it.
* `Catalog.WellFormed.attempt`, `Catalog.attempt_extends` : what one request keeps, whether it is
  refused or not.
* `Catalog.Extends` : what is found in a catalog is found in every one that has grown out of it.
* `Catalog.registered_for_good` : all of it, for every history of requests.
-/

namespace ChordSequencer

open Text

/-- Offsets that go up within one octave. -/
structure Scale.Ascends (s : Scale) : Prop where
  /-- Each offset lies above the ones before it. -/
  ascending : s.offsets.Pairwise (· < ·)
  /-- All lie in one octave. -/
  inOctave : ∀ n ∈ s.offsets, 0 ≤ n ∧ n < semitones

namespace Catalog

/-- What somebody wants to register. -/
structure Request where
  /-- The name as it is given. -/
  name : String
  /-- The offsets of the scale. -/
  offsets : List Int

variable {c c' c'' : Catalog} {name : String} {offsets : List Int} {id : Nat} {s : Scale}

/-- The catalog after a request; one that is refused leaves it as it is. -/
def attempt (c : Catalog) (r : Request) : Catalog :=
  match c.register r.name r.offsets with
  | .ok (c', _) => c'
  | .error _ => c

/-- The catalog after requests one after another. -/
def attemptAll (c : Catalog) (requests : List Request) : Catalog := requests.foldl attempt c

/-- A catalog in which every scale can be found by its name. -/
structure WellFormed (c : Catalog) : Prop where
  /-- No two scales have one name. -/
  distinct : c.names.Nodup
  /-- No name is empty. -/
  named : ∀ name ∈ c.names, name ≠ ""
  /-- The offsets of each scale go up within one octave. -/
  ascends : ∀ entry ∈ c.entries, entry.2.Ascends

/-! ### One request -/

theorem ascending_iff : ascending offsets = true ↔ offsets.Pairwise (· < ·) := by
  rw [← List.isChain_iff_pairwise]
  induction offsets with
  | nil => simp [ascending]
  | cons a rest ih =>
    cases rest with
    | nil => simp [ascending]
    | cons b rest => simp [ascending, ih]

theorem inOctave_iff : inOctave offsets = true ↔ ∀ n ∈ offsets, 0 ≤ n ∧ n < semitones := by
  simp [inOctave]

/-- **When a scale is registered**: its name is neither empty nor taken, and its offsets go up
within one octave.  It stands at the end of the catalog. -/
theorem register_eq_ok_iff :
    c.register name offsets = .ok (c', id) ↔
      ∃ s : Scale, s.offsets = offsets ∧ s.Ascends ∧ key name ≠ "" ∧ key name ∉ c.names ∧
        c' = ⟨c.entries ++ [(key name, s)]⟩ ∧ id = c.size := by
  simp only [register]
  constructor
  · intro h
    split at h
    · cases h
    · rename_i named
      split at h
      · cases h
      · rename_i free
        split at h
        · cases h
        · rename_i some
          split at h
          · cases h
          · rename_i inside
            split at h <;> cases h
            rename_i ordered
            refine ⟨⟨offsets, some⟩, rfl, ⟨?_, ?_⟩, named, free, rfl, rfl⟩
            · exact ascending_iff.1 (by simpa using ordered)
            · exact inOctave_iff.1 (by simpa using inside)
  · rintro ⟨s, rfl, ascends, named, free, rfl, rfl⟩
    rw [if_neg named, if_neg free, dif_neg s.nonempty, inOctave_iff.2 ascends.inOctave,
      ascending_iff.2 ascends.ascending]
    rfl

theorem attempt_cases (c : Catalog) (r : Request) : c.attempt r = c ∨
    ∃ s : Scale, s.Ascends ∧ key r.name ≠ "" ∧ key r.name ∉ c.names ∧
      c.attempt r = ⟨c.entries ++ [(key r.name, s)]⟩ := by
  simp only [attempt]
  split
  · rename_i registered
    obtain ⟨s, -, ascends, named, free, rfl, -⟩ := register_eq_ok_iff.1 registered
    exact .inr ⟨s, ascends, named, free, rfl⟩
  · exact .inl rfl

theorem attempt_ok (registered : c.register name offsets = .ok (c', id)) :
    c.attempt ⟨name, offsets⟩ = c' := by
  simp only [attempt, registered]

/-- **A request keeps the catalog well formed.** -/
theorem WellFormed.attempt (h : c.WellFormed) (r : Request) : (c.attempt r).WellFormed := by
  rcases c.attempt_cases r with same | ⟨s, ascends, named, free, grown⟩
  · rw [same]
    exact h
  · have names : (c.attempt r).names = c.names ++ [key r.name] := by
      rw [grown]
      simp [Catalog.names]
    refine ⟨?_, ?_, ?_⟩
    · rw [names]
      refine List.nodup_append.2
        ⟨h.distinct, List.pairwise_singleton _ _, fun old mem new here => ?_⟩
      rw [List.mem_singleton.1 here]
      exact fun same => free (same ▸ mem)
    · rw [names]
      exact List.forall_mem_append.2 ⟨h.named, List.forall_mem_singleton.2 named⟩
    · rw [grown]
      exact List.forall_mem_append.2 ⟨h.ascends, List.forall_mem_singleton.2 ascends⟩

theorem WellFormed.attemptAll (requests : List Request) :
    ∀ {c : Catalog}, c.WellFormed → (c.attemptAll requests).WellFormed := by
  induction requests with
  | nil => exact fun h => h
  | cons r requests ih => exact fun h => ih (h.attempt r)

theorem standard_wellFormed : standard.WellFormed := by
  refine ⟨by decide, by decide, fun entry mem => ⟨?_, ?_⟩⟩
  · revert entry
    decide
  · revert entry
    decide

/-! ### Growth -/

/-- The entries of one catalog stand at the beginning of another one. -/
def Extends (c c' : Catalog) : Prop := c.entries <+: c'.entries

theorem Extends.trans (h : c.Extends c') (h' : c'.Extends c'') : c.Extends c'' :=
  List.IsPrefix.trans h h'

theorem attempt_extends (c : Catalog) (r : Request) : c.Extends (c.attempt r) := by
  rcases c.attempt_cases r with same | ⟨s, -, -, -, grown⟩
  · rw [same]
    exact List.prefix_rfl
  · rw [grown]
    exact List.prefix_append _ _

theorem attemptAll_extends (requests : List Request) :
    ∀ c : Catalog, c.Extends (c.attemptAll requests) := by
  induction requests with
  | nil => exact fun _ => List.prefix_rfl
  | cons r requests ih => exact fun c => (c.attempt_extends r).trans (ih _)

theorem Extends.byId (h : c.Extends c') {number : Int} (found : c.byId number = .ok s) :
    c'.byId number = .ok s := by
  obtain ⟨later, grown⟩ := h
  simp only [Catalog.byId] at found ⊢
  split at found <;> cases found
  rename_i entry there
  by_cases low : 0 ≤ number
  · rw [if_pos low] at there ⊢
    rw [← grown, List.getElem?_append_left (List.getElem?_eq_some_iff.1 there).1, there]
  · rw [if_neg low] at there
    cases there

theorem Extends.byName (h : c.Extends c') (found : c.byName name = .ok s) :
    c'.byName name = .ok s := by
  obtain ⟨later, grown⟩ := h
  simp only [Catalog.byName] at found ⊢
  split at found <;> cases found
  rename_i entry there
  rw [← grown, List.find?_append, there]
  rfl

theorem Extends.idOfName (h : c.Extends c') (found : c.idOfName name = .ok id) :
    c'.idOfName name = .ok id := by
  obtain ⟨later, grown⟩ := h
  simp only [Catalog.idOfName, names] at found ⊢
  split at found <;> cases found
  rename_i there
  rw [← grown, List.map_append, List.findIdx?_append, there]
  rfl

/-! ### The scale that was registered -/

theorem names_of_register (registered : c.register name offsets = .ok (c', id)) :
    c'.names = c.names ++ [key name] := by
  obtain ⟨s, -, -, -, -, rfl, -⟩ := register_eq_ok_iff.1 registered
  simp [names]

/-- **A scale is found** by the number that registering it has answered, and by its name. -/
theorem found_of_register (registered : c.register name offsets = .ok (c', id)) :
    ∃ s : Scale, s.offsets = offsets ∧ c'.byId id = .ok s ∧ c'.byName name = .ok s ∧
      c'.idOfName name = .ok id := by
  obtain ⟨s, given, -, -, free, rfl, rfl⟩ := register_eq_ok_iff.1 registered
  have other : ∀ entry ∈ c.entries, ¬ (entry.1 == key name) = true := by
    intro entry mem same
    exact free (eq_of_beq same ▸ List.mem_map_of_mem mem)
  refine ⟨s, given, ?_, ?_, ?_⟩
  · simp [byId, size]
  · simp [byName, List.find?_append, List.find?_eq_none.2 other]
  · have missing : c.names.findIdx? (· == key name) = none := by
      simpa [names, List.findIdx?_eq_none_iff] using other
    have grown : names ⟨c.entries ++ [(key name, s)]⟩ = c.names ++ [key name] := by simp [names]
    have length : c.names.length = c.size := by simp [names, size]
    simp only [idOfName, grown, List.findIdx?_append, missing]
    simp [length]

theorem idOfText_of_idOfName {base : Nat} (word : Numeral.read? base (strip name.toList) = none)
    (found : c.idOfName name = .ok id) : c.idOfText name base = .ok id := by
  have stripped : c.idOfName (String.ofList (strip name.toList)) = .ok id := by
    simp only [idOfName, key, String.toList_ofList, strip_strip] at found ⊢
    split at found <;> cases found
    rfl
  simp only [idOfText, word, stripped]
  rfl

/-! ### Histories -/

/-- **A scale is registered for good.**  After any requests, whether they succeed or not, there is
one scale for each name; the names are distinct and not empty, and each scale is a non-empty list of
offsets that go up within one octave.  A request that is refused changes nothing.  One that succeeds
answers the number of scales there were and adds its name, without blanks around it and in lower
case.  All earlier numbers and names keep their scales, and after any further requests the new scale
is found by its number, by its name as it was given, and its number by that name in every base in
which the name is no number itself. -/
theorem registered_for_good (before : List Request) :
    let c := standard.attemptAll before
    c.WellFormed ∧ c.names.length = c.size ∧ (∀ entry ∈ c.entries, entry.2.offsets ≠ []) ∧
    ∀ name offsets,
      (∀ why, c.register name offsets = .error why → c.attempt ⟨name, offsets⟩ = c) ∧
      ∀ c' id, c.register name offsets = .ok (c', id) →
        c.attempt ⟨name, offsets⟩ = c' ∧ id = c.size ∧
        c'.names = c.names ++ [String.ofList (lower (strip name.toList))] ∧
        ∀ later, let c'' := c'.attemptAll later
          (∀ number s, c.byId number = .ok s → c''.byId number = .ok s) ∧
          (∀ word s, c.byName word = .ok s → c''.byName word = .ok s) ∧
          ∃ s : Scale, s.offsets = offsets ∧ c''.byId id = .ok s ∧ c''.byName name = .ok s ∧
            ∀ base, Numeral.read? base (strip name.toList) = none →
              c''.idOfText name base = .ok id := by
  intro c
  refine ⟨standard_wellFormed.attemptAll before, by simp [names, size],
    fun entry _ => entry.2.nonempty, fun name offsets => ⟨fun why refused => ?_, ?_⟩⟩
  · simp only [attempt, refused]
  · intro c' id registered
    have grown := attempt_ok registered
    have first : c.Extends c' := grown ▸ c.attempt_extends _
    obtain ⟨s, given, byId, byName, idOfName⟩ := found_of_register registered
    obtain ⟨-, -, -, -, -, -, number⟩ := register_eq_ok_iff.1 registered
    refine ⟨grown, number, names_of_register registered, fun later => ?_⟩
    have further := attemptAll_extends later c'
    have all := first.trans further
    exact ⟨fun _ _ => all.byId, fun _ _ => all.byName, s, given, further.byId byId,
      further.byName byName, fun base word => idOfText_of_idOfName word (further.idOfName idOfName)⟩

/-- A scale of five notes, with blanks around its name. -/
theorem registered_for_good_hirajoshi : ∃ c', standard.register " Hirajoshi " [0, 2, 3, 7, 8] =
      .ok (c', 7) ∧ c'.names = standard.names ++ ["hirajoshi"] ∧
    ∀ later, ∃ s : Scale, s.offsets = [0, 2, 3, 7, 8] ∧
      (c'.attemptAll later).byId 7 = .ok s ∧
      (c'.attemptAll later).byName " Hirajoshi " = .ok s ∧
      (c'.attemptAll later).idOfText " Hirajoshi " 16 = .ok 7 := by
  obtain ⟨c', registered⟩ : ∃ c', standard.register " Hirajoshi " [0, 2, 3, 7, 8] = .ok (c', 7) :=
    ⟨_, rfl⟩
  obtain ⟨-, -, names, kept⟩ :=
    ((registered_for_good []).2.2.2 " Hirajoshi " [0, 2, 3, 7, 8]).2 c' 7 registered
  refine ⟨c', registered, names.trans (by decide), fun later => ?_⟩
  obtain ⟨-, -, s, given, byId, byName, idOfText⟩ := kept later
  exact ⟨s, given, byId, byName, idOfText 16 (by decide)⟩

end Catalog

end ChordSequencer
