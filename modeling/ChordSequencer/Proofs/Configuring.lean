import ChordSequencer.CommandLine.Config
import ChordSequencer.Proofs.Commands
import ChordSequencer.Proofs.Fields

/-!
# Settings in any order

The settings of a configuration have different keys, and the settings of different keys are about
different fields of the instrument.  What one of them reads from its text does not depend on the
others, so that they may stand in any order.

* `Config.warning?`, `Config.Accepted` : what a setting comes to by itself.
* `Config.applySettings_cons`, `Config.applySettings_eq` : one setting, and all of them.
* `Config.instrument_in_any_order` : the instrument of a configuration.
-/

namespace ChordSequencer.CommandLine

open Instrument

namespace Config

/-- The warning about a key that no setting has. -/
def unknownWarning (key : String) : LogLine :=
  .warn s!"Ignoring unknown instrument setting '{key}'"

/-- The warning about a setting whose value is refused. -/
def refusedWarning (key : String) (value : Json) (why : Refusal) : LogLine :=
  .warn s!"Ignoring instrument setting {key}={value.display}: {why.message}"

/-- The warning about a setting that is unknown, or whose value is refused. -/
def warning? (c : Catalog) (member : String × Json) : Option LogLine :=
  let (key, value) := member
  match setting? key with
  | none => some (unknownWarning key)
  | some s =>
    match s.apply c .initial value.display 10 with
    | .error (.refused why) => some (refusedWarning key value why)
    | _ => none

/-- A setting that is known and accepted, and what it makes of the instrument to begin with. -/
structure Accepted (c : Catalog) (member : String × Json) (s : Setting) (j : Instrument) :
    Prop where
  /-- Its key is known. -/
  known : setting? member.1 = some s
  /-- Its value is accepted. -/
  made : s.apply c .initial member.2.display 10 = .ok j

/-- No setting fails in another way than by being refused. -/
def Mild (c : Catalog) (members : List (String × Json)) : Prop :=
  ∀ member ∈ members, ∀ s, setting? member.1 = some s → ∀ why,
    s.apply c .initial member.2.display 10 = .error why → ∃ refusal, why = .refused refusal

variable {c : Catalog} {i j : Instrument} {key : String} {s t : Setting} {filling : Filling}
  {member : String × Json} {members : List (String × Json)}

theorem setting?_name (found : setting? key = some s) : s.name = key := by
  simpa using List.find?_some found

theorem eq_of_field : ∀ s ∈ settings, ∀ t ∈ settings, s.field = t.field → s = t := by
  decide

theorem field_ne {key' : String} (other : key ≠ key') (found : setting? key = some s)
    (found' : setting? key' = some t) : s.field ≠ t.field := by
  intro same
  cases eq_of_field s (List.mem_of_find?_eq_some found) t (List.mem_of_find?_eq_some found') same
  exact other ((setting?_name found).symm.trans (setting?_name found'))

/-! ### What the settings fill -/

/-- What a setting puts into its field, if it is accepted. -/
def filling? (c : Catalog) (member : String × Json) : Option Filling :=
  (setting? member.1).bind fun s =>
    match s.read c member.2.display 10 with
    | .ok x => some ⟨s.field, x⟩
    | .error _ => none

theorem Accepted.filling? (accepted : Accepted c member s j) :
    ∃ x, filling? c member = some ⟨s.field, x⟩ ∧ s.field.get j = x := by
  obtain ⟨known, made⟩ := accepted
  rw [Setting.apply_eq] at made
  cases read : s.read c member.2.display 10 with
  | error why =>
    rw [read] at made
    cases made
  | ok x =>
    rw [read] at made
    cases made
    exact ⟨x, by simp only [Config.filling?, known, Option.bind_some, read], Field.get_put x _⟩

theorem accepted_of_filling? (fills : filling? c member = some filling) :
    ∃ s j, Accepted c member s j ∧ s.field = filling.field := by
  obtain ⟨s, known, fills⟩ := Option.bind_eq_some_iff.1 fills
  cases read : s.read c member.2.display 10 with
  | error why =>
    rw [read] at fills
    cases fills
  | ok x =>
    rw [read] at fills
    cases fills
    exact ⟨s, _, ⟨known, by rw [Setting.apply_eq, read]; rfl⟩, rfl⟩

/-- **What one setting does.**  It fills its field, or there is a warning about it, or it fails in
another way and ends it all. -/
theorem applySettings_cons (c : Catalog) (member : String × Json) (rest : List (String × Json)) :
    (∃ filling, filling? c member = some filling ∧ warning? c member = none ∧
      ∀ i, applySettings c i (member :: rest) = applySettings c (filling.put i) rest) ∨
    (∃ line, filling? c member = none ∧ warning? c member = some line ∧
      ∀ i, applySettings c i (member :: rest) =
        (line :: (applySettings c i rest).1, (applySettings c i rest).2)) ∨
    ∃ s why, setting? member.1 = some s ∧ s.apply c .initial member.2.display 10 = .error why ∧
      (∀ refusal, why ≠ .refused refusal) ∧
      ∀ i, applySettings c i (member :: rest) = ([], .error why) := by
  obtain ⟨key, value⟩ := member
  cases known : setting? key with
  | none =>
    refine .inr (.inl ⟨unknownWarning key, ?_, ?_, fun i => ?_⟩)
    · simp only [filling?, known, Option.bind_none]
    · simp only [warning?, known]
    · simp only [applySettings, known]
      rfl
  | some s =>
    cases read : s.read c value.display 10 with
    | ok x =>
      refine .inl ⟨⟨s.field, x⟩, ?_, ?_, fun i => ?_⟩
      · simp only [filling?, known, Option.bind_some, read]
      · simp only [warning?, known, Setting.apply_eq, read]
        rfl
      · simp only [applySettings, known, Setting.apply_eq, read]
        rfl
    | error why =>
      have failed (i : Instrument) : s.apply c i value.display 10 = .error why := by
        rw [Setting.apply_eq, read]
        rfl
      by_cases refused : ∃ refusal, why = .refused refusal
      · obtain ⟨refusal, rfl⟩ := refused
        refine .inr (.inl ⟨refusedWarning key value refusal, ?_, ?_, fun i => ?_⟩)
        · simp only [filling?, known, Option.bind_some, read]
        · simp only [warning?, known, failed]
        · simp only [applySettings, known, failed]
          rfl
      · have other : ∀ refusal, why ≠ .refused refusal := fun refusal same =>
          refused ⟨refusal, same⟩
        refine .inr (.inr ⟨s, why, rfl, failed _, other, fun i => ?_⟩)
        simp only [applySettings, known, failed]

/-- **The settings that are accepted fill their fields**, and there are warnings about the others,
whatever has been set before. -/
theorem applySettings_eq (mild : Mild c members) : applySettings c i members =
    (members.filterMap (warning? c), .ok (fill (members.filterMap (filling? c)) i)) := by
  induction members generalizing i with
  | nil => rfl
  | cons member rest ih =>
    obtain ⟨first, mild⟩ := List.forall_mem_cons.1 mild
    rcases applySettings_cons c member rest with ⟨filling, fills, silent, step⟩ |
      ⟨line, empty, warns, step⟩ | ⟨s, why, known, failed, other, -⟩
    · rw [step, ih mild, List.filterMap_cons_none silent, List.filterMap_cons_some fills]
      rfl
    · rw [step, ih mild, List.filterMap_cons_some warns, List.filterMap_cons_none empty]
    · obtain ⟨refusal, refused⟩ := first s known why failed
      exact absurd refused (other refusal)

theorem apart_fillings (distinct : (members.map (·.1)).Nodup) :
    Apart (members.filterMap (filling? c)) := by
  refine List.pairwise_filterMap.2 ((List.pairwise_map.1 distinct).imp ?_)
  intro member member' other filling fills filling' fills'
  obtain ⟨s, j, accepted, field⟩ := accepted_of_filling? fills
  obtain ⟨s', j', accepted', field'⟩ := accepted_of_filling? fills'
  rw [← field, ← field']
  exact field_ne other accepted.known accepted'.known

/-- **The order of the settings does not matter.**  Let the settings of a configuration have
different keys, as the members of an object do, and let none of them fail in another way than by
being refused.  Then all configurations with these settings in any order set up one and the same
instrument, with the warnings in the order of the settings that they are about.  A field of this
instrument holds what an accepted setting puts there, or else what it held to begin with. -/
theorem instrument_in_any_order (c : Catalog) (members : List (String × Json))
    (distinct : (members.map (·.1)).Nodup) (mild : Mild c members) :
    ∃ i : Instrument,
      (∀ config members', sectionOf config "instrument" "items" = .ok members' →
        members'.Perm members → instrument c config = (members'.filterMap (warning? c), .ok i)) ∧
      (∀ member ∈ members, ∀ s j, Accepted c member s j → s.field.get i = s.field.get j) ∧
      ∀ f : Field, (∀ member ∈ members, ∀ s j, Accepted c member s j → s.field ≠ f) →
        f.get i = f.get .initial := by
  have apart := apart_fillings (c := c) distinct
  refine ⟨fill (members.filterMap (filling? c)) .initial, ?_, ?_, ?_⟩
  · intro config members' found reordered
    have mild' : Mild c members' := fun member mem => mild member (reordered.mem_iff.1 mem)
    simp only [instrument, found, applySettings_eq mild']
    rw [fill_perm apart (reordered.filterMap _)]
  · intro member mem s j accepted
    obtain ⟨x, fills, rfl⟩ := accepted.filling?
    exact get_fill_of_mem apart (List.mem_filterMap.2 ⟨member, mem, fills⟩)
  · intro f others
    refine get_fill_of_ne fun filling mem => ?_
    obtain ⟨member, mem, fills⟩ := List.mem_filterMap.1 mem
    obtain ⟨s, j, accepted, field⟩ := accepted_of_filling? fills
    exact field ▸ others member mem s j accepted

/-- A key that no setting has and a value that is refused, between two settings that are accepted;
forwards and backwards. -/
theorem instrument_in_any_order_reversed :
    let members : List (String × Json) :=
      [("octave", .int 3), ("tempo", .int 90), ("velocity", .int 200), ("scale", .str "Blue")]
    let unknown := LogLine.warn "Ignoring unknown instrument setting 'tempo'"
    let refused := LogLine.warn
      "Ignoring instrument setting velocity=200: Value 200 is above the maximum 127"
    ∃ i : Instrument, i.octave = 3 ∧ i.scaleId = 1 ∧
      (∀ f : Field, f ≠ .octave → f ≠ .scaleId → f.get i = f.get .initial) ∧
      instrument .standard (.obj [("instrument", .obj members)]) = ([unknown, refused], .ok i) ∧
      instrument .standard (.obj [("instrument", .obj members.reverse)]) =
        ([refused, unknown], .ok i) := by
  intro members unknown refused
  have mild : Mild .standard members := by
    intro member mem s known why failed
    refine Setting.apply_error ?_ failed
    rintro rfl
    have other : ∀ member ∈ members, member.1 ≠ "duration" := by simp [members]
    exact other member mem (setting?_name known).symm
  have scale : Accepted .standard ("scale", .str "Blue") .scale { initial with scaleId := 1 } :=
    ⟨rfl, by decide +kernel⟩
  obtain ⟨i, same, put, kept⟩ := instrument_in_any_order .standard members (by decide) mild
  refine ⟨i, ?_, ?_, fun f octave scaleId => kept f ?_, ?_, ?_⟩
  · exact put ("octave", .int 3) (by simp [members]) .octave _ ⟨rfl, rfl⟩
  · exact put ("scale", .str "Blue") (by simp [members]) .scale _ scale
  · intro member mem s j accepted
    simp only [members, List.mem_cons, List.not_mem_nil, or_false] at mem
    rcases mem with rfl | rfl | rfl | rfl
    · cases accepted.known
      exact octave.symm
    · cases accepted.known
    · cases accepted.known
      cases accepted.made
    · cases accepted.known
      exact scaleId.symm
  · exact same _ members rfl (List.Perm.refl _)
  · exact same _ members.reverse rfl (List.reverse_perm _)

end Config

end ChordSequencer.CommandLine
