import ChordSequencer.Setting

/-!
# The fields of an instrument

Every setting is about one field of an instrument.  It takes the content of this field from a text,
without looking at the instrument, and puts it there.

* `Instrument.Field.get_put`, `Instrument.Field.get_put_of_ne` : what is put into a field, and that
  it is put nowhere else.
* `Instrument.eq_of_get` : an instrument is made of its fields.
* `Instrument.fill_perm` : fields that are filled one after another.
* `Setting.read` : the content that a setting takes from a text.
* `Setting.apply_eq` : a setting reads the content of its field and puts it there.
-/

namespace ChordSequencer

namespace Instrument

/-- The fields of an instrument. -/
inductive Field
  | channel
  | scaleId
  | tonality
  | timbre
  | octave
  | selectedNote
  | density
  | inversion
  | velocity
  | playMode
  | duration
  | repeats
  | wheel
  | notes
  deriving DecidableEq, Repr

namespace Field

/-- What a field can hold. -/
abbrev Content : Field → Type
  | playMode => PlayMode
  | duration => String
  | wheel => Option Wheel
  | notes => List Int
  | _ => Int

/-- What a field of an instrument holds. -/
def get (f : Field) (i : Instrument) : f.Content :=
  match f with
  | channel => i.channel
  | scaleId => i.scaleId
  | tonality => i.tonality
  | timbre => i.timbre
  | octave => i.octave
  | selectedNote => i.selectedNote
  | density => i.density
  | inversion => i.inversion
  | velocity => i.velocity
  | playMode => i.playMode
  | duration => i.duration
  | repeats => i.repeats
  | wheel => i.wheel
  | notes => i.notes

/-- The instrument with something else in a field. -/
def put (f : Field) (x : f.Content) (i : Instrument) : Instrument :=
  match f with
  | channel => { i with channel := x }
  | scaleId => { i with scaleId := x }
  | tonality => { i with tonality := x }
  | timbre => { i with timbre := x }
  | octave => { i with octave := x }
  | selectedNote => { i with selectedNote := x }
  | density => { i with density := x }
  | inversion => { i with inversion := x }
  | velocity => { i with velocity := x }
  | playMode => { i with playMode := x }
  | duration => { i with duration := x }
  | repeats => { i with repeats := x }
  | wheel => { i with wheel := x }
  | notes => { i with notes := x }

variable {f g : Field}

@[simp] theorem get_put (x : f.Content) (i : Instrument) : f.get (f.put x i) = x := by
  cases f <;> rfl

theorem get_put_of_ne (other : g ≠ f) (x : f.Content) (i : Instrument) :
    g.get (f.put x i) = g.get i := by
  cases f <;> cases g <;> first | rfl | exact absurd rfl other

end Field

/-- **An instrument is made of its fields.** -/
theorem eq_of_get {i j : Instrument} (same : ∀ f : Field, f.get i = f.get j) : i = j := by
  cases i
  cases j
  rw [mk.injEq]
  exact ⟨same .channel, same .scaleId, same .tonality, same .timbre, same .octave,
    same .selectedNote, same .density, same .inversion, same .velocity, same .playMode,
    same .duration, same .repeats, same .wheel, same .notes⟩

/-! ### Filling fields -/

/-- A field and what it is to hold. -/
structure Filling where
  /-- The field. -/
  field : Field
  /-- What it is to hold. -/
  content : field.Content

/-- Puts it there. -/
def Filling.put (filling : Filling) (i : Instrument) : Instrument :=
  filling.field.put filling.content i

/-- Fills fields of an instrument one after another. -/
def fill (fillings : List Filling) (i : Instrument) : Instrument :=
  fillings.foldl (fun i filling => filling.put i) i

/-- No field is filled twice. -/
def Apart (fillings : List Filling) : Prop := fillings.Pairwise (·.field ≠ ·.field)

variable {i : Instrument} {filling : Filling} {fillings fillings' : List Filling}

theorem get_fill_of_ne {f : Field} (others : ∀ filling ∈ fillings, filling.field ≠ f) :
    f.get (fill fillings i) = f.get i := by
  induction fillings generalizing i with
  | nil => rfl
  | cons filling rest ih =>
    obtain ⟨other, others⟩ := List.forall_mem_cons.1 others
    exact (ih others).trans (Field.get_put_of_ne other.symm _ i)

theorem get_fill_of_mem (apart : Apart fillings) (mem : filling ∈ fillings) :
    filling.field.get (fill fillings i) = filling.content := by
  induction fillings generalizing i with
  | nil => exact absurd mem List.not_mem_nil
  | cons first rest ih =>
    obtain ⟨others, apart⟩ := List.pairwise_cons.1 apart
    rcases List.mem_cons.1 mem with rfl | mem
    · exact (get_fill_of_ne fun later mem => (others later mem).symm).trans (Field.get_put _ i)
    · exact ih apart mem

/-- **Different fields may be filled in any order.** -/
theorem fill_perm (apart : Apart fillings) (reordered : fillings'.Perm fillings) :
    fill fillings' i = fill fillings i := by
  have apart' : Apart fillings' := (reordered.pairwise_iff fun h => h.symm).2 apart
  refine eq_of_get fun f => ?_
  by_cases filled : ∃ filling ∈ fillings, filling.field = f
  · obtain ⟨filling, mem, rfl⟩ := filled
    rw [get_fill_of_mem apart mem, get_fill_of_mem apart' (reordered.mem_iff.2 mem)]
  · have others : ∀ filling ∈ fillings, filling.field ≠ f := fun filling mem same =>
      filled ⟨filling, mem, same⟩
    have others' : ∀ filling ∈ fillings', filling.field ≠ f := fun filling mem =>
      others filling (reordered.mem_iff.1 mem)
    rw [get_fill_of_ne others, get_fill_of_ne others']

end Instrument

namespace Setting

open Instrument

/-- The field that a setting is about. -/
def field : Setting → Field
  | channel => .channel
  | timbre => .timbre
  | scale => .scaleId
  | key => .tonality
  | width => .density
  | inversion => .inversion
  | octave => .octave
  | playMode => .playMode
  | velocity => .velocity
  | pulse => .duration
  | duration => .duration
  | repeats => .repeats
  | scheme => .wheel

/-- The content that a setting takes from a text for its field. -/
def read (c : Catalog) (value : String) (base : Nat) (s : Setting) :
    Except Failure s.field.Content :=
  match s with
  | channel => refusing (number value base (some 0) (some 15))
  | timbre => refusing (number value base (some 0) (some 127))
  | scale => refusing (c.idOfText value base)
  | key => refusing (Key.ofText value base)
  | width => refusing (number value base (some 0) none)
  | inversion => refusing (number value base (some 0) none)
  | octave => refusing (number value base none none)
  | playMode => refusing (PlayMode.ofText value base)
  | velocity => refusing (number value base (some 0) (some 127))
  | pulse => refusing (pulseOfText value base)
  | duration => durationOfText value
  | repeats => refusing (number value base (some 1) none)
  | scheme => refusing (wheelOfText value)

variable (c : Catalog) (i : Instrument) (value : String) (base : Nat)

/-- **A setting reads the content of its field and puts it there.** -/
theorem apply_eq (s : Setting) :
    s.apply c i value base = (s.read c value base).map (s.field.put · i) := by
  cases s <;> rfl

end Setting

end ChordSequencer
