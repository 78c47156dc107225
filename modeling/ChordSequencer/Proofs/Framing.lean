import ChordSequencer.Proofs.Commands
import ChordSequencer.Proofs.Fields

/-!
# Commands change one field or nothing

A command may be thought of as changing an instrument in place, so that a failure on the way would
leave behind what was stored before it.  Every setting reads its text to the end before it stores
anything, and stores in one field, so that there is nothing to be left behind.

* `Setting.alter` : a setting made in place; what is stored before a failure stays.
* `Setting.Makes`, `Setting.Fails` : what a command comes to, computed anew and in place.
* `Setting.makes_of_read`, `Setting.fails_of_read` : it depends on what the setting reads.
* `Setting.commands_framed` : a command changes the field of its code, or nothing.
-/

namespace ChordSequencer

open Instrument

namespace Setting

/-- The field that the commands of a code own. -/
def ownedField? : String → Option Field
  | "C" => some .channel
  | "T" => some .timbre
  | "S" => some .scaleId
  | "K" => some .tonality
  | "W" => some .density
  | "I" => some .inversion
  | "O" => some .octave
  | "M" => some .playMode
  | "V" => some .velocity
  | "P" => some .duration
  | "D" => some .duration
  | "R" => some .repeats
  | "N" => some .wheel
  | _ => none

variable (c : Catalog) (value : String) (base : Nat)

/-- Makes a setting in place: its text is read, and what it says is stored. -/
def alter (s : Setting) : EStateM Failure Instrument Unit := do
  let x ← ofExcept (s.read c value base)
  modify (s.field.put x)

/-- Makes the setting that a code calls in place. -/
def alterCode (code : String) : EStateM Failure Instrument Unit :=
  match ofCode? code with
  | some s => s.alter c value base
  | none => throw (.unknownCommand code)

/-- A command makes one instrument of another: so it is computed, and so it is left in place. -/
structure Makes (code : String) (i j : Instrument) : Prop where
  /-- The result. -/
  computed : applyCode c i value base code = .ok j
  /-- What is left in place. -/
  inPlace : (alterCode c value base code).run i = .ok () j

/-- A command fails on an instrument: there is no result, and in place nothing is changed. -/
structure Fails (code : String) (i : Instrument) (why : Failure) : Prop where
  /-- The failure. -/
  computed : applyCode c i value base code = .error why
  /-- What is left in place. -/
  inPlace : (alterCode c value base code).run i = .error why i

variable {c value base} {code : String} {s : Setting}

theorem ownedField?_of_ofCode? (called : ofCode? code = some s) :
    ownedField? code = some s.field := by
  rw [← ofCode?_code called]
  cases s <;> rfl

/-! ### What a command comes to -/

theorem makes_of_read {x : s.field.Content} (called : ofCode? code = some s)
    (known : s.read c value base = .ok x) (i : Instrument) :
    Makes c value base code i (s.field.put x i) where
  computed := by
    simp only [applyCode, called, apply_eq, known]
    rfl
  inPlace := by
    simp only [alterCode, called, alter, known]
    rfl

theorem fails_of_read {why : Failure} (called : ofCode? code = some s)
    (failed : s.read c value base = .error why) (i : Instrument) :
    Fails c value base code i why where
  computed := by
    simp only [applyCode, called, apply_eq, failed]
    rfl
  inPlace := by
    simp only [alterCode, called, alter, failed]
    rfl

theorem fails_of_unknown (unknown : ofCode? code = none) (i : Instrument) :
    Fails c value base code i (.unknownCommand code) where
  computed := by simp only [applyCode, unknown]
  inPlace := by
    simp only [alterCode, unknown]
    rfl

/-- **A command fails on every instrument or on none.**  On none, it puts the same into the field of
its code on each, and leaves all other fields as they are. -/
theorem fails_or_makes (c : Catalog) (value : String) (base : Nat) (code : String) :
    (∃ why, ∀ i, Fails c value base code i why) ∨
    ∃ f, ownedField? code = some f ∧ ∃ x : f.Content, ∀ i, ∃ j, Makes c value base code i j ∧
      f.get j = x ∧ ∀ g, g ≠ f → g.get j = g.get i := by
  cases called : ofCode? code with
  | none => exact .inl ⟨_, fails_of_unknown called⟩
  | some s =>
    cases known : s.read c value base with
    | error why => exact .inl ⟨why, fails_of_read called known⟩
    | ok x =>
      refine .inr ⟨s.field, ownedField?_of_ofCode? called, x, fun i => ?_⟩
      exact ⟨_, makes_of_read called known i, Field.get_put x i,
        fun g other => Field.get_put_of_ne other x i⟩

/-- **A conductor applies a command or passes it over** with one warning, unless the command fails
in another way than by being unknown or refused. -/
theorem applyCommand_outcome {k : Conductor} {i : Instrument} (there : k.instrument = some i)
    (mild : ∀ why, applyCode k.catalog i value base code = .error why →
      (∃ code', why = .unknownCommand code') ∨ ∃ refusal, why = .refused refusal) :
    (∃ j, applyCode k.catalog i value base code = .ok j ∧
      k.applyCommand ⟨code, value⟩ base = .ok ({ k with instrument := some j }, true)) ∨
    ((∃ why, applyCode k.catalog i value base code = .error why) ∧
      ∃ line : LogLine, line.level = .warning ∧
        k.applyCommand ⟨code, value⟩ base = .ok ({ k with log := line :: k.log }, false)) := by
  have required : k.requireInstrument = .ok i := by simp only [Conductor.requireInstrument, there]
  simp only [Conductor.applyCommand, required, Except.bind]
  cases done : applyCode k.catalog i value base code with
  | ok j => exact .inl ⟨j, rfl, rfl⟩
  | error why =>
    obtain ⟨code', rfl⟩ | ⟨refusal, rfl⟩ := mild why done
    · exact .inr ⟨⟨_, rfl⟩, .warn _, rfl, rfl⟩
    · exact .inr ⟨⟨_, rfl⟩, .warn _, rfl, rfl⟩

/-- **Commands are atomic and framed.**  Any text in any base under any code either fails on all
instruments, each of which it leaves as it is, or changes in each of them no other field than the
one of its code; what comes there depends on the code, the text, the base and the catalog alone.  A
conductor answers that it has applied a command, and logs nothing, exactly when the command
succeeds.  If it is unknown or refused, the conductor logs one warning, answers that it has not, and
leaves the instrument as it was. -/
theorem commands_framed (c : Catalog) (code value : String) (base : Nat) :
    ((∃ why, ∀ i, Fails c value base code i why) ∨
      ∃ f, ownedField? code = some f ∧ ∃ x : f.Content, ∀ i, ∃ j, Makes c value base code i j ∧
        f.get j = x ∧ ∀ g, g ≠ f → g.get j = g.get i) ∧
    ∀ (k : Conductor) (i : Instrument), k.catalog = c → k.instrument = some i →
      (∀ why, applyCode c i value base code = .error why →
        (∃ code', why = .unknownCommand code') ∨ ∃ refusal, why = .refused refusal) →
      (∃ j, applyCode c i value base code = .ok j ∧
        k.applyCommand ⟨code, value⟩ base = .ok ({ k with instrument := some j }, true)) ∨
      ((∃ why, applyCode c i value base code = .error why) ∧
        ∃ line : LogLine, line.level = .warning ∧
          k.applyCommand ⟨code, value⟩ base = .ok ({ k with log := line :: k.log }, false)) := by
  refine ⟨fails_or_makes c value base code, ?_⟩
  rintro k i rfl there mild
  exact applyCommand_outcome there mild

/-- A program that MIDI does not have is refused with one warning, and the instrument keeps its
own. -/
theorem commands_framed_timbre : ∃ k : Conductor, k.catalog = .standard ∧
    k.instrument = some .initial ∧
    applyCode .standard .initial "200" 10 "T" = .error (.refused (.aboveMaximum 200 127)) ∧
    ∃ line : LogLine, line.level = .warning ∧
      k.applyCommand ⟨"T", "200"⟩ 10 = .ok ({ k with log := line :: k.log }, false) := by
  obtain ⟨k, created⟩ : ∃ k, Conductor.create true .standard 120.0 = .ok k := ⟨_, rfl⟩
  have scales : k.catalog = .standard := by
    cases created
    rfl
  have refused : applyCode .standard .initial "200" 10 "T" =
      .error (.refused (.aboveMaximum 200 127)) := by decide +kernel
  have outcome := (commands_framed .standard "T" "200" 10).2
    { k with instrument := some .initial } .initial scales rfl
    fun why failed => .inr ⟨_, Except.error.inj (failed.symm.trans refused)⟩
  refine ⟨{ k with instrument := some .initial }, scales, rfl, refused, ?_⟩
  rcases outcome with ⟨j, made, -⟩ | ⟨-, warned⟩
  · rw [refused] at made
    cases made
  · exact warned

end Setting

end ChordSequencer
