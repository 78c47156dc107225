import ChordSequencer.Proofs.NoteValues
import ChordSequencer.Proofs.Stretch

/-!
# What commands do to an instrument that can play

An instrument can play when its scale is in the catalog, its note value reads, and blocks are played
at least once (`Instrument.Playable`).  Commands keep it so.  A command that is unknown or refused
is passed over; the only other way in which a command can go wrong is a note value of too large a
number (`Command.Chokes`).

* `Setting.apply_playable` : an applied setting.
* `Conductor.applyCommand_ok`, `Conductor.applyCommand_chokes` : a command.
* `Conductor.applyCommands_ok`, `Conductor.applyCommands_chokes` : all commands of a block.
* `Conductor.applyCommands_kept` : what each command keeps, all of them keep.
-/

namespace ChordSequencer

open Text

/-- An instrument that can play: the number of its note value is `n`. -/
structure Instrument.Playable (catalog : Catalog) (n : Nat) (i : Instrument) : Prop where
  /-- Its scale is in the catalog. -/
  scale : ∃ s, catalog.byId i.scaleId = .ok s
  /-- Its note value reads. -/
  value : ∃ unit, NoteValue.ofText i.duration = .ok ⟨n, unit⟩
  /-- Blocks are played at least once. -/
  repeats : 1 ≤ i.repeats

namespace Command

/-- The number of the note value that a command chooses, if it chooses one. A note value is written
in decimal digits, the number of a pulse in the base of the block. -/
def count? (base : Nat) (command : Command) : Option Nat :=
  if command.code = "D" then
    match NoteValue.ofText command.value with
    | .ok v => some v.count
    | .error _ => none
  else if command.code = "P" then
    match Numeral.read? base (strip command.value.toList) with
    | some n => if 1 ≤ n then some n.toNat else none
    | none => none
  else none

theorem count?_pulse {base : Nat} {command : Command} {n : Int} (code : command.code = "P")
    (number : Numeral.read? base (strip command.value.toList) = some n) (positive : 1 ≤ n) :
    command.count? base = some n.toNat := by
  have other : ¬ command.code = "D" := by rw [code]; decide
  simp only [count?]
  rw [if_neg other, if_pos code, number]
  exact if_pos positive

/-- A command for a note value whose number is too large. -/
def Chokes (command : Command) : Prop :=
  command.code = "D" ∧ ∃ v, NoteValue.ofText command.value = .ok v ∧ Number.TooLarge v.count

end Command

/-! ### Settings -/

namespace Setting

theorem ofCode?_code {code : String} {s : Setting} (h : ofCode? code = some s) : s.code = code := by
  have found := List.find?_some h
  simpa using found

theorem map_ok {ε α β : Type} {r : Except ε α} {f : α → β} {b : β} (h : r.map f = .ok b) :
    ∃ a, r = .ok a ∧ f a = b := by
  cases r with
  | error why => cases h
  | ok a => exact ⟨a, rfl, Except.ok.inj h⟩

theorem bind_ok {ε α β : Type} {r : Except ε α} {f : α → Except ε β} {b : β}
    (h : r.bind f = .ok b) : ∃ a, r = .ok a ∧ f a = .ok b := by
  cases r with
  | error why => cases h
  | ok a => exact ⟨a, rfl, h⟩

theorem refusing_ok {α : Type} {r : Except Refusal α} {a : α} (h : refusing r = .ok a) :
    r = .ok a := by
  cases r with
  | error why => cases h
  | ok b => exact congrArg _ (Except.ok.inj h)

theorem map_refusing_error {α β : Type} {r : Except Refusal α} {f : α → β} {why : Failure}
    (h : (refusing r).map f = .error why) : ∃ refusal, why = .refused refusal := by
  cases r with
  | error refusal => exact ⟨refusal, (Except.error.inj h).symm⟩
  | ok a => cases h

variable {catalog : Catalog} {n : Nat} {i j : Instrument} {value : String} {base : Nat}

theorem idOfText_ok {text : String} {id : Int} (h : catalog.idOfText text base = .ok id) :
    ∃ s, catalog.byId id = .ok s := by
  simp only [Catalog.idOfText] at h
  split at h
  · obtain ⟨s, found, rfl⟩ := map_ok h
    exact ⟨s, found⟩
  · -- a name gives the index of an entry, and each index below the length is an id
    obtain ⟨k, found, rfl⟩ := map_ok h
    simp only [Catalog.idOfName] at found
    split at found
    · rename_i index
      cases found
      have bound := (List.findIdx?_eq_some_iff_findIdx_eq.1 index).1
      rw [Catalog.names, List.length_map] at bound
      have entry : catalog.entries[k]? = some catalog.entries[k] := List.getElem?_eq_getElem bound
      refine ⟨catalog.entries[k].2, ?_⟩
      simp only [Catalog.byId]
      rw [if_pos (show 0 ≤ Int.ofNat k from Int.natCast_nonneg k)]
      simp only [Int.ofNat_eq_natCast, Int.toNat_natCast, entry]
    · cases found

theorem number_bounds {m : Int} {low? high? : Option Int}
    (h : number value base low? high? = .ok m) :
    (∀ low ∈ low?, low ≤ m) ∧ ∀ high ∈ high?, m ≤ high := by
  simp only [number] at h
  split at h
  · cases h
  · -- without a bound there is nothing to show
    split at h
    · split at h
      · cases h
      · split at h <;> cases h
        constructor <;> rintro _ ⟨⟩ <;> omega
    · split at h <;> cases h
      constructor <;> rintro _ ⟨⟩
      omega
    · split at h <;> cases h
      constructor <;> rintro _ ⟨⟩
      omega
    · constructor <;> rintro _ ⟨⟩

theorem number_low {low : Int} {m : Int} {high? : Option Int}
    (h : number value base (some low) high? = .ok m) : low ≤ m :=
  (number_bounds h).1 low rfl

/-- **An applied setting keeps the instrument playable.** The note value changes only with the
settings that are about it. -/
theorem apply_playable {s : Setting} (hp : i.Playable catalog n) (hd : s ≠ .duration)
    (hpu : s ≠ .pulse) (h : s.apply catalog i value base = .ok j) : j.Playable catalog n := by
  obtain ⟨scale, value, repeats⟩ := hp
  cases s with
  | duration => exact absurd rfl hd
  | pulse => exact absurd rfl hpu
  | scale =>
    obtain ⟨id, read, rfl⟩ := map_ok h
    exact ⟨idOfText_ok (refusing_ok read), value, repeats⟩
  | repeats =>
    obtain ⟨m, read, rfl⟩ := map_ok h
    exact ⟨scale, value, number_low (refusing_ok read)⟩
  | _ =>
    obtain ⟨a, _, rfl⟩ := map_ok h
    exact ⟨scale, value, repeats⟩

theorem apply_error {s : Setting} {why : Failure} (hd : s ≠ .duration)
    (h : s.apply catalog i value base = .error why) : ∃ refusal, why = .refused refusal := by
  cases s with
  | duration => exact absurd rfl hd
  | _ => exact map_refusing_error h

theorem apply_duration {command : Command} (code : command.code = "D")
    (hp : i.Playable catalog n) (fits : ¬ command.Chokes) :
    (∃ j, duration.apply catalog i command.value base = .ok j ∧
      j.Playable catalog ((command.count? base).getD n)) ∨
    ((∃ refusal, duration.apply catalog i command.value base = .error (.refused refusal)) ∧
      command.count? base = none) := by
  simp only [apply, durationOfText, Command.count?, if_pos code]
  cases read : NoteValue.ofText command.value with
  | error refusal =>
    rw [NoteValue.beatsOfText_refused read]
    exact .inr ⟨⟨refusal, rfl⟩, rfl⟩
  | ok v =>
    obtain ⟨beats, length⟩ := NoteValue.beatsOfText_ok read fun large => fits ⟨code, v, read, large⟩
    rw [length]
    exact .inl ⟨_, rfl, hp.scale, ⟨v.unit, NoteValue.ofText_strip read⟩, hp.repeats⟩

theorem apply_pulse {command : Command} (code : command.code = "P") (hp : i.Playable catalog n) :
    (∃ j, pulse.apply catalog i command.value base = .ok j ∧
      j.Playable catalog ((command.count? base).getD n)) ∨
    ((∃ refusal, pulse.apply catalog i command.value base = .error (.refused refusal)) ∧
      command.count? base = none) := by
  have other : ¬ command.code = "D" := by rw [code]; decide
  simp only [apply, pulseOfText, number, Command.count?, if_neg other, if_pos code]
  cases read : Numeral.read? base (strip command.value.toList) with
  | none => exact .inr ⟨⟨_, rfl⟩, rfl⟩
  | some m =>
    dsimp only
    by_cases positive : 1 ≤ m
    · left
      obtain ⟨k, rfl⟩ := Int.eq_ofNat_of_zero_le (Int.le_trans Int.one_nonneg positive)
      have written : NoteValue.ofPulse (k : Int) = .ok s!"{(k : Int)}n" := by
        simp only [NoteValue.ofPulse]
        rw [if_neg (by omega)]
      rw [if_neg (by omega), if_pos positive]
      simp only [Except.bind, written]
      exact ⟨_, rfl, hp.scale, ⟨.note, NoteValue.ofText_pulse (by omega)⟩, hp.repeats⟩
    · right
      rw [if_pos (by omega), if_neg positive]
      exact ⟨⟨_, rfl⟩, rfl⟩

/-- What a code can call: nothing, a note value, a pulse, or another setting. -/
theorem ofCode?_cases (code : String) :
    (ofCode? code = none ∧ code ≠ "D" ∧ code ≠ "P") ∨
    (ofCode? code = some .duration ∧ code = "D") ∨ (ofCode? code = some .pulse ∧ code = "P") ∨
    ∃ s, ofCode? code = some s ∧ (s ≠ .duration ∧ s ≠ .pulse) ∧ code ≠ "D" ∧ code ≠ "P" := by
  cases called : ofCode? code with
  | none =>
    refine .inl ⟨rfl, ?_, ?_⟩
    · rintro rfl
      revert called
      decide
    · rintro rfl
      revert called
      decide
  | some s =>
    have same := ofCode?_code called
    subst same
    by_cases hd : s = .duration
    · exact .inr (.inl ⟨by rw [hd], by rw [hd]; rfl⟩)
    · by_cases hp : s = .pulse
      · exact .inr (.inr (.inl ⟨by rw [hp], by rw [hp]; rfl⟩))
      · refine .inr (.inr (.inr ⟨s, rfl, ⟨hd, hp⟩, ?_⟩))
        -- no other setting has one of these codes
        cases s <;> first | exact absurd rfl hd | exact absurd rfl hp | decide

/-- **What a command does to an instrument that can play.** It is applied, unknown or refused, and
the note value has the number that the command chooses. -/
theorem applyCode_playable (base : Nat) {command : Command} (hp : i.Playable catalog n)
    (fits : ¬ command.Chokes) :
    (∃ j, applyCode catalog i command.value base command.code = .ok j ∧
      j.Playable catalog ((command.count? base).getD n)) ∨
    ((applyCode catalog i command.value base command.code = .error (.unknownCommand command.code) ∨
      ∃ refusal, applyCode catalog i command.value base command.code = .error (.refused refusal)) ∧
      command.count? base = none) := by
  simp only [applyCode]
  rcases ofCode?_cases command.code with
    ⟨called, notD, notP⟩ | ⟨called, code⟩ | ⟨called, code⟩ | ⟨s, called, ⟨hd, hpu⟩, notD, notP⟩ <;>
    rw [called]
  · refine .inr ⟨.inl rfl, ?_⟩
    rw [Command.count?, if_neg notD, if_neg notP]
  · rcases apply_duration code hp fits with applied | ⟨refused, chosen⟩
    · exact .inl applied
    · exact .inr ⟨.inr refused, chosen⟩
  · rcases apply_pulse code hp with applied | ⟨refused, chosen⟩
    · exact .inl applied
    · exact .inr ⟨.inr refused, chosen⟩
  · -- any other setting leaves the note value alone, and so does `count?`
    rw [Command.count?, if_neg notD, if_neg notP]
    dsimp only
    cases applied : s.apply catalog i command.value base with
    | ok j => exact .inl ⟨j, rfl, apply_playable hp hd hpu applied⟩
    | error why =>
      obtain ⟨refusal, rfl⟩ := apply_error hd applied
      exact .inr ⟨.inr ⟨refusal, rfl⟩, rfl⟩

theorem applyCode_repeats {code : String} (least : 1 ≤ i.repeats)
    (h : applyCode catalog i value base code = .ok j) : 1 ≤ j.repeats := by
  simp only [applyCode] at h
  split at h
  · rename_i s called
    cases s with
    | repeats =>
      obtain ⟨n, read, rfl⟩ := map_ok h
      exact number_low (refusing_ok read)
    | _ =>
      obtain ⟨a, -, rfl⟩ := map_ok h
      exact least
  · cases h

theorem applyCode_onlyTimed (h : applyCode catalog i value base "D" = .ok j) :
    j.playMode = i.playMode ∧ j.repeats = i.repeats := by
  have called : ofCode? "D" = some .duration := by decide
  simp only [applyCode, called] at h
  obtain ⟨d, -, rfl⟩ := map_ok h
  exact ⟨rfl, rfl⟩

end Setting

/-! ### Commands -/

namespace Conductor

variable {c : Conductor} {n : Nat} {i : Instrument}

/-- A command that does not choke leaves an instrument that can play, whether it is applied or
passed over. -/
theorem applyCommand_ok (hi : c.instrument = some i) (hp : i.Playable c.catalog n) (base : Nat)
    {command : Command} (fits : ¬ command.Chokes) :
    ∃ c' applied j, c.applyCommand command base = .ok (c', applied) ∧ c'.instrument = some j ∧
      c'.catalog = c.catalog ∧ j.Playable c.catalog ((command.count? base).getD n) := by
  simp only [applyCommand, requireInstrument, hi, Except.bind]
  rcases Setting.applyCode_playable base hp fits with
    ⟨j, applied, playable⟩ | ⟨unknown | ⟨refusal, refused⟩, chosen⟩
  · rw [applied]
    exact ⟨_, _, j, rfl, rfl, rfl, playable⟩
  · rw [unknown, chosen]
    exact ⟨_, _, i, rfl, hi, rfl, hp⟩
  · rw [refused, chosen]
    exact ⟨_, _, i, rfl, hi, rfl, hp⟩

/-- A command that chokes is not passed over. -/
theorem applyCommand_chokes (hi : c.instrument = some i) (base : Nat) {command : Command}
    (chokes : command.Chokes) : c.applyCommand command base = .error .tooLarge := by
  obtain ⟨code, v, read, large⟩ := chokes
  have length := NoteValue.beatsOfText_tooLarge read large
  have called : Setting.ofCode? "D" = some .duration := by decide
  simp only [applyCommand, requireInstrument, hi, Except.bind, Setting.applyCode, code, called,
    Setting.apply, Setting.durationOfText, length, Except.map]

/-- What holds of an instrument and is kept by every command still holds after all of them. -/
theorem applyCommands_kept {P : Instrument → Prop} (base : Nat) (commands : List Command) :
    ∀ {c : Conductor} {i : Instrument}, c.instrument = some i → P i →
      (∀ command ∈ commands, ∀ catalog i j, P i →
        Setting.applyCode catalog i command.value base command.code = .ok j → P j) →
      ∃ j, (applyCommands base c commands).1.instrument = some j ∧ P j := by
  induction commands with
  | nil => exact fun hi holds _ => ⟨_, hi, holds⟩
  | cons command rest ih =>
    intro c i hi holds kept
    obtain ⟨first, later⟩ := List.forall_mem_cons.1 kept
    rw [applyCommands]
    split
    · rename_i c' applied done
      obtain ⟨k, hk, ⟨j, changed, rfl⟩ | ⟨text, rfl⟩⟩ := applyCommand_cases done
      · cases hi.symm.trans hk
        exact ih rfl (first _ _ j holds changed) later
      · exact ih hi holds later
    · exact ⟨i, hi, holds⟩

/-- Commands of which none chokes: the last number that is chosen holds. -/
theorem applyCommands_ok (base : Nat) (commands : List Command) :
    ∀ {c : Conductor} {n : Nat} {i : Instrument}, c.instrument = some i →
      i.Playable c.catalog n → (∀ command ∈ commands, ¬ command.Chokes) →
      ∃ c' j, applyCommands base c commands = (c', none) ∧ c'.instrument = some j ∧
        c'.catalog = c.catalog ∧
        j.Playable c.catalog (((commands.filterMap (·.count? base)).getLast?).getD n) := by
  induction commands with
  | nil => exact fun hi hp _ => ⟨_, _, rfl, hi, rfl, hp⟩
  | cons command rest ih =>
    intro c n i hi hp fits
    obtain ⟨c', applied, j, done, hj, same, playable⟩ :=
      applyCommand_ok hi hp base (fits command List.mem_cons_self)
    rw [← same] at playable
    obtain ⟨c'', k, all, hk, same', playable'⟩ :=
      ih hj playable fun other mem => fits other (List.mem_cons_of_mem _ mem)
    refine ⟨c'', k, ?_, hk, same'.trans same, ?_⟩
    · rw [applyCommands, done]
      exact all
    · -- the first command counts only if none after it chooses a number
      rw [← same]
      rw [List.filterMap_cons]
      cases chosen : command.count? base with
      | none =>
        rw [chosen] at playable'
        exact playable'
      | some m =>
        rw [chosen] at playable'
        rw [List.getLast?_cons]
        exact playable'

/-- Commands of which one chokes: none after it is applied. -/
theorem applyCommands_chokes (base : Nat) (commands : List Command) :
    ∀ {c : Conductor} {n : Nat} {i : Instrument}, c.instrument = some i →
      i.Playable c.catalog n → (∃ command ∈ commands, command.Chokes) →
      ∃ c', applyCommands base c commands = (c', some .tooLarge) := by
  induction commands with
  | nil =>
    rintro c n i - - ⟨command, mem, -⟩
    cases mem
  | cons command rest ih =>
    rintro c n i hi hp ⟨other, mem, chokes⟩
    -- the first command that chokes need not be the one that is given
    by_cases here : command.Chokes
    · refine ⟨c, ?_⟩
      rw [applyCommands, applyCommand_chokes hi base here]
    · obtain ⟨c', applied, j, done, hj, same, playable⟩ := applyCommand_ok hi hp base here
      rw [← same] at playable
      rcases List.mem_cons.1 mem with rfl | later
      · exact absurd chokes here
      · obtain ⟨c'', all⟩ := ih hj playable ⟨other, later, chokes⟩
        refine ⟨c'', ?_⟩
        rw [applyCommands, done]
        exact all

end Conductor

end ChordSequencer
