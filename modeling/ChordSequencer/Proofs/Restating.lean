import ChordSequencer.Proofs.Endurance
import ChordSequencer.Proofs.Meaning
import ChordSequencer.Proofs.Printing

/-!
# Blocks that say their note value

A block of a nested text begins with the command for its note value, so that it plays at the same
speed wherever it lands.  This file shows when that is so.  A command does not look at the note
value that the instrument had (`Conductor.applyCommands_duration`): the commands of a block choose
one for all instruments, or each instrument keeps its own.

The lexer takes any digits for the number of a note value (`Notation.written_of_read`).  Zero is
refused when the command is applied, and a number too large for a double is not even passed over;
then the block plays at the speed of whatever came before (`Song.restates_note_value_iff`).
-/

namespace ChordSequencer

open Notation Text

/-! ### What commands do to the note value -/

namespace Command

/-- The note value that a command chooses, if it is not passed over. -/
def duration? (base : Nat) (command : Command) : Option String :=
  if command.code = "D" then (Setting.durationOfText command.value).toOption
  else if command.code = "P" then (Setting.pulseOfText command.value base).toOption
  else none

theorem duration?_chokes {command : Command} (h : command.Chokes) (base : Nat) :
    command.duration? base = none := by
  obtain ⟨code, v, read, large⟩ := h
  simp only [duration?, if_pos code, Setting.durationOfText,
    NoteValue.beatsOfText_tooLarge read large]
  rfl

end Command

/-- Some commands choose a note value, and none before the first that does chokes. -/
def Restating (base : Nat) : List Command → Prop
  | [] => False
  | command :: rest =>
    (command.duration? base).isSome = true ∨ ¬ command.Chokes ∧ Restating base rest

namespace Setting

variable {catalog : Catalog} {base : Nat} {i j : Instrument} {s : Setting} {command : Command}

theorem apply_keeps_duration {value : String} (hd : s ≠ .duration) (hp : s ≠ .pulse)
    (h : s.apply catalog i value base = .ok j) : j.duration = i.duration := by
  cases s with
  | duration => exact absurd rfl hd
  | pulse => exact absurd rfl hp
  | _ =>
    obtain ⟨a, -, rfl⟩ := map_ok h
    rfl

theorem durationOfText_error {value : String} {why : Failure}
    (h : durationOfText value = .error why) : (∃ refusal, why = .refused refusal) ∨
      ∃ v, NoteValue.ofText value = .ok v ∧ Number.TooLarge v.count := by
  simp only [durationOfText] at h
  cases read : NoteValue.ofText value with
  | error refusal =>
    rw [NoteValue.beatsOfText_refused read] at h
    cases h
    exact .inl ⟨refusal, rfl⟩
  | ok v =>
    by_cases large : Number.TooLarge v.count
    · exact .inr ⟨v, rfl, large⟩
    · obtain ⟨beats, length⟩ := NoteValue.beatsOfText_ok read large
      rw [length] at h
      cases h

/-- **What a command does to the note value.** It is applied, and the instrument gets the note value
that the command chooses, or it is unknown or refused and chooses none. -/
theorem applyCode_duration (catalog : Catalog) (i : Instrument) (base : Nat)
    (fits : ¬ command.Chokes) :
    (∃ j, applyCode catalog i command.value base command.code = .ok j ∧
      j.duration = (command.duration? base).getD i.duration) ∨
    ((applyCode catalog i command.value base command.code = .error (.unknownCommand command.code) ∨
      ∃ refusal, applyCode catalog i command.value base command.code = .error (.refused refusal)) ∧
      command.duration? base = none) := by
  simp only [applyCode]
  rcases ofCode?_cases command.code with
    ⟨called, notD, notP⟩ | ⟨called, code⟩ | ⟨called, code⟩ | ⟨s, called, ⟨hd, hp⟩, notD, notP⟩ <;>
    rw [called]
  · refine .inr ⟨.inl rfl, ?_⟩
    rw [Command.duration?, if_neg notD, if_neg notP]
  · rw [Command.duration?, if_pos code]
    simp only [apply]
    cases read : durationOfText command.value with
    | ok d => exact .inl ⟨_, rfl, rfl⟩
    | error why =>
      rcases durationOfText_error read with ⟨refusal, rfl⟩ | large
      · exact .inr ⟨.inr ⟨refusal, rfl⟩, rfl⟩
      · exact absurd ⟨code, large⟩ fits
  · have other : command.code ≠ "D" := by rw [code]; decide
    rw [Command.duration?, if_neg other, if_pos code]
    simp only [apply]
    cases read : pulseOfText command.value base with
    | ok d => exact .inl ⟨_, rfl, rfl⟩
    | error refusal => exact .inr ⟨.inr ⟨refusal, rfl⟩, rfl⟩
  · rw [Command.duration?, if_neg notD, if_neg notP]
    dsimp only
    cases applied : s.apply catalog i command.value base with
    | ok j => exact .inl ⟨j, rfl, apply_keeps_duration hd hp applied⟩
    | error why =>
      obtain ⟨refusal, rfl⟩ := apply_error hd applied
      exact .inr ⟨.inr ⟨refusal, rfl⟩, rfl⟩

end Setting

namespace Conductor

variable {c : Conductor} {i : Instrument}

theorem applyCommand_duration (hi : c.instrument = some i) (base : Nat) {command : Command}
    (fits : ¬ command.Chokes) :
    ∃ c' applied j, c.applyCommand command base = .ok (c', applied) ∧ c'.instrument = some j ∧
      j.duration = (command.duration? base).getD i.duration := by
  simp only [applyCommand, requireInstrument, hi, Except.bind]
  rcases Setting.applyCode_duration c.catalog i base fits with
    ⟨j, applied, duration⟩ | ⟨unknown | ⟨refusal, refused⟩, none⟩
  · rw [applied]
    exact ⟨_, _, j, rfl, rfl, duration⟩
  · rw [unknown, none]
    exact ⟨_, _, i, rfl, hi, rfl⟩
  · rw [refused, none]
    exact ⟨_, _, i, rfl, hi, rfl⟩

/-- **What commands do to the note value** is the same for all instruments: they get the note value
that is restated, or each keeps its own. -/
theorem applyCommands_duration (base : Nat) (commands : List Command) :
    ∃ chosen : Option String, (chosen.isSome = true ↔ Restating base commands) ∧
      ∀ (c : Conductor) (i : Instrument), c.instrument = some i →
        ∃ j, (applyCommands base c commands).1.instrument = some j ∧
          j.duration = chosen.getD i.duration := by
  induction commands with
  | nil => exact ⟨none, by simp [Restating], fun c i hi => ⟨i, hi, rfl⟩⟩
  | cons command rest ih =>
    obtain ⟨later, restating, applied⟩ := ih
    by_cases chokes : command.Chokes
    · refine ⟨none, ?_, fun c i hi => ⟨i, ?_, rfl⟩⟩
      · simp [Restating, command.duration?_chokes chokes, chokes]
      · rw [applyCommands, applyCommand_chokes hi base chokes]
        exact hi
    · -- what the first command chooses holds unless a later one chooses something else
      refine ⟨later.or (command.duration? base), ?_, fun c i hi => ?_⟩
      · rw [Option.isSome_or, Bool.or_eq_true, restating, Restating, and_iff_right chokes, or_comm]
      · obtain ⟨c', done, j, one, hj, first⟩ := applyCommand_duration hi base chokes
        obtain ⟨k, hk, last⟩ := applied c' j hj
        refine ⟨k, ?_, ?_⟩
        · rw [applyCommands, one]
          exact hk
        · rw [last, first]
          cases later <;> rfl

end Conductor

/-! ### Note values as they are written -/

namespace Notation

/-- **What is read can be printed**, item by item. -/
theorem written_of_itemTokens {i : Item} {ts : List Token} (h : ItemTokens i ts) :
    (∀ t ∈ ts, ∃ c r n, Lexeme.scan c r = (.token t.kind, n) ∧ t.text = c :: r.take n) →
      i.Written := by
  have note {t : Token} (kind : t.kind = .note)
      (scanned : ∃ c r n, Lexeme.scan c r = (.token t.kind, n) ∧ t.text = c :: r.take n) :
      IsNote (OpenBlock.textOf t).toList := by
    obtain ⟨c, r, n, scan, text⟩ := scanned
    rw [OpenBlock.textOf, String.toList_ofList, text]
    exact isNote_of_scan (kind ▸ scan)
  have duration {t : Token} (kind : t.kind = .duration)
      (scanned : ∃ c r n, Lexeme.scan c r = (.token t.kind, n) ∧ t.text = c :: r.take n) :
      IsDuration (OpenBlock.durationOf t).toList := by
    obtain ⟨c, r, n, scan, text⟩ := scanned
    obtain ⟨s, written, colon⟩ := isDuration_of_scan (kind ▸ scan)
    rw [OpenBlock.durationOf, String.toList_ofList, text, colon, List.dropLast_concat]
    exact written
  induction h with
  | note hn => exact fun ht => .plain (note hn (ht _ List.mem_cons_self))
  | timed hd hn =>
    intro ht
    refine .note (note hn (ht _ (List.mem_cons_of_mem _ List.mem_cons_self))) ?_
    rintro d ⟨⟩
    exact duration hd (ht _ List.mem_cons_self)
  | @group d o c inner hd _ _ filled each ih =>
    intro ht
    refine .group (duration hd (ht _ List.mem_cons_self)) (mt List.map_eq_nil_iff.1 filled) ?_
    intro i hi
    obtain ⟨p, hp, rfl⟩ := List.mem_map.1 hi
    refine ih p hp fun t htoken => ht t ?_
    have hinner : t ∈ inner.flatMap (·.2) := List.mem_flatMap.2 ⟨p, hp, htoken⟩
    exact List.mem_append_left _ (List.mem_cons_of_mem _ (List.mem_cons_of_mem _ hinner))

theorem written_of_songTokens {text : List Char} {parts : List (List NestedBlock)}
    (h : SongTokens parts (tokens text)) :
    ∀ part ∈ parts, ∀ b ∈ part, ∀ i ∈ b.items, i.Written := by
  have items := items_of_songTokens h (P := Item.Written) fun i us hi sub =>
    written_of_itemTokens hi fun t mem => by
      obtain ⟨c, r, n, -, scan⟩ := scan_of_mem_tokens (sub mem)
      exact ⟨c, r, n, scan⟩
  exact fun part hpart b hb => ((items.2 part hpart).2 b hb).2

theorem written_of_read {text : String} {parts : List (List NestedBlock)}
    (read : Notation.read text = .success (.nested parts)) :
    ∀ part ∈ parts, ∀ b ∈ part, ∀ i ∈ b.items, i.Written := by
  rcases read_cases text with ⟨head, tail, compact, -⟩ | ⟨parts', nested, tokens⟩ | ⟨f, fs, fault⟩
  · rw [read] at compact
    cases compact
  · rw [read] at nested
    cases nested
    exact written_of_songTokens tokens
  · rw [read] at fault
    cases fault

end Notation

namespace Song

theorem gathered_duration {duration : String} {notes : List String} :
    ∀ r ∈ gathered duration notes, r.duration = duration := by
  cases notes with
  | nil => exact List.forall_mem_nil _
  | cons note notes => exact List.forall_mem_singleton.2 rfl

theorem runsFrom_isDuration (duration : String) (items : List Item) (notes : List String) :
    IsDuration duration.toList → (∀ i ∈ items, i.Written) →
      ∀ r ∈ runsFrom duration items notes, IsDuration r.duration.toList := by
  refine runsFrom.induct
    (fun duration items notes => IsDuration duration.toList → (∀ i ∈ items, i.Written) →
      ∀ r ∈ runsFrom duration items notes, IsDuration r.duration.toList)
    (fun item => item.Written → ∀ r ∈ groupRuns item, IsDuration r.duration.toList)
    ?note ?group ?nil ?plain ?same ?own ?inner duration items notes
  case note =>
    intro value own _
    rw [groupRuns]
    exact List.forall_mem_nil _
  case group =>
    rintro d inner ih (_ | ⟨hd, -, each⟩)
    rw [groupRuns]
    exact ih hd each
  case nil =>
    intro duration notes hd _
    rw [runsFrom]
    intro r mem
    rw [gathered_duration r mem]
    exact hd
  case plain =>
    intro duration items notes value ih hd hi
    rw [runsFrom]
    exact ih hd (List.forall_mem_cons.1 hi).2
  case same =>
    intro items notes value d ih hd hi
    rw [runsFrom, if_pos rfl]
    exact ih hd (List.forall_mem_cons.1 hi).2
  case own =>
    intro duration items notes value d other ih hd hi
    obtain ⟨⟨-, tag⟩, hi⟩ := List.forall_mem_cons.1 hi
    rw [runsFrom, if_neg other]
    refine List.forall_mem_append.2 ⟨fun r mem => ?_, List.forall_mem_cons.2 ⟨?_, ih hd hi⟩⟩
    · rw [gathered_duration r mem]
      exact hd
    · exact tag d rfl
  case inner =>
    intro duration items notes d inner group ih hd hi
    obtain ⟨hgroup, hi⟩ := List.forall_mem_cons.1 hi
    rw [runsFrom]
    refine List.forall_mem_append.2 ⟨List.forall_mem_append.2 ⟨fun r mem => ?_, group hgroup⟩,
      ih hd hi⟩
    rw [gathered_duration r mem]
    exact hd

/-- Each block of a nested song begins with the command for a note value that can be printed. -/
theorem exists_isDuration {text : String} {parts : List (List NestedBlock)}
    (read : Notation.read text = .success (.nested parts)) :
    ∀ k ∈ (ofTree (.nested parts)).blocks, k.base = 10 ∧
      ∃ d rest, k.commands = ⟨"D", d⟩ :: rest ∧ IsDuration d.toList := by
  intro k hk
  obtain ⟨b, hb, hk⟩ := List.mem_flatMap.1 hk
  obtain ⟨part, hpart, hb⟩ := List.mem_flatten.1 hb
  have quarter : IsDuration NoteValue.quarter.toList := ⟨['4'], 'n', by decide, by decide, rfl⟩
  have runs := runsFrom_isDuration NoteValue.quarter b.items [] quarter
    (written_of_read read part hpart b hb)
  obtain ⟨copy, hcopy, hk⟩ := List.mem_flatten.1 hk
  rw [List.eq_of_mem_replicate hcopy] at hk
  change k ∈ blocksOf (commandsOf b.attributes) (runsFrom NoteValue.quarter b.items []) at hk
  cases hr : runsFrom NoteValue.quarter b.items [] with
  | nil =>
    rw [hr] at hk
    cases hk
  | cons r rs =>
    rw [hr] at hk runs
    rcases List.mem_cons.1 hk with rfl | hk
    · exact ⟨rfl, r.duration, _, rfl, runs r List.mem_cons_self⟩
    · obtain ⟨r', hr', rfl⟩ := List.mem_map.1 hk
      exact ⟨rfl, r'.duration, _, rfl, runs r' (List.mem_cons_of_mem _ hr')⟩

end Song

/-! ### Note values that are said -/

theorem isUnit_class {u : Char} (hu : Lexeme.isUnit u = true) :
    isDigit u = false ∧ isBlank u = false ∧ ∃ unit, NoteValue.unit? u = some unit := by
  simp only [Lexeme.isUnit, Bool.or_eq_true, beq_iff_eq] at hu
  rcases hu with (rfl | rfl) | rfl
  · exact ⟨by decide, by decide, _, rfl⟩
  · exact ⟨by decide, by decide, _, rfl⟩
  · exact ⟨by decide, by decide, _, rfl⟩

/-- A note value that can be printed is read as its number and its unit, unless the number is
zero. -/
theorem NoteValue.ofText_of_isDuration {d : String} (h : IsDuration d.toList) :
    ∃ n unit, split? d.toList = some (n, unit) ∧
      ofText d = if n = 0 then .error (.noteValueZero d) else .ok ⟨n, unit⟩ := by
  obtain ⟨ds, u, ⟨some, digits⟩, hu, text⟩ := h
  obtain ⟨other, visible, unit, known⟩ := isUnit_class hu
  cases ds with
  | nil => exact absurd rfl some
  | cons c ds =>
    have stop : ∀ c ∈ [u].head?, isDigit c = false := by
      rintro c ⟨⟩
      exact other
    have split : split? d.toList = .some (decimalNumber (c :: ds), unit) := by
      rw [text, split?, takeWhile_append_stop digits stop, dropWhile_append_stop digits stop]
      simp only [known, Option.map_some]
    have stripped : strip d.toList = d.toList := by
      rw [text]
      apply strip_eq_self
      · rintro e ⟨⟩
        exact (isDigit_class (digits c List.mem_cons_self)).1
      · rw [List.getLast?_concat]
        rintro e ⟨⟩
        exact visible
    refine ⟨decimalNumber (c :: ds), unit, split, ?_⟩
    simp only [ofText]
    rw [stripped, split]

theorem restating_duration {d : String} {n : Nat} (unit : NoteUnit) {rest : List Command}
    (read : NoteValue.ofText d = if n = 0 then .error (.noteValueZero d) else .ok ⟨n, unit⟩)
    (base : Nat) :
    Restating base (⟨"D", d⟩ :: rest) ↔ ¬ Number.TooLarge n ∧ (n ≠ 0 ∨ Restating base rest) := by
  have chokes : Command.Chokes ⟨"D", d⟩ ↔ n ≠ 0 ∧ Number.TooLarge n := by
    constructor
    · rintro ⟨-, v, h, large⟩
      rw [read] at h
      split at h <;> cases h
      rename_i positive
      exact ⟨positive, large⟩
    · rintro ⟨positive, large⟩
      exact ⟨rfl, ⟨n, unit⟩, by rw [read, if_neg positive], large⟩
  have chosen : (Command.duration? base ⟨"D", d⟩).isSome = true ↔
      n ≠ 0 ∧ ¬ Number.TooLarge n := by
    have states : Command.duration? base ⟨"D", d⟩ = (Setting.durationOfText d).toOption := rfl
    by_cases zero : n = 0
    · rw [if_pos zero] at read
      rw [states, Setting.durationOfText, NoteValue.beatsOfText_refused read]
      exact iff_of_false Bool.false_ne_true fun h => h.1 zero
    · rw [if_neg zero] at read
      by_cases large : Number.TooLarge n
      · rw [states, Setting.durationOfText, NoteValue.beatsOfText_tooLarge read large]
        exact iff_of_false Bool.false_ne_true fun h => h.2 large
      · obtain ⟨beats, length⟩ := NoteValue.beatsOfText_ok read large
        rw [states, Setting.durationOfText, length]
        exact iff_of_true rfl ⟨zero, large⟩
  have small : ¬ Number.TooLarge 0 := by decide +kernel
  rw [Restating, chosen, chokes]
  by_cases zero : n = 0
  · subst zero
    simp [small]
  · by_cases large : Number.TooLarge n <;> simp [zero, large]

namespace Conductor

variable (c : Conductor) (k : Block) (i : Instrument)

/-- The conductor with an instrument to which the commands of a block were applied. -/
def prepared : Conductor :=
  (applyCommands k.base { c with instrument := some { i with repeats := 1 } } k.commands).1

/-- The note value with which a block is played. -/
def durationIn : Option String := (c.prepared k i).instrument.map (·.duration)

variable {c k i}

/-- Two instruments are played with the same note value, and in the same tempo with steps of the
same length, if the commands restate a note value. -/
theorem durationIn_eq_of_restating (stated : Restating k.base k.commands) (c' : Conductor)
    (i' : Instrument) : c.durationIn k i = c'.durationIn k i' ∧
      (c.bpm = c'.bpm → (c.prepared k i).stepSeconds = (c'.prepared k i').stepSeconds) := by
  obtain ⟨chosen, restating, applied⟩ := applyCommands_duration k.base k.commands
  obtain ⟨d, rfl⟩ := Option.isSome_iff_exists.1 (restating.2 stated)
  obtain ⟨j, hj, same⟩ := applied { c with instrument := some { i with repeats := 1 } } _ rfl
  obtain ⟨j', hj', same'⟩ := applied { c' with instrument := some { i' with repeats := 1 } } _ rfl
  refine ⟨?_, fun tempo => ?_⟩
  · rw [durationIn, durationIn, prepared, prepared, hj, hj', Option.map_some, Option.map_some, same,
      same']
    rfl
  · obtain ⟨_, _, kept⟩ := applyCommands_keeps k.base k.commands
      { c with instrument := some { i with repeats := 1 } }
    obtain ⟨_, _, kept'⟩ := applyCommands_keeps k.base k.commands
      { c' with instrument := some { i' with repeats := 1 } }
    rw [prepared, prepared, stepSeconds_eq hj, stepSeconds_eq hj', same, same', kept, kept', tempo]
    rfl

/-- Otherwise each instrument keeps its own note value. -/
theorem durationIn_of_not_restating (silent : ¬ Restating k.base k.commands) :
    c.durationIn k i = some i.duration := by
  obtain ⟨chosen, restating, applied⟩ := applyCommands_duration k.base k.commands
  obtain ⟨j, hj, same⟩ := applied { c with instrument := some { i with repeats := 1 } } _ rfl
  cases chosen with
  | some d => exact absurd (restating.1 rfl) silent
  | none =>
    rw [durationIn, prepared, hj, Option.map_some, same]
    rfl

end Conductor

open Conductor

namespace Song

/-- **When a block of a nested song restates its note value.** Its first command is for a note
value, digits and a unit.  Whatever two instruments it finds, it is played on both with the same
note value exactly if this number is neither too large nor zero, or zero but a later command of the
block chooses a note value.  Then its steps have the same length, too, wherever it lands. -/
theorem restates_note_value_iff {text : String} {parts : List (List NestedBlock)}
    (read : Notation.read text = .success (.nested parts)) {catalog : Catalog}
    (scales : catalog.entries ≠ []) :
    ∀ k ∈ (ofTree (.nested parts)).blocks, k.base = 10 ∧ ∃ d rest n unit,
      k.commands = ⟨"D", d⟩ :: rest ∧ NoteValue.split? d.toList = some (n, unit) ∧
      ((∀ (c : Conductor) (i i' : Instrument), c.catalog = catalog →
          (∃ m, i.Playable catalog m) → (∃ m, i'.Playable catalog m) →
          c.durationIn k i = c.durationIn k i') ↔
        ¬ Number.TooLarge n ∧ (n ≠ 0 ∨ Restating 10 rest)) ∧
      (¬ Number.TooLarge n ∧ (n ≠ 0 ∨ Restating 10 rest) →
        ∀ (c c' : Conductor) (i i' : Instrument), c.bpm = c'.bpm →
          (c.prepared k i).stepSeconds = (c'.prepared k i').stepSeconds) := by
  intro k hk
  obtain ⟨base, d, rest, first, written⟩ := exists_isDuration read k hk
  obtain ⟨n, unit, split, value⟩ := NoteValue.ofText_of_isDuration written
  have states : Restating k.base k.commands ↔
      ¬ Number.TooLarge n ∧ (n ≠ 0 ∨ Restating 10 rest) := by
    rw [base, first]
    exact restating_duration unit value 10
  refine ⟨base, d, rest, n, unit, first, split, ⟨fun same => ?_, fun h c i i' _ _ _ => ?_⟩,
    fun h c c' i i' => ?_⟩
  · -- a quarter and an eighth note stay what they are if nothing else is said
    by_contra silent
    obtain ⟨c, created⟩ : ∃ c, create true catalog 120.0 = .ok c := ⟨_, rfl⟩
    have hc : c.catalog = catalog := by
      cases created
      rfl
    have quarter := initial_playable scales
    have eighth : Instrument.Playable catalog 8 { Instrument.initial with duration := "8n" } :=
      ⟨quarter.scale, ⟨.note, by decide +kernel⟩, quarter.repeats⟩
    have equal := same c .initial { Instrument.initial with duration := "8n" } hc ⟨4, quarter⟩
      ⟨8, eighth⟩
    rw [durationIn_of_not_restating (mt states.1 silent),
      durationIn_of_not_restating (mt states.1 silent)] at equal
    exact absurd equal (by decide)
  · exact (durationIn_eq_of_restating (states.2 h) c i').1
  · exact (durationIn_eq_of_restating (states.2 h) c' i').2

theorem restates_note_value_quarter :
    Notation.read "\x7b\x7b\x7b1\x7d\x7d\x7d" = .success (.nested [[⟨[.note "1" none], []⟩]]) ∧
    Catalog.standard.entries ≠ [] ∧
    ∃ n, ¬ Number.TooLarge n ∧ n ≠ 0 ∧ ∀ (c : Conductor) (i i' : Instrument),
      c.catalog = .standard → (∃ m, i.Playable .standard m) → (∃ m, i'.Playable .standard m) →
      c.durationIn ⟨[⟨"D", "4n"⟩], "1", some " "⟩ i =
        c.durationIn ⟨[⟨"D", "4n"⟩], "1", some " "⟩ i' := by
  have read : Notation.read "\x7b\x7b\x7b1\x7d\x7d\x7d" =
      .success (.nested [[⟨[.note "1" none], []⟩]]) := by cbv
  have scales : Catalog.standard.entries ≠ [] := by decide +kernel
  refine ⟨read, scales, 4, by decide +kernel, by decide, ?_⟩
  obtain ⟨-, d, rest, n, unit, first, number, same, -⟩ :=
    restates_note_value_iff read scales ⟨[⟨"D", "4n"⟩], "1", some " "⟩ (by decide +kernel)
  cases first
  have four : NoteValue.split? "4n".toList = some (4, .note) := by decide +kernel
  rw [four] at number
  cases number
  exact same.2 ⟨by decide +kernel, .inl (by decide)⟩

/-- A note value of zero is not refused where it is read, but where it is applied: then the block is
played with the note value that the instrument had. -/
theorem note_value_zero_is_passed_over : ∃ c, create true .standard 120.0 = .ok c ∧
    Notation.read "\x7b\x7b\x7b0n:1\x7d\x7d\x7d" =
      .success (.nested [[⟨[.note "1" (some "0n")], []⟩]]) ∧
    (ofTree (.nested [[⟨[.note "1" (some "0n")], []⟩]])).blocks =
      [⟨[⟨"D", "0n"⟩], "1", some " "⟩] ∧
    Instrument.initial.Playable .standard 4 ∧
    Instrument.Playable .standard 8 { Instrument.initial with duration := "8n" } ∧
    c.durationIn ⟨[⟨"D", "0n"⟩], "1", some " "⟩ .initial = some "4n" ∧
    c.durationIn ⟨[⟨"D", "0n"⟩], "1", some " "⟩ { Instrument.initial with duration := "8n" } =
      some "8n" := by
  have quarter : Instrument.initial.Playable .standard 4 := initial_playable (by decide +kernel)
  have zero : NoteValue.ofText "0n" = .error (.noteValueZero "0n") := by decide +kernel
  have silent : ¬ Restating 10 [⟨"D", "0n"⟩] := by
    have states : Restating 10 [⟨"D", "0n"⟩] ↔ ¬ Number.TooLarge 0 ∧ (0 ≠ 0 ∨ Restating 10 []) :=
      restating_duration .note zero 10
    rw [states]
    simp [Restating]
  refine ⟨_, rfl, by cbv, by decide +kernel, quarter,
    ⟨quarter.scale, ⟨.note, by decide +kernel⟩, quarter.repeats⟩, ?_, ?_⟩
  · exact durationIn_of_not_restating silent
  · exact durationIn_of_not_restating silent

end Song

end ChordSequencer
