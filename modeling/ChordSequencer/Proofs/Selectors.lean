import ChordSequencer.Proofs.CompactForm
import ChordSequencer.Proofs.Flattening
import ChordSequencer.Proofs.Numerals
import ChordSequencer.Proofs.Reports
import ChordSequencer.Proofs.Restating

/-!
# Selectors of accepted texts

The scanner of the nested form, the flattening into blocks and the reading of numbers agree on what
a selector is: every note of an accepted text is a rest, the sustain or a decimal number, in digits
of any script (`Notation.IsNote.known`), and comes out of its block as the same word.  So nothing of
such a song is ever reported as unknown.  The compact form takes any letter for a selector, and
exactly those letters are reported that are neither the rest `s` nor a hexadecimal digit.

* `Song.known_of_readNested`, `Song.content_of_readCompact` : the selectors of accepted texts.
* `Conductor.beginSelector_logged` : when a selector is reported.
* `Song.selectors_reported` : the two together, for whole performances.
-/

namespace ChordSequencer

open Notation Text

/-! ### What the nested form plays -/

namespace Notation

/-- The text of a note is a selector that means something, and it is a single word. -/
theorem IsNote.known {value : List Char} (h : IsNote value) :
    words value = [value] ∧ Known 10 (String.ofList value) := by
  have alone {value : List Char} (some : value ≠ []) (visible : ∀ c ∈ value, isBlank c = false) :
      words value = [value] := by
    cases value with
    | nil => exact absurd rfl some
    | cons c r =>
      rw [words, chunks_visible (by simpa using visible)]
      rfl
  have digits {s : List Char} (hs : IsDigits s) : ∀ c ∈ s, isBlank c = false :=
    fun c hc => (Notation.isDigit_class (hs.2 c hc)).1
  have number {s : List Char} (read : ∃ n, Numeral.read? 10 s = some n) :
      Known 10 (String.ofList s) := by
    refine .inr (.inr (.inr ?_))
    rw [String.toList_ofList]
    exact Option.isSome_iff_exists.2 read
  cases h with
  | @sign c hc =>
    simp only [Lexeme.isSign, Bool.or_eq_true, beq_iff_eq] at hc
    have single {c : Char} (visible : isBlank c = false) : words [c] = [[c]] :=
      alone (List.cons_ne_nil _ _) (List.forall_mem_singleton.2 visible)
    obtain (rfl | rfl) | rfl := hc
    · exact ⟨single (by decide), .inr (.inl rfl)⟩
    · exact ⟨single (by decide), .inl rfl⟩
    · exact ⟨single (by decide), .inr (.inr (.inl rfl))⟩
  | number hs => exact ⟨alone hs.1 (digits hs), number (Numeral.read?_of_isDigits hs).1⟩
  | @negative s hs =>
    refine ⟨alone (by simp) (List.forall_mem_cons.2 ⟨by decide, digits hs⟩), ?_⟩
    exact number (Numeral.read?_of_isDigits hs).2

theorem timedItems_eq (duration : String) (items : List Item) :
    timedItems duration items = items.flatMap (timedItem duration) := by
  induction items with
  | nil => rw [timedItems, List.flatMap_nil]
  | cons item items ih => rw [timedItems, ih, List.flatMap_cons]

/-- The words of an item that can be printed mean something, one by one. -/
theorem Item.Written.known {i : Item} (h : i.Written) :
    ∀ duration, ∀ w ∈ timedItem duration i, Known 10 w.1 := by
  induction h with
  | @note value own hv ho =>
    intro duration w hw
    obtain ⟨word, known⟩ := hv.known
    rw [timedItem, timedWords, word] at hw
    obtain rfl := List.mem_singleton.1 hw
    exact known
  | @group d items hd filled each ih =>
    intro duration w hw
    rw [timedItem, timedItems_eq] at hw
    obtain ⟨i, hi, hw⟩ := List.mem_flatMap.1 hw
    exact ih i hi d w hw

theorem written_of_readNested {text : List Char} {parts : List (List NestedBlock)}
    (read : readNested text = .success (.nested parts)) :
    ∀ part ∈ parts, ∀ b ∈ part, ∀ i ∈ b.items, i.Written := by
  rcases readNested_cases text with ⟨parts', nested, -, tokens⟩ | ⟨f, fs, fault⟩
  · rw [read] at nested
    cases nested
    exact written_of_songTokens tokens
  · rw [read] at fault
    cases fault

end Notation

namespace Song

variable {k : Block}

theorem mem_blocksOf {commands : List Command} {runs : List Run} (h : k ∈ blocksOf commands runs) :
    ∃ commands', ∃ r ∈ runs, k = blockOf commands' r := by
  cases runs with
  | nil => exact absurd h List.not_mem_nil
  | cons r rs =>
    rcases List.mem_cons.1 h with rfl | later
    · exact ⟨commands, r, List.mem_cons_self, rfl⟩
    · obtain ⟨r', hr', rfl⟩ := List.mem_map.1 later
      exact ⟨[], r', List.mem_cons_of_mem _ hr', rfl⟩

theorem mem_ofNestedBlock {b : NestedBlock} (h : k ∈ ofNestedBlock b) :
    k.base = 10 ∧ ∀ x ∈ k.selectors, ∃ d, (x, d) ∈ timedItems NoteValue.quarter b.items := by
  obtain ⟨once, honce, hk⟩ := List.mem_flatten.1 h
  rw [List.eq_of_mem_replicate honce] at hk
  obtain ⟨commands, r, hr, rfl⟩ := mem_blocksOf hk
  refine ⟨rfl, fun x hx => ⟨r.duration, ?_⟩⟩
  have timed : (x, r.duration) ∈ (blockOf commands r).timed :=
    List.mem_map.2 ⟨x, hx, rfl⟩
  rw [blockOf_timed] at timed
  have all := runsFrom_timed NoteValue.quarter b.items []
  rw [List.reverse_nil, List.flatMap_nil, List.nil_append] at all
  rw [← all]
  exact List.mem_flatMap.2 ⟨r, hr, timed⟩

/-- **Every selector of a nested text means something.** -/
theorem known_of_readNested {text : List Char} {parts : List (List NestedBlock)}
    (read : readNested text = .success (.nested parts)) :
    ∀ k ∈ (ofTree (.nested parts)).blocks, k.base = 10 ∧ ∀ x ∈ k.selectors, Known 10 x := by
  intro k hk
  obtain ⟨b, hb, hk⟩ := List.mem_flatMap.1 hk
  obtain ⟨part, hpart, hb⟩ := List.mem_flatten.1 hb
  obtain ⟨base, words⟩ := mem_ofNestedBlock hk
  refine ⟨base, fun x hx => ?_⟩
  obtain ⟨d, timed⟩ := words x hx
  rw [timedItems_eq] at timed
  obtain ⟨i, hi, timed⟩ := List.mem_flatMap.1 timed
  exact (written_of_readNested read part hpart b hb i hi).known _ _ timed

/-! ### What the compact form plays -/

/-- The hexadecimal digits. -/
def isHexDigit (c : Char) : Bool :=
  isAsciiDigit c || ('a' ≤ c && c ≤ 'f') || ('A' ≤ c && c ≤ 'F')

/-- The letters that are neither a rest nor a hexadecimal digit. -/
def isForeign (c : Char) : Bool := isLetter c && c != 's' && !isHexDigit c

theorem known_singleton (base : Nat) (c : Char) : Known base (String.singleton c) ↔
    c = '.' ∨ c = 's' ∨ c = '=' ∨ (Numeral.read? base [c]).isSome = true := by
  have sign (d : Char) : String.singleton c = String.singleton d ↔ c = d := by
    rw [← String.toList_inj]
    simp
  rw [Known, ← sign '.', ← sign 's', ← sign '=', String.toList_singleton]
  rfl

theorem known_content {c : Char} (content : CompactBlock.isContentChar c = true) :
    Known 16 (String.singleton c) ↔ isForeign c = false := by
  have ascii : c.toNat < 128 := by
    simp only [CompactBlock.isContentChar, isLetter, isAsciiDigit, Bool.or_eq_true,
      beq_iff_eq] at content
    obtain (((lower | upper) | digit) | rfl) | rfl := content
    · exact ascii_of_le (by decide) lower
    · exact ascii_of_le (by decide) upper
    · exact ascii_of_le (by decide) digit
    · decide
    · decide
  rw [known_singleton]
  revert content
  refine forall_ascii (p := fun c => CompactBlock.isContentChar c = true →
    ((c = '.' ∨ c = 's' ∨ c = '=' ∨ (Numeral.read? 16 [c]).isSome = true) ↔
      isForeign c = false)) ?_ ascii
  decide +kernel

/-- **Every selector of a compact text is a character of its content.** -/
theorem content_of_readCompact {text : List Char} {head : CompactBlock} {tail : List CompactBlock}
    (read : readCompact text = .success (.compact head tail)) :
    ∀ k ∈ (ofTree (.compact head tail)).blocks, k.base = 16 ∧
      ∀ x ∈ k.selectors, ∃ c, x = String.singleton c ∧ CompactBlock.isContentChar c = true := by
  have blocks : head :: tail = compactBlocks text := by
    simp only [readCompact] at read
    split at read
    · cases read
    · rename_i found
      cases read
      exact found.symm
    · cases read
  intro k hk
  obtain ⟨b, hb, rfl⟩ := List.mem_map.1 hk
  rw [blocks] at hb
  obtain ⟨⟨position, chunk⟩, -, found⟩ := List.mem_filterMap.1 hb
  have content : CompactBlock.IsContent b.content.toList := by
    simp only [readChunk] at found
    cases parsed : CompactBlock.read chunk with
    | error why => simp [parsed] at found
    | ok b' =>
      rw [parsed] at found
      cases found
      exact (CompactBlock.read_ok parsed).2.1
  refine ⟨rfl, fun x hx => ?_⟩
  obtain ⟨c, hc, rfl⟩ := List.mem_map.1 hx
  exact ⟨c, rfl, content.2 c hc⟩

/-! ### What is reported -/

/-- A song plays a selector, whose numbers are in a base. -/
def Plays (song : Song) (selector : String) (base : Nat) : Prop :=
  ∃ k ∈ song.blocks, selector ∈ k.selectors ∧ k.base = base

/-- Performing a song, its blocks and its selectors logs a line. -/
inductive Reports (song : Song) (line : LogLine) : Prop
  /-- Whoever performs, and in whatever order they go on. -/
  | scene {s : Scene} (under : s.Within song.Plays s.conductor) {actions : List Action}
    (only : ∀ o, Action.begin o ∈ actions → o.Within song.Plays)
    (logged : s.conductor.Logged (s.run actions).conductor line)
  /-- Under the virtual clock. -/
  | clock {c : Conductor} (manned : c.Manned) (under : (Scene.opening c).Within song.Plays c)
    {turns : Nat} {operations : List Operation} (only : ∀ o ∈ operations, o.Within song.Plays)
    (logged : c.Logged (Operation.performAll turns c operations) line)

theorem Reports.selector {song : Song} {x : String} (h : song.Reports (.unknownSelector x)) :
    ∃ k ∈ song.blocks, x ∈ k.selectors ∧ ¬ Known k.base x := by
  have report : Report song.Plays (.unknownSelector x) := by
    cases h with
    | scene under only logged => exact (Scene.run_reports under _ only).report logged
    | clock manned under only logged =>
      exact (Scene.performAll_reports manned under _ _ only).report logged
  obtain ⟨_, ⟨k, hk, hx, rfl⟩, unknown⟩ := report.selector
  exact ⟨k, hk, hx, unknown⟩

end Song

/-- **A selector is reported when it begins** exactly if it means nothing. -/
theorem Conductor.beginSelector_logged (c : Conductor) (selector : String) (base : Nat) :
    c.Logged (c.beginSelector selector base).1 (.unknownSelector selector) ↔
      (∃ step, c.stepSeconds = .ok step) ∧ ¬ Known base selector := by
  constructor
  · intro logged
    have reports : Reports (fun _ base' => base' = base) c (c.beginSelector selector base).1 :=
      beginSelector_reports rfl
    obtain ⟨base', same, unknown⟩ := (reports.report logged).selector
    refine ⟨?_, same ▸ unknown⟩
    cases length : c.stepSeconds with
    | ok step => exact ⟨step, rfl⟩
    | error why =>
      -- a selector without a length fails before anything is logged
      have silent : (c.beginSelector selector base).1 = c := by
        simp only [beginSelector, length]
        cases c.instrument <;> rfl
      rw [silent] at logged
      exact absurd logged (not_logged_self _)
  · rintro ⟨⟨step, length⟩, unknown⟩
    obtain ⟨signs, none⟩ := not_known_iff.1 unknown
    rw [beginSelector_unknown length signs none]
    refine ⟨[.unknownSelector selector], ?_, List.mem_singleton.2 rfl⟩
    change _ :: c.counted.release.log = _
    rw [release_log]
    rfl

namespace Song

/-- A selector that a song plays and that means nothing can come to be reported: a conductor at rest
who is asked for it reports it. -/
theorem reports_of_plays {song : Song} {x : String} {base : Nat} (plays : song.Plays x base)
    (unknown : ¬ Known base x) {c : Conductor} (length : ∃ step, c.stepSeconds = .ok step)
    (empty : c.song = none) (gone : c.task = none) : song.Reports (.unknownSelector x) := by
  have logged := (c.beginSelector_logged x base).2 ⟨length, unknown⟩
  have silent : c.songBlocks = [] := by simp only [Conductor.songBlocks, empty]
  have idle : c.place? = none := by simp only [Conductor.place?, gone, Option.bind_none]
  refine @Reports.scene song _ (.opening c)
    ⟨⟨?_, ?_, .same rfl⟩, fun _ mem => absurd mem List.not_mem_nil⟩
    [.begin (.performSelector x base)] (fun o mem => ?_) ?_
  · exact fun _ mem => absurd (silent ▸ mem) List.not_mem_nil
  · exact fun _ waits => by cases idle.symm.trans waits
  · obtain ⟨⟩ := List.mem_singleton.1 mem
    exact plays
  · simp only [Scene.run, List.foldl_cons, List.foldl_nil, Scene.step, Scene.opening]
    cases begun : c.beginSelector x base with
    | mk c' outcome =>
      rw [begun] at logged
      cases outcome <;> exact logged

/-- **Selectors of accepted texts.** Every selector of the song of a nested text is a rest, the
sustain or a decimal number, so that performing the song never reports one as unknown.  The
selectors of the song of a compact text are single characters; each of them is reported whenever it
begins, provided its step has a length, exactly if it is a letter other than `s` that is no
hexadecimal digit, and performing the song reports no others. -/
theorem selectors_reported :
    (∀ text parts, readNested text = .success (.nested parts) →
      (∀ k ∈ (ofTree (.nested parts)).blocks, k.base = 10 ∧ ∀ x ∈ k.selectors, Known 10 x) ∧
      ∀ x, ¬ (ofTree (.nested parts)).Reports (.unknownSelector x)) ∧
    ∀ text head tail, readCompact text = .success (.compact head tail) →
      (∀ k ∈ (ofTree (.compact head tail)).blocks, ∀ x ∈ k.selectors,
        ∃ ch, x = String.singleton ch ∧ ∀ c : Conductor,
          c.Logged (c.beginSelector x k.base).1 (.unknownSelector x) ↔
            (∃ step, c.stepSeconds = .ok step) ∧ isForeign ch = true) ∧
      ∀ x, (ofTree (.compact head tail)).Reports (.unknownSelector x) ↔
        ∃ k ∈ (ofTree (.compact head tail)).blocks, x ∈ k.selectors ∧
          ∃ ch, x = String.singleton ch ∧ isForeign ch = true := by
  refine ⟨fun text parts read => ?_, fun text head tail read => ?_⟩
  · have known := known_of_readNested read
    refine ⟨known, fun x reports => ?_⟩
    obtain ⟨k, hk, hx, unknown⟩ := reports.selector
    obtain ⟨base, all⟩ := known k hk
    rw [base] at unknown
    exact unknown (all x hx)
  · have content := content_of_readCompact read
    have foreign {ch : Char} (hc : CompactBlock.isContentChar ch = true) :
        ¬ Known 16 (String.singleton ch) ↔ isForeign ch = true := by
      rw [known_content hc, Bool.not_eq_false]
    refine ⟨fun k hk x hx => ?_, fun x => ⟨fun reports => ?_, ?_⟩⟩
    · obtain ⟨base, all⟩ := content k hk
      obtain ⟨ch, rfl, hc⟩ := all x hx
      refine ⟨ch, rfl, fun c => ?_⟩
      rw [Conductor.beginSelector_logged, base, foreign hc]
    · obtain ⟨k, hk, hx, unknown⟩ := reports.selector
      obtain ⟨base, all⟩ := content k hk
      obtain ⟨ch, rfl, hc⟩ := all x hx
      rw [base, foreign hc] at unknown
      exact ⟨k, hk, hx, ch, rfl, unknown⟩
    · rintro ⟨k, hk, hx, ch, rfl, odd⟩
      obtain ⟨base, all⟩ := content k hk
      obtain ⟨ch', same, hc⟩ := all _ hx
      obtain rfl : ch = ch' := by simpa using congrArg String.toList same
      obtain ⟨c₀, created⟩ : ∃ c₀, Conductor.create true .standard 120.0 = .ok c₀ := ⟨_, rfl⟩
      have able : ∃ step, { c₀ with instrument := some .initial }.stepSeconds = .ok step := by
        obtain ⟨beats, length⟩ := NoteValue.beatsOfText_ok
          (show NoteValue.ofText "4n" = .ok ⟨4, .note⟩ by decide +kernel) (by decide +kernel)
        rw [Conductor.stepSeconds_eq rfl]
        exact ⟨_, congrArg _ length⟩
      cases created
      exact reports_of_plays ⟨k, hk, hx, base⟩ ((foreign hc).2 odd) able rfl rfl

/-- A note and a rest in the nested form, a number and a letter in the compact one. -/
theorem selectors_reported_samples :
    readNested "\x7b\x7b\x7b-3 s\x7d\x7d\x7d".toList =
      .success (.nested [[⟨[.note "-3" none, .note "s" none], []⟩]]) ∧
    (∀ x, ¬ (ofTree (.nested [[⟨[.note "-3" none, .note "s" none], []⟩]])).Reports
      (.unknownSelector x)) ∧
    readCompact "O4:1g".toList = .success (.compact ⟨⟨"O", "4"⟩, [], "1g"⟩ []) ∧
    (ofTree (.compact ⟨⟨"O", "4"⟩, [], "1g"⟩ [])).Reports (.unknownSelector "g") ∧
    ¬ (ofTree (.compact ⟨⟨"O", "4"⟩, [], "1g"⟩ [])).Reports (.unknownSelector "1") := by
  have nested : readNested "\x7b\x7b\x7b-3 s\x7d\x7d\x7d".toList =
    .success (.nested [[⟨[.note "-3" none, .note "s" none], []⟩]]) := by cbv
  have compact : readCompact "O4:1g".toList =
    .success (.compact ⟨⟨"O", "4"⟩, [], "1g"⟩ []) := by cbv
  have reported := (selectors_reported.2 _ _ _ compact).2
  refine ⟨nested, (selectors_reported.1 _ _ nested).2, compact, (reported "g").2 ?_, fun h => ?_⟩
  · exact ⟨_, List.mem_singleton.2 rfl, by decide, 'g', rfl, by decide⟩
  · obtain ⟨-, -, -, ch, same, odd⟩ := (reported "1").1 h
    obtain rfl : '1' = ch := by simpa using congrArg String.toList same
    exact absurd odd (by decide)

end Song

end ChordSequencer
