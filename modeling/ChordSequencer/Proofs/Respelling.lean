import ChordSequencer.Proofs.Flattening
import ChordSequencer.Proofs.Lexemes
import Mathlib.Data.List.DropRight
import Mathlib.Data.List.Forall2

/-!
# Attribute names in other letter case

The table of settings knows a name in any letter case, the blanks around it left aside.  So
respelling the names that it knows does not change what the attributes of a block are commands for.
How often a block is played is decided apart from the table, by an attribute that is spelled
`repeat` and not otherwise: a block stays as it is as long as these attributes stay, and not if one
of them is respelled (`Song.respelled_blocks`).

* `Text.strip_lower` : removing blanks and lowering commute.
* `Setting.ofName?_of_lower` : the setting of a name is that of its lower-case form.
-/

namespace ChordSequencer

open Notation Text

/-! ### Blanks have no case -/

namespace Text

/-- The code points of the blanks. -/
def blanks : List Nat := [
  9, 10, 11, 12, 13, 28, 29, 30, 31, 32, 0x85, 0xA0, 0x1680, 0x2000, 0x2001, 0x2002, 0x2003, 0x2004,
  0x2005, 0x2006, 0x2007, 0x2008, 0x2009, 0x200A, 0x2028, 0x2029, 0x202F, 0x205F, 0x3000]

theorem mem_blanks {c : Char} (blank : isBlank c = true) : c.toNat ∈ blanks := by
  simp only [isBlank, Bool.or_eq_true, Bool.and_eq_true, decide_eq_true_eq, beq_iff_eq] at blank
  simp only [blanks, List.mem_cons, List.not_mem_nil, or_false]
  omega

theorem mem_blanks_of_ofNat {n : Nat} (blank : isBlank (Char.ofNat n) = true) : n ∈ blanks := by
  by_cases valid : n.isValidChar
  · have value : (Char.ofNat n).toNat = n := by
      rw [Char.ofNat, dif_pos valid]
      rfl
    exact value ▸ mem_blanks blank
  · have value : Char.ofNat n = '\x00' := dif_neg valid
    rw [value] at blank
    exact absurd blank (by decide)

theorem forall_blank {p : Char → Prop} (h : ∀ n ∈ blanks, p (Char.ofNat n)) {c : Char}
    (blank : isBlank c = true) : p c := by
  have := h c.toNat (mem_blanks blank)
  rwa [Char.ofNat_toNat] at this

variable {c : Char} {s t before after : List Char}

theorem casedSet_blank (blank : isBlank c = true) : casedSet.contains c = false :=
  forall_blank (p := fun c => casedSet.contains c = false) (by decide +kernel) blank

theorem lowerLetter_blank (blank : isBlank c = true) : lowerLetter c = c :=
  forall_blank (p := fun c => lowerLetter c = c) (by decide +kernel) blank

theorem caseRuns_visible : ∀ r ∈ caseRuns, ∀ b ∈ blanks,
    ¬ (r.first + r.offset ≤ (b : Int) ∧ (b : Int) ≤ r.last + r.offset) := by
  decide +kernel

theorem lowerLetter_visible (visible : isBlank c = false) : isBlank (lowerLetter c) = false := by
  rw [lowerLetter]
  split
  case isTrue small =>
    have ascii := forall_ascii (p := fun c => isBlank c = false → isBlank c.toLower = false)
      (by decide) small
    exact ascii visible
  case isFalse =>
    cases found : caseRuns.find? (·.contains c.toNat) with
    | none => exact visible
    | some r =>
      have inside := List.find?_some found
      simp only [CaseRun.contains, Bool.and_eq_true, decide_eq_true_eq] at inside
      refine Bool.eq_false_iff.2 fun blank => ?_
      have mem := mem_blanks_of_ofNat blank
      have outside := caseRuns_visible r (List.mem_of_find?_eq_some found) _ mem
      have null : 0 ∉ blanks := by decide
      have positive : (c.toNat + r.offset).toNat ≠ 0 := fun h => null (h ▸ mem)
      omega

theorem lowerIn_blank (blank : isBlank c = true) : lowerIn before c after = [c] := by
  have dotted : c ≠ '\u0130' := by rintro rfl; revert blank; decide
  have sigma : c ≠ '\u03A3' := by rintro rfl; revert blank; decide
  rw [lowerIn, if_neg dotted, if_neg sigma, lowerLetter_blank blank]

theorem lowerIn_visible (visible : isBlank c = false) :
    lowerIn before c after ≠ [] ∧ ∀ x ∈ lowerIn before c after, isBlank x = false := by
  simp only [lowerIn]
  split
  case isTrue =>
    exact ⟨List.cons_ne_nil _ _,
      List.forall_mem_cons.2 ⟨by decide, List.forall_mem_singleton.2 (by decide)⟩⟩
  case isFalse =>
    split
    case isTrue =>
      split <;> exact ⟨List.cons_ne_nil _ _, List.forall_mem_singleton.2 (by decide)⟩
    case isFalse => simpa using lowerLetter_visible visible

theorem nextIsCased_append_blank (blank : ∀ c ∈ t, isBlank c = true) :
    nextIsCased (s ++ t) = nextIsCased s := by
  have further : nextIsCased t = false := by
    simp only [nextIsCased]
    cases found : t.find? fun c => !caseIgnorableSet.contains c with
    | none => rfl
    | some c => exact casedSet_blank (blank c (List.mem_of_find?_eq_some found))
  simp only [nextIsCased, List.find?_append] at further ⊢
  cases s.find? fun c => !caseIgnorableSet.contains c with
  | none => exact further
  | some c => rfl

/-! ### Lowering a text with blanks around it -/

theorem lowerFrom_after_blank (blank : ∀ c ∈ t, isBlank c = true) :
    ∀ before, lowerFrom (before ++ t) s = lowerFrom before s := by
  induction s with
  | nil => exact fun _ => rfl
  | cons c r ih =>
    intro before
    rw [lowerFrom, lowerFrom, lowerIn, lowerIn, nextIsCased_append_blank blank, ← List.cons_append,
      ih]

theorem lowerFrom_append_blank (blank : isBlank c = true) :
    ∀ before, lowerFrom before (s ++ [c]) = lowerFrom before s ++ [c] := by
  induction s with
  | nil =>
    intro before
    rw [List.nil_append, lowerFrom, lowerFrom, lowerFrom, lowerIn_blank blank]
    rfl
  | cons d r ih =>
    intro before
    have single : ∀ x ∈ [c], isBlank x = true := by simpa using blank
    rw [List.cons_append, lowerFrom, lowerFrom, ih, lowerIn, lowerIn,
      nextIsCased_append_blank single, List.append_assoc]

theorem lowerFrom_concat :
    ∀ before, ∃ s', lowerFrom before (s ++ [c]) = s' ++ lowerIn (s.reverse ++ before) c [] := by
  induction s with
  | nil => exact fun before => ⟨[], by simp [lowerFrom]⟩
  | cons d r ih =>
    intro before
    obtain ⟨s', h⟩ := ih (d :: before)
    refine ⟨lowerIn before d (r ++ [c]) ++ s', ?_⟩
    rw [List.cons_append, lowerFrom, h, List.append_assoc, List.reverse_cons, List.append_assoc]
    rfl

theorem dropWhile_lower :
    ∀ before, (∀ c ∈ before, isBlank c = true) →
      (lowerFrom before s).dropWhile isBlank = lower (s.dropWhile isBlank) := by
  induction s with
  | nil => exact fun _ _ => rfl
  | cons c r ih =>
    intro before blanks
    cases blank : isBlank c with
    | true =>
      rw [lowerFrom, lowerIn_blank blank, List.singleton_append,
        List.dropWhile_cons_of_pos blank, List.dropWhile_cons_of_pos blank]
      exact ih _ (by simpa [blank] using blanks)
    | false =>
      have start := lowerFrom_after_blank (s := c :: r) blanks []
      rw [List.nil_append] at start
      rw [start, List.dropWhile_cons_of_neg (by simp [blank]), lower, lowerFrom]
      obtain ⟨full, visible⟩ := @lowerIn_visible _ [] r blank
      obtain ⟨x, xs, h⟩ := List.exists_cons_of_ne_nil full
      rw [h, List.cons_append,
        List.dropWhile_cons_of_neg (by simp [visible x (by rw [h]; exact List.mem_cons_self)])]

theorem rdropWhile_lower : (lower s).rdropWhile isBlank = lower (s.rdropWhile isBlank) := by
  induction s using List.reverseRecOn with
  | nil => rfl
  | append_singleton s c ih =>
    cases blank : isBlank c with
    | true =>
      rw [List.rdropWhile_concat_pos _ _ _ blank, ← ih, lower, lowerFrom_append_blank blank,
        List.rdropWhile_concat_pos _ _ _ blank]
      rfl
    | false =>
      rw [List.rdropWhile_concat_neg _ _ _ (by simp [blank]), lower]
      obtain ⟨s', h⟩ := lowerFrom_concat (s := s) (c := c) []
      obtain ⟨full, visible⟩ := @lowerIn_visible _ (s.reverse ++ []) [] blank
      obtain ⟨xs, x, last⟩ := List.eq_nil_or_concat _ |>.resolve_left full
      have shown : isBlank x = false := visible x (by rw [last]; simp)
      rw [h, last, List.concat_eq_append, ← List.append_assoc,
        List.rdropWhile_concat_neg _ _ _ (by simp [shown])]

theorem strip_lower (s : List Char) : strip (lower s) = lower (strip s) := by
  have parts (s : List Char) : strip s = (s.dropWhile isBlank).rdropWhile isBlank := rfl
  rw [parts, lower, dropWhile_lower [] (by simp), rdropWhile_lower, parts]

end Text

/-! ### Names -/

theorem Setting.ofName?_of_lower {name name' : String}
    (same : lower name'.toList = lower name.toList) : ofName? name' = ofName? name := by
  simp only [ofName?, ← strip_lower, same]

/-- An attribute in another spelling: the value is the same, and so is the name, but for the case of
its letters if it is a name that the notation knows. -/
def Notation.Attribute.Respells (a a' : Attribute) : Prop :=
  a'.value = a.value ∧
    (a'.name = a.name ∨
      (Setting.ofName? a.name).isSome ∧ lower a'.name.toList = lower a.name.toList)

instance (a a' : Attribute) : Decidable (a.Respells a') := inferInstanceAs (Decidable (_ ∧ _))

namespace Song

/-- The same attributes say how often the block is played. -/
def SameCounts (attributes attributes' : List Attribute) : Prop :=
  List.Forall₂ (fun a a' => isRepeat a' = isRepeat a) attributes attributes'

variable {a a' : Attribute} {attributes attributes' : List Attribute} {b b' : NestedBlock}

/-- What an attribute is a command for does not depend on its spelling. -/
theorem commandOf_respelled (h : a.Respells a') : commandOf a' = commandOf a := by
  obtain ⟨value, name | ⟨known, lowered⟩⟩ := h
  · simp only [commandOf, name, value]
  · obtain ⟨s, hs⟩ := Option.isSome_iff_exists.1 known
    simp only [commandOf, Setting.ofName?_of_lower lowered, hs, value]

theorem commandsOf_respelled (names : List.Forall₂ Attribute.Respells attributes attributes')
    (counts : SameCounts attributes attributes') :
    commandsOf attributes' = commandsOf attributes := by
  induction names with
  | nil => rfl
  | @cons a a' as as' h names ih =>
    obtain ⟨alike, counts⟩ := List.forall₂_cons.1 counts
    have rest := ih counts
    simp only [commandsOf, List.filter_cons, alike] at rest ⊢
    cases isRepeat a with
    | true => exact rest
    | false => simpa [commandOf_respelled h] using rest

theorem repeatCount_respelled (names : List.Forall₂ Attribute.Respells attributes attributes')
    (counts : SameCounts attributes attributes') :
    ∀ n, repeatCount attributes' n = repeatCount attributes n := by
  induction names with
  | nil => exact fun _ => rfl
  | @cons a a' as as' h names ih =>
    obtain ⟨alike, counts⟩ := List.forall₂_cons.1 counts
    intro n
    simp only [repeatCount, List.foldl_cons, alike, h.1]
    exact ih counts _

/-! ### Blocks -/

/-- Blocks with the same items that play something are told apart by their commands and by how often
they are played. -/
theorem ofNestedBlock_eq_iff (items : b'.items = b.items) :
    ofNestedBlock b' = ofNestedBlock b ↔
      runs NoteValue.quarter b.items = [] ∨ b'.commands = b.commands ∧ b'.copies = b.copies := by
  rw [ofNestedBlock_eq, ofNestedBlock_eq, items]
  cases runs NoteValue.quarter b.items with
  | nil => simp [blocksOf]
  | cons r rs =>
    refine ⟨fun same => .inr ?_, ?_⟩
    · have lengths := congrArg List.length same
      simp only [List.length_flatten, List.map_replicate, List.sum_replicate_nat, blocksOf,
        List.length_cons, List.length_map] at lengths
      have copies := Nat.eq_of_mul_eq_mul_right (Nat.succ_pos _) lengths
      rw [copies] at same
      obtain ⟨n, hn⟩ := Nat.exists_eq_add_one.2 (copies_pos b)
      rw [hn, List.replicate_succ, List.replicate_succ, List.flatten_cons, List.flatten_cons,
        blocksOf, blocksOf, List.cons_append, List.cons_append] at same
      have first := congrArg Block.commands (List.cons.inj same).1
      exact ⟨(List.cons.inj first).2, copies⟩
    · rintro (none | ⟨commands, copies⟩)
      · cases none
      · rw [commands, copies]

theorem length_commands (b : NestedBlock) :
    b.commands.length + b.attributes.countP isRepeat = b.attributes.length := by
  rw [← commandsOf_eq, commandsOf, List.length_map, ← List.countP_eq_length_filter, Nat.add_comm]
  simpa using (List.length_eq_countP_add_countP isRepeat (l := b.attributes)).symm

/-- **Respelling attribute names.** Take two blocks that differ in the case of letters of names that
the notation knows.  If the same attributes are spelled as counts in both, they are the same blocks
of a song.  If they play anything, they are the same blocks only if they have the same commands and
are played equally often; so they differ if one has more counts than the other. -/
theorem respelled_blocks (items : b'.items = b.items)
    (names : List.Forall₂ Attribute.Respells b.attributes b'.attributes) :
    (SameCounts b.attributes b'.attributes → ofNestedBlock b' = ofNestedBlock b) ∧
      (ofNestedBlock b' = ofNestedBlock b ↔
        runs NoteValue.quarter b.items = [] ∨ b'.commands = b.commands ∧ b'.copies = b.copies) ∧
      (runs NoteValue.quarter b.items ≠ [] →
        b'.attributes.countP isRepeat ≠ b.attributes.countP isRepeat →
          ofNestedBlock b' ≠ ofNestedBlock b) := by
  refine ⟨fun counts => ?_, ofNestedBlock_eq_iff items, fun plays differ same => ?_⟩
  · simp only [ofNestedBlock, items, commandsOf_respelled names counts,
      repeatCount_respelled names counts]
  · obtain ⟨commands, -⟩ := ((ofNestedBlock_eq_iff items).1 same).resolve_left plays
    have count := length_commands b
    have count' := length_commands b'
    have length := names.length_eq
    rw [commands] at count'
    omega

/-- `octave` and `Octave` are one name. -/
theorem respelled_octave :
    ofNestedBlock ⟨[.note "1" none], [⟨"Octave", "4"⟩, ⟨"repeat", "2"⟩]⟩ =
      ofNestedBlock ⟨[.note "1" none], [⟨"octave", "4"⟩, ⟨"repeat", "2"⟩]⟩ :=
  (respelled_blocks rfl (.cons (by decide) (.cons (by decide) .nil))).1
    (.cons rfl (.cons rfl .nil))

/-- The name `Repeat` is known and differs from `repeat` in the case of a letter, but the block is
played once, with a command for a count, instead of twice. -/
theorem capital_count_differs :
    Attribute.Respells ⟨"repeat", "2"⟩ ⟨"Repeat", "2"⟩ ∧
      ofNestedBlock ⟨[.note "1" none], [⟨"repeat", "2"⟩]⟩ =
        [⟨[⟨"D", "4n"⟩], "1", some " "⟩, ⟨[⟨"D", "4n"⟩], "1", some " "⟩] ∧
      ofNestedBlock ⟨[.note "1" none], [⟨"Repeat", "2"⟩]⟩ =
        [⟨[⟨"D", "4n"⟩, ⟨"R", "2"⟩], "1", some " "⟩] := by
  decide

end Song

end ChordSequencer
