import ChordSequencer.Proofs.Lexemes
import ChordSequencer.Proofs.NoteValues
import ChordSequencer.Text.Numeral

/-!
# Which texts are integers

An integer is written as a sign or none and digits, with single underscores between the digits where
one likes, and in bases 2, 8 and 16 perhaps with a mark before them.  `Numeral.Denotes` says so
without reading anything, and reading takes exactly these texts for the integers that they denote
(`Numeral.read?_strip_eq_some_iff`).

* `Numeral.readDigits_eq_some_iff` : digits and underscores.
* `Numeral.readUnsigned_eq_some_iff` : with the mark of the base.
* `Numeral.readSigned_eq_some_iff` : with a sign.
* `Numeral.Signed.read?_eq` : there are no blanks inside.
-/

namespace ChordSequencer.Text

theorem stripOf_eq_self {p : Char → Bool} {s : List Char} (h : ∀ c ∈ s, p c = false) :
    stripOf p s = s := by
  have front (s : List Char) (h : ∀ c ∈ s, p c = false) : s.dropWhile p = s := by
    cases s with
    | nil => rfl
    | cons c r =>
      refine List.dropWhile_cons_of_neg ?_
      rw [h c List.mem_cons_self]
      exact Bool.false_ne_true
  simp only [stripOf]
  rw [front s h, front s.reverse (by simpa using h), List.reverse_reverse]

namespace Numeral

open Notation

variable {base n d k : Nat} {s t : List Char} {c m z : Char}

/-! ### The form of a numeral -/

/-- Digits of a base, between any two of which one underscore may stand, and the number that they
write. -/
inductive Digits (base : Nat) : List Char → Nat → Prop
  /-- The first digit. -/
  | first {c : Char} {d : Nat} (digit : digitIn? base c = some d) : Digits base [c] d
  /-- A further digit. -/
  | next {s : List Char} {n : Nat} {c : Char} {d : Nat} (before : Digits base s n)
      (digit : digitIn? base c = some d) : Digits base (s ++ [c]) (n * base + d)
  /-- A further digit after an underscore. -/
  | apart {s : List Char} {n : Nat} {c : Char} {d : Nat} (before : Digits base s n)
      (digit : digitIn? base c = some d) : Digits base (s ++ ['_', c]) (n * base + d)

/-- A numeral of a base without its sign. -/
inductive Unsigned (base : Nat) : List Char → Nat → Prop
  /-- Digits. -/
  | plain {s : List Char} {n : Nat} (digits : Digits base s n) : Unsigned base s n
  /-- A zero, the letter of the base, and digits. -/
  | marked {z m : Char} {s : List Char} {n : Nat} (zero : decimalDigit? z = some 0)
      (mark : markOf? base = some m.toLower) (digits : Digits base s n) :
      Unsigned base (z :: m :: s) n
  /-- The same with an underscore before the digits. -/
  | markedApart {z m : Char} {s : List Char} {n : Nat} (zero : decimalDigit? z = some 0)
      (mark : markOf? base = some m.toLower) (digits : Digits base s n) :
      Unsigned base (z :: m :: '_' :: s) n

/-- The base that an unsigned numeral is in, if base 0 lets it show this itself. -/
def baseOf (base : Nat) (s : List Char) : Nat := if base = 0 then shownBase s else base

/-- A numeral with its sign. -/
inductive Signed (base : Nat) : List Char → Int → Prop
  /-- No sign. -/
  | bare {s : List Char} {n : Nat} (number : Unsigned (baseOf base s) s n) : Signed base s n
  /-- A plus sign. -/
  | plus {s : List Char} {n : Nat} (number : Unsigned (baseOf base s) s n) :
      Signed base ('+' :: s) n
  /-- A minus sign. -/
  | minus {s : List Char} {n : Nat} (number : Unsigned (baseOf base s) s n) :
      Signed base ('-' :: s) (-n)

/-- A text that is, with or without blanks around it, a numeral of a base for an integer. -/
structure Denotes (base : Nat) (text : List Char) (n : Int) : Prop where
  /-- There are numerals in this base. -/
  possible : isBase base = true
  /-- The text between the blanks is one. -/
  signed : Signed base (strip text) n

/-! ### Characters -/

/-- A character that is neither a sign nor a blank. -/
structure IsPlain (c : Char) : Prop where
  /-- It is no blank. -/
  visible : isBlank c = false
  /-- It is no minus sign. -/
  notMinus : c ≠ '-'
  /-- It is no plus sign. -/
  notPlus : c ≠ '+'

theorem isDigit_class (h : isDigit c = true) :
    IsPlain c ∧ c ≠ '_' ∧ digitValue? c = decimalDigit? c := by
  have other := forall_digit (p := fun c => c ≠ '_' ∧ c ≠ '-' ∧ c ≠ '+' ∧
    ¬ ('a' ≤ c && c ≤ 'z') = true ∧ ¬ ('A' ≤ c && c ≤ 'Z') = true) (by decide +kernel) h
  obtain ⟨underscore, minus, plus, lower, upper⟩ := other
  refine ⟨⟨(Notation.isDigit_class h).1, minus, plus⟩, underscore, ?_⟩
  rw [digitValue?, if_neg lower, if_neg upper]

theorem digitIn?_class (digit : digitIn? base c = some d) : IsPlain c ∧ c ≠ '_' := by
  have value := (Option.filter_eq_some_iff.1 digit).1
  by_cases ascii : c.toNat < 128
  · have other := forall_ascii (p := fun c => (digitValue? c).isSome = true → isBlank c = false ∧
      c ≠ '-' ∧ c ≠ '+' ∧ c ≠ '_') (by decide +kernel) ascii (by rw [value]; rfl)
    exact ⟨⟨other.1, other.2.1, other.2.2.1⟩, other.2.2.2⟩
  · -- all letters that stand for digits are ASCII
    have lower : ¬ ('a' ≤ c && c ≤ 'z') = true := fun h => ascii (ascii_of_le (by decide) h)
    have upper : ¬ ('A' ≤ c && c ≤ 'Z') = true := fun h => ascii (ascii_of_le (by decide) h)
    rw [digitValue?, if_neg lower, if_neg upper] at value
    obtain ⟨plain, underscore, -⟩ := isDigit_class (Option.isSome_iff_exists.2 ⟨d, value⟩)
    exact ⟨plain, underscore⟩

theorem toLower_cases (c : Char) : ('A' ≤ c ∧ c ≤ 'Z') ∨ c.toLower = c := by
  by_cases capital : 'A' ≤ c ∧ c ≤ 'Z'
  · exact .inl capital
  · exact .inr (dif_neg capital)

theorem ascii_of_toLower (h : c.toLower.toNat < 128) : c.toNat < 128 := by
  rcases toLower_cases c with capital | kept
  · have high := UInt32.le_iff_toNat_le.1 capital.2
    exact Nat.lt_of_le_of_lt high (by decide)
  · rwa [kept] at h

theorem mark_class (mark : markOf? base = some m.toLower) :
    digitIn? base m = none ∧ isBlank m = false ∧ m ≠ '_' := by
  have known : base ∈ [2, 8, 16] ∧ m.toLower.toNat < 128 := by
    simp only [markOf?] at mark
    split at mark
    case h_4 => cases mark
    all_goals
      rw [← Option.some.inj mark]
      decide
  exact forall_ascii (p := fun m => ∀ base ∈ [2, 8, 16], markOf? base = some m.toLower →
    digitIn? base m = none ∧ isBlank m = false ∧ m ≠ '_') (by decide +kernel)
    (ascii_of_toLower known.2) base known.1 mark

/-! ### Digits -/

theorem readMore_cons (plain : c ≠ '_') (value : Nat) (r : List Char) :
    readMore base value (c :: r) =
      (digitIn? base c).bind fun d => readMore base (value * base + d) r := by
  rw [readMore]
  exact fun _ _ same => absurd same plain

theorem readMore_append_of_some {value : Nat} (read : readMore base value s = some n)
    (t : List Char) : readMore base value (s ++ t) = readMore base n t := by
  fun_induction readMore base value s with
  | case1 value =>
    cases read
    rfl
  | case2 value c r ih =>
    obtain ⟨d, digit, read⟩ := Option.bind_eq_some_iff.1 read
    rw [List.cons_append, List.cons_append, readMore, digit]
    exact ih d read
  | case3 value c r _ ih =>
    obtain ⟨d, digit, read⟩ := Option.bind_eq_some_iff.1 read
    rw [List.cons_append, readMore_cons (digitIn?_class digit).2, digit]
    exact ih d read

theorem readDigits_append_of_some (read : readDigits base s = some n) (t : List Char) :
    readDigits base (s ++ t) = readMore base n t := by
  cases s with
  | nil => cases read
  | cons c r =>
    obtain ⟨d, digit, read⟩ := Option.bind_eq_some_iff.1 read
    rw [List.cons_append, readDigits, digit]
    exact readMore_append_of_some read t

theorem Digits.readMore {value : Nat} (before : Digits base s value)
    (read : readMore base value t = some n) : Digits base (s ++ t) n := by
  fun_induction Numeral.readMore base value t generalizing s with
  | case1 value =>
    cases read
    rwa [List.append_nil]
  | case2 value c r ih =>
    obtain ⟨d, digit, read⟩ := Option.bind_eq_some_iff.1 read
    have whole := ih d (before.apart digit) read
    rwa [List.append_assoc] at whole
  | case3 value c r _ ih =>
    obtain ⟨d, digit, read⟩ := Option.bind_eq_some_iff.1 read
    have whole := ih d (before.next digit) read
    rwa [List.append_assoc] at whole

/-- **Digits are read as the number that they write**, and nothing else is. -/
theorem readDigits_eq_some_iff : readDigits base s = some n ↔ Digits base s n := by
  constructor
  · intro read
    cases s with
    | nil => cases read
    | cons c r =>
      obtain ⟨d, digit, read⟩ := Option.bind_eq_some_iff.1 read
      exact (Digits.first digit).readMore read
  · intro digits
    induction digits with
    | first digit =>
      rw [readDigits, digit]
      rfl
    | next before digit read =>
      rw [readDigits_append_of_some read, readMore_cons (digitIn?_class digit).2, digit]
      rfl
    | apart before digit read =>
      rw [readDigits_append_of_some read, readMore, digit]
      rfl

theorem Digits.head (digits : Digits base s n) : ∃ c r d, s = c :: r ∧ digitIn? base c = some d ∧
    ∀ m ∈ r.head?, m = '_' ∨ ∃ e, digitIn? base m = some e := by
  have read := readDigits_eq_some_iff.2 digits
  cases s with
  | nil => cases read
  | cons c r =>
    obtain ⟨d, digit, read⟩ := Option.bind_eq_some_iff.1 read
    refine ⟨c, r, d, rfl, digit, fun m hm => ?_⟩
    cases r with
    | nil => cases hm
    | cons m r =>
      cases hm
      by_cases underscore : m = '_'
      · exact .inl underscore
      · rw [readMore_cons underscore] at read
        obtain ⟨e, digit, -⟩ := Option.bind_eq_some_iff.1 read
        exact .inr ⟨e, digit⟩

/-! ### Marks and signs -/

theorem dropMark_of_not {r : List Char}
    (h : ¬ (decimalDigit? z = some 0 ∧ markOf? base = some m.toLower)) :
    dropMark base (z :: m :: r) = z :: m :: r := by
  simp only [dropMark]
  rw [if_neg h]

theorem dropMark_apart {r : List Char} (zero : decimalDigit? z = some 0)
    (mark : markOf? base = some m.toLower) : dropMark base (z :: m :: '_' :: r) = r := by
  simp only [dropMark]
  rw [if_pos ⟨zero, mark⟩]

theorem dropMark_marked {r : List Char} (zero : decimalDigit? z = some 0)
    (mark : markOf? base = some m.toLower) (h : r.head? ≠ some '_') :
    dropMark base (z :: m :: r) = r := by
  simp only [dropMark]
  rw [if_pos ⟨zero, mark⟩]
  split
  · exact absurd rfl h
  · rfl

theorem Digits.dropMark (digits : Digits base s n) : dropMark base s = s := by
  obtain ⟨z, r, -, rfl, -, second⟩ := digits.head
  cases r with
  | nil => rfl
  | cons m r =>
    refine dropMark_of_not fun ⟨_, mark⟩ => ?_
    obtain ⟨other, -, joined⟩ := mark_class mark
    rcases second m rfl with underscore | ⟨e, digit⟩
    · exact joined underscore
    · rw [other] at digit
      cases digit

theorem Digits.head_ne_underscore (digits : Digits base s n) : s.head? ≠ some '_' := by
  obtain ⟨c, r, d, rfl, digit, -⟩ := digits.head
  exact fun same => (digitIn?_class digit).2 (Option.some.inj same)

/-- **An unsigned numeral is read as its number**, with or without a mark. -/
theorem readDigits_dropMark_iff :
    readDigits base (dropMark base s) = some n ↔ Unsigned base s n := by
  constructor
  · rw [readDigits_eq_some_iff]
    intro digits
    rcases s with - | ⟨z, - | ⟨m, r⟩⟩
    · exact .plain digits
    · exact .plain digits
    · by_cases marked : decimalDigit? z = some 0 ∧ markOf? base = some m.toLower
      · obtain ⟨zero, mark⟩ := marked
        by_cases apart : r.head? = some '_'
        · obtain ⟨r, rfl⟩ := List.head?_eq_some_iff.1 apart
          rw [dropMark_apart zero mark] at digits
          exact .markedApart zero mark digits
        · rw [dropMark_marked zero mark apart] at digits
          exact .marked zero mark digits
      · rw [dropMark_of_not marked] at digits
        exact .plain digits
  · intro number
    cases number with
    | plain digits => rw [digits.dropMark, readDigits_eq_some_iff.2 digits]
    | marked zero mark digits =>
      rw [dropMark_marked zero mark digits.head_ne_underscore, readDigits_eq_some_iff.2 digits]
    | markedApart zero mark digits =>
      rw [dropMark_apart zero mark, readDigits_eq_some_iff.2 digits]

theorem readUnsigned_eq_some_iff :
    readUnsigned base s = some n ↔ Unsigned (baseOf base s) s n :=
  readDigits_dropMark_iff

theorem plain_of_zero (zero : decimalDigit? z = some 0) : IsPlain z :=
  (isDigit_class (Option.isSome_iff_exists.2 ⟨0, zero⟩)).1

theorem Unsigned.head (number : Unsigned base s n) : ∃ c r, s = c :: r ∧ IsPlain c := by
  cases number with
  | plain digits =>
    obtain ⟨c, r, d, rfl, digit, -⟩ := digits.head
    exact ⟨c, r, rfl, (digitIn?_class digit).1⟩
  | marked zero mark digits => exact ⟨_, _, rfl, plain_of_zero zero⟩
  | markedApart zero mark digits => exact ⟨_, _, rfl, plain_of_zero zero⟩

theorem readSigned_minus (base : Nat) (r : List Char) :
    readSigned base ('-' :: r) = (readUnsigned base r).map fun n : Nat => -(n : Int) := by
  rw [readSigned]
  cases readUnsigned base r <;> rfl

theorem readSigned_plus (base : Nat) (r : List Char) :
    readSigned base ('+' :: r) = (readUnsigned base r).map Int.ofNat := by
  rw [readSigned]

theorem readSigned_bare (minus : c ≠ '-') (plus : c ≠ '+') (r : List Char) :
    readSigned base (c :: r) = (readUnsigned base (c :: r)).map Int.ofNat := by
  rw [readSigned]
  · exact fun _ same => minus (List.cons.inj same).1
  · exact fun _ same => plus (List.cons.inj same).1

/-- **A numeral is read as its integer.** -/
theorem readSigned_eq_some_iff {n : Int} : readSigned base s = some n ↔ Signed base s n := by
  constructor
  · intro read
    rcases s with - | ⟨c, r⟩
    · cases read
    · by_cases minus : c = '-'
      · rw [minus, readSigned_minus] at read
        obtain ⟨n, number, rfl⟩ := Option.map_eq_some_iff.1 read
        exact minus ▸ .minus (readUnsigned_eq_some_iff.1 number)
      · by_cases plus : c = '+'
        · rw [plus, readSigned_plus] at read
          obtain ⟨n, number, rfl⟩ := Option.map_eq_some_iff.1 read
          exact plus ▸ .plus (readUnsigned_eq_some_iff.1 number)
        · rw [readSigned_bare minus plus] at read
          obtain ⟨n, number, rfl⟩ := Option.map_eq_some_iff.1 read
          exact .bare (readUnsigned_eq_some_iff.1 number)
  · intro signed
    cases signed with
    | bare number =>
      obtain ⟨c, r, rfl, plain⟩ := number.head
      rw [readSigned_bare plain.notMinus plain.notPlus, readUnsigned_eq_some_iff.2 number]
      rfl
    | plus number =>
      rw [readSigned_plus, readUnsigned_eq_some_iff.2 number]
      rfl
    | minus number =>
      rw [readSigned_minus, readUnsigned_eq_some_iff.2 number]
      rfl

/-- **The texts that are read as integers**, with blanks around them or not. -/
theorem read?_strip_eq_some_iff {n : Int} :
    read? base (strip s) = some n ↔ Denotes base s n := by
  have bare : stripOf isPadding (strip s) = strip s :=
    stripOf_stripOf_of_imp (fun c padding => (Bool.and_eq_true_iff.1 padding).1) s
  rw [read?, bare]
  split
  · rename_i possible
    rw [readSigned_eq_some_iff]
    exact ⟨fun signed => ⟨possible, signed⟩, fun denotes => denotes.signed⟩
  · rename_i impossible
    exact ⟨(nomatch ·), fun denotes => absurd denotes.possible impossible⟩

/-! ### Blanks -/

theorem Digits.visible (digits : Digits base s n) : ∀ c ∈ s, isBlank c = false := by
  have digit_visible {c : Char} {d : Nat} (digit : digitIn? base c = some d) : isBlank c = false :=
    (digitIn?_class digit).1.visible
  induction digits with
  | first digit => exact List.forall_mem_singleton.2 (digit_visible digit)
  | next _ digit ih =>
    exact List.forall_mem_append.2 ⟨ih, List.forall_mem_singleton.2 (digit_visible digit)⟩
  | apart _ digit ih =>
    refine List.forall_mem_append.2 ⟨ih, List.forall_mem_cons.2 ⟨by decide, ?_⟩⟩
    exact List.forall_mem_singleton.2 (digit_visible digit)

theorem Unsigned.visible (number : Unsigned base s n) : ∀ c ∈ s, isBlank c = false := by
  cases number with
  | plain digits => exact digits.visible
  | marked zero mark digits =>
    exact List.forall_mem_cons.2 ⟨(plain_of_zero zero).visible,
      List.forall_mem_cons.2 ⟨(mark_class mark).2.1, digits.visible⟩⟩
  | markedApart zero mark digits =>
    exact List.forall_mem_cons.2 ⟨(plain_of_zero zero).visible,
      List.forall_mem_cons.2 ⟨(mark_class mark).2.1,
        List.forall_mem_cons.2 ⟨by decide, digits.visible⟩⟩⟩

/-- **There are no blanks in a numeral**, so that it is read as it is. -/
theorem Signed.read?_eq {n : Int} (possible : isBase base = true) (signed : Signed base s n) :
    read? base s = some n ∧ strip s = s := by
  have visible : ∀ c ∈ s, isBlank c = false := by
    cases signed with
    | bare number => exact number.visible
    | plus number => exact List.forall_mem_cons.2 ⟨by decide, number.visible⟩
    | minus number => exact List.forall_mem_cons.2 ⟨by decide, number.visible⟩
  have bare : strip s = s := stripOf_eq_self visible
  have read := read?_strip_eq_some_iff.2 (⟨possible, bare.symm ▸ signed⟩ : Denotes base s n)
  rw [bare] at read
  exact ⟨read, bare⟩

end Numeral

end ChordSequencer.Text
