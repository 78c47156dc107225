import ChordSequencer.NoteValue
import ChordSequencer.Proofs.Doubles
import Mathlib.Data.List.DropRight
import Mathlib.Tactic.IntervalCases

/-!
# Note values that can be calculated with

A note value that a text gives has a length in beats unless its number is too large for a double
(`NoteValue.beatsOfText_ok`).  `NoteValue.written_iff` says which texts are note values.  A pulse is
written as a note value that reads back with the same number (`NoteValue.ofText_pulse`).
-/

namespace ChordSequencer

open Text

/-! ### Blanks around a text -/

namespace Text

theorem stripOf_eq (p : Char → Bool) (s : List Char) :
    stripOf p s = (s.dropWhile p).rdropWhile p := rfl

theorem dropWhile_stripOf (p : Char → Bool) (s : List Char) :
    (stripOf p s).dropWhile p = stripOf p s := by
  rw [stripOf_eq]
  cases h : s.dropWhile p with
  | nil => rfl
  | cons c r =>
    have head : p c = false := by
      have := List.head?_dropWhile_not p s
      rw [h] at this
      simpa using this
    cases hs : (c :: r).rdropWhile p with
    | nil => rfl
    | cons d t =>
      have same : d = c := by
        have pre : d :: t <+: c :: r := hs ▸ List.rdropWhile_prefix _ _
        exact (List.cons_prefix_cons.1 pre).1
      rw [same, List.dropWhile_cons_of_neg (by rw [head]; exact Bool.false_ne_true)]

theorem stripOf_stripOf_of_imp {p q : Char → Bool} (imp : ∀ c, p c = true → q c = true)
    (s : List Char) : stripOf p (stripOf q s) = stripOf q s := by
  have front : (stripOf q s).dropWhile p = stripOf q s := by
    rw [List.dropWhile_eq_self_iff]
    exact fun filled => mt (imp _) (List.dropWhile_eq_self_iff.1 (dropWhile_stripOf q s) filled)
  have back : (stripOf q s).rdropWhile p = stripOf q s := by
    have bare : (stripOf q s).rdropWhile q = stripOf q s := by
      rw [stripOf_eq, List.rdropWhile_idempotent]
    rw [List.rdropWhile_eq_self_iff]
    exact fun filled => mt (imp _) (List.rdropWhile_eq_self_iff.1 bare filled)
  rw [stripOf_eq p, front, back]

@[simp] theorem stripOf_stripOf (p : Char → Bool) (s : List Char) :
    stripOf p (stripOf p s) = stripOf p s := stripOf_stripOf_of_imp (fun _ h => h) s

@[simp] theorem strip_strip (s : List Char) : strip (strip s) = strip s := stripOf_stripOf _ s

theorem strip_eq_self {s : List Char} (first : ∀ c ∈ s.head?, isBlank c = false)
    (last : ∀ c ∈ s.getLast?, isBlank c = false) : strip s = s := by
  simp only [strip]
  rw [stripOf_eq]
  have front : s.dropWhile isBlank = s := by
    cases s with
    | nil => rfl
    | cons c r =>
      rw [List.dropWhile_cons_of_neg]
      rw [first c rfl]
      exact Bool.false_ne_true
  rw [front, List.rdropWhile_eq_self_iff]
  intro h blank
  rw [last _ (List.getLast?_eq_getLast_of_ne_nil h)] at blank
  cases blank

/-! ### Decimal numbers -/

theorem isBlank_of_isDigit {c : Char} (h : c.isDigit = true) : isBlank c = false := by
  have range : 48 ≤ c.toNat ∧ c.toNat ≤ 57 := by
    simpa [Char.isDigit, UInt32.le_iff_toNat_le] using h
  simp only [isBlank]
  simp only [Bool.or_eq_false_iff, Bool.and_eq_false_iff, decide_eq_false_iff_not,
    beq_eq_false_iff_ne]
  omega

theorem decimalDigit?_digitChar {d : Nat} (h : d < 10) :
    decimalDigit? d.digitChar = some d := by
  interval_cases d <;> decide

/-- The digits that are written for a number are decimal digits, and they read back. -/
theorem decimalNumber_toDigits (n : Nat) :
    (Nat.toDigits 10 n).all isDigit = true ∧ decimalNumber (Nat.toDigits 10 n) = n := by
  induction n using Nat.strongRecOn with
  | ind n ih =>
    -- the last digit is written after those of the tenth part
    by_cases small : n < 10
    · rw [Nat.toDigits_of_lt_base small]
      have digit := decimalDigit?_digitChar small
      simp [isDigit, decimalNumber, digit]
    · have digit := decimalDigit?_digitChar (Nat.mod_lt n (by decide : 0 < 10))
      obtain ⟨digits, number⟩ := ih (n / 10) (by omega)
      rw [Nat.toDigits_of_base_le (by decide) (by omega)]
      constructor
      · rw [List.all_append, digits]
        simp [isDigit, digit]
      · unfold decimalNumber at number ⊢
        rw [List.foldl_append, number]
        simp only [List.foldl_cons, List.foldl_nil, digit, Option.getD_some]
        omega

end Text

namespace NoteValue

/-! ### Lengths -/

theorem beatsOfText_tooLarge {text : String} {v : NoteValue} (read : ofText text = .ok v)
    (large : Number.TooLarge v.count) : beatsOfText text = .error .tooLarge := by
  have none := (Number.ofInt?_eq_none_iff _).2 large
  simp only [beatsOfText, read, beats?, none, Option.map_none]

theorem beatsOfText_ok {text : String} {v : NoteValue} (read : ofText text = .ok v)
    (fits : ¬ Number.TooLarge v.count) : ∃ beats, beatsOfText text = .ok beats := by
  cases number : Number.ofInt? v.count with
  | none => exact absurd ((Number.ofInt?_eq_none_iff _).1 number) fits
  | some x =>
    simp only [beatsOfText, read, beats?, number, Option.map_some]
    exact ⟨_, rfl⟩

theorem beatsOfText_refused {text : String} {why : Refusal} (refused : ofText text = .error why) :
    beatsOfText text = .error (.refused why) := by
  simp only [beatsOfText, refused]

theorem ofText_strip {text : String} {v : NoteValue} (read : ofText text = .ok v) :
    ofText (String.ofList (strip text.toList)) = .ok v := by
  unfold ofText at read ⊢
  rw [String.toList_ofList, strip_strip]
  split at read
  · cases read
  · split at read
    · cases read
    · rename_i positive
      rw [if_neg positive]
      exact read

/-! ### Written note values -/

/-- A note value as it is written: the digits of a positive number and a unit, perhaps with blanks
around them. -/
def Written (text : String) : Prop :=
  ∃ digits unit, strip text.toList = digits ++ [unit] ∧ digits ≠ [] ∧
    (∀ d ∈ digits, isDigit d = true) ∧ 0 < decimalNumber digits ∧
    (unit = 'n' ∨ unit = 't' ∨ unit = 'm')

theorem unit?_isSome {u : Char} : (unit? u).isSome = true ↔ u = 'n' ∨ u = 't' ∨ u = 'm' := by
  simp only [unit?]
  split <;> simp_all

theorem split?_append {digits : List Char} {u : Char} {unit : NoteUnit} (given : digits ≠ [])
    (all : ∀ d ∈ digits, isDigit d = true) (known : unit? u = some unit) :
    split? (digits ++ [u]) = some (decimalNumber digits, unit) := by
  have stops : isDigit u = false := by
    rcases unit?_isSome.1 (Option.isSome_iff_exists.2 ⟨unit, known⟩) with rfl | rfl | rfl <;> decide
  have taken : (digits ++ [u]).takeWhile isDigit = digits := by
    rw [List.takeWhile_append_of_pos all]
    simp [stops]
  have left : (digits ++ [u]).dropWhile isDigit = [u] := by
    rw [List.dropWhile_append_of_pos all]
    simp [stops]
  cases digits with
  | nil => exact absurd rfl given
  | cons d ds =>
    simp only [split?]
    rw [taken, left]
    simp only [known, Option.map_some]

theorem split?_some {s : List Char} {n : Nat} {unit : NoteUnit}
    (h : split? s = some (n, unit)) :
    ∃ digits u, s = digits ++ [u] ∧ digits ≠ [] ∧ (∀ d ∈ digits, isDigit d = true) ∧
      decimalNumber digits = n ∧ unit? u = some unit := by
  simp only [split?] at h
  split at h
  · rename_i d ds u taken left
    obtain ⟨unit', found, same⟩ := Option.map_eq_some_iff.1 h
    cases same
    refine ⟨d :: ds, u, ?_, List.cons_ne_nil _ _, fun c mem => ?_, rfl, found⟩
    · rw [← taken, ← left, List.takeWhile_append_dropWhile]
    · exact List.mem_takeWhile_imp (taken.symm ▸ mem)
  · cases h

/-- **The texts that are note values.** -/
theorem written_iff {text : String} : Written text ↔ ∃ v, ofText text = .ok v := by
  constructor
  · rintro ⟨digits, u, stripped, given, all, positive, known⟩
    obtain ⟨unit, known⟩ := Option.isSome_iff_exists.1 (unit?_isSome.2 known)
    refine ⟨⟨decimalNumber digits, unit⟩, ?_⟩
    simp only [ofText, stripped, split?_append given all known]
    rw [if_neg positive.ne']
  · rintro ⟨v, h⟩
    simp only [ofText] at h
    split at h
    · cases h
    · rename_i count unit split
      split at h
      · cases h
      · rename_i positive
        obtain ⟨digits, u, stripped, given, all, number, known⟩ := split?_some split
        exact ⟨digits, u, stripped, given, all, number ▸ Nat.pos_of_ne_zero positive,
          unit?_isSome.1 (Option.isSome_iff_exists.2 ⟨unit, known⟩)⟩

/-! ### Pulses -/

theorem toList_pulse (n : Nat) : s!"{(n : Int)}n".toList = Nat.toDigits 10 n ++ ['n'] := by
  have written : toString (n : Int) = n.repr := rfl
  simp only [String.toList_append, written, Nat.toList_repr]
  rfl

theorem strip_pulse (n : Nat) :
    strip (Nat.toDigits 10 n ++ ['n']) = Nat.toDigits 10 n ++ ['n'] := by
  cases written : Nat.toDigits 10 n with
  | nil => exact absurd written Nat.toDigits_ne_nil
  | cons d ds =>
    have ascii : d.isDigit = true :=
      Nat.isDigit_of_mem_toDigits (by decide) (by decide) (written ▸ List.mem_cons_self)
    apply strip_eq_self
    · simpa using isBlank_of_isDigit ascii
    · simp only [List.getLast?_append, List.getLast?_singleton, Option.some_or,
        Option.mem_def, Option.some.injEq, forall_eq']
      decide

/-- A pulse reads back as the note value that it is. -/
theorem ofText_pulse {n : Nat} (h : 1 ≤ n) : ofText s!"{(n : Int)}n" = .ok ⟨n, .note⟩ := by
  obtain ⟨digits, number⟩ := decimalNumber_toDigits n
  have split := split?_append Nat.toDigits_ne_nil (List.all_eq_true.1 digits)
    (show unit? 'n' = some .note from rfl)
  simp only [ofText]
  rw [toList_pulse, strip_pulse, split, number]
  dsimp only
  rw [if_neg (by omega)]

end NoteValue

end ChordSequencer
