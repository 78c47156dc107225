import ChordSequencer.Proofs.Integers
import Mathlib.Data.List.Induction

/-!
# Numerals

Decimal digits of any script are a number in base 10.  A number that is written in a base up to 16,
with small or capital letters for its digits, is read back in this base.

* `Text.Numeral.read?_of_isDigits` : digits of any script.
* `Text.Numeral.digits_of_toDigits` : a natural number and its digits in a base.
* `Text.Numeral.read?_of_written` : any integer as it is written in a base.
-/

namespace ChordSequencer.Text.Numeral

open Notation

variable {base : Nat} {s : List Char} {c : Char}

theorem Digits.signed {n : Nat} (known : base ≠ 0) (digits : Digits base s n) :
    Signed base s n ∧ Signed base ('-' :: s) (-(n : Int)) := by
  have given : baseOf base s = base := if_neg known
  have number : Unsigned (baseOf base s) s n := given.symm ▸ .plain digits
  exact ⟨.bare number, .minus number⟩

/-! ### Decimal digits of any script -/

theorem digitIn?_of_isDigit (h : isDigit c = true) : ∃ d, digitIn? 10 c = some d := by
  obtain ⟨d, hd⟩ := Option.isSome_iff_exists.1 h
  obtain ⟨-, -, value⟩ := isDigit_class h
  refine ⟨d, ?_⟩
  rw [digitIn?, value, hd, Option.filter_some, if_pos (by simpa using decimalDigit?_lt hd)]

theorem exists_digits (h : IsDigits s) : ∃ n, Digits 10 s n := by
  obtain ⟨filled, digits⟩ := h
  induction s using List.reverseRecOn with
  | nil => exact absurd rfl filled
  | append_singleton front c ih =>
    obtain ⟨digits, digit⟩ := List.forall_mem_append.1 digits
    obtain ⟨d, hd⟩ := digitIn?_of_isDigit (digit c (List.mem_singleton_self c))
    by_cases first : front = []
    · subst first
      exact ⟨d, .first hd⟩
    · obtain ⟨n, before⟩ := ih first digits
      exact ⟨n * 10 + d, before.next hd⟩

/-- Digits are a number, and so are digits after a minus sign. -/
theorem read?_of_isDigits (h : IsDigits s) :
    (∃ n, read? 10 s = some n) ∧ ∃ n, read? 10 ('-' :: s) = some n := by
  obtain ⟨n, digits⟩ := exists_digits h
  obtain ⟨bare, minus⟩ := digits.signed (by decide)
  exact ⟨⟨_, (bare.read?_eq (by decide)).1⟩, ⟨_, (minus.read?_eq (by decide)).1⟩⟩

/-! ### The digits of a number -/

/-- A number as it is written in a base. -/
def written (base : Nat) (n : Int) : List Char :=
  if n < 0 then '-' :: Nat.toDigits base n.natAbs else Nat.toDigits base n.natAbs

/-- Up to base 10 no letters are written, so that there are none to be capital or small. -/
theorem lower_written (base : Nat) (low : 0 < base) (high : base ≤ 10) (n : Int) :
    (written base n).map Char.toLower = written base n := by
  have kept : ∀ c ∈ Nat.toDigits base n.natAbs, c.toLower = c := by
    intro c mem
    have digit := Nat.isDigit_of_mem_toDigits low high mem
    simp only [Char.isDigit, Bool.and_eq_true, decide_eq_true_eq] at digit
    rcases toLower_cases c with capital | kept
    · exact absurd (UInt32.le_trans capital.1 digit.2) (by decide)
    · exact kept
  have digits : (Nat.toDigits base n.natAbs).map Char.toLower = Nat.toDigits base n.natAbs :=
    (List.map_congr_left kept).trans (List.map_id' _)
  rw [written]
  split
  · rw [List.map_cons, digits]
    rfl
  · exact digits

/-- A digit of a base, written with a small or a capital letter if it is one. -/
def Shows (base : Nat) (c : Char) (d : Nat) : Prop := d < base ∧ c.toLower = d.digitChar

theorem eq_minus_of_toLower (h : c.toLower = '-') : c = '-' := by
  refine forall_ascii (p := fun c => c.toLower = '-' → c = '-') (by decide +kernel)
    (ascii_of_toLower ?_) h
  rw [h]
  decide

theorem Shows.digitIn?_eq {d : Nat} (h : Shows base c d) (high : base ≤ 16) :
    digitIn? base c = some d := by
  obtain ⟨less, shown⟩ := h
  have small : d < 16 := Nat.lt_of_lt_of_le less high
  have ascii : c.toNat < 128 := by
    have digits : ∀ d < 16, d.digitChar.toNat < 128 := by decide
    exact ascii_of_toLower (shown ▸ digits d small)
  have value := forall_ascii (p := fun c => ∀ d < 16, c.toLower = d.digitChar →
    digitValue? c = some d) (by decide +kernel) ascii d small shown
  rw [digitIn?, value, Option.filter_some, if_pos (by simpa using less)]

/-- **A natural number is what its digits write**, whatever the case of their letters. -/
theorem digits_of_toDigits (low : 2 ≤ base) (high : base ≤ 16) (n : Nat) :
    ∀ {s : List Char}, s.map Char.toLower = Nat.toDigits base n → Digits base s n := by
  -- the last digit is what is left after the digits of the quotient
  have last {c : Char} {m : Nat} (shown : c.toLower = (m % base).digitChar) :
      digitIn? base c = some (m % base) :=
    Shows.digitIn?_eq ⟨Nat.mod_lt m (by omega), shown⟩ high
  induction n using Nat.strongRecOn with
  | ind n ih =>
    intro s spelled
    by_cases small : n < base
    · rw [Nat.toDigits_of_lt_base small] at spelled
      obtain ⟨c, rfl, shown⟩ := List.map_eq_singleton_iff.1 spelled
      rw [← Nat.mod_eq_of_lt small] at shown ⊢
      exact .first (last shown)
    · have large : base ≤ n := Nat.not_lt.1 small
      rw [Nat.toDigits_of_base_le low large] at spelled
      obtain ⟨front, back, rfl, quotient, remainder⟩ := List.map_eq_append_iff.1 spelled
      obtain ⟨c, rfl, shown⟩ := List.map_eq_singleton_iff.1 remainder
      have before := ih (n / base) (Nat.div_lt_self (by omega) low) quotient
      have whole := before.next (last shown)
      rwa [Nat.div_add_mod'] at whole

/-- **A number is read as it is written** in a base, with small or capital letters, and there are no
blanks to be stripped off. -/
theorem read?_of_written (low : 2 ≤ base) (high : base ≤ 16) {n : Int}
    (spelled : s.map Char.toLower = written base n) :
    read? base s = some n ∧ strip s = s := by
  have possible : isBase base = true := by
    have small : base ≤ 36 := high.trans (by decide)
    simp [isBase, low, small]
  have signed {s : List Char} (spelled : s.map Char.toLower = Nat.toDigits base n.natAbs) :=
    (digits_of_toDigits low high n.natAbs spelled).signed (by omega)
  rw [written] at spelled
  split at spelled
  · rename_i negative
    obtain ⟨c, r, rfl, sign, digits⟩ := List.map_eq_cons_iff.1 spelled
    cases eq_minus_of_toLower sign
    have number := (signed digits).2
    rw [Int.ofNat_natAbs_of_nonpos (Int.le_of_lt negative), Int.neg_neg] at number
    exact number.read?_eq possible
  · rename_i natural
    have number := (signed spelled).1
    rw [Int.natAbs_of_nonneg (Int.not_lt.1 natural)] at number
    exact number.read?_eq possible

end ChordSequencer.Text.Numeral
