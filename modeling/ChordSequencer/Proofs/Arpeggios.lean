import ChordSequencer.PlayMode
import Mathlib.Algebra.Ring.Int.Parity
import Mathlib.Data.List.Palindrome

/-!
# The orders of arpeggios

An arpeggio plays the voices it is given and no others.  Most modes play each of them once; the two
round trips (`Direction.roundTrip`) go through all of them and back without repeating the voice at
which they turn.

* `Direction.roundTrip_arpeggio` : both round trips are one walk there and back.
* `PlayMode.mirrored_arpeggio` : to turn all directions round is to begin with the last voice.
* `PlayMode.split_arpeggio` : the two halves of a mode that parts the voices by parity.
* `PlayMode.arpeggio_orders` : all of it, for every mode and all voices.
-/

namespace ChordSequencer

namespace Direction

variable {d : Direction} {notes : List Int}

/-- The other direction. -/
def other : Direction → Direction
  | up => down
  | down => up

/-- One pitch comes before another in the direction. -/
def Leads : Direction → Int → Int → Prop
  | up, n, m => n < m
  | down, n, m => m < n

/-- The mode that goes through the voices in the direction and back again. -/
def roundTrip : Direction → PlayMode
  | up => .ascDesc
  | down => .descAsc

theorem run_perm (d : Direction) (notes : List Int) : (d.run notes).Perm notes := by
  cases d with
  | up => exact .refl notes
  | down => exact notes.reverse_perm

theorem run_other_reverse (d : Direction) (notes : List Int) :
    d.other.run notes.reverse = d.run notes := by
  cases d with
  | up => exact notes.reverse_reverse
  | down => rfl

theorem run_leads (ascending : notes.Pairwise (· < ·)) : (d.run notes).Pairwise d.Leads := by
  cases d with
  | up => exact ascending
  | down => exact List.pairwise_reverse.2 ascending

/-! ### There and back -/

theorem dropLast_append_reverse (l : List Int) : l.dropLast ++ l.reverse = l ++ l.reverse.tail := by
  rcases List.eq_nil_or_concat l with rfl | ⟨init, last, rfl⟩
  · rfl
  · simp

/-- **A round trip** goes through the voices in its direction and back, without the last one. -/
theorem roundTrip_arpeggio (d : Direction) (notes : List Int) :
    d.roundTrip.arpeggio notes = d.run notes ++ (d.run notes).reverse.tail := by
  cases d with
  | up =>
    calc PlayMode.ascDesc.arpeggio notes
        = notes.dropLast ++ notes.reverse := by simp [PlayMode.arpeggio, PlayMode.runs]
      _ = notes ++ notes.reverse.tail := dropLast_append_reverse notes
  | down => simp [roundTrip, run, PlayMode.arpeggio, PlayMode.runs]

theorem roundTrip_palindrome (d : Direction) (notes : List Int) :
    (d.roundTrip.arpeggio notes).Palindrome := by
  refine .of_reverse_eq ?_
  rw [roundTrip_arpeggio, List.reverse_append, List.tail_reverse, List.reverse_reverse,
    dropLast_append_reverse, List.tail_reverse]

theorem roundTrip_other_reverse (d : Direction) (notes : List Int) :
    d.other.roundTrip.arpeggio notes.reverse = d.roundTrip.arpeggio notes := by
  rw [roundTrip_arpeggio, roundTrip_arpeggio, run_other_reverse]

theorem length_roundTrip (d : Direction) (notes : List Int) :
    (d.roundTrip.arpeggio notes).length = 2 * notes.length - 1 := by
  rw [roundTrip_arpeggio, List.length_append, List.length_tail, List.length_reverse,
    (d.run_perm notes).length_eq]
  omega

end Direction

namespace Parity

variable {p : Parity} {n : Int}

/-- The pitches of a parity. -/
def Of : Parity → Int → Prop
  | even, n => Even n
  | odd, n => Odd n

theorem holds_iff : p.holds n = true ↔ p.Of n := by
  cases p with
  | even => simp [holds, Of, Int.even_iff]
  | odd => simp [holds, Of, Int.odd_iff]

theorem holds_other (p : Parity) (n : Int) : p.other.holds n = !p.holds n := by
  rcases Int.emod_two_eq_zero_or_one n with rest | rest <;> cases p <;> simp [holds, other, rest]

end Parity

namespace PlayMode

variable {mode : PlayMode} {notes : List Int}

/-- The mode with all directions turned round and the same parity first. -/
def mirrored : PlayMode → PlayMode
  | chord => .chord
  | ascending => .descending
  | descending => .ascending
  | ascDesc => .descAsc
  | descAsc => .ascDesc
  | split p d e => .split p d.other e.other

theorem split_arpeggio (p : Parity) (d e : Direction) (notes : List Int) :
    (split p d e).arpeggio notes =
      d.run (notes.filter p.holds) ++ e.run (notes.filter p.other.holds) := by
  simp only [arpeggio, runs, List.flatten_cons, List.flatten_nil, List.append_nil]

/-- **Parting the voices loses none**: every pitch has one of the two parities. -/
theorem split_perm (p : Parity) (d e : Direction) (notes : List Int) :
    ((split p d e).arpeggio notes).Perm notes := by
  have others : notes.filter p.other.holds = notes.filter fun n => !p.holds n :=
    List.filter_congr fun n _ => p.holds_other n
  rw [split_arpeggio, others]
  exact ((d.run_perm _).append (e.run_perm _)).trans (List.filter_append_perm p.holds notes)

theorem arpeggio_perm (melodic : mode ≠ .chord) (once : ∀ d : Direction, mode ≠ d.roundTrip) :
    (mode.arpeggio notes).Perm notes := by
  cases mode with
  | chord => exact absurd rfl melodic
  | ascending => simp [arpeggio, runs]
  | descending => simp [arpeggio, runs, notes.reverse_perm]
  | ascDesc => exact absurd rfl (once .up)
  | descAsc => exact absurd rfl (once .down)
  | split p d e => exact split_perm p d e notes

/-- **To turn all directions round is to begin with the last voice.** -/
theorem mirrored_arpeggio (mode : PlayMode) (notes : List Int) :
    mode.mirrored.arpeggio notes.reverse = mode.arpeggio notes := by
  cases mode with
  | chord => rfl
  | ascending => simp [mirrored, arpeggio, runs]
  | descending => simp [mirrored, arpeggio, runs]
  | ascDesc => exact Direction.roundTrip_other_reverse .up notes
  | descAsc => exact Direction.roundTrip_other_reverse .down notes
  | split p d e =>
    rw [mirrored, split_arpeggio, split_arpeggio, List.filter_reverse, List.filter_reverse,
      d.run_other_reverse, e.run_other_reverse]

/-- **The orders of arpeggios lose no voice and invent none.**  All modes but the chord and the two
round trips play each voice that they are given once.  A round trip reads the same in both
directions; it begins with all the voices in its direction, and all but the one at which it turns
come twice.  Any mode with its directions turned round plays the voices, last one first, in the same
order as the mode itself plays them.  If the pitches rise, a mode that parts them by parity plays
all those of the parity that it names first and then all the others, and each half rises or falls as
it says. -/
theorem arpeggio_orders (notes : List Int) :
    (∀ mode ≠ chord, (∀ d : Direction, mode ≠ d.roundTrip) → (mode.arpeggio notes).Perm notes) ∧
    (∀ d : Direction, let trip := d.roundTrip.arpeggio notes
      trip.Palindrome ∧ trip.length = 2 * notes.length - 1 ∧ (trip = [] ↔ notes = []) ∧
      d.run notes <+: trip) ∧
    (∀ mode : PlayMode, mode.mirrored.arpeggio notes.reverse = mode.arpeggio notes) ∧
    (notes.Pairwise (· < ·) → ∀ p d e, ∃ first second,
      (split p d e).runs notes = [first, second] ∧
      (split p d e).arpeggio notes = first ++ second ∧
      (∀ n, n ∈ first ↔ n ∈ notes ∧ p.Of n) ∧ (∀ n, n ∈ second ↔ n ∈ notes ∧ p.other.Of n) ∧
      first.Pairwise d.Leads ∧ second.Pairwise e.Leads) := by
  refine ⟨fun mode => arpeggio_perm, fun d => ⟨d.roundTrip_palindrome notes,
    d.length_roundTrip notes, ?_, ?_⟩, fun mode => mirrored_arpeggio mode notes,
    fun ascending p d e => ?_⟩
  · have length := d.length_roundTrip notes
    rw [← List.length_eq_zero_iff, ← List.length_eq_zero_iff]
    omega
  · rw [Direction.roundTrip_arpeggio]
    exact List.prefix_append _ _
  · have half (q : Parity) (f : Direction) (n : Int) :
        n ∈ f.run (notes.filter q.holds) ↔ n ∈ notes ∧ q.Of n := by
      rw [Direction.mem_run, List.mem_filter, Parity.holds_iff]
    exact ⟨_, _, rfl, split_arpeggio p d e notes, half p d, half p.other e,
      Direction.run_leads (ascending.filter _), Direction.run_leads (ascending.filter _)⟩

/-- Pitches on both sides of zero, the odd ones first and downwards. -/
theorem arpeggio_orders_across_zero :
    let mode := split .odd .down .up
    (mode.arpeggio [-3, -2, 1, 4]).Perm [-3, -2, 1, 4] ∧
    ∃ first second, mode.arpeggio [-3, -2, 1, 4] = first ++ second ∧
      (∀ n, n ∈ first ↔ n ∈ [-3, -2, 1, 4] ∧ Odd n) ∧ first.Pairwise (fun n m => m < n) := by
  intro mode
  obtain ⟨once, -, -, parted⟩ := arpeggio_orders [-3, -2, 1, 4]
  obtain ⟨first, second, -, order, odd, -, falls, -⟩ := parted (by decide) .odd .down .up
  exact ⟨once mode (by decide) (fun d => by cases d <;> decide), first, second, order, odd, falls⟩

end PlayMode

end ChordSequencer
