import ChordSequencer.Proofs.Lexemes
import Mathlib.Data.List.Pairwise

/-!
# The layout of a text

The lexemes of a text lie side by side: each was scanned where it stands (`Lexeme.exists_scan`) and
is a piece of the text (`Lexeme.exists_slice`), it ends where the next one begins
(`Lexeme.ofText_tiles`), and every character belongs to one of them (`Lexeme.exists_covers`).  So
the faults of stray characters are told by their places alone: there is one at each character that
neither a token nor a run of blanks covers (`mem_strayFaults_iff`).
-/

namespace ChordSequencer.Notation

open Text

namespace Lexeme

variable {position p n : Nat} {text r : List Char} {c : Char} {l : Lexeme}

/-- A character of the text, told by its place, belongs to a lexeme. -/
def Covers (l : Lexeme) (p : Nat) : Prop := l.position ≤ p ∧ p < l.position + l.text.length

/-- A lexeme was scanned where it stands. -/
theorem exists_scan (h : l ∈ ofText position text) : ∃ k c r n, l.position = position + k ∧
    text.drop k = c :: r ∧ scan c r = (l.kind, n) ∧ l.text = c :: r.take n := by
  induction position, text using ofText.induct with
  | case1 position => simp [ofText] at h
  | case2 position c r kind n scanned ih =>
    rw [ofText] at h
    simp only [scanned] at h
    rcases List.mem_cons.1 h with rfl | later
    · exact ⟨0, c, r, n, rfl, rfl, scanned, rfl⟩
    · obtain ⟨k, c', r', n', place, rest, scanned', taken⟩ := ih later
      refine ⟨1 + n + k, c', r', n', by omega, ?_, scanned', taken⟩
      rw [← rest, List.drop_drop, show 1 + n + k = n + k + 1 by omega, List.drop_succ_cons]

/-- A lexeme is a piece of the text and stands where it was taken from. -/
theorem exists_slice (h : l ∈ ofText position text) : l.text ≠ [] ∧
    ∃ before after, text = before ++ l.text ++ after ∧ l.position = position + before.length := by
  obtain ⟨k, c, r, n, place, rest, -, taken⟩ := exists_scan h
  have inside : k < text.length := by
    by_contra beyond
    rw [List.drop_eq_nil_of_le (by omega)] at rest
    cases rest
  refine ⟨taken ▸ List.cons_ne_nil _ _, text.take k, r.drop n, ?_, ?_⟩
  · rw [taken, List.append_assoc, List.cons_append, List.take_append_drop, ← rest,
      List.take_append_drop]
  · rw [place, List.length_take_of_le (Nat.le_of_lt inside)]

/-- **Lexemes do not overlap.** -/
theorem ofText_tiles (position : Nat) (text : List Char) :
    (ofText position text).Pairwise fun l m => l.position + l.text.length ≤ m.position := by
  induction position, text using ofText.induct with
  | case1 position => simp [ofText]
  | case2 position c r kind n scanned ih =>
    rw [ofText]
    simp only [scanned]
    refine List.Pairwise.cons (fun m later => ?_) ih
    obtain ⟨-, before, after, -, place⟩ := exists_slice later
    have short : (r.take n).length ≤ n := List.length_take_le n r
    simp only [List.length_cons]
    omega

/-- **Lexemes leave nothing out.** -/
theorem exists_covers (position : Nat) {text : List Char} {k : Nat} (inside : k < text.length) :
    ∃ l ∈ ofText position text, l.Covers (position + k) := by
  induction position, text using ofText.induct generalizing k with
  | case1 position => simp at inside
  | case2 position c r kind n scanned ih =>
    rw [ofText]
    simp only [scanned]
    rw [List.length_cons] at inside
    by_cases here : k < 1 + n
    · refine ⟨_, List.mem_cons_self, Nat.le_add_right _ _, ?_⟩
      simp only [List.length_cons, List.length_take]
      omega
    · obtain ⟨l, later, covers⟩ := ih (k := k - (1 + n)) (by rw [List.length_drop]; omega)
      refine ⟨l, List.mem_cons_of_mem _ later, ?_⟩
      rwa [show position + k = position + 1 + n + (k - (1 + n)) by omega]

theorem ofText_ascends (position : Nat) (text : List Char) :
    (ofText position text).Pairwise (·.position < ·.position) := by
  refine (ofText_tiles position text).imp_of_mem fun hl _ tiles => ?_
  have filled := List.length_pos_iff.2 (exists_slice hl).1
  omega

theorem eq_of_covers {m : Lexeme} (hl : l ∈ ofText position text) (hm : m ∈ ofText position text)
    (covers : l.Covers p) (shares : m.Covers p) : l = m := by
  have apart {l m : Lexeme} (tiles : l.position + l.text.length ≤ m.position) :
      ¬ (l.Covers p ∧ m.Covers p) := by
    rintro ⟨⟨-, below⟩, ⟨above, -⟩⟩
    omega
  have tiles := ofText_tiles position text
  exact List.Pairwise.forall_of_forall_of_flip (R := fun l m => l.Covers p → m.Covers p → l = m)
    (fun _ _ _ _ => rfl) (tiles.imp fun t covers shares => absurd ⟨covers, shares⟩ (apart t))
    (tiles.imp fun t shares covers => absurd ⟨covers, shares⟩ (apart t)) hl hm covers shares

theorem exists_char (h : l ∈ ofText position text) (stray : l.kind = .stray) :
    ∃ c, l.text = [c] := by
  obtain ⟨k, c, r, n, -, -, scanned, taken⟩ := exists_scan h
  rw [stray] at scanned
  exact ⟨c, by rw [taken, (scan_stray scanned).1, List.take_zero]⟩

theorem stray?_eq_some_iff (h : l ∈ ofText position text) {f : Cause × Nat} :
    l.stray? = some f ↔ l.kind = .stray ∧ ∃ c, l.text = [c] ∧ f = (.strayChar c, l.position) := by
  simp only [stray?]
  constructor
  · intro found
    split at found
    · rename_i stray begins
      obtain ⟨c, alone⟩ := exists_char h stray
      rw [begins] at alone
      cases alone
      cases found
      exact ⟨stray, _, begins, rfl⟩
    · cases found
  · rintro ⟨stray, c, alone, rfl⟩
    simp only [stray, alone]

theorem token?_eq_some_iff {t : Token} :
    l.token? = some t ↔ l = ⟨.token t.kind, t.text, t.position⟩ := by
  obtain ⟨kind, text, position⟩ := l
  obtain ⟨kind', text', position'⟩ := t
  cases kind <;> simp [token?]

end Lexeme

open Lexeme

variable {text : List Char}

/-! ### Tokens -/

theorem mem_tokens_iff {t : Token} :
    t ∈ tokens text ↔ ⟨.token t.kind, t.text, t.position⟩ ∈ ofText 0 text := by
  simp only [tokens, List.mem_filterMap, token?_eq_some_iff, exists_eq_right]

theorem tokens_ascend (text : List Char) : (tokens text).Pairwise (·.position < ·.position) := by
  refine (ofText_ascends 0 text).filterMap _ fun l m before t ht u hu => ?_
  rw [token?_eq_some_iff.1 ht, token?_eq_some_iff.1 hu] at before
  exact before

theorem position_lt {t : Token} (h : t ∈ tokens text) : t.position < text.length := by
  obtain ⟨filled, before, after, whole, place⟩ := exists_slice (mem_tokens_iff.1 h)
  have some_char := List.length_pos_iff.2 filled
  have length := congrArg List.length whole
  simp only [List.length_append] at length
  simp only at place some_char
  omega

/-! ### Stray characters -/

theorem strayFaults_ascend (text : List Char) : (strayFaults text).Pairwise (·.2 < ·.2) := by
  refine List.pairwise_filterMap.2
    ((ofText_ascends 0 text).imp_of_mem fun hl hm before f hf g hg => ?_)
  obtain ⟨-, _, -, rfl⟩ := (stray?_eq_some_iff hl).1 hf
  obtain ⟨-, _, -, rfl⟩ := (stray?_eq_some_iff hm).1 hg
  exact before

theorem exists_stray {f : Cause × Nat} (h : f ∈ strayFaults text) :
    ∃ c, f.1 = .strayChar c ∧ ⟨.stray, [c], f.2⟩ ∈ ofText 0 text := by
  obtain ⟨⟨kind, piece, place⟩, mem, found⟩ := List.mem_filterMap.1 h
  obtain ⟨stray, c, alone, rfl⟩ := (stray?_eq_some_iff mem).1 found
  simp only at stray alone
  subst stray alone
  exact ⟨c, rfl, mem⟩

/-- **Where the stray characters are**: at the places that neither a token nor a run of blanks
covers. -/
theorem mem_strayFaults_iff {cause : Cause} {p : Nat} : (cause, p) ∈ strayFaults text ↔
    ∃ c, cause = .strayChar c ∧ text[p]? = some c ∧
      ∀ l ∈ ofText 0 text, l.kind ≠ .stray → ¬ l.Covers p := by
  constructor
  · intro h
    obtain ⟨c, rfl, mem⟩ := exists_stray h
    refine ⟨c, rfl, ?_, fun l hl other covers => ?_⟩
    · obtain ⟨-, before, after, rfl, place⟩ := exists_slice mem
      simp only [Nat.zero_add] at place
      rw [place, List.append_assoc, List.getElem?_append_right (Nat.le_refl _), Nat.sub_self]
      rfl
    · have here : (⟨.stray, [c], p⟩ : Lexeme).Covers p := ⟨Nat.le_refl _, Nat.lt_succ_self _⟩
      rw [eq_of_covers hl mem covers here] at other
      exact other rfl
  · rintro ⟨c, rfl, char, uncovered⟩
    obtain ⟨inside, rfl⟩ := List.getElem?_eq_some_iff.1 char
    obtain ⟨l, mem, covers⟩ := exists_covers 0 inside
    rw [Nat.zero_add] at covers
    have stray : l.kind = .stray := by
      by_contra other
      exact uncovered l mem other covers
    obtain ⟨c, alone⟩ := exists_char mem stray
    obtain ⟨above, below⟩ := covers
    rw [alone, List.length_singleton] at below
    have place : l.position = p := by omega
    refine List.mem_filterMap.2 ⟨l, mem, (stray?_eq_some_iff mem).2 ⟨stray, c, alone, ?_⟩⟩
    obtain ⟨-, before, after, whole, start⟩ := exists_slice mem
    rw [alone] at whole
    subst whole
    rw [Nat.zero_add, place] at start
    subst start
    simp [place]

theorem position_ne_stray {t : Token} {f : Cause × Nat} (ht : t ∈ tokens text)
    (hf : f ∈ strayFaults text) : t.position ≠ f.2 := by
  intro same
  obtain ⟨-, -, -, uncovered⟩ := mem_strayFaults_iff.1 hf
  have mem := mem_tokens_iff.1 ht
  have filled := List.length_pos_iff.2 (exists_slice mem).1
  refine uncovered _ mem LexemeKind.noConfusion ⟨Nat.le_of_eq same, ?_⟩
  simp only at filled ⊢
  omega

end ChordSequencer.Notation
