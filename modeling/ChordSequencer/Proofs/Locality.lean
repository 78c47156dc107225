import ChordSequencer.Proofs.CompactForm
import Mathlib.Data.List.Pairwise

/-!
# Faults of the compact form are local

Each word of a compact text is read on its own.  So a word that is no block has exactly one fault,
which lies in the word and depends on nothing else (`CompactBlock.fault?`), the faults stand in the
order of the words, and without the faulty words the others are read as the blocks that they are
(`compact_faults_local`).

* `Text.chunks_apart` : between two words there is a blank.
* `Text.words_keepWords` : deleting words leaves the others.
* `CompactBlock.fault?_le` : a fault lies in its word, by the five ways in which reading one fails.
-/

namespace ChordSequencer

/-! ### Words and their places -/

namespace Text

variable {pos p : Nat} {s w : List Char}

theorem exists_chunk (h : (p, w) ∈ chunksFrom pos s) :
    ∃ before after, s = before ++ w ++ after ∧ p = pos + before.length := by
  induction pos, s using chunksFrom.induct with
  | case1 pos => simp [chunksFrom] at h
  | case2 pos c r blank ih =>
    rw [chunksFrom, if_pos blank] at h
    obtain ⟨before, after, rfl, place⟩ := ih h
    exact ⟨c :: before, after, rfl, by rw [place, List.length_cons]; omega⟩
  | case3 pos c r blank word ih =>
    rw [chunksFrom, if_neg blank] at h
    rcases List.mem_cons.1 h with first | later
    · obtain ⟨rfl, rfl⟩ := Prod.mk.inj first
      exact ⟨[], r.dropWhile (!isBlank ·), by simp, rfl⟩
    · obtain ⟨before, after, rest, place⟩ := ih later
      refine ⟨word ++ before, after, ?_, by rw [place, List.length_append]; omega⟩
      rw [List.append_assoc, List.append_assoc, ← List.append_assoc before, ← rest,
        List.cons_append, List.takeWhile_append_dropWhile]

theorem lt_of_blank (blank : ∀ c ∈ s.head?, isBlank c = true) (h : (p, w) ∈ chunksFrom pos s) :
    pos < p := by
  cases s with
  | nil => simp [chunksFrom] at h
  | cons c r =>
    rw [chunksFrom, if_pos (blank c rfl)] at h
    obtain ⟨before, -, -, place⟩ := exists_chunk h
    omega

theorem dropWhile_visible_head (r : List Char) :
    ∀ c ∈ (r.dropWhile (!isBlank ·)).head?, isBlank c = true := by
  intro c hc
  have stop := List.head?_dropWhile_not (!isBlank ·) r
  rw [Option.mem_def.1 hc] at stop
  simpa using stop

theorem chunksFrom_apart (pos : Nat) (s : List Char) :
    (chunksFrom pos s).Pairwise fun a b => a.1 + a.2.length < b.1 := by
  induction pos, s using chunksFrom.induct with
  | case1 pos => simp [chunksFrom]
  | case2 pos c r blank ih => rwa [chunksFrom, if_pos blank]
  | case3 pos c r blank word ih =>
    rw [chunksFrom, if_neg blank]
    exact .cons (fun _ later => lt_of_blank (dropWhile_visible_head r) later) ih

/-- **Between two words there is a blank.** -/
theorem chunks_apart (s : List Char) :
    (chunks s).Pairwise fun a b => a.1 + a.2.length < b.1 := chunksFrom_apart 0 s

theorem words_eq_nil_iff : words s = [] ↔ ∀ c ∈ s, isBlank c = true := by
  rw [words, List.map_eq_nil_iff, chunks_eq_nil_iff, List.all_eq_true]

/-- The text without the words of which `p` does not hold; all blanks stay. -/
def keepWords (p : List Char → Bool) (s : List Char) : List Char :=
  match s with
  | [] => []
  | c :: r =>
    if isBlank c then c :: keepWords p r
    else
      let word := c :: r.takeWhile (!isBlank ·)
      (if p word then word else []) ++ keepWords p (r.dropWhile (!isBlank ·))
termination_by s.length
decreasing_by
  · simp
  · have := (List.dropWhile_sublist (l := r) (!isBlank ·)).length_le
    simp only [List.length_cons]
    omega

/-- **Deleting words leaves the others.** -/
theorem words_keepWords (p : List Char → Bool) (s : List Char) :
    words (keepWords p s) = (words s).filter p := by
  fun_induction keepWords p s with
  | case1 => rw [words_nil, List.filter_nil]
  | case2 c r blank ih => rw [words_blank blank, words_blank blank, ih]
  | case3 c r visible word ih =>
    have visible : isBlank c = false := by simpa using visible
    have alone : words word = [word] := by
      rw [words, chunks_visible (by simp [visible])]
      rfl
    rw [words_cons visible, List.filter_cons]
    split
    · rw [← ih]
      -- the word stays a word, since what follows it begins with a blank
      have ends := dropWhile_visible_head r
      cases rest : r.dropWhile (!isBlank ·) with
      | nil => rw [keepWords, List.append_nil, words_nil, alone]
      | cons b t =>
        rw [rest] at ends
        have blank : isBlank b = true := ends b rfl
        rw [keepWords, if_pos blank, words_append_blank blank, words_blank blank, alone]
        rfl
    · rw [List.nil_append, ih]

end Text

namespace Notation

open Text

/-! ### The fault of a word -/

namespace CompactBlock

/-- The fault of a word, if it is no block: what is wrong, and the number of characters of the word
before it. -/
def fault? (chunk : List Char) : Option (Cause × Nat) :=
  match read chunk with
  | .ok _ => none
  | .error fault => some fault

variable {chunk : List Char}

/-- **A word has a fault exactly if it has not the form of a block.** -/
theorem fault?_eq_none_iff : fault? chunk = none ↔ IsChunk chunk := by
  constructor
  · intro none
    cases h : read chunk with
    | ok b => exact (read_ok h).1
    | error fault => simp [fault?, h] at none
  · intro form
    obtain ⟨b, h⟩ := exists_read form
    simp only [fault?, h]

theorem readCommands_error {cause : Cause} {k : Nat} {pieces : List (List Char)} :
    ∀ {offset : Nat}, readCommands offset pieces = .error (cause, k) →
      pieces ≠ [] ∧ k ≤ offset + ([','].intercalate pieces).length := by
  induction pieces with
  | nil =>
    intro offset h
    cases h
  | cons piece pieces ih =>
    intro offset h
    refine ⟨List.cons_ne_nil _ _, ?_⟩
    simp only [readCommands] at h
    split at h
    · cases h
      omega
    · cases later : readCommands (offset + piece.length + 1) pieces with
      | ok commands =>
        rw [later] at h
        cases h
      | error fault =>
        rw [later] at h
        cases h
        obtain ⟨filled, bound⟩ := ih later
        obtain ⟨next, rest, rfl⟩ := List.exists_cons_of_ne_nil filled
        rw [List.intercalate_cons_cons, List.length_append, List.length_append,
          List.length_singleton]
        omega

/-- The commands after the first one are those of the text before the colon. -/
theorem readCommands_cutAt {cause : Cause} {k : Nat} {head : List Char}
    (h : readCommands ((cutAt ',' head).1.length + 1) (cutAt ',' head).2 = .error (cause, k)) :
    k ≤ head.length := by
  obtain ⟨filled, bound⟩ := readCommands_error h
  obtain ⟨next, rest, others⟩ := List.exists_cons_of_ne_nil filled
  have whole : ([','].intercalate (head.splitOn ',')).length = head.length := by
    rw [List.intercalate_splitOn]
  rw [← cutAt_eq, others, List.intercalate_cons_cons, List.length_append, List.length_append,
    List.length_singleton, ← others] at whole
  omega

/-- **A fault lies in its word**, or right after it. -/
theorem fault?_le {fault : Cause × Nat} (h : fault? chunk = some fault) :
    fault.2 ≤ chunk.length := by
  have whole := congrArg List.length (List.takeWhile_append_dropWhile (p := (· ≠ ':')) (l := chunk))
  simp only [fault?] at h
  split at h
  · cases h
  · rename_i error
    cases h
    simp only [read] at error
    split at error
    · -- the colon is missing at the end of the word
      cases error
      exact Nat.le_refl _
    · rename_i colon content after
      rw [after, List.length_append, List.length_cons] at whole
      split at error
      · cases error
        exact Nat.zero_le _
      · split at error
        · cases error
          dsimp only
          omega
        · split at error
          · -- a character of the content, counted from the end of the word
            cases error
            exact Nat.sub_le _ _
          · split at error
            · cases error
              exact Nat.zero_le _
            · rename_i command _
              cases later : readCommands ((cutAt ',' (chunk.takeWhile (· ≠ ':'))).1.length + 1)
                  (cutAt ',' (chunk.takeWhile (· ≠ ':'))).2 with
              | ok commands =>
                rw [later] at error
                cases error
              | error fault =>
                rw [later] at error
                cases error
                have inside := readCommands_cutAt later
                omega

end CompactBlock

/-! ### Texts -/

variable {text : List Char}

theorem compactFaults_eq (text : List Char) :
    compactFaults text = (chunks text).filterMap fun (p, w) =>
      (CompactBlock.fault? w).map fun (cause, offset) => ⟨cause, p + offset, text⟩ := by
  refine List.filterMap_congr fun chunk _ => ?_
  obtain ⟨p, w⟩ := chunk
  simp only [readChunk, CompactBlock.fault?]
  cases CompactBlock.read w with
  | ok b => rfl
  | error fault => simp

theorem readCompact_faults (filled : words text ≠ []) :
    (readCompact text).faults = compactFaults text := by
  cases found : compactFaults text with
  | nil =>
    obtain ⟨head, tail, read, -⟩ :=
      readCompact_success filled ((compactFaults_eq_nil_iff text).1 found)
    rw [read]
    rfl
  | cons f fs =>
    simp only [readCompact, found]
    rfl

theorem compactFaults_ascend (text : List Char) :
    (compactFaults text).Pairwise (·.position < ·.position) := by
  rw [compactFaults_eq]
  refine (chunks_apart text).filterMap _ fun a b apart f hf g hg => ?_
  obtain ⟨⟨cause, offset⟩, here, rfl⟩ := Option.map_eq_some_iff.1 hf
  obtain ⟨⟨cause', offset'⟩, there, rfl⟩ := Option.map_eq_some_iff.1 hg
  have inside := CompactBlock.fault?_le here
  dsimp only at inside ⊢
  omega

/-- **Faults of the compact form are local.**  A text that is not blank has exactly one fault for
each word that has not the form of a block, in the order of the words.  What is wrong, and how many
characters of the word stand before it, depends on the word alone; the place lies in the word or at
its end, so that the places ascend.  If the faulty words are deleted and a word is left, the text is
read as the blocks that the other words are, in their order. -/
theorem compact_faults_local (filled : ∃ c ∈ text, isBlank c = false) :
    (readCompact text).faults = (chunks text).filterMap (fun (p, w) =>
      (CompactBlock.fault? w).map fun (cause, offset) => ⟨cause, p + offset, text⟩) ∧
    (∀ w, CompactBlock.fault? w = none ↔ CompactBlock.IsChunk w) ∧
    (∀ p w, (p, w) ∈ chunks text →
      (∃ before after, text = before ++ w ++ after ∧ before.length = p) ∧
      ∀ fault, CompactBlock.fault? w = some fault → fault.2 ≤ w.length) ∧
    (readCompact text).faults.Pairwise (·.position < ·.position) ∧
    ((∃ w ∈ words text, CompactBlock.IsChunk w) →
      ∃ head tail, readCompact (keepWords (CompactBlock.fault? · |>.isNone) text) =
          .success (.compact head tail) ∧
        List.Forall₂ (fun w b => CompactBlock.read w = .ok b)
          ((words text).filter (CompactBlock.fault? · |>.isNone)) (head :: tail)) := by
  have some_word : words text ≠ [] := by
    obtain ⟨c, mem, visible⟩ := filled
    intro none
    rw [words_eq_nil_iff.1 none c mem] at visible
    cases visible
  have faults := readCompact_faults some_word
  refine ⟨faults.trans (compactFaults_eq text), fun w => CompactBlock.fault?_eq_none_iff,
    fun p w mem => ⟨?_, fun fault => CompactBlock.fault?_le⟩, ?_, ?_⟩
  · obtain ⟨before, after, pieces, place⟩ := exists_chunk mem
    exact ⟨before, after, pieces, by omega⟩
  · rw [faults]
    exact compactFaults_ascend text
  · rintro ⟨w, mem, form⟩
    rw [← words_keepWords]
    refine readCompact_success ?_ fun v hv => ?_ <;> rw [words_keepWords] at *
    · exact List.ne_nil_of_mem (List.mem_filter.2
        ⟨mem, by rw [CompactBlock.fault?_eq_none_iff.2 form]; rfl⟩)
    · exact CompactBlock.fault?_eq_none_iff.1 (Option.isNone_iff_eq_none.1 (List.mem_filter.1 hv).2)

/-- A word without a colon and a word with a stray character, between two blocks. -/
def twoFaultyWords : List Char := "W0:1 x\tO3:1$ K1,M2:7".toList

theorem compact_faults_local_two : (∃ c ∈ twoFaultyWords, isBlank c = false) ∧
    (readCompact twoFaultyWords).faults =
      [⟨.missingColon "x", 6, twoFaultyWords⟩, ⟨.contentChar '$', 11, twoFaultyWords⟩] ∧
    ∃ head tail, readCompact (keepWords (CompactBlock.fault? · |>.isNone) twoFaultyWords) =
      .success (.compact head tail) := by
  have filled : ∃ c ∈ twoFaultyWords, isBlank c = false := ⟨'W', by decide, by decide⟩
  obtain ⟨faults, forms, -, -, others⟩ := compact_faults_local filled
  have word : ['W', '0', ':', '1'] ∈ words twoFaultyWords := by decide +kernel
  obtain ⟨head, tail, read, -⟩ := others ⟨_, word, (forms _).1 (by decide +kernel)⟩
  exact ⟨filled, faults.trans (by decide +kernel), head, tail, read⟩

end Notation

end ChordSequencer
