import ChordSequencer.Text.Blank
import Mathlib.Data.List.TakeWhile

/-!
# Words of longer texts

The words of a text that is put together with blanks are those of its parts (`words_append_blank`,
`words_intercalate`), and a text without blanks is one word (`chunks_visible`).  More generally, a
run of characters of one sort ends where the next character is of another (`takeWhile_append_stop`).
-/

namespace ChordSequencer.Text

/-! ### Runs of one sort of characters -/

section

variable {p : Char → Bool} {s rest : List Char}

/-- A run of characters ends before one of another sort. -/
theorem takeWhile_append_stop (hs : ∀ c ∈ s, p c = true) (hrest : ∀ c ∈ rest.head?, p c = false) :
    (s ++ rest).takeWhile p = s := by
  rw [List.takeWhile_append_of_pos hs]
  cases rest with
  | nil => simp
  | cons c rest => simp [hrest c rfl]

theorem dropWhile_append_stop (hs : ∀ c ∈ s, p c = true) (hrest : ∀ c ∈ rest.head?, p c = false) :
    (s ++ rest).dropWhile p = rest := by
  rw [List.dropWhile_append_of_pos hs]
  cases rest with
  | nil => rfl
  | cons c rest => simp [hrest c rfl]

end

theorem mem_intercalate {α : Type} {sep a : α} {ls : List (List α)}
    (h : a ∈ [sep].intercalate ls) : a = sep ∨ ∃ l ∈ ls, a ∈ l := by
  induction ls with
  | nil => simp at h
  | cons l ls ih =>
    cases ls with
    | nil => exact .inr ⟨l, List.mem_cons_self, by simpa using h⟩
    | cons m ls =>
      simp only [List.intercalate_cons_cons, List.append_assoc, List.mem_append,
        List.mem_singleton] at h
      rcases h with h | h | h
      · exact .inr ⟨l, List.mem_cons_self, h⟩
      · exact .inl h
      · refine (ih h).imp_right ?_
        rintro ⟨k, hk, ha⟩
        exact ⟨k, List.mem_cons_of_mem _ hk, ha⟩

/-! ### Words -/

theorem map_chunksFrom (p q : Nat) (s : List Char) :
    (chunksFrom p s).map (·.2) = (chunksFrom q s).map (·.2) := by
  induction p, s using chunksFrom.induct generalizing q with
  | case1 p => simp only [chunksFrom, List.map_nil]
  | case2 p c r blank ih =>
    rw [chunksFrom, if_pos blank, chunksFrom, if_pos blank]
    exact ih _
  | case3 p c r blank word ih =>
    rw [chunksFrom, if_neg blank, chunksFrom, if_neg blank]
    simp only [List.map_cons]
    exact congrArg _ (ih _)

@[simp] theorem words_nil : words [] = [] := by
  simp only [words, chunks, chunksFrom, List.map_nil]

theorem words_blank {c : Char} (h : isBlank c = true) (r : List Char) :
    words (c :: r) = words r := by
  simp only [words, chunks]
  rw [chunksFrom, if_pos h]
  exact map_chunksFrom _ _ _

theorem words_cons {c : Char} (h : isBlank c = false) (r : List Char) :
    words (c :: r) =
      (c :: r.takeWhile (!isBlank ·)) :: words (r.dropWhile (!isBlank ·)) := by
  simp only [words, chunks]
  rw [chunksFrom, if_neg (by rw [h]; exact Bool.false_ne_true)]
  simp only [List.map_cons]
  exact congrArg _ (map_chunksFrom _ _ _)

theorem chunks_visible {c : Char} {s : List Char}
    (visible : (c :: s).all (!isBlank ·) = true) : chunks (c :: s) = [(0, c :: s)] := by
  rw [List.all_cons, Bool.and_eq_true, Bool.not_eq_true'] at visible
  obtain ⟨first, rest⟩ := visible
  have all : s.takeWhile (!isBlank ·) = s := List.takeWhile_eq_self_iff.2 (List.all_eq_true.1 rest)
  have none : s.dropWhile (!isBlank ·) = [] :=
    List.dropWhile_eq_nil_iff.2 (List.all_eq_true.1 rest)
  simp only [chunks]
  rw [chunksFrom, if_neg (by rw [first]; exact Bool.false_ne_true), all, none]
  simp only [chunksFrom]

theorem words_append_blank {b : Char} (hb : isBlank b = true) (s t : List Char) :
    words (s ++ b :: t) = words s ++ words t := by
  suffices h : ∀ pos : Nat, words (s ++ b :: t) = words s ++ words t from h 0
  intro pos
  induction pos, s using chunksFrom.induct with
  | case1 => rw [List.nil_append, words_blank hb, words_nil, List.nil_append]
  | case2 pos c r blank ih => rw [List.cons_append, words_blank blank, words_blank blank, ih]
  | case3 pos c r blank word ih =>
    have blank : isBlank c = false := by simpa using blank
    have stop : ((b :: t).takeWhile (!isBlank ·)) = [] := by simp [hb]
    have whole : ((b :: t).dropWhile (!isBlank ·)) = b :: t := by simp [hb]
    rw [List.cons_append, words_cons blank, words_cons blank, List.cons_append,
      List.takeWhile_append, List.dropWhile_append, stop, whole, List.append_nil]
    -- the first word ends before the blank, whether or not anything follows it in the first text
    congr 1
    · split
      · rename_i all
        rw [(List.takeWhile_prefix (!isBlank ·)).eq_of_length all]
      · rfl
    · split
      · rename_i none
        rw [List.isEmpty_iff.1 none, words_blank hb, words_nil, List.nil_append]
      · exact ih

/-- The words of texts written one after another with blanks between them. -/
theorem words_intercalate {b : Char} (hb : isBlank b = true) (texts : List (List Char)) :
    words ([b].intercalate texts) = texts.flatMap words := by
  induction texts with
  | nil => rw [List.intercalate, List.intersperse_nil, List.flatten_nil, words_nil]; rfl
  | cons s rest ih =>
    cases rest with
    | nil => simp
    | cons t rest =>
      rw [List.intercalate_cons_cons, List.append_assoc, List.singleton_append,
        words_append_blank hb, ih]
      simp only [List.flatMap_cons]

end ChordSequencer.Text
