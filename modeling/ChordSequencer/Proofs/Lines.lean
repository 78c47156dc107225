import ChordSequencer.Notation.Reading
import ChordSequencer.Proofs.Locality
import ChordSequencer.Proofs.Reporting
import Mathlib.Algebra.Order.BigOperators.Group.List
import Mathlib.Algebra.Order.Ring.Nat

/-!
# Lines and columns

A fault says its place by a line and a column.  The lines of a text are what its line feeds divide
(`Text.lines`), and a line begins behind the lines before it and their line feeds
(`Text.lineOffset`).  A line, a column on this line or at its end, and the number of characters
before it belong together (`Text.StandsAt`), so that either can be worked out from the other, and
places ascend as their lines do and, on one line, as their columns.

* `Text.length_lines`, `Text.sum_lines` : how many lines a text has, and how long they are.
* `Text.lines_cut` : the line in which a text is cut.
* `Text.StandsAt.lt_iff`, `Text.StandsAt.eq_iff` : the order of places.
* `Notation.Fault.IsIn.standsAt` : the line and the column of a fault.
* `Notation.faults_located` : the faults of any text.
-/

namespace ChordSequencer

/-! ### Lines -/

namespace Text

variable {s rest last front : List Char} {k : Nat} {l : List Char}

/-- The lines of a text: what its line feeds divide. -/
def lines (s : List Char) : List (List Char) := s.splitOn '\n'

/-- The number of characters before the line at an index: those of the lines before it, each of
which ends with a line feed. -/
def lineOffset (s : List Char) (k : Nat) : Nat := (((lines s).take k).map (·.length + 1)).sum

theorem lines_cons (c : Char) (s : List Char) : lines (c :: s) =
    if c = '\n' then [] :: lines s else (lines s).modifyHead (c :: ·) := by
  simp only [lines, List.splitOn_cons_eq_if_modifyHead, beq_iff_eq]

theorem exists_lines (s : List Char) : ∃ first others, lines s = first :: others :=
  List.exists_cons_of_ne_nil (List.splitOn_ne_nil '\n' s)

theorem length_lines (s : List Char) : (lines s).length = s.count '\n' + 1 := by
  induction s with
  | nil => rfl
  | cons c s ih =>
    rw [lines_cons]
    split
    · rename_i feed
      rw [feed, List.count_cons_self, List.length_cons, ih]
    · rename_i other
      rw [List.count_cons_of_ne other, List.length_modifyHead, ih]

theorem sum_lines (s : List Char) : ((lines s).map (·.length + 1)).sum = s.length + 1 := by
  induction s with
  | nil => rfl
  | cons c s ih =>
    obtain ⟨first, others, divided⟩ := exists_lines s
    rw [divided] at ih
    rw [lines_cons, divided]
    split
    · simp only [List.map_cons, List.sum_cons, List.length_nil, List.length_cons] at ih ⊢
      omega
    · simp only [List.modifyHead_cons, List.map_cons, List.sum_cons, List.length_cons] at ih ⊢
      omega

/-- What stands before a cut and holds no line feed begins the first line. -/
theorem lines_cut (unbroken : '\n' ∉ last) (rest : List Char) :
    ∃ first others, lines (last ++ rest) = (last ++ first) :: others := by
  induction last with
  | nil => exact exists_lines rest
  | cons c last ih =>
    obtain ⟨other, unbroken⟩ := not_or.1 (mt List.mem_cons.2 unbroken)
    obtain ⟨first, others, divided⟩ := ih unbroken
    refine ⟨first, others, ?_⟩
    rw [List.cons_append, lines_cons, if_neg (Ne.symm other), divided]
    rfl

theorem lastBreak_cases (s : List Char) :
    '\n' ∉ s ∨ ∃ front last, s = front ++ '\n' :: last ∧ '\n' ∉ last := by
  by_cases broken : '\n' ∈ s
  · obtain ⟨later, earlier, turned, unbroken⟩ :=
      List.eq_append_cons_of_mem (List.mem_reverse.2 broken)
    refine .inr ⟨earlier.reverse, later.reverse, ?_, by simpa using unbroken⟩
    rw [← List.reverse_reverse s, turned]
    simp
  · exact .inl broken

theorem lineOffset_succ (line : (lines s)[k]? = some l) :
    lineOffset s (k + 1) = lineOffset s k + l.length + 1 := by
  rw [lineOffset, List.take_add_one, line]
  simp [lineOffset, Nat.add_assoc]

theorem lineOffset_mono (s : List Char) : Monotone (lineOffset s) := fun _ _ le =>
  ((List.take_sublist_take_left le).map _).sum_le_sum fun _ _ => Nat.zero_le _

/-! ### Places by line and column -/

/-- A line and a column, both counted from 1, with so many characters of the text before them. -/
structure StandsAt (s : List Char) (p : Int) (line : Nat) (column : Int) : Prop where
  /-- No line comes before the first. -/
  counted : 1 ≤ line
  /-- The line is there, and the column is that of one of its characters or of its end. -/
  inside : ∃ l, (lines s)[line - 1]? = some l ∧ 0 ≤ column - 1 ∧ column - 1 ≤ l.length
  /-- What stands before the line, and before the column on it. -/
  place : (lineOffset s (line - 1) : Int) + (column - 1) = p

namespace StandsAt

variable {p q column column' : Int} {line line' : Nat}

theorem lt_of_line_lt (h : StandsAt s p line column) (h' : StandsAt s q line' column')
    (earlier : line < line') : p < q := by
  obtain ⟨counted, ⟨l, there, -, short⟩, rfl⟩ := h
  obtain ⟨-, ⟨-, -, first, -⟩, rfl⟩ := h'
  have behind := lineOffset_succ there
  rw [Nat.sub_add_cancel counted] at behind
  have later : lineOffset s line ≤ lineOffset s (line' - 1) :=
    lineOffset_mono s (Nat.le_sub_one_of_lt earlier)
  omega

/-- **Places ascend as their lines do** and, on one line, as their columns. -/
theorem lt_iff (h : StandsAt s p line column) (h' : StandsAt s q line' column') :
    p < q ↔ line < line' ∨ line = line' ∧ column < column' := by
  rcases Nat.lt_trichotomy line line' with earlier | rfl | later
  · have := h.lt_of_line_lt h' earlier
    omega
  · have here := h.place
    have there := h'.place
    omega
  · have := h'.lt_of_line_lt h later
    omega

/-- **A line and a column are those of one place only.** -/
theorem eq_iff (h : StandsAt s p line column) (h' : StandsAt s q line' column') :
    line = line' ∧ column = column' ↔ p = q := by
  have left := h.lt_iff h'
  have right := h'.lt_iff h
  omega

end StandsAt

/-- Before the first line feed, the column counts the characters. -/
theorem standsAt_first (unbroken : '\n' ∉ last) (rest : List Char) :
    StandsAt (last ++ rest) last.length 1 (last.length + 1) := by
  obtain ⟨first, others, divided⟩ := lines_cut unbroken rest
  refine ⟨Nat.le_refl 1, ⟨last ++ first, ?_, by omega, ?_⟩, ?_⟩
  · rw [divided]
    rfl
  · rw [List.length_append]
    omega
  · simp [lineOffset]

/-- Behind a line feed, it counts those since the last one. -/
theorem standsAt_later (front : List Char) (unbroken : '\n' ∉ last) (rest : List Char) :
    StandsAt (front ++ '\n' :: (last ++ rest)) (front.length + 1 + last.length)
      (front.count '\n' + 2) (last.length + 1) := by
  obtain ⟨first, others, divided⟩ := lines_cut unbroken rest
  have parted : lines (front ++ '\n' :: (last ++ rest)) =
      lines front ++ (last ++ first) :: others := by
    rw [← divided]
    exact List.splitOn_append_cons_self front (last ++ rest)
  have index : front.count '\n' + 2 - 1 = (lines front).length := (length_lines front).symm
  refine ⟨Nat.le_add_left 1 _, ⟨last ++ first, ?_, by omega, ?_⟩, ?_⟩
  · rw [parted, index, List.getElem?_append_right (Nat.le_refl _), Nat.sub_self]
    rfl
  · rw [List.length_append]
    omega
  · have before : lineOffset (front ++ '\n' :: (last ++ rest)) (front.count '\n' + 2 - 1) =
        front.length + 1 := by
      rw [lineOffset, parted, index, List.take_left, sum_lines]
    omega

end Text

/-! ### Faults -/

namespace Notation

open Text

variable {text last front : List Char} {f : Fault}

namespace Fault

/-- A fault of a text, at one of its characters or at its end. -/
structure IsIn (f : Fault) (text : List Char) : Prop where
  /-- It keeps the text. -/
  whole : f.text = text
  /-- Its place is counted from the beginning. -/
  natural : 0 ≤ f.position
  /-- It lies no further than the end. -/
  inside : f.position ≤ text.length

theorem before_append (cause : Cause) (before rest : List Char) :
    (⟨cause, before.length, before ++ rest⟩ : Fault).before = before := by
  simp only [Fault.before]
  rw [if_neg (by omega), Int.toNat_natCast, List.take_left]

/-- From the end of a text, its last line goes back to a line feed or to the beginning. -/
theorem takeWhile_unbroken (unbroken : '\n' ∉ last) (back : List Char)
    (stop : ∀ c ∈ back.head?, c = '\n') :
    (last.reverse ++ back).takeWhile (· ≠ '\n') = last.reverse := by
  refine takeWhile_append_stop (fun c mem => ?_) fun c mem => ?_
  · rw [decide_eq_true_eq]
    rintro rfl
    exact unbroken (List.mem_reverse.1 mem)
  · rw [stop c mem]
    rfl

theorem line_first (before : f.before = last) (unbroken : '\n' ∉ last) :
    f.line = 1 ∧ f.lineStart = 0 := by
  have taken := takeWhile_unbroken unbroken [] (by simp)
  rw [List.append_nil] at taken
  rw [line, lineStart, before, taken, List.count_eq_zero.2 unbroken, List.length_reverse,
    Nat.sub_self]
  exact ⟨rfl, rfl⟩

theorem line_later (before : f.before = front ++ '\n' :: last) (unbroken : '\n' ∉ last) :
    f.line = front.count '\n' + 2 ∧ f.lineStart = front.length + 1 := by
  have taken := takeWhile_unbroken unbroken ('\n' :: front.reverse) (by simp)
  have turned : (front ++ '\n' :: last).reverse = last.reverse ++ '\n' :: front.reverse := by simp
  rw [line, lineStart, before, turned, taken, List.count_append, List.count_cons_self,
    List.count_eq_zero.2 unbroken, List.length_reverse, List.length_append, List.length_cons]
  omega

/-- **A fault stands at its line and column.** -/
theorem IsIn.standsAt (h : f.IsIn text) : StandsAt text f.position f.line f.column := by
  obtain ⟨cause, position, s⟩ := f
  obtain ⟨rfl, natural, inside⟩ := h
  dsimp only at natural inside ⊢
  obtain ⟨p, rfl⟩ := Int.eq_ofNat_of_zero_le natural
  obtain ⟨before, rest, rfl, rfl⟩ : ∃ before rest, s = before ++ rest ∧ before.length = p :=
    ⟨s.take p, s.drop p, (List.take_append_drop p s).symm,
      List.length_take_of_le (by omega)⟩
  have cut := before_append cause before rest
  -- the line begins behind the last line feed before the place, if there is one
  rcases lastBreak_cases before with unbroken | ⟨front, last, rfl, unbroken⟩
  · obtain ⟨line, start⟩ := line_first cut unbroken
    have place := standsAt_first unbroken rest
    rw [column, line, start]
    simpa using place
  · obtain ⟨line, start⟩ := line_later cut unbroken
    have place := standsAt_later front unbroken rest
    have far : ((front ++ '\n' :: last).length : Int) = front.length + 1 + last.length := by
      rw [List.length_append, List.length_cons]
      omega
    have behind : (front.length + 1 + last.length : Int) - (front.length + 1 : Nat) + 1 =
        last.length + 1 := by omega
    rw [column, line, start]
    dsimp only
    rw [far, behind, List.append_assoc, List.cons_append]
    exact place

end Fault

/-! ### Reported faults -/

theorem isIn_readNested (text : List Char) : ∀ f ∈ (readNested text).faults, f.IsIn text := by
  obtain ⟨_, earlier, own, placed, read⟩ :=
    Reader.places_foldl (strayFaults text).reverse (tokens_ascend text)
  have earlier_tokens : earlier ⊆ tokens text := read ▸ List.subset_append_left earlier own
  have short : ∀ t ∈ earlier, t.position < text.length := fun t ht =>
    position_lt (earlier_tokens ht)
  obtain ⟨found, faults, -, places⟩ := placed.finish short
  have bound : ∀ g ∈ (nestedReader text).faults, g.2 ≤ text.length := by
    intro g hg
    rw [nestedReader, faults] at hg
    rcases List.mem_append.1 hg with syntactic | stray
    · rcases (places g syntactic).2 with atEnd | ⟨t, ht, here⟩
      · exact Nat.le_of_eq atEnd
      · rw [← here]
        exact Nat.le_of_lt (short t ht)
    · obtain ⟨c, -, char, -⟩ := mem_strayFaults_iff.1 (List.mem_reverse.1 stray)
      exact Nat.le_of_lt (List.getElem?_eq_some_iff.1 char).1
  intro f hf
  rw [readNested_faults] at hf
  obtain ⟨⟨cause, p⟩, hg, rfl⟩ := List.mem_map.1 hf
  exact ⟨rfl, Int.natCast_nonneg p, Int.ofNat_le.2 (bound _ (List.mem_reverse.1 hg))⟩

theorem isIn_compactFaults (text : List Char) : ∀ f ∈ compactFaults text, f.IsIn text := by
  intro f hf
  rw [compactFaults_eq] at hf
  obtain ⟨⟨p, w⟩, mem, found⟩ := List.mem_filterMap.1 hf
  obtain ⟨⟨cause, offset⟩, fault, rfl⟩ := Option.map_eq_some_iff.1 found
  obtain ⟨before, after, rfl, place⟩ := exists_chunk mem
  have inside := CompactBlock.fault?_le fault
  refine ⟨rfl, Int.add_nonneg (Int.natCast_nonneg p) (Int.natCast_nonneg offset), ?_⟩
  simp only [List.length_append] at inside ⊢
  omega

theorem isIn_emptySong (text : List Char) : (⟨.emptySong, 0, text⟩ : Fault).IsIn text :=
  ⟨rfl, Int.le_refl 0, Int.natCast_nonneg _⟩

theorem isIn_readCompact (text : List Char) : ∀ f ∈ (readCompact text).faults, f.IsIn text := by
  simp only [readCompact]
  split
  · exact List.forall_mem_singleton.2 (isIn_emptySong text)
  · exact List.forall_mem_nil _
  · exact isIn_compactFaults text

/-- **Reading a text reports faults of this text.** -/
theorem isIn_read (text : String) : ∀ f ∈ (read text).faults, f.IsIn text.toList := by
  simp only [read]
  split
  · exact List.forall_mem_singleton.2 (isIn_emptySong _)
  · exact isIn_readNested _
  · exact isIn_readCompact _

/-- **Line and column identify a place.**  Any fault at a place of a text, its end included, has a
line that the text has and a column on this line or at its end; the characters before the line and
those before the column are together as many as stand before the place.  So faults of a text with
the same line and column are at the same place, and those further to the right come later by line
and, on one line, by column.  All this is so of every fault that reading a text reports. -/
theorem faults_located (text : List Char) :
    (∀ f : Fault, f.IsIn text → StandsAt text f.position f.line f.column) ∧
    (∀ f g : Fault, f.IsIn text → g.IsIn text →
      (f.line = g.line ∧ f.column = g.column ↔ f.position = g.position) ∧
      (f.position < g.position ↔ f.line < g.line ∨ f.line = g.line ∧ f.column < g.column)) ∧
    ∀ f ∈ (read (String.ofList text)).faults, f.IsIn text := by
  refine ⟨fun f => Fault.IsIn.standsAt, fun f g hf hg => ?_, fun f mem => ?_⟩
  · exact ⟨hf.standsAt.eq_iff hg.standsAt, hf.standsAt.lt_iff hg.standsAt⟩
  · have reported := isIn_read _ f mem
    rwa [String.toList_ofList] at reported

/-- Two blocks without a colon, the first of which a line feed ends. -/
def brokenBlocks : List Char := "W0\nO3".toList

/-- The fault at the line feed is on the line that it ends. -/
theorem faults_located_lineFeed : ∃ f g : Fault,
    (read (String.ofList brokenBlocks)).faults = [f, g] ∧
    StandsAt brokenBlocks 2 1 3 ∧ StandsAt brokenBlocks 5 2 3 ∧
    f.position < g.position := by
  obtain ⟨stands, ordered, reported⟩ := faults_located brokenBlocks
  obtain ⟨f, g, found, first, second⟩ : ∃ f g : Fault,
      (read (String.ofList brokenBlocks)).faults = [f, g] ∧
      (f.position = 2 ∧ f.line = 1 ∧ f.column = 3) ∧
      g.position = 5 ∧ g.line = 2 ∧ g.column = 3 :=
    ⟨⟨.missingColon "W0", 2, brokenBlocks⟩, ⟨.missingColon "O3", 5, brokenBlocks⟩,
      by decide +kernel⟩
  have hf : f.IsIn brokenBlocks := reported f (found ▸ List.mem_cons_self)
  have hg : g.IsIn brokenBlocks := reported g (found ▸ List.mem_cons_of_mem _ List.mem_cons_self)
  have here := stands f hf
  have there := stands g hg
  rw [first.1, first.2.1, first.2.2] at here
  rw [second.1, second.2.1, second.2.2] at there
  exact ⟨f, g, found, here, there, (ordered f g hf hg).2.2 (.inl (by omega))⟩

end Notation

end ChordSequencer
