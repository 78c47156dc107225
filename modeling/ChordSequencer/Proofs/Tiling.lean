import ChordSequencer.Proofs.Layout
import ChordSequencer.Proofs.Lexemes

/-!
# Every character of a text is read once

The tokens of a text, its maximal runs of blanks and its stray characters are the pieces of the text
(`IsPiece`).  They are told by what they are and not by how they are found, and the lexemes of a
text are exactly its pieces (`Lexeme.isPiece_iff`).  So the pieces lie side by side from the
beginning of a text to its end, and each character belongs to one of them (`pieces_tile`).

Which token a text is does not depend on what stands around it: the text of a token, read alone, is
this token again (`IsToken.lexemes_alone`).  What follows matters only in that no token at all
begins at a stray character (`no_token_at_stray`).
-/

namespace ChordSequencer.Notation

open Text Lexeme

/-! ### The texts of tokens -/

/-- The texts of tokens of each kind. -/
inductive IsToken : TokenKind → List Char → Prop
  /-- A bracket or a comma. -/
  | punctuation {kind : TokenKind} {c : Char} (hc : punctuation? c = some kind) : IsToken kind [c]
  /-- A note value and a colon. -/
  | duration {s : List Char} (hs : IsDuration s) : IsToken .duration (s ++ [':'])
  /-- A name, a colon and a value. -/
  | named {name value : List Char} (hname : IsName name) (hvalue : IsValue value) :
    IsToken .attribute (name ++ ':' :: value)
  /-- A whole number, a rest or a sustain. -/
  | note {s : List Char} (hs : IsNote s) : IsToken .note s

variable {kind : TokenKind} {s text r : List Char} {c : Char} {n position : Nat} {l : Lexeme}

theorem punctuation?_visible (h : punctuation? c = some kind) : isBlank c = false := by
  simp only [punctuation?] at h
  split at h <;> first | decide | cases h

/-- A token is recognised as what it is wherever it stands before a blank or the end. -/
theorem IsToken.lexes (h : IsToken kind s) : Word.Lexes ⟨kind, s⟩ := by
  cases h with
  | punctuation hc => exact lexes_punctuation hc (punctuation?_visible hc)
  | duration hs => exact lexes_duration hs
  | named hname hvalue => exact lexes_attribute hname hvalue
  | note hs => exact lexes_note hs

/-- **The text of a token, read alone, is this token.** -/
theorem IsToken.lexemes_alone (h : IsToken kind s) : ofText 0 s = [⟨.token kind, s, 0⟩] := by
  have ends : Ends [] := fun c hc => absurd hc (Option.not_mem_none c)
  have read := ofText_word h.lexes ends 0
  rw [List.append_nil] at read
  rw [read, ofText]

theorem isToken_of_scan (h : scan c r = (.token kind, n)) : IsToken kind (c :: r.take n) := by
  cases scans h with
  | punctuation hc => exact .punctuation hc
  | duration =>
    obtain ⟨s, hs, same⟩ := isDuration_of_scan h
    exact same ▸ .duration hs
  | named =>
    obtain ⟨name, value, hname, hvalue, same⟩ := isAttribute_of_scan h
    exact same ▸ .named hname hvalue
  | number | negative | sign => exact .note (isNote_of_scan h)

theorem IsToken.visible (h : IsToken kind s) : ∀ c ∈ s, isBlank c = false := by
  intro c mem
  by_contra blank
  rw [Bool.not_eq_false] at blank
  obtain ⟨digit, value, name, unit, colon⟩ := isBlank_class blank
  have no_digits {ds : List Char} (hds : IsDigits ds) : c ∉ ds := fun mem => by
    rw [hds.2 c mem] at digit
    cases digit
  cases h with
  | punctuation hc =>
    obtain rfl := List.mem_singleton.1 mem
    rw [punctuation?_visible hc] at blank
    cases blank
  | duration hs =>
    obtain ⟨ds, u, hds, hu, rfl⟩ := hs
    simp only [List.mem_append, List.mem_singleton] at mem
    rcases mem with (mem | rfl) | rfl
    · exact no_digits hds mem
    · rw [hu] at unit
      cases unit
    · exact colon rfl
  | named hname hvalue =>
    obtain ⟨d, rest, hd, hrest, rfl⟩ := hname
    rw [List.mem_append, List.mem_cons, List.mem_cons] at mem
    rcases mem with (rfl | mem) | rfl | mem
    · rw [(isNameStart_class hd).1] at name
      cases name
    · rw [hrest c mem] at name
      cases name
    · exact colon rfl
    · rw [hvalue.2 c mem] at value
      cases value
  | note hs =>
    cases hs with
    | sign hc =>
      obtain rfl := List.mem_singleton.1 mem
      simp only [isSign, Bool.or_eq_true, beq_iff_eq] at hc
      rcases hc with (rfl | rfl) | rfl <;> cases blank
    | number hs => exact no_digits hs mem
    | negative hs =>
      rcases List.mem_cons.1 mem with rfl | mem
      · cases blank
      · exact no_digits hs mem

/-! ### Stray characters -/

/-- **No token begins at a stray character**, however long it would be. -/
theorem no_token_at_stray (h : scan c r = (.stray, n)) (hs : IsToken kind s) :
    ¬ s <+: c :: r := by
  obtain ⟨-, -, bracket, digit, sign, minus, nameless⟩ := scan_stray h
  have no_digits {ds t : List Char} (hds : IsDigits ds) (same : ds ++ t = c :: r) : False := by
    obtain ⟨given, digits⟩ := hds
    obtain ⟨d, ds, rfl⟩ := List.exists_cons_of_ne_nil given
    obtain ⟨rfl, -⟩ := List.cons.inj same
    rw [digits _ List.mem_cons_self] at digit
    cases digit
  rintro ⟨rest, begins⟩
  cases hs with
  | punctuation hc =>
    obtain ⟨rfl, -⟩ := List.cons.inj begins
    rw [bracket] at hc
    cases hc
  | duration hs =>
    obtain ⟨ds, u, hds, -, rfl⟩ := hs
    rw [List.append_assoc, List.append_assoc] at begins
    exact no_digits hds begins
  | named hname hvalue =>
    obtain ⟨d, name, hd, hname, rfl⟩ := hname
    obtain ⟨given, hvalue⟩ := hvalue
    obtain ⟨v, vs, rfl⟩ := List.exists_cons_of_ne_nil given
    rw [List.append_assoc, List.cons_append] at begins
    obtain ⟨rfl, rfl⟩ := List.cons.inj begins
    have found := scanAttribute?_append hname (hvalue v List.mem_cons_self) (vs ++ rest)
    exact Option.some_ne_none _ (found.symm.trans (nameless hd))
  | note hs =>
    cases hs with
    | sign hc =>
      obtain ⟨rfl, -⟩ := List.cons.inj begins
      rw [hc] at sign
      cases sign
    | number hs => exact no_digits hs begins
    | negative hs =>
      obtain ⟨given, digits⟩ := hs
      obtain ⟨d, ds, rfl⟩ := List.exists_cons_of_ne_nil given
      obtain ⟨rfl, rfl⟩ := List.cons.inj begins
      have none : (d :: (ds ++ rest)).takeWhile isDigit = [] := minus rfl
      rw [List.takeWhile_cons_of_pos (digits d List.mem_cons_self)] at none
      cases none

/-! ### Runs of blanks -/

/-- A run of blanks in a text, to which no blank can be added at either end. -/
structure IsBlankRun (text : List Char) (position : Nat) (s : List Char) : Prop where
  /-- There is one at least. -/
  given : s ≠ []
  /-- There is nothing else. -/
  blank : ∀ c ∈ s, isBlank c = true
  /-- They stand at the position. -/
  stands : s <+: text.drop position
  /-- No blank stands before them. -/
  before : ∀ p c, p + 1 = position → text[p]? = some c → isBlank c = false
  /-- No blank stands after them. -/
  after : ∀ c, text[position + s.length]? = some c → isBlank c = false

variable {p : Nat} {m : Lexeme}

theorem eq_takeWhile (h : l ∈ ofText 0 text) (blank : l.kind = .blank) :
    l.text = (text.drop l.position).takeWhile isBlank := by
  obtain ⟨k, c, r, n, place, rest, scanned, taken⟩ := exists_scan h
  rw [Nat.zero_add] at place
  rw [blank] at scanned
  obtain ⟨hc, rfl⟩ := scan_blank scanned
  rw [taken, take_takeWhile, place, rest, List.takeWhile_cons_of_pos hc]

theorem kind_of_covers (h : l ∈ ofText 0 text) (covers : l.Covers p) (char : text[p]? = some c) :
    l.kind = .blank ↔ isBlank c = true := by
  have mem : c ∈ l.text := by
    obtain ⟨-, before, after, rfl, place⟩ := exists_slice h
    obtain ⟨above, below⟩ := covers
    rw [Nat.zero_add] at place
    rw [List.append_assoc, List.getElem?_append_right (by omega),
      List.getElem?_append_left (by omega)] at char
    exact List.mem_of_getElem? char
  obtain ⟨k, c', r, n, place, rest, scanned, taken⟩ := exists_scan h
  cases kind : l.kind with
  | blank =>
    rw [eq_takeWhile h kind] at mem
    exact iff_of_true rfl (List.mem_takeWhile_imp mem)
  | stray =>
    rw [kind] at scanned
    obtain ⟨rfl, visible, -⟩ := scan_stray scanned
    rw [taken, List.take_zero, List.mem_singleton] at mem
    rw [mem, visible]
    exact iff_of_false LexemeKind.noConfusion Bool.false_ne_true
  | token kind' =>
    rw [kind] at scanned
    rw [taken] at mem
    rw [(isToken_of_scan scanned).visible c mem]
    exact iff_of_false LexemeKind.noConfusion Bool.false_ne_true

/-- A lexeme of blanks goes on as long as there are blanks. -/
theorem visible_after (h : l ∈ ofText 0 text) (blank : l.kind = .blank)
    (next : text[l.position + l.text.length]? = some c) : isBlank c = false := by
  have split : l.text ++ (text.drop l.position).dropWhile isBlank = text.drop l.position := by
    rw [eq_takeWhile h blank, List.takeWhile_append_dropWhile]
  rw [← List.getElem?_drop, ← split, List.getElem?_append_right (Nat.le_refl _), Nat.sub_self,
    ← List.head?_eq_getElem?] at next
  have stop := List.head?_dropWhile_not isBlank (text.drop l.position)
  rw [next] at stop
  simpa using stop

/-- No blank stands before a lexeme of blanks: it would belong to the lexeme before, and this lexeme
would go on. -/
theorem visible_before (h : l ∈ ofText 0 text) (blank : l.kind = .blank)
    (place : p + 1 = l.position) (char : text[p]? = some c) : isBlank c = false := by
  by_contra hc
  rw [Bool.not_eq_false] at hc
  have inside := (List.getElem?_eq_some_iff.1 char).1
  obtain ⟨m, hm, covers⟩ := exists_covers 0 inside
  rw [Nat.zero_add] at covers
  have run := (kind_of_covers hm covers char).2 hc
  obtain ⟨k, d, r, n, start, rest, -, taken⟩ := exists_scan h
  rw [Nat.zero_add] at start
  have next : text[p + 1]? = some d := by
    rw [place, start, ← List.head?_drop, rest, List.head?_cons]
  have first : l.Covers (p + 1) := by
    refine ⟨place.ge, ?_⟩
    rw [taken, List.length_cons]
    omega
  by_cases further : m.Covers (p + 1)
  · have above := covers.1
    rw [← eq_of_covers h hm first further] at above
    omega
  · have ends : m.position + m.text.length = p + 1 := by
      obtain ⟨above, below⟩ := covers
      simp only [Covers, not_and_or, not_le, not_lt] at further
      omega
    have visible := visible_after hm run (ends ▸ next)
    rw [(kind_of_covers h first next).1 blank] at visible
    cases visible

theorem isBlankRun_of_mem (h : l ∈ ofText 0 text) (blank : l.kind = .blank) :
    IsBlankRun text l.position l.text where
  given := (exists_slice h).1
  blank c mem := by
    rw [eq_takeWhile h blank] at mem
    exact List.mem_takeWhile_imp mem
  stands := by
    rw [eq_takeWhile h blank]
    exact List.takeWhile_prefix _
  before _ _ place char := visible_before h blank place char
  after _ next := visible_after h blank next

theorem IsBlankRun.mem (run : IsBlankRun text p s) : ⟨.blank, s, p⟩ ∈ ofText 0 text := by
  obtain ⟨rest, stands⟩ := run.stands
  obtain ⟨b, bs, rfl⟩ := List.exists_cons_of_ne_nil run.given
  have char : text[p]? = some b := by
    rw [← List.head?_drop, ← stands, List.cons_append, List.head?_cons]
  obtain ⟨l, hl, covers⟩ := exists_covers 0 (List.getElem?_eq_some_iff.1 char).1
  rw [Nat.zero_add] at covers
  have blank := (kind_of_covers hl covers char).2 (run.blank b List.mem_cons_self)
  have place : l.position = p := by
    by_contra other
    -- the character before would be a blank of the same lexeme
    have earlier : l.Covers (p - 1) := ⟨by have := covers.1; omega, by have := covers.2; omega⟩
    have inside : p - 1 < text.length := by
      have := (List.getElem?_eq_some_iff.1 char).1
      omega
    have char' := List.getElem?_eq_getElem inside
    have visible := run.before (p - 1) _ (by have := covers.1; omega) char'
    rw [(kind_of_covers hl earlier char').1 blank] at visible
    cases visible
  have whole : l.text = b :: bs := by
    rw [eq_takeWhile hl blank, place, ← stands, takeWhile_append_stop run.blank]
    intro d hd
    refine run.after d ?_
    rw [← List.getElem?_drop, ← stands, List.getElem?_append_right (Nat.le_refl _), Nat.sub_self,
      ← List.head?_eq_getElem?]
    exact hd
  obtain ⟨kind, _, _⟩ := l
  cases blank
  cases place
  cases whole
  exact hl

/-! ### Pieces -/

/-- The pieces of a text: its tokens, its runs of blanks, and its stray characters. -/
inductive IsPiece (text : List Char) : Lexeme → Prop
  | token {t : Token} (ht : t ∈ tokens text) : IsPiece text ⟨.token t.kind, t.text, t.position⟩
  | blank {position : Nat} {s : List Char} (run : IsBlankRun text position s) :
    IsPiece text ⟨.blank, s, position⟩
  | stray {c : Char} {position : Nat} (hc : (.strayChar c, position) ∈ strayFaults text) :
    IsPiece text ⟨.stray, [c], position⟩

/-- **The lexemes of a text are its pieces.** -/
theorem Lexeme.isPiece_iff : IsPiece text l ↔ l ∈ ofText 0 text := by
  constructor
  · intro piece
    cases piece with
    | token ht => exact mem_tokens_iff.1 ht
    | blank run => exact run.mem
    | stray hc =>
      obtain ⟨c, same, mem⟩ := exists_stray hc
      cases same
      exact mem
  · intro h
    obtain ⟨kind, s, position⟩ := l
    cases kind with
    | token kind => exact .token (t := ⟨kind, s, position⟩) (mem_tokens_iff.2 h)
    | blank => exact .blank (isBlankRun_of_mem h rfl)
    | stray =>
      obtain ⟨c, same⟩ := exists_char h rfl
      obtain rfl : s = [c] := same
      exact .stray (List.mem_filterMap.2 ⟨_, h, rfl⟩)

theorem stray_spec {f : Cause × Nat} (hf : f ∈ strayFaults text) :
    ∃ c, f.1 = .strayChar c ∧ text[f.2]? = some c ∧ isBlank c = false ∧
      ∀ kind s, IsToken kind s → ¬ s <+: text.drop f.2 := by
  obtain ⟨c, cause, mem⟩ := exists_stray hf
  obtain ⟨k, c', r, n, place, rest, scanned, taken⟩ := exists_scan mem
  obtain ⟨rfl, visible, -⟩ := scan_stray scanned
  cases taken
  dsimp only at place scanned
  rw [Nat.zero_add] at place
  refine ⟨c, cause, ?_, visible, fun kind s token => ?_⟩
  · rw [place, ← List.head?_drop, rest, List.head?_cons]
  · rw [place, rest]
    exact no_token_at_stray scanned token

theorem isToken_of_mem {t : Token} (ht : t ∈ tokens text) : IsToken t.kind t.text := by
  obtain ⟨k, c, r, n, -, -, scanned, taken⟩ := exists_scan (mem_tokens_iff.1 ht)
  dsimp only at taken
  rw [taken]
  exact isToken_of_scan scanned

/-- **The nested lexer tiles its text.**  Tokens, maximal runs of blanks and stray characters, in
the order of their places, are not empty, do not overlap, and cover every character of the text
exactly once; each stands where its text is found.  A stray character is no blank and begins no
token, and the text of a token, read alone, is that token and nothing else. -/
theorem pieces_tile (text : List Char) :
    (∃ pieces : List Lexeme, (∀ l, l ∈ pieces ↔ IsPiece text l) ∧
      pieces.Pairwise (fun l m => l.position + l.text.length ≤ m.position) ∧
      pieces.flatMap (·.text) = text) ∧
    (∀ l, IsPiece text l → l.text ≠ [] ∧ l.text <+: text.drop l.position) ∧
    (∀ k < text.length, ∃! l, IsPiece text l ∧ l.Covers k) ∧
    (∀ f ∈ strayFaults text, ∃ c, f.1 = .strayChar c ∧ text[f.2]? = some c ∧
      isBlank c = false ∧ ∀ kind s, IsToken kind s → ¬ s <+: text.drop f.2) ∧
    (∀ t ∈ tokens text, IsToken t.kind t.text ∧ tokens t.text = [⟨t.kind, t.text, 0⟩] ∧
      strayFaults t.text = []) := by
  refine ⟨⟨ofText 0 text, fun l => isPiece_iff.symm, ofText_tiles 0 text, flatten_lexemes 0 text⟩,
    fun l piece => ?_, fun k inside => ?_, fun f => stray_spec, fun t ht => ?_⟩
  · obtain ⟨k, c, r, n, place, rest, -, taken⟩ := exists_scan (isPiece_iff.1 piece)
    rw [Nat.zero_add] at place
    rw [taken, place, rest]
    exact ⟨List.cons_ne_nil _ _, List.cons_prefix_cons.2 ⟨rfl, List.take_prefix n r⟩⟩
  · obtain ⟨l, hl, covers⟩ := exists_covers 0 inside
    rw [Nat.zero_add] at covers
    refine ⟨l, ⟨isPiece_iff.2 hl, covers⟩, ?_⟩
    rintro m ⟨piece, shares⟩
    exact eq_of_covers (isPiece_iff.1 piece) hl shares covers
  · have alone := (isToken_of_mem ht).lexemes_alone
    refine ⟨isToken_of_mem ht, ?_, ?_⟩
    · simp only [tokens, alone, List.filterMap_cons, List.filterMap_nil, token?]
    · simp only [strayFaults, alone, List.filterMap_cons, List.filterMap_nil, stray?]

end ChordSequencer.Notation
