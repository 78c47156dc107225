import ChordSequencer.Notation.Token
import ChordSequencer.Proofs.Words

/-!
# Words between blanks are tokens

A note, a note value with its colon, an attribute or a bracket that stands between blanks is read as
one token, whatever the blanks are (`Lexeme.lexemes_spaced`).  Notes, note values and attributes
begin alike, and which of them is read depends on what follows; a blank is none of the characters
that could go on with any of them (`Lexeme.isBlank_class`).  The other way round, `Scans` says what
can be scanned at all, and what was recognised as a note, a note value or an attribute has the text
of one (`isNote_of_scan`, `isDuration_of_scan`, `isAttribute_of_scan`).

The classes of characters are told apart one character at a time: those that are ASCII by trying the
128 of them, and digits by trying the ten of each script.
-/

namespace ChordSequencer.Notation

open Text Lexeme

/-! ### Classes of characters -/

theorem forall_ascii {p : Char → Prop} (h : ∀ n < 128, p (Char.ofNat n)) {c : Char}
    (hc : c.toNat < 128) : p c := by
  have := h c.toNat hc
  rwa [Char.ofNat_toNat] at this

theorem forall_digit {p : Char → Prop} (h : ∀ z ∈ digitZeros, ∀ d < 10, p (Char.ofNat (z + d)))
    {c : Char} (hc : isDigit c = true) : p c := by
  obtain ⟨d, hd⟩ := Option.isSome_iff_exists.1 hc
  obtain ⟨z, hz, -⟩ := Option.map_eq_some_iff.1 hd
  have hrange := List.find?_some hz
  simp only [Bool.and_eq_true, decide_eq_true_eq] at hrange
  have := h z (List.mem_of_find?_eq_some hz) (c.toNat - z) (by omega)
  rwa [show z + (c.toNat - z) = c.toNat by omega, Char.ofNat_toNat] at this

theorem ascii_of_le {a b c : Char} (hb : b.toNat < 128) (h : (a ≤ c && c ≤ b) = true) :
    c.toNat < 128 := by
  simp only [Bool.and_eq_true, decide_eq_true_eq, Char.le_def, UInt32.le_iff_toNat_le] at h
  exact lt_of_le_of_lt h.2 hb

theorem isAttributeChar_ascii {c : Char} (h : isAttributeChar c = true) : c.toNat < 128 := by
  simp only [isAttributeChar, isLetter, isAsciiDigit, Bool.or_eq_true, beq_iff_eq] at h
  rcases h with ((((h | h) | h) | rfl) | rfl) | rfl
  · exact ascii_of_le (by decide) h
  · exact ascii_of_le (by decide) h
  · exact ascii_of_le (by decide) h
  all_goals decide

theorem isAttributeChar_of_isNameChar {c : Char} (h : isNameChar c = true) :
    isAttributeChar c = true := by
  simp only [isNameChar] at h
  simp only [isAttributeChar, h, Bool.true_or]

theorem isNameStart_class {c : Char} (h : isNameStart c = true) :
    isNameChar c = true ∧ isBlank c = false ∧ punctuation? c = none ∧ isDigit c = false ∧
      c ≠ '-' := by
  have hname : isNameChar c = true := by
    simp only [isNameStart, Bool.or_eq_true] at h
    rcases h with h | h <;> simp [isNameChar, h]
  refine ⟨hname, ?_⟩
  have hc := isAttributeChar_ascii (isAttributeChar_of_isNameChar hname)
  revert h
  refine forall_ascii (p := fun c => isNameStart c = true → isBlank c = false ∧
    punctuation? c = none ∧ isDigit c = false ∧ c ≠ '-') ?_ hc
  decide +kernel

theorem isDigit_class {c : Char} (h : isDigit c = true) :
    isBlank c = false ∧ punctuation? c = none ∧ isUnit c = false ∧ c ≠ '-' := by
  refine forall_digit (p := fun c => isBlank c = false ∧ punctuation? c = none ∧
    isUnit c = false ∧ c ≠ '-') ?_ h
  decide +kernel

/-- A blank ends every token. -/
theorem isBlank_class {c : Char} (h : isBlank c = true) :
    isDigit c = false ∧ isAttributeChar c = false ∧ isNameChar c = false ∧ isUnit c = false ∧
      c ≠ ':' := by
  have hdigit : isDigit c = false := by
    by_contra hc
    rw [(isDigit_class (Bool.not_eq_false _ ▸ hc)).1] at h
    cases h
  have hattr : isAttributeChar c = false := by
    by_contra hc
    rw [Bool.not_eq_false] at hc
    have hvis := forall_ascii (p := fun c => isAttributeChar c = true → isBlank c = false)
      (by decide +kernel) (isAttributeChar_ascii hc) hc
    rw [hvis] at h
    cases h
  have hname : isNameChar c = false := by
    by_contra hc
    rw [isAttributeChar_of_isNameChar (Bool.not_eq_false _ ▸ hc)] at hattr
    cases hattr
  refine ⟨hdigit, hattr, hname, ?_, ?_⟩
  · by_contra hc
    rw [Bool.not_eq_false] at hc
    simp only [isUnit, Bool.or_eq_true, beq_iff_eq] at hc
    rcases hc with (rfl | rfl) | rfl <;> cases h
  · rintro rfl
    cases h

/-! ### Words -/

/-- What a token is, wherever it stands. -/
structure Word where
  /-- Its kind. -/
  kind : TokenKind
  /-- Its text. -/
  text : List Char
  deriving DecidableEq, Repr

/-- A token without its place. -/
def Token.word (t : Token) : Word := ⟨t.kind, t.text⟩

/-- The next character, if there is one, is a blank. -/
def Ends (rest : List Char) : Prop := ∀ c ∈ rest.head?, isBlank c = true

/-- The next character, if there is one, is no blank. -/
def Shows (rest : List Char) : Prop := ∀ c ∈ rest.head?, isBlank c = false

/-- A word that is recognised before a blank. -/
def Word.Lexes (w : Word) : Prop :=
  ∃ c r, w.text = c :: r ∧ isBlank c = false ∧
    ∀ rest, Ends rest → scan c (r ++ rest) = (.token w.kind, r.length)

/-- Digits of any script, at least one. -/
def IsDigits (s : List Char) : Prop := s ≠ [] ∧ ∀ c ∈ s, isDigit c = true

instance : DecidablePred IsDigits := fun s =>
  decidable_of_iff (s ≠ [] ∧ s.all isDigit = true) (by simp only [IsDigits, List.all_eq_true])

/-- The texts of notes: whole numbers, and the signs of rests and sustains. -/
inductive IsNote : List Char → Prop
  /-- A rest or a sustain. -/
  | sign {c : Char} (hc : isSign c = true) : IsNote [c]
  /-- A number without a sign. -/
  | number {s : List Char} (hs : IsDigits s) : IsNote s
  /-- A number below zero. -/
  | negative {s : List Char} (hs : IsDigits s) : IsNote ('-' :: s)

/-- The texts of note values: digits and a unit. -/
def IsDuration (s : List Char) : Prop := ∃ ds u, IsDigits ds ∧ isUnit u = true ∧ s = ds ++ [u]

/-- The names of attributes. -/
def IsName (s : List Char) : Prop :=
  ∃ c r, isNameStart c = true ∧ (∀ d ∈ r, isNameChar d = true) ∧ s = c :: r

/-- The values of attributes. -/
def IsValue (s : List Char) : Prop := s ≠ [] ∧ ∀ c ∈ s, isAttributeChar c = true

instance : DecidablePred IsValue := fun s =>
  decidable_of_iff (s ≠ [] ∧ s.all isAttributeChar = true)
    (by simp only [IsValue, List.all_eq_true])

/-! ### Words that are recognised -/

theorem lexes_punctuation {c : Char} {kind : TokenKind} (hc : punctuation? c = some kind)
    (hvis : isBlank c = false) : Word.Lexes ⟨kind, [c]⟩ := by
  refine ⟨c, [], rfl, hvis, fun rest _ => ?_⟩
  simp only [scan, hvis, hc, Bool.false_eq_true, if_false, List.length_nil]

theorem Ends.digit {rest : List Char} (h : Ends rest) : ∀ c ∈ rest.head?, isDigit c = false :=
  fun c hc => (isBlank_class (h c hc)).1

theorem scan_digit {c : Char} (hc : isDigit c = true) (r : List Char) :
    scan c r = scanDigits r := by
  obtain ⟨hvis, hpunct, -, -⟩ := isDigit_class hc
  simp only [scan, hvis, hpunct, hc, Bool.false_eq_true, if_false, if_true]

/-- What a blank follows is no attribute. -/
theorem scanAttribute?_ends {rest : List Char} (h : Ends rest) : scanAttribute? rest = none := by
  cases rest with
  | nil => rfl
  | cons c rest =>
    have hc := isBlank_class (h c rfl)
    have hdrop : (c :: rest).dropWhile isNameChar = c :: rest := by simp [hc.2.2.1]
    simp only [scanAttribute?, hdrop]
    split
    · rename_i he
      exact absurd (List.cons.inj he).1 hc.2.2.2.2
    · rfl

theorem lexes_note {s : List Char} (h : IsNote s) : Word.Lexes ⟨.note, s⟩ := by
  cases h with
  | @sign c hc =>
    have hvis : isBlank c = false ∧ punctuation? c = none ∧ isDigit c = false ∧ c ≠ '-' := by
      simp only [isSign, Bool.or_eq_true, beq_iff_eq] at hc
      rcases hc with (rfl | rfl) | rfl <;> decide +kernel
    obtain ⟨hvis, hpunct, hdigit, hminus⟩ := hvis
    refine ⟨c, [], rfl, hvis, fun rest hrest => ?_⟩
    simp only [scan, hvis, hpunct, hdigit, hminus, scanAttribute?_ends hrest, ite_self, hc,
      Bool.false_eq_true, if_false, if_true, List.nil_append, List.length_nil]
  | number hs =>
    obtain ⟨hne, hs⟩ := hs
    cases s with
    | nil => exact absurd rfl hne
    | cons c r =>
      obtain ⟨hc, hr⟩ := List.forall_mem_cons.1 hs
      refine ⟨c, r, rfl, (isDigit_class hc).1, fun rest hrest => ?_⟩
      rw [scan_digit hc]
      simp only [scanDigits, takeWhile_append_stop hr hrest.digit,
        dropWhile_append_stop hr hrest.digit]
      split
      · rename_i u after
        have := hrest u rfl
        rw [(isBlank_class this).2.2.2.1]
        rfl
      · rfl
  | @negative ds hs =>
    obtain ⟨hne, hs⟩ := hs
    refine ⟨'-', ds, rfl, by decide, fun rest hrest => ?_⟩
    have hlex : isBlank '-' = false ∧ punctuation? '-' = none ∧ isDigit '-' = false := by
      decide +kernel
    obtain ⟨n, hn⟩ := Nat.exists_eq_succ_of_ne_zero (List.length_pos_iff.2 hne).ne'
    simp only [scan, hlex, takeWhile_append_stop hs hrest.digit, hn, Bool.false_eq_true, if_false,
      if_true]

theorem lexes_duration {s : List Char} (h : IsDuration s) : Word.Lexes ⟨.duration, s ++ [':']⟩ := by
  obtain ⟨ds, u, ⟨hne, hs⟩, hu, rfl⟩ := h
  cases ds with
  | nil => exact absurd rfl hne
  | cons c r =>
    obtain ⟨hc, hr⟩ := List.forall_mem_cons.1 hs
    refine ⟨c, r ++ [u, ':'], by simp, (isDigit_class hc).1, fun rest _ => ?_⟩
    have hstop : ∀ d ∈ (u :: ':' :: rest).head?, isDigit d = false := by
      rintro d ⟨⟩
      by_contra hd
      rw [(isDigit_class (Bool.not_eq_false _ ▸ hd)).2.2.1] at hu
      cases hu
    rw [scan_digit hc, List.append_assoc]
    simp only [scanDigits, List.cons_append, List.nil_append, takeWhile_append_stop hr hstop,
      dropWhile_append_stop hr hstop, hu, if_true, List.length_append, List.length_cons,
      List.length_nil]

/-- A name, a colon and a character of a value begin an attribute, whatever follows. -/
theorem scanAttribute?_append {r : List Char} {v : Char} (hr : ∀ d ∈ r, isNameChar d = true)
    (hv : isAttributeChar v = true) (rest : List Char) :
    scanAttribute? (r ++ ':' :: v :: rest) =
      some (r.length + 2 + (rest.takeWhile isAttributeChar).length) := by
  have hcolon : ∀ d ∈ (':' :: v :: rest).head?, isNameChar d = false := by
    rintro d ⟨⟩
    decide
  simp only [scanAttribute?, takeWhile_append_stop hr hcolon, dropWhile_append_stop hr hcolon, hv,
    if_true]

theorem lexes_attribute {name value : List Char} (hname : IsName name) (hvalue : IsValue value) :
    Word.Lexes ⟨.attribute, name ++ ':' :: value⟩ := by
  obtain ⟨c, r, hc, hr, rfl⟩ := hname
  obtain ⟨hne, hvalue⟩ := hvalue
  cases value with
  | nil => exact absurd rfl hne
  | cons v vs =>
    obtain ⟨hv, hvs⟩ := List.forall_mem_cons.1 hvalue
    obtain ⟨-, hvis, hpunct, hdigit, hminus⟩ := isNameStart_class hc
    refine ⟨c, r ++ ':' :: v :: vs, rfl, hvis, fun rest hrest => ?_⟩
    have hend : ∀ d ∈ rest.head?, isAttributeChar d = false :=
      fun d hd => (isBlank_class (hrest d hd)).2.1
    have hread := scanAttribute?_append hr hv (vs ++ rest)
    rw [takeWhile_append_stop hvs hend] at hread
    rw [List.append_assoc, List.cons_append, List.cons_append]
    simp only [scan, hvis, hpunct, hdigit, hminus, hc, hread, Bool.false_eq_true, if_false,
      if_true, List.length_append, List.length_cons]
    congr 1
    omega

/-! ### Words with blanks between them -/

/-- A run of blanks, at least one. -/
structure Gap where
  /-- The blanks. -/
  text : List Char
  /-- There is one at least. -/
  filled : text ≠ []
  /-- There is nothing else. -/
  blank : ∀ c ∈ text, isBlank c = true

/-- Words one after another with blanks between them.  The blanks before a word are those of the
number of words after it: `gap 0` stands before the last word. -/
def spaced (gap : Nat → Gap) : List Word → List Char
  | [] => []
  | [w] => w.text
  | w :: v :: ws => w.text ++ (gap ws.length).text ++ spaced gap (v :: ws)

theorem ofText_word {w : Word} (hw : w.Lexes) {rest : List Char} (hrest : Ends rest) (pos : Nat) :
    ofText pos (w.text ++ rest) =
      ⟨.token w.kind, w.text, pos⟩ :: ofText (pos + w.text.length) rest := by
  obtain ⟨c, r, htext, -, hscan⟩ := hw
  rw [htext, List.cons_append, ofText]
  simp only [hscan rest hrest, List.take_left, List.drop_left, List.length_cons]
  rw [Nat.add_right_comm, Nat.add_assoc]

theorem ofText_gap (g : Gap) {rest : List Char} (hrest : Shows rest) (pos : Nat) :
    ofText pos (g.text ++ rest) =
      ⟨.blank, g.text, pos⟩ :: ofText (pos + g.text.length) rest := by
  obtain ⟨text, filled, blank⟩ := g
  cases text with
  | nil => exact absurd rfl filled
  | cons b bs =>
    obtain ⟨hb, hbs⟩ := List.forall_mem_cons.1 blank
    dsimp only
    rw [List.cons_append, ofText]
    simp only [scan, hb, if_true, takeWhile_append_stop hbs hrest, List.take_left, List.drop_left,
      List.length_cons]
    rw [Nat.add_right_comm, Nat.add_assoc]

theorem ends_gap (g : Gap) (rest : List Char) : Ends (g.text ++ rest) := by
  obtain ⟨text, filled, blank⟩ := g
  cases text with
  | nil => exact absurd rfl filled
  | cons b bs =>
    rintro c ⟨⟩
    exact blank b List.mem_cons_self

theorem shows_spaced (gap : Nat → Gap) {w : Word} (hw : w.Lexes) (ws : List Word) :
    Shows (spaced gap (w :: ws)) := by
  obtain ⟨c, r, htext, hvis, -⟩ := hw
  cases ws <;>
  · rintro d hd
    simp only [spaced, htext, List.cons_append, List.append_assoc, List.head?_cons,
      Option.mem_some_iff] at hd
    rwa [← hd]

/-- **Words with blanks between them are read as they are**, and nothing else is. -/
theorem lexemes_spaced (gap : Nat → Gap) (ws : List Word) (h : ∀ w ∈ ws, w.Lexes) (pos : Nat) :
    ((ofText pos (spaced gap ws)).filterMap (·.token?)).map Token.word = ws ∧
      (ofText pos (spaced gap ws)).filterMap (·.stray?) = [] := by
  induction ws generalizing pos with
  | nil => simp [spaced, ofText]
  | cons w ws ih =>
    obtain ⟨hw, hws⟩ := List.forall_mem_cons.1 h
    cases ws with
    | nil =>
      have hend : Ends [] := fun c hc => absurd hc (Option.not_mem_none c)
      have hread := ofText_word hw hend pos
      rw [List.append_nil] at hread
      rw [spaced, hread]
      simp [ofText, token?, stray?, Token.word]
    | cons v ws =>
      have hshows := shows_spaced gap (List.forall_mem_cons.1 hws).1 ws
      obtain ⟨htokens, hstray⟩ := ih hws (pos + w.text.length + (gap ws.length).text.length)
      rw [spaced, List.append_assoc, ofText_word hw (ends_gap _ _), ofText_gap _ hshows]
      constructor
      · simp only [List.filterMap_cons, token?, List.map_cons]
        exact congrArg (w :: ·) htokens
      · simp only [List.filterMap_cons, stray?]
        exact hstray

/-! ### Words that were recognised -/

section

variable {c : Char} {r : List Char} {kind : TokenKind} {n : Nat}

/-- What can begin with a character: its kind and the number of characters after the first one. -/
inductive Scans (c : Char) (r : List Char) : LexemeKind → Nat → Prop
  /-- As many blanks as there are. -/
  | blank (hc : isBlank c = true) : Scans c r .blank (r.takeWhile isBlank).length
  /-- A bracket or a comma. -/
  | punctuation {kind : TokenKind} (hc : punctuation? c = some kind) : Scans c r (.token kind) 0
  /-- Digits with a unit and a colon after them. -/
  | duration {u : Char} {rest : List Char} (hc : isDigit c = true) (hu : isUnit u = true)
    (after : r.dropWhile isDigit = u :: ':' :: rest) :
    Scans c r (.token .duration) ((r.takeWhile isDigit).length + 2)
  /-- Digits. -/
  | number (hc : isDigit c = true) : Scans c r (.token .note) (r.takeWhile isDigit).length
  /-- A minus sign with digits after it. -/
  | negative (hc : c = '-') (some : r.takeWhile isDigit ≠ []) :
    Scans c r (.token .note) (r.takeWhile isDigit).length
  /-- A name with a colon and a value after it. -/
  | named {n : Nat} (hc : isNameStart c = true) (found : scanAttribute? r = some n) :
    Scans c r (.token .attribute) n
  /-- A rest or a sustain. -/
  | sign (hc : isSign c = true) : Scans c r (.token .note) 0
  /-- A character that begins nothing else. -/
  | stray (visible : isBlank c = false) (bracket : punctuation? c = none)
    (digit : isDigit c = false) (sign : isSign c = false)
    (minus : c = '-' → r.takeWhile isDigit = [])
    (nameless : isNameStart c = true → scanAttribute? r = none) : Scans c r .stray 0

/-- **What is scanned is one of these.** -/
theorem scans {kind : LexemeKind} (h : scan c r = (kind, n)) : Scans c r kind n := by
  simp only [scan] at h
  split at h
  · rename_i blank
    cases h
    exact .blank blank
  rename_i visible
  split at h
  · rename_i bracket
    cases h
    exact .punctuation bracket
  rename_i bracket
  split at h
  · rename_i digit
    simp only [scanDigits] at h
    split at h
    · rename_i after
      split at h
      · rename_i unit
        cases h
        exact .duration digit unit after
      · cases h
        exact .number digit
    · cases h
      exact .number digit
  rename_i digit
  rw [Bool.not_eq_true] at visible digit
  split at h
  · rename_i minus
    split at h
    · rename_i none
      have other : isNameStart c = false ∧ isSign c = false := by
        subst minus
        decide
      cases h
      refine .stray visible bracket digit other.2 (fun _ => List.length_eq_zero_iff.1 none) ?_
      intro begins
      rw [other.1] at begins
      cases begins
    · rename_i some
      cases h
      exact .negative minus fun none => some (List.length_eq_zero_iff.2 none)
  rename_i minus
  split at h
  · rename_i found
    cases h
    split at found
    · rename_i begins
      exact .named begins found
    · cases found
  rename_i nameless
  split at h
  · rename_i sign
    cases h
    exact .sign sign
  · rename_i sign
    cases h
    refine .stray visible bracket digit (Bool.not_eq_true _ ▸ sign)
      (fun same => absurd same minus) ?_
    intro begins
    rwa [if_pos begins] at nameless

theorem scan_blank (h : scan c r = (.blank, n)) :
    isBlank c = true ∧ n = (r.takeWhile isBlank).length := by
  cases scans h with
  | blank hc => exact ⟨hc, rfl⟩

/-- When a character is stray: it is no blank, bracket, digit or sign, no digit follows it if it is
a minus sign, and it begins no attribute. -/
theorem scan_stray (h : scan c r = (.stray, n)) :
    n = 0 ∧ isBlank c = false ∧ punctuation? c = none ∧ isDigit c = false ∧ isSign c = false ∧
      (c = '-' → r.takeWhile isDigit = []) ∧ (isNameStart c = true → scanAttribute? r = none) := by
  cases scans h with
  | stray visible bracket digit sign minus nameless =>
    exact ⟨rfl, visible, bracket, digit, sign, minus, nameless⟩

theorem punctuation?_kind (h : punctuation? c = some kind) :
    kind ≠ .duration ∧ kind ≠ .attribute ∧ kind ≠ .note := by
  simp only [punctuation?] at h
  split at h <;> cases h <;> decide

theorem take_takeWhile (p : Char → Bool) (r : List Char) :
    r.take (r.takeWhile p).length = r.takeWhile p :=
  (List.prefix_iff_eq_take.1 (List.takeWhile_prefix p)).symm

theorem isDigits_takeWhile (hc : isDigit c = true) : IsDigits (c :: r.takeWhile isDigit) :=
  ⟨List.cons_ne_nil _ _, List.forall_mem_cons.2 ⟨hc, fun _ => List.mem_takeWhile_imp⟩⟩

/-- What was recognised as a note value has digits and a unit before its colon. -/
theorem isDuration_of_scan (h : scan c r = (.token .duration, n)) :
    ∃ s, IsDuration s ∧ c :: r.take n = s ++ [':'] := by
  cases scans h with
  | punctuation hc => exact absurd rfl (punctuation?_kind hc).1
  | @duration u rest hc hu after =>
    have taken : r.take ((r.takeWhile isDigit).length + 2) =
        r.takeWhile isDigit ++ [u, ':'] := by
      have split : (r.takeWhile isDigit ++ r.dropWhile isDigit).take
          ((r.takeWhile isDigit).length + 2) =
          r.takeWhile isDigit ++ (r.dropWhile isDigit).take 2 := List.take_length_add_append 2
      rwa [List.takeWhile_append_dropWhile, after] at split
    refine ⟨c :: r.takeWhile isDigit ++ [u], ⟨_, u, isDigits_takeWhile hc, hu, rfl⟩, ?_⟩
    rw [taken]
    simp

/-- What was recognised as an attribute has a name and a value around its colon. -/
theorem isAttribute_of_scan (h : scan c r = (.token .attribute, n)) :
    ∃ name value, IsName name ∧ IsValue value ∧ c :: r.take n = name ++ ':' :: value := by
  cases scans h with
  | punctuation hc => exact absurd rfl (punctuation?_kind hc).2.1
  | named begins found =>
    simp only [scanAttribute?] at found
    split at found
    · rename_i v value after
      split at found
      · rename_i hv
        cases found
        have taken : r.take ((r.takeWhile isNameChar).length +
            ((value.takeWhile isAttributeChar).length + 2)) =
            r.takeWhile isNameChar ++ ':' :: v :: value.takeWhile isAttributeChar := by
          have split : (r.takeWhile isNameChar ++ r.dropWhile isNameChar).take
              ((r.takeWhile isNameChar).length + ((value.takeWhile isAttributeChar).length + 2)) =
              r.takeWhile isNameChar ++
                (r.dropWhile isNameChar).take ((value.takeWhile isAttributeChar).length + 2) :=
            List.take_length_add_append _
          rwa [List.takeWhile_append_dropWhile, after, List.take_succ_cons, List.take_succ_cons,
            take_takeWhile] at split
        refine ⟨c :: r.takeWhile isNameChar, v :: value.takeWhile isAttributeChar,
          ⟨c, _, begins, fun _ => List.mem_takeWhile_imp, rfl⟩,
          ⟨List.cons_ne_nil _ _,
            List.forall_mem_cons.2 ⟨hv, fun _ => List.mem_takeWhile_imp⟩⟩, ?_⟩
        rw [Nat.add_assoc, Nat.add_comm 2, taken, List.cons_append]
      · cases found
    · cases found

/-- What was recognised as a note is a number, a rest or a sustain. -/
theorem isNote_of_scan (h : scan c r = (.token .note, n)) : IsNote (c :: r.take n) := by
  cases scans h with
  | punctuation hc => exact absurd rfl (punctuation?_kind hc).2.2
  | number hc =>
    rw [take_takeWhile]
    exact .number (isDigits_takeWhile hc)
  | negative hc some =>
    rw [hc, take_takeWhile]
    exact .negative ⟨some, fun _ => List.mem_takeWhile_imp⟩
  | sign hc => exact .sign hc

end

end ChordSequencer.Notation
