import ChordSequencer.Notation.Reading
import ChordSequencer.Proofs.Acceptance
import ChordSequencer.Proofs.Lexemes
import Mathlib.Data.List.Flatten

/-!
# Reading undoes printing

A song of the nested form is printed word by word: the items of a block and then its attributes, a
note value with its colon before what it holds for, and commas between blocks and between parts.
Between two words any blanks may stand.  A song whose notes, note values, names and values have the
form of words is read back as it was printed (`read_print`).

* `songTokens_of_words` : tokens that are the printed words of a song derive from the grammar as
  those of the song, rule by rule.  The words do not say where the tokens of one item end, so they
  are cut first (`exists_pieces`).
* `lexes_song` : each printed word is read as itself.
-/

namespace ChordSequencer.Notation

open OpenBlock (textOf durationOf attributeOf)
open Lexeme (isNameChar)
open Text

/-! ### Printing -/

/-- The word before a note or a group with a note value. -/
def durationWord (duration : String) : Word := ⟨.duration, duration.toList ++ [':']⟩

/-- The word of an attribute. -/
def attributeWord (a : Attribute) : Word := ⟨.attribute, a.name.toList ++ ':' :: a.value.toList⟩

/-- The comma. -/
def commaWord : Word := ⟨.comma, [',']⟩

mutual

/-- The words of some items. -/
def itemsWords : List Item → List Word
  | [] => []
  | i :: is => itemWords i ++ itemsWords is

/-- The words of an item. -/
def itemWords : Item → List Word
  | .note value none => [⟨.note, value.toList⟩]
  | .note value (some duration) => [durationWord duration, ⟨.note, value.toList⟩]
  | .group duration items =>
    durationWord duration :: ⟨.openParen, ['(']⟩ :: itemsWords items ++ [⟨.closeParen, [')']⟩]

end

/-- Words in braces. -/
def inBraces (ws : List Word) : List Word := ⟨.openBrace, ['{']⟩ :: ws ++ [⟨.closeBrace, ['}']⟩]

/-- The words of a block: its items, then its attributes. -/
def blockWords (b : NestedBlock) : List Word :=
  inBraces (itemsWords b.items ++ b.attributes.map attributeWord)

/-- The words of a part. -/
def partWords (blocks : List NestedBlock) : List Word :=
  inBraces ([commaWord].intercalate (blocks.map blockWords))

/-- The words of a song. -/
def songWords (parts : List (List NestedBlock)) : List Word :=
  inBraces ([commaWord].intercalate (parts.map partWords))

/-- A song as a text, with the given blanks between the words. -/
def print (gap : Nat → Gap) (parts : List (List NestedBlock)) : String :=
  String.ofList (spaced gap (songWords parts))

/-! ### What can be printed -/

/-- The texts of an item are those of words, and its groups are not empty. -/
inductive Item.Written : Item → Prop
  /-- A note. -/
  | note {value : String} {own : Option String} (hv : IsNote value.toList)
      (ho : ∀ d ∈ own, IsDuration d.toList) : Written (.note value own)
  /-- A group. -/
  | group {duration : String} {items : List Item} (hd : IsDuration duration.toList)
      (filled : items ≠ []) (each : ∀ i ∈ items, i.Written) : Written (.group duration items)

theorem Item.Written.plain {value : String} (hv : IsNote value.toList) :
    Item.Written (.note value none) :=
  .note hv fun d hd => absurd hd (Option.not_mem_none d)

/-- The texts of a block are those of words, and it plays something. -/
structure NestedBlock.Written (b : NestedBlock) : Prop where
  /-- There is an item. -/
  filled : b.items ≠ []
  /-- The items can be printed. -/
  items : ∀ i ∈ b.items, i.Written
  /-- The attributes have the names and values of attributes. -/
  attributes : ∀ a ∈ b.attributes, IsName a.name.toList ∧ IsValue a.value.toList

/-- A song of at least one part of at least one block each, which can be printed. -/
def WrittenSong (parts : List (List NestedBlock)) : Prop :=
  parts ≠ [] ∧ ∀ part ∈ parts, part ≠ [] ∧ ∀ b ∈ part, b.Written

/-! ### The tokens of printed words -/

section

variable {α : Type} {R : α → List Token → Prop} {f : α → List Word}

theorem itemsWords_eq (is : List Item) : itemsWords is = is.flatMap itemWords := by
  induction is with
  | nil => rfl
  | cons i is ih => rw [itemsWords, ih, List.flatMap_cons]

/-- Tokens that are the words of several things are cut into the tokens of each. -/
theorem exists_pieces (as : List α) (h : ∀ a ∈ as, ∀ ts, ts.map Token.word = f a → R a ts) :
    ∀ ts, ts.map Token.word = as.flatMap f → ∃ pieces : List (α × List Token),
      pieces.map (·.1) = as ∧ pieces.flatMap (·.2) = ts ∧ ∀ p ∈ pieces, R p.1 p.2 := by
  induction as with
  | nil =>
    intro ts hts
    exact ⟨[], rfl, (List.map_eq_nil_iff.1 hts).symm, fun p hp => nomatch hp⟩
  | cons a as ih =>
    intro ts hts
    obtain ⟨us, vs, rfl, hus, hvs⟩ := List.map_eq_append_iff.1 hts
    obtain ⟨pieces, rfl, rfl, hpieces⟩ := ih (fun b hb => h b (List.mem_cons_of_mem _ hb)) vs hvs
    refine ⟨(a, us) :: pieces, rfl, rfl, ?_⟩
    exact List.forall_mem_cons.2 ⟨h a List.mem_cons_self us hus, hpieces⟩

theorem separated_of_words (as : List α) (filled : as ≠ [])
    (h : ∀ a ∈ as, ∀ ts, ts.map Token.word = f a → R a ts) :
    ∀ ts, ts.map Token.word = [commaWord].intercalate (as.map f) → Separated R as ts := by
  induction as with
  | nil => exact absurd rfl filled
  | cons a as ih =>
    intro ts hts
    cases as with
    | nil => exact .one (h a List.mem_cons_self ts (by simpa using hts))
    | cons b as =>
      rw [List.map_cons, List.map_cons, List.intercalate_cons_cons, List.append_assoc] at hts
      obtain ⟨us, vs, rfl, hus, hvs⟩ := List.map_eq_append_iff.1 hts
      obtain ⟨c, ws, rfl, hc, hws⟩ := List.map_eq_cons_iff.1 hvs
      have hkind : c.kind = .comma := congrArg Word.kind hc
      exact .cons (h a List.mem_cons_self us hus) hkind
        (ih (List.cons_ne_nil _ _) (fun x hx => h x (List.mem_cons_of_mem _ hx)) ws hws)

theorem braced_of_words {Q : List Token → Prop} {ws : List Word}
    (h : ∀ us, us.map Token.word = ws → Q us) :
    ∀ ts, ts.map Token.word = inBraces ws → Braced Q ts := by
  intro ts hts
  obtain ⟨us, vs, rfl, hus, hvs⟩ := List.map_eq_append_iff.1 hts
  obtain ⟨o, us, rfl, ho, hus⟩ := List.map_eq_cons_iff.1 hus
  obtain ⟨c, vs, rfl, hc, hvs⟩ := List.map_eq_cons_iff.1 hvs
  cases List.map_eq_nil_iff.1 hvs
  exact ⟨o, us, c, congrArg Word.kind ho, h us hus, congrArg Word.kind hc, rfl⟩

end

theorem durationOf_word {d : Token} {duration : String} (h : d.word = durationWord duration) :
    durationOf d = duration := by
  have htext : d.text = duration.toList ++ [':'] := congrArg Word.text h
  rw [durationOf, htext, List.dropLast_concat, String.ofList_toList]

theorem textOf_word {n : Token} {value : String} (h : n.word = ⟨.note, value.toList⟩) :
    textOf n = value := by
  have htext : n.text = value.toList := congrArg Word.text h
  rw [textOf, htext, String.ofList_toList]

theorem itemTokens_of_words {i : Item} (h : i.Written) :
    ∀ ts, ts.map Token.word = itemWords i → ItemTokens i ts := by
  induction h with
  | @note value own _ _ =>
    intro ts hts
    cases own with
    | none =>
      obtain ⟨n, ts, rfl, hn, hts⟩ := List.map_eq_cons_iff.1 hts
      cases List.map_eq_nil_iff.1 hts
      rw [← textOf_word hn]
      exact .note (congrArg Word.kind hn)
    | some duration =>
      obtain ⟨d, ts, rfl, hd, hts⟩ := List.map_eq_cons_iff.1 hts
      obtain ⟨n, ts, rfl, hn, hts⟩ := List.map_eq_cons_iff.1 hts
      cases List.map_eq_nil_iff.1 hts
      rw [← textOf_word hn, ← durationOf_word hd]
      exact .timed (congrArg Word.kind hd) (congrArg Word.kind hn)
  | @group duration items _ filled _ ih =>
    intro ts hts
    obtain ⟨us, vs, rfl, hus, hvs⟩ := List.map_eq_append_iff.1 hts
    obtain ⟨d, us, rfl, hd, hus⟩ := List.map_eq_cons_iff.1 hus
    obtain ⟨o, us, rfl, ho, hus⟩ := List.map_eq_cons_iff.1 hus
    obtain ⟨c, vs, rfl, hc, hvs⟩ := List.map_eq_cons_iff.1 hvs
    cases List.map_eq_nil_iff.1 hvs
    rw [itemsWords_eq] at hus
    obtain ⟨inner, rfl, rfl, hinner⟩ := exists_pieces items ih us hus
    rw [← durationOf_word hd]
    exact .group (congrArg Word.kind hd) (congrArg Word.kind ho) (congrArg Word.kind hc)
      (by simpa using filled) hinner

theorem attributeOf_word {t : Token} {a : Attribute} (hname : IsName a.name.toList)
    (h : t.word = attributeWord a) : attributeOf t = a := by
  have htext : t.text = a.name.toList ++ ':' :: a.value.toList := congrArg Word.text h
  have hchars : ∀ c ∈ a.name.toList, decide (c ≠ ':') = true := by
    obtain ⟨c, r, hc, hr, hs⟩ := hname
    rw [hs]
    intro d hd
    have hd : isNameChar d = true := by
      rcases List.mem_cons.1 hd with rfl | hd
      · exact (isNameStart_class hc).1
      · exact hr d hd
    have hcolon : isNameChar ':' = false := by decide
    rw [decide_eq_true_eq]
    rintro rfl
    rw [hcolon] at hd
    cases hd
  have hcolon : ∀ c ∈ (':' :: a.value.toList).head?, decide (c ≠ ':') = false := by
    rintro c ⟨⟩
    decide
  simp only [attributeOf, htext, takeWhile_append_stop hchars hcolon,
    dropWhile_append_stop hchars hcolon, List.tail_cons, String.ofList_toList]

theorem bodyTokens_attributes (as : List Attribute) (h : ∀ a ∈ as, IsName a.name.toList) :
    ∀ ts, ts.map Token.word = as.map attributeWord → BodyTokens [] as ts := by
  induction as with
  | nil =>
    intro ts hts
    cases List.map_eq_nil_iff.1 hts
    exact .nil
  | cons a as ih =>
    intro ts hts
    obtain ⟨t, ts, rfl, ht, hts⟩ := List.map_eq_cons_iff.1 hts
    rw [← attributeOf_word (h a List.mem_cons_self) ht]
    exact .attr (congrArg Word.kind ht) (ih (fun b hb => h b (List.mem_cons_of_mem _ hb)) ts hts)

theorem bodyTokens_items (pieces : List (Item × List Token))
    (h : ∀ p ∈ pieces, ItemTokens p.1 p.2) :
    BodyTokens (pieces.map (·.1)) [] (pieces.flatMap (·.2)) := by
  induction pieces with
  | nil => exact .nil
  | cons p pieces ih =>
    obtain ⟨hp, hpieces⟩ := List.forall_mem_cons.1 h
    exact .item hp (ih hpieces)

theorem blockTokens_of_words {b : NestedBlock} (h : b.Written) :
    ∀ ts, ts.map Token.word = blockWords b → BlockTokens b ts := by
  refine braced_of_words fun us hus => ⟨h.filled, ?_⟩
  obtain ⟨ts, vs, rfl, hts, hvs⟩ := List.map_eq_append_iff.1 hus
  rw [itemsWords_eq] at hts
  obtain ⟨pieces, hitems, rfl, hpieces⟩ :=
    exists_pieces b.items (fun i hi => itemTokens_of_words (h.items i hi)) ts hts
  have hbody := (bodyTokens_items pieces hpieces).append
    (bodyTokens_attributes b.attributes (fun a ha => (h.attributes a ha).1) vs hvs)
  rwa [hitems, List.append_nil, List.nil_append] at hbody

theorem songTokens_of_words {parts : List (List NestedBlock)} (h : WrittenSong parts) :
    ∀ ts, ts.map Token.word = songWords parts → SongTokens parts ts :=
  braced_of_words <| separated_of_words parts h.1 fun part hpart =>
    braced_of_words <| separated_of_words part (h.2 part hpart).1 fun b hb =>
      blockTokens_of_words ((h.2 part hpart).2 b hb)

/-! ### The words are recognised -/

theorem lexes_inBraces {ws : List Word} (h : ∀ w ∈ ws, w.Lexes) : ∀ w ∈ inBraces ws, w.Lexes := by
  intro w hw
  simp only [inBraces, List.cons_append, List.mem_cons, List.mem_append, List.not_mem_nil,
    or_false] at hw
  rcases hw with rfl | hw | rfl
  · exact lexes_punctuation rfl (by decide)
  · exact h w hw
  · exact lexes_punctuation rfl (by decide)

theorem lexes_intercalate {wss : List (List Word)} (h : ∀ ws ∈ wss, ∀ w ∈ ws, w.Lexes) :
    ∀ w ∈ [commaWord].intercalate wss, w.Lexes := by
  intro w hw
  rcases mem_intercalate hw with rfl | ⟨ws, hws, hw⟩
  · exact lexes_punctuation rfl (by decide)
  · exact h ws hws w hw

theorem lexes_item {i : Item} (h : i.Written) : ∀ w ∈ itemWords i, w.Lexes := by
  induction h with
  | @note value own hv ho =>
    cases own with
    | none => exact List.forall_mem_singleton.2 (lexes_note hv)
    | some duration =>
      exact List.forall_mem_cons.2 ⟨lexes_duration (ho duration rfl),
        List.forall_mem_singleton.2 (lexes_note hv)⟩
  | @group duration items hd _ _ ih =>
    intro w hw
    simp only [itemWords, itemsWords_eq, List.cons_append, List.mem_cons, List.mem_append,
      List.mem_flatMap, List.not_mem_nil, or_false] at hw
    rcases hw with rfl | rfl | ⟨i, hi, hw⟩ | rfl
    · exact lexes_duration hd
    · exact lexes_punctuation rfl (by decide)
    · exact ih i hi w hw
    · exact lexes_punctuation rfl (by decide)

theorem lexes_block {b : NestedBlock} (h : b.Written) : ∀ w ∈ blockWords b, w.Lexes := by
  refine lexes_inBraces fun w hw => ?_
  rcases List.mem_append.1 hw with hw | hw
  · rw [itemsWords_eq] at hw
    obtain ⟨i, hi, hw⟩ := List.mem_flatMap.1 hw
    exact lexes_item (h.items i hi) w hw
  · obtain ⟨a, ha, rfl⟩ := List.mem_map.1 hw
    exact lexes_attribute (h.attributes a ha).1 (h.attributes a ha).2

theorem lexes_song {parts : List (List NestedBlock)} (h : WrittenSong parts) :
    ∀ w ∈ songWords parts, w.Lexes := by
  refine lexes_inBraces (lexes_intercalate fun ws hws => ?_)
  obtain ⟨part, hpart, rfl⟩ := List.mem_map.1 hws
  refine lexes_inBraces (lexes_intercalate fun ws hws => ?_)
  obtain ⟨b, hb, rfl⟩ := List.mem_map.1 hws
  exact lexes_block ((h.2 part hpart).2 b hb)

theorem toList_print (gap : Nat → Gap) (parts : List (List NestedBlock)) :
    ∃ r, (print gap parts).toList = '{' :: r := by
  simp only [print, songWords, inBraces, String.toList_ofList, List.cons_append]
  cases [commaWord].intercalate (parts.map partWords) <;> exact ⟨_, rfl⟩

/-- **Reading undoes printing**, whatever blanks are printed between the words. -/
theorem read_print (gap : Nat → Gap) {parts : List (List NestedBlock)} (h : WrittenSong parts) :
    read (print gap parts) = .success (.nested parts) := by
  obtain ⟨htokens, hstray⟩ := lexemes_spaced gap (songWords parts) (lexes_song h) 0
  have hread : readNested (print gap parts).toList = .success (.nested parts) := by
    rw [print, String.toList_ofList]
    exact readNested_of_songTokens hstray (songTokens_of_words h _ htokens)
  obtain ⟨r, hr⟩ := toList_print gap parts
  have hbrace : isBlank '{' = false := by decide
  simp only [read]
  rw [hr] at hread ⊢
  rw [List.dropWhile_cons_of_neg (by rw [hbrace]; exact Bool.false_ne_true)]
  exact hread

/-- A song with what is easy to mistake: a digit of another script, a number below zero, a rest that
is also the name of an attribute, and a group in a group. -/
def sample : List (List NestedBlock) :=
  [[⟨[.note "-٣" none, .group "4n" [.note "s" none, .group "8t" [.note "=" (some "2m")]]],
      [⟨"s", "-1"⟩, ⟨"repeat", "2"⟩]⟩,
    ⟨[.note "7" none], []⟩], [⟨[.note "." none], []⟩]]

/-- A line feed and a tab before every second word from the last one on, and a space before the
others. -/
def sampleGap (n : Nat) : Gap :=
  if n % 2 = 0 then ⟨['\n', '\t'], by decide, List.all_eq_true.1 rfl⟩
  else ⟨[' '], by decide, List.all_eq_true.1 rfl⟩

theorem written_sample : WrittenSong sample := by
  have hsustain : Item.Written (.group "8t" [.note "=" (some "2m")]) := by
    refine .group ⟨['8'], 't', by decide, by decide, rfl⟩ (by decide) ?_
    refine List.forall_mem_singleton.2 (.note (.sign (by decide)) ?_)
    rintro d ⟨⟩
    exact ⟨['2'], 'm', by decide, by decide, rfl⟩
  have hgroup : Item.Written
      (.group "4n" [.note "s" none, .group "8t" [.note "=" (some "2m")]]) := by
    refine .group ⟨['4'], 'n', by decide, by decide, rfl⟩ (by decide) ?_
    have hrest : Item.Written (.note "s" none) := .plain (.sign (by decide))
    exact List.forall_mem_cons.2 ⟨hrest, List.forall_mem_singleton.2 hsustain⟩
  have hnegative : Item.Written (.note "-٣" none) := .plain (.negative (by decide))
  have hnumber : Item.Written (.note "7" none) := .plain (.number (by decide))
  have hdot : Item.Written (.note "." none) := .plain (.sign (by decide))
  refine ⟨by decide, List.forall_mem_cons.2 ⟨⟨by decide, List.forall_mem_cons.2 ⟨?_, ?_⟩⟩, ?_⟩⟩
  · refine ⟨by decide, List.forall_mem_cons.2 ⟨hnegative, List.forall_mem_singleton.2 hgroup⟩, ?_⟩
    refine List.forall_mem_cons.2
      ⟨⟨⟨'s', [], by decide, List.all_eq_true.1 rfl, rfl⟩, by decide⟩, ?_⟩
    exact List.forall_mem_singleton.2
      ⟨⟨'r', ['e', 'p', 'e', 'a', 't'], by decide, List.all_eq_true.1 rfl, rfl⟩, by decide⟩
  · exact List.forall_mem_singleton.2 ⟨by decide, List.forall_mem_singleton.2 hnumber,
      List.forall_mem_nil _⟩
  · refine List.forall_mem_singleton.2 ⟨by decide, List.forall_mem_singleton.2 ?_⟩
    exact ⟨by decide, List.forall_mem_singleton.2 hdot, List.forall_mem_nil _⟩

theorem read_print_sample : WrittenSong sample ∧
    read (print sampleGap sample) = .success (.nested sample) :=
  ⟨written_sample, read_print sampleGap written_sample⟩

end ChordSequencer.Notation
