import ChordSequencer.Proofs.Acceptance
import Mathlib.Data.List.Chain

/-!
# Commas before attributes

The grammar of the reader lets a comma follow an attribute.  Blocks can also be described the other
way round, with commas before the attributes that end them: `{ … , attribute, attribute }` where
items and attributes stand in any order before the first comma.  Songs and parts are the same.

The reader accepts such a song if and only if no comma stands right behind an item
(`readNested_tailed_iff`): only then is each comma behind an attribute.

* `TailTokens.body` : a tail behind an attribute, by the rules of the reader's grammar.
* `MixedTokens.last_cases` : what the last token of items and attributes belongs to.
* `CommasApart` : no comma stands right behind an item.  It holds of every song that the reader
  accepts (`commasApart_of_songTokens`).
-/

namespace ChordSequencer.Notation

open OpenBlock (textOf attributeOf)

/-! ### The rules -/

/-- The tokens of items and attributes in any order, without commas. -/
inductive MixedTokens : List Item → List Attribute → List Token → Prop
  /-- Nothing more. -/
  | nil : MixedTokens [] [] []
  /-- An item first. -/
  | item {i : Item} {is : List Item} {as : List Attribute} {ts us : List Token}
      (h : ItemTokens i ts) (rest : MixedTokens is as us) : MixedTokens (i :: is) as (ts ++ us)
  /-- An attribute first. -/
  | attr {a : Token} {is : List Item} {as : List Attribute} {us : List Token}
      (ha : a.kind = .attribute) (rest : MixedTokens is as us) :
      MixedTokens is (attributeOf a :: as) (a :: us)

/-- The tokens of attributes with a comma before each. -/
inductive TailTokens : List Attribute → List Token → Prop
  /-- Nothing more. -/
  | nil : TailTokens [] []
  /-- A comma and an attribute first. -/
  | cons {c a : Token} {as : List Attribute} {us : List Token} (hc : c.kind = .comma)
      (ha : a.kind = .attribute) (rest : TailTokens as us) :
      TailTokens (attributeOf a :: as) (c :: a :: us)

/-- The tokens of a block with a tail. -/
def TailedBlockTokens (b : NestedBlock) : List Token → Prop :=
  Braced fun us => b.items ≠ [] ∧ ∃ as bs ts vs, MixedTokens b.items as ts ∧ TailTokens bs vs ∧
    b.attributes = as ++ bs ∧ us = ts ++ vs

/-- The tokens of a part of blocks with tails. -/
def TailedPartTokens (blocks : List NestedBlock) : List Token → Prop :=
  Braced (Separated TailedBlockTokens blocks)

/-- The tokens of a song of blocks with tails. -/
def TailedSongTokens (parts : List (List NestedBlock)) : List Token → Prop :=
  Braced (Separated TailedPartTokens parts)

/-- The token is the last one of an item. -/
def Token.EndsItem (t : Token) : Prop := t.kind = .note ∨ t.kind = .closeParen

/-- No comma stands right behind an item. -/
def CommasApart (ts : List Token) : Prop := ts.IsChain fun t u => t.EndsItem → u.kind ≠ .comma

/-! ### Tails behind attributes -/

theorem MixedTokens.body {is : List Item} {as : List Attribute} {ts : List Token}
    (h : MixedTokens is as ts) : BodyTokens is as ts := by
  induction h with
  | nil => exact .nil
  | item hi _ ih => exact .item hi ih
  | attr ha _ ih => exact .attr ha ih

/-- A comma before an attribute is one behind the attribute before it. -/
theorem TailTokens.body {bs : List Attribute} {vs : List Token} (h : TailTokens bs vs) :
    ∀ {a : Token}, a.kind = .attribute → BodyTokens [] (attributeOf a :: bs) (a :: vs) := by
  induction h with
  | nil => exact fun ha => .attr ha .nil
  | cons hc ha' _ ih => exact fun ha => .attrComma ha hc (ih ha')

theorem ItemTokens.last {i : Item} {ts : List Token} (h : ItemTokens i ts) :
    ∃ init t, ts = init ++ [t] ∧ t.EndsItem := by
  cases h with
  | note hn => exact ⟨[], _, rfl, .inl hn⟩
  | timed hd hn => exact ⟨[_], _, rfl, .inl hn⟩
  | group hd ho hc filled each => exact ⟨_, _, rfl, .inr hc⟩

/-- The last token of items and attributes ends an item, or it is an attribute. -/
theorem MixedTokens.last_cases {is : List Item} {as : List Attribute} {ts : List Token}
    (h : MixedTokens is as ts) : (is = [] ∧ as = [] ∧ ts = []) ∨
      (∃ init t, ts = init ++ [t] ∧ t.EndsItem) ∨
      ∃ before a init, as = before ++ [attributeOf a] ∧ a.kind = .attribute ∧ ts = init ++ [a] ∧
        MixedTokens is before init := by
  induction h with
  | nil => exact .inl ⟨rfl, rfl, rfl⟩
  | @item i is as ts us hi _ ih =>
    rcases ih with ⟨-, -, rfl⟩ | ⟨init, t, rfl, ht⟩ | ⟨before, a, init, rfl, ha, rfl, hinit⟩
    · obtain ⟨init, t, rfl, ht⟩ := hi.last
      exact .inr (.inl ⟨init, t, List.append_nil _, ht⟩)
    · exact .inr (.inl ⟨ts ++ init, t, (List.append_assoc ..).symm, ht⟩)
    · exact .inr (.inr ⟨before, a, ts ++ init, rfl, ha, (List.append_assoc ..).symm,
        .item hi hinit⟩)
  | @attr b is as us hb _ ih =>
    rcases ih with ⟨rfl, rfl, rfl⟩ | ⟨init, t, rfl, ht⟩ | ⟨before, a, init, rfl, ha, rfl, hinit⟩
    · exact .inr (.inr ⟨[], b, [], rfl, hb, rfl, .nil⟩)
    · exact .inr (.inl ⟨b :: init, t, rfl, ht⟩)
    · exact .inr (.inr ⟨attributeOf b :: before, a, b :: init, rfl, ha, rfl, .attr hb hinit⟩)

/-- A body with a tail is a body if no comma stands right behind an item. -/
theorem MixedTokens.body_append {is : List Item} {as bs : List Attribute} {ts vs : List Token}
    (h : MixedTokens is as ts) (filled : is ≠ []) (tail : TailTokens bs vs)
    (apart : CommasApart (ts ++ vs)) : BodyTokens is (as ++ bs) (ts ++ vs) := by
  cases tail with
  | nil => simpa using h.body
  | @cons c a bs vs hc ha rest =>
    rcases h.last_cases with ⟨none, -, -⟩ | ⟨init, t, rfl, ht⟩ |
      ⟨before, b, init, rfl, hb, rfl, hinit⟩
    · exact absurd none filled
    · rw [CommasApart, List.append_assoc, List.singleton_append, List.isChain_append_cons_cons]
        at apart
      exact absurd hc (apart.2.1 ht)
    · simpa using hinit.body.append (.attrComma hb hc (rest.body ha))

/-! ### From one grammar to the other -/

theorem Braced.imp {P Q : List Token → Prop} {ts : List Token} (h : Braced P ts)
    (inside : ∀ us, us <:+: ts → P us → Q us) : Braced Q ts := by
  obtain ⟨o, us, c, ho, hus, hc, rfl⟩ := h
  exact ⟨o, us, c, ho, inside us ⟨[o], [c], rfl⟩ hus, hc, rfl⟩

theorem Separated.imp {α : Type} {R S : α → List Token → Prop} {as : List α} {ts : List Token}
    (h : Separated R as ts) (each : ∀ a us, us <:+: ts → R a us → S a us) : Separated S as ts := by
  induction h with
  | one ha => exact .one (each _ _ List.infix_rfl ha)
  | @cons a as c ts us ha hc _ ih =>
    refine .cons (each a ts (List.infix_append' [] ts _) ha) hc (ih fun b vs hvs hb => ?_)
    exact each b vs (hvs.trans ⟨ts ++ [c], [], by simp⟩) hb

/-- A song of blocks with tails is one of the reader's grammar, as far as commas are apart from
items. -/
theorem songTokens_of_tailed {parts : List (List NestedBlock)} {ts : List Token}
    (h : TailedSongTokens parts ts) (apart : CommasApart ts) : SongTokens parts ts := by
  refine h.imp fun us hus hparts => hparts.imp fun blocks vs hvs hpart => ?_
  refine hpart.imp fun ws hws hblocks => hblocks.imp fun b xs hxs hblock => ?_
  refine hblock.imp fun ys hys => ?_
  rintro ⟨filled, as, bs, zs, zs', hmixed, htail, hattrs, rfl⟩
  have inside := hys.trans (hxs.trans (hws.trans (hvs.trans hus)))
  rw [hattrs]
  have apart_inside := List.IsChain.infix apart inside
  exact ⟨filled, hmixed.body_append filled htail apart_inside⟩

/-! ### Commas in the reader's grammar -/

/-- Tokens that can stand behind any others: their commas are apart from items, and they do not
begin with one. -/
structure Joinable (ts : List Token) : Prop where
  /-- No comma stands right behind an item. -/
  apart : CommasApart ts
  /-- The first token is no comma. -/
  head : ∀ t ∈ ts.head?, t.kind ≠ .comma

/-- A comma can follow the tokens: the last one does not end an item. -/
def Closed (ts : List Token) : Prop := ∃ init t, ts = init ++ [t] ∧ ¬ t.EndsItem

namespace Joinable

variable {t : Token} {ts us : List Token}

theorem nil : Joinable [] := ⟨.nil, by simp⟩

theorem append (h : Joinable ts) (hu : Joinable us) : Joinable (ts ++ us) := by
  refine ⟨List.isChain_append.2 ⟨h.apart, hu.apart, fun _ _ u mem _ => hu.head u mem⟩, ?_⟩
  intro t mem
  cases ts with
  | nil => exact hu.head t mem
  | cons => exact h.head t mem

theorem cons (ht : t.kind ≠ .comma) (hu : Joinable us) : Joinable (t :: us) :=
  append ⟨.singleton t, by simpa using ht⟩ hu

theorem comma (h : Joinable ts) (closed : Closed ts) (c : Token) (hu : Joinable us) :
    Joinable (ts ++ c :: us) := by
  obtain ⟨init, t, rfl, ht⟩ := closed
  have behind : CommasApart (c :: us) := by
    cases us with
    | nil => exact .singleton c
    | cons u us => exact List.isChain_cons_cons.2 ⟨fun _ => hu.head u rfl, hu.apart⟩
  refine ⟨?_, fun u mem => h.head u ?_⟩
  · rw [CommasApart, List.append_assoc, List.singleton_append]
    exact List.isChain_append_cons_cons.2 ⟨h.apart, fun ends => absurd ends ht, behind⟩
  · cases init <;> exact mem

theorem flatMap {α : Type} {inner : List (α × List Token)} (h : ∀ p ∈ inner, Joinable p.2) :
    Joinable (inner.flatMap (·.2)) := by
  induction inner with
  | nil => exact .nil
  | cons p inner ih =>
    exact append (h p List.mem_cons_self) (ih fun q hq => h q (List.mem_cons_of_mem _ hq))

end Joinable

theorem ItemTokens.joinable {i : Item} {ts : List Token} (h : ItemTokens i ts) : Joinable ts := by
  have single {t : Token} {kind : TokenKind} (ht : t.kind = kind) (other : kind ≠ .comma) :
      Joinable [t] := .cons (ht ▸ other) .nil
  induction h with
  | note hn => exact single hn (by decide)
  | timed hd hn => exact (single hd (by decide)).append (single hn (by decide))
  | group hd ho hc _ _ ih =>
    exact ((single hd (by decide)).append ((single ho (by decide)).append (.flatMap ih))).append
      (single hc (by decide))

theorem BodyTokens.joinable {is : List Item} {as : List Attribute} {ts : List Token}
    (h : BodyTokens is as ts) : Joinable ts := by
  have single {a : Token} (ha : a.kind = .attribute) : Joinable [a] ∧ Closed [a] :=
    ⟨.cons (by simp [ha]) .nil, [], a, rfl, by simp [Token.EndsItem, ha]⟩
  induction h with
  | nil => exact .nil
  | item hi _ ih => exact hi.joinable.append ih
  | attr ha _ ih => exact (single ha).1.append ih
  | @attrComma a c _ _ _ ha _ _ ih => exact (single ha).1.comma (single ha).2 c ih

theorem Braced.joinable {Q : List Token → Prop} {ts : List Token} (h : Braced Q ts)
    (inside : ∀ us, Q us → Joinable us) : Joinable ts ∧ Closed ts := by
  obtain ⟨o, us, c, ho, hus, hc, rfl⟩ := h
  have last : Joinable [c] := .cons (by simp [hc]) .nil
  exact ⟨.append (.cons (by simp [ho]) (inside us hus)) last, o :: us, c, rfl,
    by simp [Token.EndsItem, hc]⟩

theorem Separated.joinable {α : Type} {R : α → List Token → Prop} {as : List α} {ts : List Token}
    (h : Separated R as ts) (each : ∀ a us, R a us → Joinable us ∧ Closed us) : Joinable ts := by
  induction h with
  | one ha => exact (each _ _ ha).1
  | @cons _ _ c _ _ ha _ _ ih => exact (each _ _ ha).1.comma (each _ _ ha).2 c ih

/-- **A song that the reader accepts has no comma right behind an item.** -/
theorem commasApart_of_songTokens {parts : List (List NestedBlock)} {ts : List Token}
    (h : SongTokens parts ts) : CommasApart ts := by
  refine (h.joinable fun us hparts => hparts.joinable fun blocks vs hpart => ?_).1.apart
  refine hpart.joinable fun ws hblocks => hblocks.joinable fun b xs hblock => ?_
  exact hblock.joinable fun ys hbody => hbody.2.joinable

/-- **Songs of blocks with tails.**  A text of such a song is read as what it says if and only if it
has no stray characters and no comma stands right behind an item; every other one is refused. -/
theorem readNested_tailed_iff {text : List Char} {parts : List (List NestedBlock)}
    (derives : TailedSongTokens parts (tokens text)) :
    (readNested text = .success (.nested parts) ↔
      strayFaults text = [] ∧ CommasApart (tokens text)) ∧
    ((∃ f fs, readNested text = .failure (f :: fs)) ↔
      ¬ (strayFaults text = [] ∧ CommasApart (tokens text))) := by
  have accepted (h : strayFaults text = [] ∧ CommasApart (tokens text)) :
      readNested text = .success (.nested parts) :=
    readNested_of_songTokens h.1 (songTokens_of_tailed derives h.2)
  rcases readNested_cases text with ⟨parts', read, tidy, song⟩ | ⟨f, fs, read⟩
  · have apart : strayFaults text = [] ∧ CommasApart (tokens text) :=
      ⟨tidy, commasApart_of_songTokens song⟩
    refine ⟨⟨fun _ => apart, accepted⟩, ?_, fun other => absurd apart other⟩
    rintro ⟨f, fs, fails⟩
    cases read.symm.trans fails
  · have other : ¬ (strayFaults text = [] ∧ CommasApart (tokens text)) := fun h => by
      cases read.symm.trans (accepted h)
    refine ⟨⟨fun success => ?_, accepted⟩, fun _ => other, fun _ => ⟨f, fs, read⟩⟩
    cases read.symm.trans success

/-- A block with a tail behind an attribute. -/
def attributeTail : List Char :=
  ['{', '{', '{', '1', ' ', 'k', ':', '3', ',', 'l', ':', '2', '}', '}', '}']

theorem readNested_attributeTail :
    TailedSongTokens [[⟨[.note "1" none], [⟨"k", "3"⟩, ⟨"l", "2"⟩]⟩]] (tokens attributeTail) ∧
      strayFaults attributeTail = [] ∧ CommasApart (tokens attributeTail) ∧
      readNested attributeTail =
        .success (.nested [[⟨[.note "1" none], [⟨"k", "3"⟩, ⟨"l", "2"⟩]⟩]]) := by
  have read : tokens attributeTail = [⟨.openBrace, ['{'], 0⟩, ⟨.openBrace, ['{'], 1⟩,
      ⟨.openBrace, ['{'], 2⟩, ⟨.note, ['1'], 3⟩, ⟨.attribute, ['k', ':', '3'], 5⟩,
      ⟨.comma, [','], 8⟩, ⟨.attribute, ['l', ':', '2'], 9⟩, ⟨.closeBrace, ['}'], 12⟩,
      ⟨.closeBrace, ['}'], 13⟩, ⟨.closeBrace, ['}'], 14⟩] := by cbv
  have tidy : strayFaults attributeTail = [] := by cbv
  have apart : CommasApart (tokens attributeTail) := by
    rw [read]
    simp [CommasApart, Token.EndsItem]
  have derives : TailedSongTokens [[⟨[.note "1" none], [⟨"k", "3"⟩, ⟨"l", "2"⟩]⟩]]
      (tokens attributeTail) := by
    rw [read]
    have mixed : MixedTokens [.note "1" none] [⟨"k", "3"⟩]
        [⟨.note, ['1'], 3⟩, ⟨.attribute, ['k', ':', '3'], 5⟩] :=
      .item (.note (n := ⟨.note, ['1'], 3⟩) rfl)
        (.attr (a := ⟨.attribute, ['k', ':', '3'], 5⟩) rfl .nil)
    have tail : TailTokens [⟨"l", "2"⟩] [⟨.comma, [','], 8⟩, ⟨.attribute, ['l', ':', '2'], 9⟩] :=
      .cons (a := ⟨.attribute, ['l', ':', '2'], 9⟩) rfl rfl .nil
    exact ⟨_, _, _, rfl, .one ⟨_, _, _, rfl, .one ⟨_, _, _, rfl,
      ⟨by simp, _, _, _, _, mixed, tail, rfl, rfl⟩, rfl, rfl⟩, rfl, rfl⟩, rfl, rfl⟩
  exact ⟨derives, tidy, apart, (readNested_tailed_iff derives).1.2 ⟨tidy, apart⟩⟩

/-- A block with a tail right behind its only item. -/
def itemTail : List Char :=
  ['{', '{', '{', '1', ',', ' ', 'k', 'e', 'y', ':', '3', '}', '}', '}']

/-- **A tail right behind an item is refused.** -/
theorem itemTail_refused :
    TailedSongTokens [[⟨[.note "1" none], [⟨"key", "3"⟩]⟩]] (tokens itemTail) ∧
      strayFaults itemTail = [] ∧
      readNested itemTail = .failure [⟨.inBlock ",", 4, itemTail⟩] := by
  refine ⟨?_, by cbv, by cbv⟩
  have read : tokens itemTail = [⟨.openBrace, ['{'], 0⟩, ⟨.openBrace, ['{'], 1⟩,
      ⟨.openBrace, ['{'], 2⟩, ⟨.note, ['1'], 3⟩, ⟨.comma, [','], 4⟩,
      ⟨.attribute, ['k', 'e', 'y', ':', '3'], 6⟩, ⟨.closeBrace, ['}'], 11⟩,
      ⟨.closeBrace, ['}'], 12⟩, ⟨.closeBrace, ['}'], 13⟩] := by cbv
  have mixed : MixedTokens [.note "1" none] [] [⟨.note, ['1'], 3⟩] :=
    .item (.note (n := ⟨.note, ['1'], 3⟩) rfl) .nil
  have tail : TailTokens [⟨"key", "3"⟩]
      [⟨.comma, [','], 4⟩, ⟨.attribute, ['k', 'e', 'y', ':', '3'], 6⟩] :=
    .cons (a := ⟨.attribute, ['k', 'e', 'y', ':', '3'], 6⟩) rfl rfl .nil
  rw [read]
  exact ⟨_, _, _, rfl, .one ⟨_, _, _, rfl, .one ⟨_, _, _, rfl,
    ⟨by simp, _, _, _, _, mixed, tail, rfl, rfl⟩, rfl, rfl⟩, rfl, rfl⟩, rfl, rfl⟩

end ChordSequencer.Notation
