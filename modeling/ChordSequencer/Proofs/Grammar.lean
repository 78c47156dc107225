import ChordSequencer.Notation.Nested

/-!
# The grammar of the nested form

What the nested form says is defined by a grammar over tokens:

* song: `{ part, part, … }` with at least one part
* part: `{ block, block, … }` with at least one block
* block: `{ … }` around items and attributes in any order, with at least one item; one comma may
  follow an attribute
* item: a note, a note value and a note, or a note value and at least one item in parentheses

`SongTokens parts ts` says that the tokens `ts` derive from the grammar, and that `parts` is what
they say.  The relations do not refer to the reader, which is shown to accept exactly the token
sequences that derive from the grammar in `ChordSequencer.Proofs.Acceptance`.
-/

namespace ChordSequencer.Notation

open OpenBlock (textOf durationOf attributeOf)

/-! ### The rules -/

/-- The tokens of an item. -/
inductive ItemTokens : Item → List Token → Prop
  /-- A note. -/
  | note {n : Token} (hn : n.kind = .note) : ItemTokens (.note (textOf n) none) [n]
  /-- A note with a note value of its own. -/
  | timed {d n : Token} (hd : d.kind = .duration) (hn : n.kind = .note) :
      ItemTokens (.note (textOf n) (some (durationOf d))) [d, n]
  /-- A note value and items in parentheses, each with the tokens of its own. -/
  | group {d o c : Token} {inner : List (Item × List Token)} (hd : d.kind = .duration)
      (ho : o.kind = .openParen) (hc : c.kind = .closeParen) (filled : inner ≠ [])
      (each : ∀ p ∈ inner, ItemTokens p.1 p.2) :
      ItemTokens (.group (durationOf d) (inner.map (·.1))) (d :: o :: inner.flatMap (·.2) ++ [c])

/-- The tokens of items and attributes in any order, where one comma may follow an attribute. -/
inductive BodyTokens : List Item → List Attribute → List Token → Prop
  /-- Nothing more. -/
  | nil : BodyTokens [] [] []
  /-- An item first. -/
  | item {i : Item} {is : List Item} {as : List Attribute} {ts us : List Token}
      (h : ItemTokens i ts) (rest : BodyTokens is as us) : BodyTokens (i :: is) as (ts ++ us)
  /-- An attribute first. -/
  | attr {a : Token} {is : List Item} {as : List Attribute} {us : List Token}
      (ha : a.kind = .attribute) (rest : BodyTokens is as us) :
      BodyTokens is (attributeOf a :: as) (a :: us)
  /-- An attribute and a comma first. -/
  | attrComma {a c : Token} {is : List Item} {as : List Attribute} {us : List Token}
      (ha : a.kind = .attribute) (hc : c.kind = .comma) (rest : BodyTokens is as us) :
      BodyTokens is (attributeOf a :: as) (a :: c :: us)

/-- Tokens in braces. -/
def Braced (inside : List Token → Prop) (ts : List Token) : Prop :=
  ∃ o us c, o.kind = .openBrace ∧ inside us ∧ c.kind = .closeBrace ∧ ts = o :: us ++ [c]

/-- The tokens of at least one thing, with commas between them. -/
inductive Separated {α : Type} (R : α → List Token → Prop) : List α → List Token → Prop
  | one {a : α} {ts : List Token} (h : R a ts) : Separated R [a] ts
  | cons {a : α} {as : List α} {c : Token} {ts us : List Token} (h : R a ts)
      (hc : c.kind = .comma) (rest : Separated R as us) : Separated R (a :: as) (ts ++ c :: us)

/-- The tokens of a block. -/
def BlockTokens (b : NestedBlock) : List Token → Prop :=
  Braced fun us => b.items ≠ [] ∧ BodyTokens b.items b.attributes us

/-- The tokens of a part. -/
def PartTokens (blocks : List NestedBlock) : List Token → Prop :=
  Braced (Separated BlockTokens blocks)

/-- The tokens of a song. -/
def SongTokens (parts : List (List NestedBlock)) : List Token → Prop :=
  Braced (Separated PartTokens parts)

/-! ### Longer sequences -/

theorem BodyTokens.append {is js : List Item} {as bs : List Attribute} {ts us : List Token}
    (h : BodyTokens is as ts) (hu : BodyTokens js bs us) :
    BodyTokens (is ++ js) (as ++ bs) (ts ++ us) := by
  induction h with
  | nil => exact hu
  | item hi _ ih =>
    rw [List.append_assoc]
    exact .item hi ih
  | attr ha _ ih => exact .attr ha ih
  | attrComma ha hc _ ih => exact .attrComma ha hc ih

/-- The tokens of things each of which a comma follows. -/
inductive Leading {α : Type} (R : α → List Token → Prop) : List α → List Token → Prop
  | nil : Leading R [] []
  | snoc {a : α} {as : List α} {c : Token} {ts us : List Token} (before : Leading R as ts)
      (h : R a us) (hc : c.kind = .comma) : Leading R (as ++ [a]) (ts ++ us ++ [c])

theorem Leading.append {α : Type} {R : α → List Token → Prop} {as : List α} {ts : List Token}
    (h : Leading R as ts) : ∀ {bs : List α} {us : List Token}, Separated R bs us →
      Separated R (as ++ bs) (ts ++ us) := by
  induction h with
  | nil => exact fun hb => hb
  | snoc _ ha hc ih =>
    intro bs us hb
    simp only [List.append_assoc, List.singleton_append]
    exact ih (.cons ha hc hb)

/-! ### Tokens of their own -/

theorem Braced.inside {Q : List Token → Prop} {ts : List Token} (h : Braced Q ts) :
    ∃ us, Q us ∧ us ⊆ ts := by
  obtain ⟨o, us, c, -, hus, -, rfl⟩ := h
  refine ⟨us, hus, fun t ht => ?_⟩
  exact List.mem_append_left _ (List.mem_cons_of_mem _ ht)

theorem BodyTokens.mem {is : List Item} {as : List Attribute} {ts : List Token}
    (h : BodyTokens is as ts) : ∀ i ∈ is, ∃ us, ItemTokens i us ∧ us ⊆ ts := by
  induction h with
  | nil => exact List.forall_mem_nil _
  | @item i is as ts us hi _ ih =>
    rintro j hj
    rcases List.mem_cons.1 hj with rfl | hj
    · exact ⟨ts, hi, List.subset_append_left _ _⟩
    · obtain ⟨vs, hv, hsub⟩ := ih j hj
      exact ⟨vs, hv, List.subset_append_of_subset_right _ hsub⟩
  | attr _ _ ih =>
    rintro j hj
    obtain ⟨vs, hv, hsub⟩ := ih j hj
    exact ⟨vs, hv, List.subset_cons_of_subset _ hsub⟩
  | attrComma _ _ _ ih =>
    rintro j hj
    obtain ⟨vs, hv, hsub⟩ := ih j hj
    exact ⟨vs, hv, List.subset_cons_of_subset _ (List.subset_cons_of_subset _ hsub)⟩

theorem Separated.mem {α : Type} {R : α → List Token → Prop} {as : List α} {ts : List Token}
    (h : Separated R as ts) : as ≠ [] ∧ ∀ a ∈ as, ∃ us, R a us ∧ us ⊆ ts := by
  induction h with
  | @one a ts ha =>
    refine ⟨List.cons_ne_nil _ _, fun b hb => ?_⟩
    rw [List.mem_singleton.1 hb]
    exact ⟨ts, ha, List.Subset.refl ts⟩
  | @cons a as c ts us ha hc _ ih =>
    refine ⟨List.cons_ne_nil _ _, fun b hb => ?_⟩
    rcases List.mem_cons.1 hb with rfl | hb
    · exact ⟨ts, ha, List.subset_append_left _ _⟩
    · obtain ⟨vs, hv, hsub⟩ := ih.2 b hb
      exact ⟨vs, hv, fun t ht => List.mem_append_right _ (List.mem_cons_of_mem _ (hsub ht))⟩

end ChordSequencer.Notation
