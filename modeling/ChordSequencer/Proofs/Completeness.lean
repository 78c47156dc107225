import ChordSequencer.Proofs.Grammar

/-!
# Every song of the grammar is read

The reader goes from token to token and keeps what it has read in the open block, the blocks of the
open part and the closed parts.  This file follows it over the tokens of each rule of the grammar:
tokens that derive from the rule take it from one stage to the next, and it keeps what they say.

* `Reader.adds_of_itemTokens` : an item, by induction on its derivation.  An item in a group goes
  where an item in the block goes, so the statement is about any open block.
* `Reader.foldl_body` : the items and attributes of a block.
* `Reader.foldl_separated` : things with commas between them, once for blocks and parts.
* `Reader.foldl_song` : the whole song.  The reader ends with the parts of the derivation and no
  faults.
-/

namespace ChordSequencer.Notation

open OpenBlock (textOf durationOf attributeOf)

/-! ### Steps in a block -/

namespace OpenBlock

variable {b : OpenBlock}

/-- An open block with a note value that waits for its note or group. -/
def await (b : OpenBlock) (d : Token) : OpenBlock :=
  { b with pending := some d, separable := b.separable && !b.groups.isEmpty }

/-- An open block in which a group begins. -/
def enter (b : OpenBlock) (d : Token) : OpenBlock :=
  { b.await d with groups := ⟨d, []⟩ :: b.groups, pending := none }

@[simp] theorem add_pending (b : OpenBlock) (i : Item) : (b.add i).pending = none := by
  simp only [add]
  split <;> rfl

theorem await_add (b : OpenBlock) (d : Token) (i : Item) : (b.await d).add i = b.add i := by
  obtain ⟨opening, items, attributes, separable, groups, pending⟩ := b
  cases groups with
  | nil => rfl
  | cons g gs => simp [add, await]

theorem step_note (hp : b.pending = none) {n : Token} (hn : n.kind = .note) :
    b.step n = .goesOn (b.add (.note (textOf n) none)) := by
  simp only [step, hp]
  cases hg : b.groups with
  | nil => simp only [stepBody, hn]
  | cons g gs => simp only [stepGroup, hn]

theorem step_duration (hp : b.pending = none) {d : Token} (hd : d.kind = .duration) :
    b.step d = .goesOn (b.await d) := by
  simp only [step, hp]
  cases hg : b.groups with
  | nil => simp [stepBody, hd, await, hg]
  | cons g gs => simp [stepGroup, hd, await, hg]

theorem await_step_note (b : OpenBlock) (d : Token) {n : Token} (hn : n.kind = .note) :
    (b.await d).step n = .goesOn (b.add (.note (textOf n) (some (durationOf d)))) := by
  rw [← await_add b d]
  simp only [step, await, stepPending, hn]

theorem await_step_openParen (b : OpenBlock) (d : Token) {o : Token} (ho : o.kind = .openParen) :
    (b.await d).step o = .goesOn (b.enter d) := by
  simp only [step, await, stepPending, ho, enter]

/-- An open block with an attribute more. -/
def annotate (b : OpenBlock) (a : Token) : OpenBlock :=
  { b with attributes := attributeOf a :: b.attributes, separable := true }

theorem step_attribute (hg : b.groups = []) (hp : b.pending = none) {a : Token}
    (ha : a.kind = .attribute) : b.step a = .goesOn (b.annotate a) := by
  simp only [step, hp, hg, stepBody, ha, annotate]

theorem foldl_add_group (is : List Item) (b : OpenBlock) (g : OpenGroup) (gs : List OpenGroup)
    (hg : b.groups = g :: gs) (hp : b.pending = none) :
    is.foldl add b = { b with groups := ⟨g.tag, is.reverse ++ g.items⟩ :: gs } := by
  induction is generalizing b g with
  | nil => simp [← hg]
  | cons i is ih =>
    have hadd : b.add i = { b with groups := ⟨g.tag, i :: g.items⟩ :: gs } := by
      simp [add, hg, hp]
    rw [List.foldl_cons, hadd]
    refine (ih { b with groups := ⟨g.tag, i :: g.items⟩ :: gs } _ rfl hp).trans ?_
    simp

theorem step_closeParen (b : OpenBlock) (d : Token) {is : List Item} (filled : is ≠ []) {c : Token}
    (hc : c.kind = .closeParen) :
    (is.foldl add (b.enter d)).step c = .goesOn (b.add (.group (durationOf d) is)) := by
  have some_item : is.reverse.isEmpty = false := by
    rw [List.isEmpty_reverse]
    exact List.isEmpty_eq_false_iff.2 filled
  rw [foldl_add_group is _ ⟨d, []⟩ b.groups rfl rfl, List.append_nil]
  simp only [step, enter, stepGroup, hc, some_item, List.reverse_reverse, Bool.false_eq_true,
    if_false]
  -- what is left of the open group is the note value before it
  exact congrArg Effect.goesOn (await_add b d _)

end OpenBlock

namespace Reader

/-! ### Items and bodies -/

theorem step_goesOn (r : Reader) {b b' : OpenBlock} {t : Token} (h : b.step t = .goesOn b') :
    Reader.step { r with stage := .inBlock b } t = { r with stage := .inBlock b' } := by
  simp only [Reader.step, stepBlock, h]

/-- Reading some tokens adds an item to any open block. -/
def Adds (i : Item) (ts : List Token) : Prop :=
  ∀ (r : Reader) (b : OpenBlock), b.pending = none →
    ts.foldl Reader.step { r with stage := .inBlock b } = { r with stage := .inBlock (b.add i) }

theorem foldl_adds {inner : List (Item × List Token)} (h : ∀ p ∈ inner, Adds p.1 p.2) (r : Reader)
    (b : OpenBlock) (hp : b.pending = none) :
    (inner.flatMap (·.2)).foldl Reader.step { r with stage := .inBlock b } =
      { r with stage := .inBlock ((inner.map (·.1)).foldl OpenBlock.add b) } := by
  induction inner generalizing b with
  | nil => rfl
  | cons p inner ih =>
    rw [List.flatMap_cons, List.foldl_append, h p List.mem_cons_self r b hp,
      ih (fun q hq => h q (List.mem_cons_of_mem _ hq)) _ (b.add_pending p.1)]
    rfl

/-- **A reader in a block adds the item of which it reads the tokens.** -/
theorem adds_of_itemTokens {i : Item} {ts : List Token} (h : ItemTokens i ts) : Adds i ts := by
  induction h with
  | note hn =>
    intro r b hp
    rw [List.foldl_cons, step_goesOn r (OpenBlock.step_note hp hn), List.foldl_nil]
  | @timed d n hd hn =>
    intro r b hp
    rw [List.foldl_cons, step_goesOn r (OpenBlock.step_duration hp hd), List.foldl_cons,
      step_goesOn r (OpenBlock.await_step_note b d hn), List.foldl_nil]
  | @group d o c inner hd ho hc filled each ih =>
    intro r b hp
    rw [List.cons_append, List.cons_append, List.foldl_cons, List.foldl_cons, List.foldl_append,
      step_goesOn r (OpenBlock.step_duration hp hd),
      step_goesOn r (OpenBlock.await_step_openParen b d ho), foldl_adds ih r _ rfl, List.foldl_cons,
      step_goesOn r (OpenBlock.step_closeParen b d (by simpa using filled) hc), List.foldl_nil]

/-- A reader in a block has read the items and attributes of its body. -/
theorem foldl_body {is : List Item} {as : List Attribute} {ts : List Token}
    (h : BodyTokens is as ts) (r : Reader) (b : OpenBlock) (hg : b.groups = [])
    (hp : b.pending = none) :
    ∃ separable, ts.foldl Reader.step { r with stage := .inBlock b } =
      { r with stage := .inBlock { b with
          items := is.reverse ++ b.items
          attributes := as.reverse ++ b.attributes
          separable } } := by
  induction h generalizing b with
  | nil => exact ⟨b.separable, rfl⟩
  | @item i is as ts us hi _ ih =>
    have hadd : b.add i = { b with items := i :: b.items, separable := false } := by
      simp [OpenBlock.add, hg, hp]
    obtain ⟨separable, hread⟩ := ih (b.add i) (by rw [hadd]; exact hg) (b.add_pending i)
    refine ⟨separable, ?_⟩
    rw [List.foldl_append, adds_of_itemTokens hi r b hp, hread, hadd]
    simp
  | @attr a is as us ha _ ih =>
    obtain ⟨separable, hread⟩ := ih (b.annotate a) hg hp
    refine ⟨separable, ?_⟩
    rw [List.foldl_cons, step_goesOn r (OpenBlock.step_attribute hg hp ha), hread]
    simp [OpenBlock.annotate]
  | @attrComma a c is as us ha hc _ ih =>
    obtain ⟨separable, hread⟩ := ih { b.annotate a with separable := false } hg hp
    have hcomma : (b.annotate a).step c = .goesOn { b.annotate a with separable := false } := by
      simp only [OpenBlock.annotate, OpenBlock.step, hp, hg, OpenBlock.stepBody, hc, if_true]
    refine ⟨separable, ?_⟩
    rw [List.foldl_cons, step_goesOn r (OpenBlock.step_attribute hg hp ha), List.foldl_cons,
      step_goesOn r hcomma, hread]
    simp [OpenBlock.annotate]

/-! ### Blocks, parts and songs -/

theorem step_openBrace (r : Reader) {o : Token} (ho : o.kind = .openBrace) :
    Reader.step { r with stage := .beforeSong } o = { r with stage := .beforePart } ∧
      Reader.step { r with stage := .beforePart } o = { r with stage := .beforeBlock } ∧
      Reader.step { r with stage := .beforeBlock } o =
        { r with stage := .inBlock (.start o.position) } := by
  simp only [Reader.step, expect, ho, if_true, and_self]

theorem foldl_block {b : NestedBlock} {ts : List Token} (h : BlockTokens b ts) (r : Reader) :
    ts.foldl Reader.step { r with stage := .beforeBlock } =
      { r with stage := .afterBlock, blocks := b :: r.blocks } := by
  obtain ⟨o, us, c, ho, ⟨filled, hbody⟩, hc, rfl⟩ := h
  obtain ⟨separable, hread⟩ := foldl_body hbody r (.start o.position) rfl rfl
  have some_item : b.items.reverse.isEmpty = false := by
    rw [List.isEmpty_reverse]
    exact List.isEmpty_eq_false_iff.2 filled
  rw [List.cons_append, List.foldl_cons, (step_openBrace r ho).2.2, List.foldl_append, hread]
  simp [OpenBlock.start, Reader.step, stepBlock, OpenBlock.step, OpenBlock.stepBody, hc, some_item]

/-- Things with commas between them are kept one by one, when one of them is: `before` and `after`
are the states around it, with what has been kept so far, the latest first. -/
theorem foldl_separated {α : Type} {R : α → List Token → Prop} (before after : List α → Reader)
    (one : ∀ a ts kept, R a ts → ts.foldl Reader.step (before kept) = after (a :: kept))
    (comma : ∀ c kept, c.kind = .comma → Reader.step (after kept) c = before kept)
    {as : List α} {ts : List Token} (h : Separated R as ts) (kept : List α) :
    ts.foldl Reader.step (before kept) = after (as.reverse ++ kept) := by
  induction h generalizing kept with
  | one h => exact one _ _ kept h
  | cons h hc _ ih =>
    rw [List.foldl_append, one _ _ kept h, List.foldl_cons, comma _ _ hc, ih, List.reverse_cons,
      List.append_assoc, List.singleton_append]

theorem foldl_part {blocks : List NestedBlock} {ts : List Token} (h : PartTokens blocks ts)
    (r : Reader) :
    ts.foldl Reader.step { r with stage := .beforePart, blocks := [] } =
      { r with stage := .afterPart, blocks := [], parts := blocks :: r.parts } := by
  obtain ⟨o, us, c, ho, hblocks, hc, rfl⟩ := h
  have hread := foldl_separated (fun kept => { r with stage := .beforeBlock, blocks := kept })
    (fun kept => { r with stage := .afterBlock, blocks := kept })
    (fun b ts kept h => foldl_block h { r with blocks := kept })
    (fun c kept hc => by simp only [Reader.step, hc]) hblocks []
  rw [List.cons_append, List.foldl_cons, (step_openBrace { r with blocks := [] } ho).2.1,
    List.foldl_append, hread]
  simp [Reader.step, hc]

theorem foldl_song {parts : List (List NestedBlock)} {ts : List Token} (h : SongTokens parts ts) :
    ts.foldl Reader.step (start []) = ⟨.afterSong, [], parts.reverse, []⟩ := by
  obtain ⟨o, us, c, ho, hparts, hc, rfl⟩ := h
  have hread := foldl_separated (fun kept => ⟨.beforePart, [], kept, []⟩)
    (fun kept => ⟨.afterPart, [], kept, []⟩)
    (fun p ts kept h => foldl_part h ⟨.beforePart, [], kept, []⟩)
    (fun c kept hc => by simp only [Reader.step, hc]) hparts []
  have hopen : Reader.step (start []) o = ⟨.beforePart, [], [], []⟩ :=
    (step_openBrace (start []) ho).1
  rw [List.cons_append, List.foldl_cons, hopen, List.foldl_append, hread]
  simp [Reader.step, hc]

end Reader

end ChordSequencer.Notation
