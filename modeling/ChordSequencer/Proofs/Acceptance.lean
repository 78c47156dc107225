import ChordSequencer.Proofs.Completeness
import Mathlib.Data.List.Induction

/-!
# The language of the nested form

The reader of the nested form accepts exactly the token sequences of the grammar, and what it gives
back is what the derivation says (`readNested_eq_success_iff`).  That it accepts them is shown in
`ChordSequencer.Proofs.Completeness`.  Here the other direction is shown: whatever the reader has
kept derives from the tokens that it has read, as long as it has no faults.

* `OpenBlock.Holds` : what is kept of an open block derives from its tokens.  Each open group has
  tokens of its own after those of what it stands in (`GroupTokens`).
* `Reader.suffix_step` : a fault is never taken back, so a reader that ends without faults never had
  one.
* `Reader.Reads` : the invariant, stage by stage.  `Reader.Reads.step` is the step and
  `Reader.reads_foldl` the run.
-/

namespace ChordSequencer.Notation

open OpenBlock (textOf durationOf attributeOf)

/-! ### Open groups and blocks -/

/-- The tokens of open groups, the innermost of which comes last. -/
inductive GroupTokens : List OpenGroup → List Token → Prop
  /-- No open group. -/
  | nil : GroupTokens [] []
  /-- A note value, a parenthesis and the items so far. -/
  | cons {g : OpenGroup} {gs : List OpenGroup} {o : Token} {ts : List Token}
      {inner : List (Item × List Token)} (outer : GroupTokens gs ts) (hd : g.tag.kind = .duration)
      (ho : o.kind = .openParen) (each : ∀ p ∈ inner, ItemTokens p.1 p.2)
      (hi : inner.map (·.1) = g.items.reverse) :
      GroupTokens (g :: gs) (ts ++ g.tag :: o :: inner.flatMap (·.2))

namespace GroupTokens

variable {g : OpenGroup} {gs : List OpenGroup} {ts : List Token}

theorem enter (h : GroupTokens gs ts) {d o : Token} (hd : d.kind = .duration)
    (ho : o.kind = .openParen) : GroupTokens (⟨d, []⟩ :: gs) (ts ++ [d, o]) := by
  have none : ∀ p ∈ ([] : List (Item × List Token)), ItemTokens p.1 p.2 := List.forall_mem_nil _
  exact .cons h hd ho none rfl

theorem add (h : GroupTokens (g :: gs) ts) {i : Item} {us : List Token} (hi : ItemTokens i us) :
    GroupTokens (⟨g.tag, i :: g.items⟩ :: gs) (ts ++ us) := by
  cases h with
  | @cons _ _ o ts inner outer hd ho each items =>
    have more : ∀ p ∈ inner ++ [(i, us)], ItemTokens p.1 p.2 :=
      List.forall_mem_append.2 ⟨each, List.forall_mem_singleton.2 hi⟩
    have hgroup := GroupTokens.cons (g := ⟨g.tag, i :: g.items⟩) outer hd ho more (by simp [items])
    simpa using hgroup

theorem close (h : GroupTokens (g :: gs) ts) (filled : g.items ≠ []) {c : Token}
    (hc : c.kind = .closeParen) :
    ∃ before us, GroupTokens gs before ∧ ItemTokens (.group (durationOf g.tag) g.items.reverse) us ∧
      ts ++ [c] = before ++ us := by
  cases h with
  | @cons _ _ o ts inner outer hd ho each items =>
    have some_item : inner ≠ [] := by
      rintro rfl
      exact filled (List.reverse_eq_nil_iff.1 items.symm)
    have hitem := ItemTokens.group hd ho hc some_item each
    rw [items] at hitem
    exact ⟨ts, _, outer, hitem, by simp⟩

end GroupTokens

namespace OpenBlock

variable {b : OpenBlock} {body groups ts : List Token}

/-- The items and attributes of an open block derive from the tokens `body`, and its open groups
from the tokens `groups` after them. -/
structure Holds (b : OpenBlock) (body groups : List Token) : Prop where
  /-- Those of the block itself. -/
  own : BodyTokens b.items.reverse b.attributes.reverse body
  /-- Those of the open groups. -/
  inner : GroupTokens b.groups groups
  /-- Where a comma may follow, an attribute stands last. -/
  last : b.separable = true → ∃ as a init, b.attributes = attributeOf a :: as ∧
    a.kind = .attribute ∧ body = init ++ [a] ∧ BodyTokens b.items.reverse as.reverse init

/-- An open block says what its tokens say. -/
def Reads (b : OpenBlock) (ts : List Token) : Prop :=
  ∃ body groups, b.Holds body groups ∧ ts = body ++ groups ++ b.pending.toList ∧
    ∀ d ∈ b.pending, d.kind = .duration

theorem reads_start (opening : Nat) : (start opening).Reads [] :=
  ⟨[], [], ⟨.nil, .nil, fun h => absurd h Bool.false_ne_true⟩, rfl, by simp [start]⟩

theorem Holds.add (h : b.Holds body groups) {i : Item} {us : List Token} (hi : ItemTokens i us) :
    (b.add i).Reads (body ++ groups ++ us) := by
  suffices hadd : ∃ body' groups', (b.add i).Holds body' groups' ∧
      body ++ groups ++ us = body' ++ groups' by
    obtain ⟨body', groups', hholds, heq⟩ := hadd
    exact ⟨body', groups', hholds, by simpa using heq, by simp⟩
  obtain ⟨hbody, hgroups, hattr⟩ := h
  cases hg : b.groups with
  | nil =>
    rw [hg] at hgroups
    cases hgroups
    have single : BodyTokens [i] [] us := by simpa using BodyTokens.item hi .nil
    refine ⟨body ++ us, [], ⟨?_, ?_, ?_⟩, by simp⟩
    · simpa [OpenBlock.add, hg] using hbody.append single
    · simpa [OpenBlock.add, hg] using GroupTokens.nil
    · simp [OpenBlock.add, hg]
  | cons g gs =>
    rw [hg] at hgroups
    refine ⟨body, groups ++ us, ⟨?_, ?_, ?_⟩, by simp⟩
    · simpa [OpenBlock.add, hg] using hbody
    · simpa [OpenBlock.add, hg] using hgroups.add hi
    · simpa [OpenBlock.add, hg] using hattr

/-- What a token makes of an open block says what the tokens say. -/
def Effect.Reads (ts : List Token) (t : Token) : Effect → Prop
  | .goesOn b => b.Reads (ts ++ [t])
  | .closes block =>
    block.items ≠ [] ∧ BodyTokens block.items block.attributes ts ∧ t.kind = .closeBrace
  | .fault _ _ _ => True

theorem stepPending_reads (h : b.Holds body groups) {d : Token} (hd : d.kind = .duration)
    (t : Token) : (b.stepPending d t).Reads (body ++ groups ++ [d]) t := by
  simp only [stepPending]
  split
  · rename_i hn
    have hread := h.add (.timed hd hn)
    simpa [Effect.Reads] using hread
  · rename_i ho
    exact ⟨body, _, ⟨h.own, h.inner.enter hd ho, h.last⟩, by simp, fun d' hd' => by cases hd'⟩
  · trivial

theorem stepGroup_reads (h : b.Holds body groups) {g : OpenGroup} {gs : List OpenGroup}
    (hg : b.groups = g :: gs) (t : Token) : (b.stepGroup g gs t).Reads (body ++ groups) t := by
  simp only [stepGroup]
  split
  · rename_i hc
    split
    · trivial
    · rename_i filled
      obtain ⟨hbody, hgroups, hattr⟩ := h
      rw [hg] at hgroups
      obtain ⟨before, us, outer, hitem, htokens⟩ :=
        hgroups.close (fun none => filled (List.isEmpty_iff.2 none)) hc
      have outside : Holds { b with groups := gs } body before := ⟨hbody, outer, hattr⟩
      have hread := outside.add hitem
      rwa [List.append_assoc, ← htokens, ← List.append_assoc] at hread
  · rename_i hn
    exact h.add (.note hn)
  · rename_i hd
    exact ⟨body, groups, ⟨h.own, h.inner, h.last⟩, rfl, fun d' hd' => by cases hd'; exact hd⟩
  · trivial

theorem stepBody_reads (h : b.Holds body []) (hp : b.pending = none)
    (t : Token) : (b.stepBody t).Reads body t := by
  simp only [stepBody]
  have plain {b' : OpenBlock} {body' : List Token} (hh : b'.Holds body' [])
      (hp' : b'.pending = none) : b'.Reads body' :=
    ⟨body', [], hh, by simp [hp'], fun d hd => by rw [hp'] at hd; cases hd⟩
  split
  · rename_i hc
    split
    · trivial
    · rename_i filled
      refine ⟨?_, h.own, hc⟩
      simpa [List.isEmpty_iff] using filled
  · rename_i ha
    have single : BodyTokens [] [attributeOf t] [t] := .attr ha .nil
    refine plain ⟨?_, h.inner, fun _ => ⟨_, t, body, rfl, ha, rfl, h.own⟩⟩ hp
    simpa using h.own.append single
  · rename_i hn
    simpa [Effect.Reads] using h.add (.note hn)
  · rename_i hd
    exact ⟨body, [], ⟨h.own, h.inner, fun hs => absurd hs Bool.false_ne_true⟩, by simp,
      fun d' hd' => by cases hd'; exact hd⟩
  · rename_i hc
    split
    · -- the comma belongs to the attribute before it
      rename_i hs
      obtain ⟨as, a, init, has, ha, rfl, hinit⟩ := h.last hs
      have single : BodyTokens [] [attributeOf a] [a, t] := .attrComma ha hc .nil
      refine plain ⟨?_, h.inner, fun hs => absurd hs Bool.false_ne_true⟩ hp
      simpa [has] using hinit.append single
    · trivial
  · trivial

theorem step_reads (h : b.Reads ts) (t : Token) : (b.step t).Reads ts t := by
  obtain ⟨body, groups, hh, rfl, hd⟩ := h
  simp only [step]
  split
  · rename_i d hp
    rw [hp]
    exact stepPending_reads hh (hd d hp) t
  · rename_i hp hg
    rw [hp, Option.toList_none, List.append_nil]
    exact stepGroup_reads hh hg t
  · rename_i hp hg
    have hgroups := hh.inner
    rw [hg] at hgroups
    cases hgroups
    rw [hp, Option.toList_none, List.append_nil, List.append_nil]
    exact stepBody_reads hh hp t

end OpenBlock

/-! ### Nested pieces of a song -/

/-- Tokens after an opening brace. -/
def Opened (inside : List Token → Prop) (ts : List Token) : Prop :=
  ∃ o us, o.kind = .openBrace ∧ inside us ∧ ts = o :: us

/-- Tokens of one sort after tokens of another. -/
def After (first second : List Token → Prop) (ts : List Token) : Prop :=
  ∃ us vs, first us ∧ second vs ∧ ts = us ++ vs

/-- The tokens of at least one thing, the latest first, with commas between them. -/
def Listed {α : Type} (R : α → List Token → Prop) (as : List α) (ts : List Token) : Prop :=
  ∃ a before, as = a :: before ∧ After (Leading R before.reverse) (R a) ts

section

variable {α : Type} {R : α → List Token → Prop} {P Q Q' : List Token → Prop} {as : List α}
  {ts : List Token} {t : Token}

theorem Opened.snoc (h : Opened Q ts) (hq : ∀ us, Q us → Q' (us ++ [t])) :
    Opened Q' (ts ++ [t]) := by
  obtain ⟨o, us, ho, hus, rfl⟩ := h
  exact ⟨o, us ++ [t], ho, hq us hus, rfl⟩

theorem After.snoc (h : After P Q ts) (hq : ∀ us, Q us → Q' (us ++ [t])) :
    After P Q' (ts ++ [t]) := by
  obtain ⟨us, vs, hus, hvs, rfl⟩ := h
  exact ⟨us, vs ++ [t], hus, hq vs hvs, by rw [List.append_assoc]⟩

theorem After.opens (h : P ts) (ho : t.kind = .openBrace) (hq : Q []) :
    After P (Opened Q) (ts ++ [t]) :=
  ⟨ts, [t], h, ⟨t, [], ho, hq, rfl⟩, rfl⟩

theorem Opened.braced (h : Opened Q ts) (ht : t.kind = .closeBrace) (hq : ∀ us, Q us → Q' us) :
    Braced Q' (ts ++ [t]) := by
  obtain ⟨o, us, ho, hus, rfl⟩ := h
  exact ⟨o, us, t, ho, hq us hus, ht, rfl⟩

theorem Listed.leading (h : Listed R as ts) (ht : t.kind = .comma) :
    Leading R as.reverse (ts ++ [t]) := by
  obtain ⟨a, before, rfl, us, vs, hus, hvs, rfl⟩ := h
  rw [List.reverse_cons]
  exact .snoc hus hvs ht

theorem Listed.separated (h : Listed R as ts) : Separated R as.reverse ts := by
  obtain ⟨a, before, rfl, us, vs, hus, hvs, rfl⟩ := h
  rw [List.reverse_cons]
  exact hus.append (.one hvs)

end

namespace Reader

variable {r : Reader} {ts : List Token}

/-! ### Faults stay -/

theorem suffix_record (r : Reader) (cause : Cause) (position : Nat) :
    r.faults <:+ (r.record cause position).faults := by
  simp only [record]
  split
  · rename_i hf
    rw [hf]
    exact List.nil_suffix
  · rename_i hf
    split
    · exact List.suffix_refl _
    · rw [hf]
      exact List.suffix_cons _ _

theorem record_ne_nil (r : Reader) (cause : Cause) (position : Nat) :
    (r.record cause position).faults ≠ [] := by
  simp only [record]
  split
  · exact List.cons_ne_nil _ _
  · rename_i hf
    split
    · rw [hf]
      exact List.cons_ne_nil _ _
    · exact List.cons_ne_nil _ _

theorem halt_ne_nil (r : Reader) (cause : Cause) (t : Token) : (r.halt cause t).faults ≠ [] :=
  r.record_ne_nil cause t.position

theorem skip_faults (r : Reader) (depth : Nat) (t : Token) :
    (r.skip depth t).faults = r.faults := by
  simp only [skip]
  split <;> rfl

theorem suffix_expect (r : Reader) (kind : TokenKind) (bracket place : String) (t : Token)
    (next : Stage) : r.faults <:+ (r.expect kind bracket place t next).faults := by
  simp only [expect]
  split
  · exact List.suffix_refl _
  · exact r.suffix_record _ _

/-- **No token takes a fault back.** -/
theorem suffix_step (r : Reader) (t : Token) : r.faults <:+ (r.step t).faults := by
  simp only [Reader.step]
  split
  · exact r.suffix_expect _ _ _ _ _
  · exact r.suffix_expect _ _ _ _ _
  · exact r.suffix_expect _ _ _ _ _
  · simp only [stepBlock]
    split
    · exact List.suffix_refl _
    · exact List.suffix_refl _
    · exact r.suffix_record _ _
    · rw [skip_faults]
      exact r.suffix_record _ _
  · simp only [skip_faults, List.suffix_refl]
  · split
    · exact List.suffix_refl _
    · exact List.suffix_refl _
    · exact r.suffix_record _ _
  · split
    · exact List.suffix_refl _
    · exact List.suffix_refl _
    · exact r.suffix_record _ _
  · exact r.suffix_record _ _
  · exact List.suffix_refl _

theorem suffix_foldl (ts : List Token) (r : Reader) :
    r.faults <:+ (ts.foldl Reader.step r).faults := by
  induction ts generalizing r with
  | nil => exact List.suffix_refl _
  | cons t ts ih => exact (r.suffix_step t).trans (ih _)

/-! ### The reader says what its tokens say -/

/-- What a reader without faults has kept says what the tokens say that it has read. -/
def Reads (r : Reader) (ts : List Token) : Prop :=
  match r.stage with
  | .beforeSong => ts = [] ∧ r.blocks = [] ∧ r.parts = []
  | .beforePart => Opened (Leading PartTokens r.parts.reverse) ts ∧ r.blocks = []
  | .beforeBlock =>
    Opened (After (Leading PartTokens r.parts.reverse)
      (Opened (Leading BlockTokens r.blocks.reverse))) ts
  | .inBlock b =>
    Opened (After (Leading PartTokens r.parts.reverse)
      (Opened (After (Leading BlockTokens r.blocks.reverse) (Opened b.Reads)))) ts
  | .afterBlock =>
    Opened (After (Leading PartTokens r.parts.reverse) (Opened (Listed BlockTokens r.blocks))) ts
  | .afterPart => Opened (Listed PartTokens r.parts) ts ∧ r.blocks = []
  | .afterSong => SongTokens r.parts.reverse ts
  | .skipping _ => False
  | .halted => False

theorem reads_expect {bracket place : String} {t : Token} {next : Stage}
    (faultless : (r.expect .openBrace bracket place t next).faults = [])
    (h : t.kind = .openBrace → Reads { r with stage := next } (ts ++ [t])) :
    (r.expect .openBrace bracket place t next).Reads (ts ++ [t]) := by
  simp only [expect] at faultless ⊢
  split
  · rename_i ho
    exact h ho
  · rename_i ho
    rw [if_neg ho] at faultless
    exact absurd faultless (r.halt_ne_nil _ _)

theorem reads_stepBlock {b : OpenBlock}
    (h : Opened (After (Leading PartTokens r.parts.reverse)
      (Opened (After (Leading BlockTokens r.blocks.reverse) (Opened b.Reads)))) ts) (t : Token)
    (faultless : (r.stepBlock b t).faults = []) : (r.stepBlock b t).Reads (ts ++ [t]) := by
  simp only [Reader.stepBlock] at faultless ⊢
  split <;> rename_i he <;> rw [he] at faultless
  · refine h.snoc fun us hus => hus.snoc fun vs hvs => hvs.snoc fun ws hws => hws.snoc fun xs hxs =>
      hxs.snoc fun ys hys => ?_
    have effect := OpenBlock.step_reads hys t
    rwa [he] at effect
  · rename_i block
    refine h.snoc fun us hus => hus.snoc fun vs hvs => hvs.snoc fun ws hws =>
      ⟨block, r.blocks, rfl, hws.snoc fun xs hxs => ?_⟩
    obtain ⟨o, ys, ho, hys, rfl⟩ := hxs
    have effect := OpenBlock.step_reads hys t
    rw [he] at effect
    obtain ⟨filled, hbody, ht⟩ := effect
    exact ⟨o, ys, t, ho, ⟨filled, hbody⟩, ht, rfl⟩
  · exact absurd faultless (r.record_ne_nil _ _)
  · rw [skip_faults] at faultless
    exact absurd faultless (r.record_ne_nil _ _)

/-- **A token that leaves no fault is read as the grammar says.** -/
theorem Reads.step (h : r.Reads ts) (t : Token) (faultless : (r.step t).faults = []) :
    (r.step t).Reads (ts ++ [t]) := by
  unfold Reader.step at faultless ⊢
  unfold Reads at h
  -- a reader that skips or has stopped has a fault
  cases hs : r.stage <;> simp only [hs] at h faultless ⊢
  case beforeSong =>
    obtain ⟨rfl, hb, hp⟩ := h
    refine reads_expect faultless fun ho => ⟨⟨t, [], ho, ?_, rfl⟩, hb⟩
    rw [hp]
    exact .nil
  case beforePart =>
    obtain ⟨h, hb⟩ := h
    refine reads_expect faultless fun ho => h.snoc fun us hus => After.opens hus ho ?_
    rw [hb]
    exact .nil
  case beforeBlock =>
    exact reads_expect faultless fun ho =>
      h.snoc fun us hus => hus.snoc fun vs hvs => hvs.snoc fun ws hws => After.opens hws ho
        (OpenBlock.reads_start t.position)
  case inBlock b => exact reads_stepBlock h t faultless
  case afterBlock =>
    cases hk : t.kind <;> simp only [hk] at faultless ⊢
    case comma =>
      exact h.snoc fun us hus => hus.snoc fun vs hvs => hvs.snoc fun ws hws => hws.leading hk
    case closeBrace =>
      refine ⟨h.snoc fun us hus => ⟨r.blocks.reverse, r.parts, rfl, hus.snoc fun vs hvs => ?_⟩, rfl⟩
      exact hvs.braced hk fun ws hws => hws.separated
    all_goals exact absurd faultless (r.halt_ne_nil _ _)
  case afterPart =>
    obtain ⟨h, hb⟩ := h
    cases hk : t.kind <;> simp only [hk] at faultless ⊢
    case comma => exact ⟨h.snoc fun us hus => hus.leading hk, hb⟩
    case closeBrace =>
      exact h.braced hk fun us hus => hus.separated
    all_goals exact absurd faultless (r.halt_ne_nil _ _)
  case afterSong => exact absurd faultless (r.halt_ne_nil _ _)

/-- **What a reader without faults has kept derives from the tokens that it has read.** -/
theorem reads_foldl (ts : List Token) (faultless : (ts.foldl Reader.step (start [])).faults = []) :
    (ts.foldl Reader.step (start [])).Reads ts := by
  induction ts using List.reverseRecOn with
  | nil => exact ⟨rfl, rfl, rfl⟩
  | append_singleton ts t ih =>
    rw [List.foldl_append] at faultless ⊢
    rw [List.foldl_cons, List.foldl_nil] at faultless ⊢
    have hbefore := suffix_step (ts.foldl Reader.step (start [])) t
    rw [faultless, List.suffix_nil] at hbefore
    exact (ih hbefore).step t faultless

theorem suffix_finish (r : Reader) (length : Nat) : r.faults <:+ (r.finish length).faults := by
  unfold finish
  cases r.stage with
  | inBlock b => exact (r.suffix_record _ _).trans (suffix_record _ _ _)
  | afterSong => exact List.suffix_refl _
  | halted => exact List.suffix_refl _
  | _ => exact r.suffix_record _ _

theorem Reads.finish (h : r.Reads ts) {length : Nat} (faultless : (r.finish length).faults = []) :
    r.finish length = r ∧ SongTokens r.parts.reverse ts := by
  unfold Reads at h
  unfold Reader.finish at faultless ⊢
  cases hs : r.stage <;> simp only [hs] at h faultless ⊢
  case afterSong => exact ⟨trivial, h⟩
  all_goals exact absurd faultless (record_ne_nil _ _ _)

end Reader

/-! ### Texts -/

/-- A text that is read without faults has no stray characters, and its tokens derive. -/
theorem songTokens_of_faultless {text : List Char} (h : (nestedReader text).faults = []) :
    strayFaults text = [] ∧ SongTokens (nestedReader text).parts.reverse (tokens text) := by
  unfold nestedReader at h ⊢
  have hfold := Reader.suffix_finish
    ((tokens text).foldl Reader.step (Reader.start (strayFaults text).reverse)) text.length
  rw [h, List.suffix_nil] at hfold
  have hstart := Reader.suffix_foldl (tokens text) (Reader.start (strayFaults text).reverse)
  rw [hfold, List.suffix_nil] at hstart
  have hstray : strayFaults text = [] := List.reverse_eq_nil_iff.1 hstart
  rw [hstray, List.reverse_nil] at h hfold ⊢
  obtain ⟨hfinish, hsong⟩ := (Reader.reads_foldl (tokens text) hfold).finish h
  rw [hfinish]
  exact ⟨rfl, hsong⟩

/-- A text without stray characters of which the tokens derive is read without faults. -/
theorem nestedReader_of_songTokens {text : List Char} {parts : List (List NestedBlock)}
    (hstray : strayFaults text = []) (h : SongTokens parts (tokens text)) :
    nestedReader text = ⟨.afterSong, [], parts.reverse, []⟩ := by
  unfold nestedReader
  rw [hstray, List.reverse_nil, Reader.foldl_song h]
  rfl

theorem readNested_of_songTokens {text : List Char} {parts : List (List NestedBlock)}
    (hstray : strayFaults text = []) (h : SongTokens parts (tokens text)) :
    readNested text = .success (.nested parts) := by
  simp only [readNested, nestedReader_of_songTokens hstray h, List.reverse_reverse]

theorem readNested_cases (text : List Char) :
    (∃ parts, readNested text = .success (.nested parts) ∧ strayFaults text = [] ∧
      SongTokens parts (tokens text)) ∨ ∃ f fs, readNested text = .failure (f :: fs) := by
  cases hf : (nestedReader text).faults with
  | nil =>
    refine .inl ⟨(nestedReader text).parts.reverse, ?_, songTokens_of_faultless hf⟩
    simp only [readNested, hf]
  | cons f fs =>
    refine .inr ?_
    simp only [readNested, hf]
    cases hr : (f :: fs).reverse with
    | nil => exact absurd (List.reverse_eq_nil_iff.1 hr) (List.cons_ne_nil _ _)
    | cons g gs => exact ⟨_, _, rfl⟩

/-- **The reader of the nested form accepts exactly its language.**  A text is read as `parts`
exactly when it has no stray characters and its tokens derive from the grammar as those of `parts`;
every other text is read as nothing, with at least one fault. -/
theorem readNested_eq_success_iff (text : List Char) :
    (∀ tree, readNested text = .success tree ↔
      ∃ parts, tree = .nested parts ∧ strayFaults text = [] ∧ SongTokens parts (tokens text)) ∧
    ((∃ f fs, readNested text = .failure (f :: fs)) ↔
      ¬ (strayFaults text = [] ∧ ∃ parts, SongTokens parts (tokens text))) := by
  refine ⟨fun tree => ⟨fun h => ?_, ?_⟩, ⟨?_, fun h => ?_⟩⟩
  · rcases readNested_cases text with ⟨parts, hread, hderives⟩ | ⟨f, fs, hread⟩
    · rw [hread] at h
      cases h
      exact ⟨parts, rfl, hderives⟩
    · rw [hread] at h
      cases h
  · rintro ⟨parts, rfl, hstray, hsong⟩
    exact readNested_of_songTokens hstray hsong
  · rintro ⟨f, fs, hread⟩ ⟨hstray, parts, hsong⟩
    rw [readNested_of_songTokens hstray hsong] at hread
    cases hread
  · rcases readNested_cases text with ⟨parts, -, hstray, hsong⟩ | hfault
    · exact absurd ⟨hstray, parts, hsong⟩ h
    · exact hfault

end ChordSequencer.Notation
