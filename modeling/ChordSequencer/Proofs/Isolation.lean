import ChordSequencer.Proofs.Acceptance
import ChordSequencer.Proofs.Reporting
import Mathlib.Data.List.Basic

/-!
# Faults of one block and of another

A song in outline is made of parts and blocks in braces with commas between them, whatever the
blocks hold, as long as their braces match.  In such a song a faulty block hides nothing: the reader
goes on behind the brace that closes the block, and what it reports is for each faulty block one
fault, which is that of the block read by itself.

* `openBraces`, `Balanced` : braces that match.
* `blockFault?` : the fault of a block read by itself.  It moves with the tokens of the block
  (`blockFault?_moved`), and there is none exactly if the block is one of the grammar
  (`blockFault?_eq_none_iff`).
* `Reader.foldl_inBlock` : a reader in a block, token by token; a faulty block is skipped brace by
  brace.
* `Reader.Leads` : from one stage to another with some faults.  Blocks, parts and songs in outline
  lead from their beginning to their end with the faults of their blocks.
* `faults_of_blocks` : the faults of a song in outline.
-/

namespace ChordSequencer.Notation

/-! ### Songs in outline -/

/-- The number of braces that are open after a token; none if it closes one that was not opened. -/
def countBrace (depth : Nat) (t : Token) : Option Nat :=
  if t.kind = .openBrace then some (depth + 1)
  else if t.kind = .closeBrace then if depth = 0 then none else some (depth - 1)
  else some depth

/-- The number of braces that are open after some tokens. -/
def openBraces (depth : Nat) (ts : List Token) : Option Nat := ts.foldlM countBrace depth

/-- Every brace has its partner. -/
def Balanced (ts : List Token) : Prop := openBraces 0 ts = some 0

/-- A block in outline: tokens in braces, with braces that match. -/
def BlockOutline (block ts : List Token) : Prop := ts = block ∧ Braced Balanced ts

/-- A part in outline. -/
def PartOutline (blocks : List (List Token)) : List Token → Prop :=
  Braced (Separated BlockOutline blocks)

/-- A song in outline: the tokens of the blocks of its parts. -/
def SongOutline (parts : List (List (List Token))) : List Token → Prop :=
  Braced (Separated PartOutline parts)

theorem countBrace_other {t : Token} (notOpening : t.kind ≠ .openBrace)
    (notClosing : t.kind ≠ .closeBrace) (depth : Nat) : countBrace depth t = some depth := by
  rw [countBrace, if_neg notOpening, if_neg notClosing]

theorem openBraces_cons {t : Token} {ts : List Token} {depth e : Nat} :
    openBraces depth (t :: ts) = some e ↔
      ∃ d, countBrace depth t = some d ∧ openBraces d ts = some e := by
  simp only [openBraces, List.foldlM_cons, bind, Option.bind_eq_some_iff]

theorem openBraces_append {ts us : List Token} {depth e : Nat} :
    openBraces depth (ts ++ us) = some e ↔
      ∃ d, openBraces depth ts = some d ∧ openBraces d us = some e := by
  simp only [openBraces, List.foldlM_append, bind, Option.bind_eq_some_iff]

/-! ### The fault of a block by itself -/

/-- The first fault of an open block that reads some tokens. -/
def OpenBlock.fault? : OpenBlock → List Token → Option (Cause × Nat)
  | _, [] => none
  | b, t :: ts =>
    match b.step t with
    | .goesOn b' => b'.fault? ts
    | .closes _ => none
    | .fault cause p _ => some (cause, p)

/-- The fault of a block that is read by itself. -/
def blockFault? : List Token → Option (Cause × Nat)
  | [] => none
  | o :: ts => (OpenBlock.start o.position).fault? ts

namespace OpenBlock

variable {b b' : OpenBlock} {t : Token}

/-- What an effect has to do with braces: the open block goes on behind no brace and is closed by a
closing one, and a token that is passed with a fault is none. -/
def Effect.Braces (t : Token) : Effect → Prop
  | .goesOn _ => t.kind ≠ .openBrace ∧ t.kind ≠ .closeBrace
  | .closes _ => t.kind = .closeBrace
  | .fault _ _ passed => passed = true → t.kind ≠ .openBrace ∧ t.kind ≠ .closeBrace

/-- A token that is not passed may well be a brace. -/
theorem braces_left {cause : Cause} {p : Nat} : (Effect.fault cause p false).Braces t :=
  fun passed => absurd passed Bool.false_ne_true

theorem stepPending_braces (b : OpenBlock) (tag t : Token) : (b.stepPending tag t).Braces t := by
  simp only [stepPending]
  split
  · rename_i note
    simp [Effect.Braces, note]
  · rename_i opens
    simp [Effect.Braces, opens]
  · exact braces_left

theorem stepGroup_braces (b : OpenBlock) (g : OpenGroup) (gs : List OpenGroup) (t : Token) :
    (b.stepGroup g gs t).Braces t := by
  simp only [stepGroup]
  split
  · rename_i closes
    split
    · exact fun _ => by simp [closes]
    · simp [Effect.Braces, closes]
  · rename_i note
    simp [Effect.Braces, note]
  · rename_i duration
    simp [Effect.Braces, duration]
  · exact braces_left

theorem stepBody_braces (b : OpenBlock) (t : Token) : (b.stepBody t).Braces t := by
  simp only [stepBody]
  split
  · rename_i closes
    split
    · exact braces_left
    · exact closes
  · rename_i annotates
    simp [Effect.Braces, annotates]
  · rename_i note
    simp [Effect.Braces, note]
  · rename_i duration
    simp [Effect.Braces, duration]
  · rename_i comma
    split
    · simp [Effect.Braces, comma]
    · exact braces_left
  · exact braces_left

theorem step_braces (b : OpenBlock) (t : Token) : (b.step t).Braces t := by
  simp only [OpenBlock.step]
  split
  · exact b.stepPending_braces _ t
  · exact b.stepGroup_braces _ _ t
  · exact b.stepBody_braces t

theorem countBrace_goesOn (effect : b.step t = .goesOn b') (depth : Nat) :
    countBrace depth t = some depth := by
  have braces := b.step_braces t
  rw [effect] at braces
  exact countBrace_other braces.1 braces.2 depth

theorem countBrace_closes {block : NestedBlock} (effect : b.step t = .closes block) :
    countBrace 0 t = none := by
  have braces := b.step_braces t
  rw [effect] at braces
  simp [countBrace, show t.kind = .closeBrace from braces]

end OpenBlock

/-! ### Blocks of the grammar -/

/-- An open block is closed without fault only by a brace behind items and attributes. -/
theorem OpenBlock.exists_body {b : OpenBlock} {c : Token} {ts us : List Token} (h : b.Reads ts)
    (balanced : Balanced us) (hc : c.kind = .closeBrace) (faultless : b.fault? (us ++ [c]) = none) :
    ∃ block : NestedBlock,
      block.items ≠ [] ∧ BodyTokens block.items block.attributes (ts ++ us) := by
  induction us generalizing b ts with
  | nil =>
    have braces := b.step_braces c
    have reads := OpenBlock.step_reads h c
    simp only [List.nil_append, fault?] at faultless
    cases effect : b.step c with
    | goesOn b' =>
      rw [effect] at braces
      exact absurd hc braces.2
    | closes block =>
      rw [effect] at reads
      obtain ⟨filled, body, -⟩ := reads
      exact ⟨block, filled, by rwa [List.append_nil]⟩
    | fault cause p passed =>
      rw [effect] at faultless
      cases faultless
  | cons t us ih =>
    have reads := OpenBlock.step_reads h t
    obtain ⟨d, counted, rest⟩ := openBraces_cons.1 balanced
    simp only [List.cons_append, fault?] at faultless
    cases effect : b.step t with
    | goesOn b' =>
      rw [effect] at reads faultless
      rw [countBrace_goesOn effect] at counted
      cases counted
      rw [← List.singleton_append, ← List.append_assoc]
      exact ih reads rest faultless
    | closes block =>
      rw [countBrace_closes effect] at counted
      cases counted
    | fault cause p passed =>
      rw [effect] at faultless
      cases faultless

/-! ### Tokens elsewhere -/

/-- A token that is moved to another place. -/
def Token.moved (f : Nat → Nat) (t : Token) : Token := { t with position := f t.position }

/-- An open block with its tokens moved. -/
def OpenBlock.moved (f : Nat → Nat) (b : OpenBlock) : OpenBlock :=
  { b with
    opening := f b.opening
    groups := b.groups.map fun g => { g with tag := g.tag.moved f }
    pending := b.pending.map (Token.moved f) }

/-- An effect with its tokens moved. -/
def OpenBlock.Effect.moved (f : Nat → Nat) : OpenBlock.Effect → OpenBlock.Effect
  | .goesOn b => .goesOn (b.moved f)
  | .closes block => .closes block
  | .fault cause p passed => .fault cause (f p) passed

namespace OpenBlock

variable (f : Nat → Nat) (b : OpenBlock)

theorem add_moved (i : Item) : (b.moved f).add i = (b.add i).moved f := by
  obtain ⟨opening, items, attributes, separable, groups, pending⟩ := b
  cases groups <;> rfl

theorem stepPending_moved (tag t : Token) :
    (b.moved f).stepPending (tag.moved f) (t.moved f) = (b.stepPending tag t).moved f := by
  simp only [stepPending, show (t.moved f).kind = t.kind from rfl]
  split
  · exact congrArg Effect.goesOn (add_moved f b _)
  · rfl
  · rfl

theorem stepGroup_moved (g : OpenGroup) (gs : List OpenGroup) (t : Token) :
    (b.moved f).stepGroup { g with tag := g.tag.moved f }
      (gs.map fun g => { g with tag := g.tag.moved f }) (t.moved f) =
        (b.stepGroup g gs t).moved f := by
  simp only [stepGroup, show (t.moved f).kind = t.kind from rfl]
  split
  · split
    · rfl
    · exact congrArg Effect.goesOn (add_moved f { b with groups := gs } _)
  · exact congrArg Effect.goesOn (add_moved f b _)
  · rfl
  · rfl

theorem stepBody_moved (t : Token) :
    (b.moved f).stepBody (t.moved f) = (b.stepBody t).moved f := by
  simp only [stepBody, show (t.moved f).kind = t.kind from rfl]
  split
  · simp only [show (b.moved f).items = b.items from rfl]
    split <;> rfl
  · rfl
  · exact congrArg Effect.goesOn (add_moved f b _)
  · rfl
  · simp only [show (b.moved f).separable = b.separable from rfl]
    split <;> rfl
  · rfl

theorem step_moved (t : Token) : (b.moved f).step (t.moved f) = (b.step t).moved f := by
  obtain ⟨opening, items, attributes, separable, groups, pending⟩ := b
  cases pending with
  | some tag => exact stepPending_moved f _ tag t
  | none =>
    cases groups with
    | nil => exact stepBody_moved f _ t
    | cons g gs => exact stepGroup_moved f _ g gs t

theorem fault?_moved (ts : List Token) : (b.moved f).fault? (ts.map (Token.moved f)) =
    (b.fault? ts).map fun (cause, p) => (cause, f p) := by
  induction ts generalizing b with
  | nil => rfl
  | cons t ts ih =>
    simp only [List.map_cons, fault?, step_moved]
    cases b.step t with
    | goesOn b' => exact ih b'
    | closes block => rfl
    | fault cause p passed => rfl

end OpenBlock

/-- **The fault of a block moves with its tokens**: what is wrong does not depend on where they
stand. -/
theorem blockFault?_moved (f : Nat → Nat) (ts : List Token) :
    blockFault? (ts.map (Token.moved f)) = (blockFault? ts).map fun (cause, p) => (cause, f p) := by
  cases ts with
  | nil => rfl
  | cons o ts => exact OpenBlock.fault?_moved f (.start o.position) ts

/-! ### Places of faults -/

theorem OpenBlock.fault?_isFaultAt {b : OpenBlock} {own ts : List Token} {f : Cause × Nat}
    (h : b.Among own) (found : b.fault? ts = some f) : IsFaultAt (own ++ ts) f := by
  induction ts generalizing b own with
  | nil => cases found
  | cons t ts ih =>
    have among := h.step t
    simp only [fault?] at found
    cases effect : b.step t with
    | goesOn b' =>
      rw [effect] at among found
      rw [← List.singleton_append, ← List.append_assoc]
      exact ih among found
    | closes block =>
      rw [effect] at found
      cases found
    | fault cause p passed =>
      rw [effect] at among found
      cases found
      refine IsFaultAt.mono among fun u hu => ?_
      rw [← List.singleton_append, ← List.append_assoc]
      exact List.mem_append_left _ hu

theorem blockFault?_isFaultAt {ts : List Token} {f : Cause × Nat}
    (found : blockFault? ts = some f) : IsFaultAt ts f := by
  cases ts with
  | nil => cases found
  | cons o ts => exact OpenBlock.fault?_isFaultAt (OpenBlock.among_start o) found

/-! ### Reading in outline -/

/-- Faults join others one after another. -/
def joinFaults (faults found : List (Cause × Nat)) : List (Cause × Nat) :=
  found.foldl (fun faults f => joinFault f faults) faults

namespace Reader

variable {b : OpenBlock} {t c : Token} {ts us : List Token} {depth e : Nat}

theorem skip_eq (counted : countBrace depth t = some e) (r : Reader) :
    r.skip depth t = { r with stage := .skipping e } := by
  simp only [countBrace] at counted
  split_ifs at counted with opens closes none_open
  · cases counted
    simp only [skip, opens]
  · obtain ⟨n, rfl⟩ := Nat.exists_eq_succ_of_ne_zero none_open
    cases counted
    simp only [skip, closes, Nat.succ_eq_add_one, Nat.add_sub_cancel]
  · cases counted
    simp only [skip]
    split <;> first | contradiction | rfl

theorem skip_close (hc : c.kind = .closeBrace) (r : Reader) :
    r.skip 0 c = { r with stage := .afterBlock } := by
  simp only [skip, hc]

theorem foldl_skip (matching : openBraces depth ts = some e) (r : Reader) :
    ts.foldl Reader.step { r with stage := .skipping depth } = { r with stage := .skipping e } := by
  induction ts generalizing depth with
  | nil =>
    cases matching
    rfl
  | cons t ts ih =>
    obtain ⟨d, counted, rest⟩ := openBraces_cons.1 matching
    have first :
        Reader.step { r with stage := .skipping depth } t = { r with stage := .skipping d } :=
      skip_eq counted { r with stage := .skipping depth }
    rw [List.foldl_cons, first, ih rest]

theorem foldl_fault {cause : Cause} {p : Nat} {passed : Bool}
    (effect : b.step t = .fault cause p passed) (matching : openBraces 0 (t :: ts) = some e)
    (r : Reader) : (t :: ts).foldl Reader.step { r with stage := .inBlock b } =
      { r with stage := .skipping e, faults := joinFault (cause, p) r.faults } := by
  cases passed with
  | false =>
    -- the token has not been passed, and is the first that is skipped
    have left : Reader.step { r with stage := .inBlock b } t = Reader.step
        { r with stage := .skipping 0, faults := joinFault (cause, p) r.faults } t := by
      simp only [Reader.step, stepBlock, effect, record_eq, skip]
    rw [List.foldl_cons, left]
    exact foldl_skip matching { r with faults := joinFault (cause, p) r.faults }
  | true =>
    have braces := b.step_braces t
    rw [effect] at braces
    obtain ⟨d, counted, rest⟩ := openBraces_cons.1 matching
    rw [countBrace_other (braces rfl).1 (braces rfl).2] at counted
    cases counted
    have passes : Reader.step { r with stage := .inBlock b } t =
        { r with stage := .skipping 0, faults := joinFault (cause, p) r.faults } := by
      simp only [Reader.step, stepBlock, effect, record_eq]
    rw [List.foldl_cons, passes]
    exact foldl_skip rest { r with faults := joinFault (cause, p) r.faults }

/-- **A reader in a block.**  As long as no brace is closed that was not opened, the block is either
still open and without fault, or its fault has been kept and the reader skips what is left of it. -/
theorem foldl_inBlock (matching : openBraces 0 ts = some e) (r : Reader) (b : OpenBlock) :
    (∃ b', ts.foldl Reader.step { r with stage := .inBlock b } = { r with stage := .inBlock b' } ∧
      ∀ us, b.fault? (ts ++ us) = b'.fault? us) ∨
    ∃ f, (∀ us, b.fault? (ts ++ us) = some f) ∧
      ts.foldl Reader.step { r with stage := .inBlock b } =
        { r with stage := .skipping e, faults := joinFault f r.faults } := by
  induction ts generalizing b with
  | nil =>
    cases matching
    exact .inl ⟨b, rfl, fun us => rfl⟩
  | cons t ts ih =>
    cases effect : b.step t with
    | goesOn b' =>
      obtain ⟨d, counted, rest⟩ := openBraces_cons.1 matching
      rw [OpenBlock.countBrace_goesOn effect] at counted
      cases counted
      simp only [List.foldl_cons, step_goesOn r effect, List.cons_append, OpenBlock.fault?, effect]
      exact ih rest b'
    | closes block =>
      obtain ⟨d, counted, -⟩ := openBraces_cons.1 matching
      rw [OpenBlock.countBrace_closes effect] at counted
      cases counted
    | fault cause p passed =>
      refine .inr ⟨(cause, p), fun us => ?_, foldl_fault effect matching r⟩
      simp only [List.cons_append, OpenBlock.fault?, effect]

/-- The brace that closes a block ends it, faulty or not. -/
theorem step_closeBrace (hc : c.kind = .closeBrace) (r : Reader) (b : OpenBlock) :
    ∃ blocks, Reader.step { r with stage := .inBlock b } c = { r with
      stage := .afterBlock, blocks, faults := joinFaults r.faults (b.fault? [c]).toList } := by
  have braces := b.step_braces c
  cases effect : b.step c with
  | goesOn b' =>
    rw [effect] at braces
    exact absurd hc braces.2
  | closes block =>
    refine ⟨block :: r.blocks, ?_⟩
    simp [Reader.step, stepBlock, effect, OpenBlock.fault?, joinFaults]
  | fault cause p passed =>
    cases passed with
    | false =>
      refine ⟨r.blocks, ?_⟩
      simp [Reader.step, stepBlock, effect, record_eq, skip, hc, OpenBlock.fault?, joinFaults]
    | true =>
      rw [effect] at braces
      exact absurd hc (braces rfl).2

/-! ### From stage to stage -/

/-- Tokens lead from one stage to another, and leave these faults. -/
def Leads (before after : Stage) (ts : List Token) (found : List (Cause × Nat)) : Prop :=
  ∀ r : Reader, r.stage = before → (ts.foldl Reader.step r).stage = after ∧
    (ts.foldl Reader.step r).faults = joinFaults r.faults found

variable {first second third : Stage} {found found' : List (Cause × Nat)}

theorem Leads.append (h : Leads first second ts found) (h' : Leads second third us found') :
    Leads first third (ts ++ us) (found ++ found') := by
  intro r before
  obtain ⟨between, faults⟩ := h r before
  obtain ⟨after, faults'⟩ := h' _ between
  rw [List.foldl_append]
  refine ⟨after, faults'.trans ?_⟩
  rw [faults, joinFaults, joinFaults, joinFaults, List.foldl_append]

theorem leads_token (h : ∀ r : Reader, r.stage = first → (r.step t).stage = second ∧
    (r.step t).faults = r.faults) : Leads first second [t] [] := h

theorem leads_openBrace {o : Token} (ho : o.kind = .openBrace) :
    Leads .beforeSong .beforePart [o] [] ∧ Leads .beforePart .beforeBlock [o] [] := by
  constructor <;>
  · refine leads_token fun r before => ?_
    simp only [Reader.step, before, expect, ho, if_true, and_self]

theorem leads_comma (hc : c.kind = .comma) :
    Leads .afterBlock .beforeBlock [c] [] ∧ Leads .afterPart .beforePart [c] [] := by
  constructor <;>
  · refine leads_token fun r before => ?_
    simp only [Reader.step, before, hc, and_self]

theorem leads_closeBrace (hc : c.kind = .closeBrace) :
    Leads .afterBlock .afterPart [c] [] ∧ Leads .afterPart .afterSong [c] [] := by
  constructor <;>
  · refine leads_token fun r before => ?_
    simp only [Reader.step, before, hc, and_self]

theorem step_opens {o : Token} (ho : o.kind = .openBrace) {r : Reader}
    (before : r.stage = .beforeBlock) :
    r.step o = { r with stage := .inBlock (.start o.position) } := by
  obtain ⟨stage, blocks, parts, faults⟩ := r
  cases before
  exact (step_openBrace ⟨.beforeBlock, blocks, parts, faults⟩ ho).2.2

theorem leads_block (h : Braced Balanced ts) :
    Leads .beforeBlock .afterBlock ts (blockFault? ts).toList := by
  obtain ⟨o, inside, c, ho, balanced, hc, rfl⟩ := h
  intro r before
  rw [List.cons_append, List.foldl_cons, step_opens ho before, List.foldl_append, blockFault?]
  rcases foldl_inBlock balanced r (.start o.position) with ⟨b, read, later⟩ | ⟨f, later, read⟩
  · obtain ⟨blocks, closed⟩ := step_closeBrace hc r b
    rw [read, List.foldl_cons, List.foldl_nil, closed, later]
    exact ⟨rfl, rfl⟩
  · rw [read, List.foldl_cons, List.foldl_nil, later]
    simp only [Reader.step, skip_close hc]
    exact ⟨trivial, rfl⟩

theorem stays_in_block (h : Braced Balanced ts) {r : Reader} (before : r.stage = .beforeBlock)
    (part : us <+: ts) (some_token : us ≠ []) (not_all : us ≠ ts) :
    (∃ b, (us.foldl Reader.step r).stage = .inBlock b) ∨
      ∃ depth, (us.foldl Reader.step r).stage = .skipping depth := by
  obtain ⟨o, inside, c, ho, balanced, hc, rfl⟩ := h
  obtain ⟨rest, whole⟩ := part
  cases us with
  | nil => exact absurd rfl some_token
  | cons o' us =>
    rw [List.cons_append, List.cons_append, List.cons.injEq] at whole
    obtain ⟨rfl, whole⟩ := whole
    -- the last brace is not among the tokens that have been read
    have within : us <+: inside := by
      cases List.prefix_concat_iff.1 ⟨rest, whole⟩ with
      | inl all => exact absurd (by rw [all]; rfl) not_all
      | inr within => exact within
    obtain ⟨later, rfl⟩ := within
    obtain ⟨e, matching, -⟩ := openBraces_append.1 balanced
    rw [List.foldl_cons, step_opens ho before]
    rcases foldl_inBlock matching r (.start o'.position) with ⟨b, read, -⟩ | ⟨f, -, read⟩
    · exact .inl ⟨b, by rw [read]⟩
    · exact .inr ⟨e, by rw [read]⟩

/-- Things with commas between them lead from before the first to behind the last, when each of them
leads from before it to behind it. -/
theorem leads_separated {α : Type} {R : α → List Token → Prop} (foundIn : α → List (Cause × Nat))
    (each : ∀ a ts, R a ts → Leads first second ts (foundIn a))
    (comma : ∀ c : Token, c.kind = .comma → Leads second first [c] []) {as : List α}
    (h : Separated R as ts) : Leads first second ts (as.flatMap foundIn) := by
  induction h with
  | one h => simpa using each _ _ h
  | cons h hc _ ih =>
    rw [List.flatMap_cons, ← List.singleton_append]
    exact (each _ _ h).append ((comma _ hc).append ih)

theorem leads_part {blocks : List (List Token)} (h : PartOutline blocks ts) :
    Leads .beforePart .afterPart ts (blocks.filterMap blockFault?) := by
  obtain ⟨o, us, c, ho, inside, hc, rfl⟩ := h
  have through := leads_separated (fun block => (blockFault? block).toList)
    (fun block ts outline => by
      obtain ⟨rfl, braced⟩ := outline
      exact leads_block braced)
    (fun c hc => (leads_comma hc).1) inside
  rw [List.filterMap_eq_flatMap_toList]
  have all := ((leads_openBrace ho).2.append through).append (leads_closeBrace hc).1
  rwa [List.nil_append, List.append_nil] at all

theorem leads_song {parts : List (List (List Token))} (h : SongOutline parts ts) :
    Leads .beforeSong .afterSong ts (parts.flatten.filterMap blockFault?) := by
  obtain ⟨o, us, c, ho, inside, hc, rfl⟩ := h
  have through := leads_separated (fun blocks => blocks.filterMap blockFault?)
    (fun blocks ts outline => leads_part outline) (fun c hc => (leads_comma hc).2) inside
  have all := ((leads_openBrace ho).1.append through).append (leads_closeBrace hc).2
  rw [List.nil_append, List.append_nil] at all
  rwa [List.filterMap_flatten, ← List.flatMap_def]

/-! ### Keeping the faults of all blocks -/

theorem joinFaults_eq {faults found : List (Cause × Nat)}
    (ascends : found.Pairwise (·.2 < ·.2)) (fresh : ∀ f ∈ faults, ∀ g ∈ found, f.2 ≠ g.2) :
    joinFaults faults found = found.reverse ++ faults := by
  induction found generalizing faults with
  | nil => rfl
  | cons f found ih =>
    obtain ⟨first, later⟩ := List.pairwise_cons.1 ascends
    have kept : joinFault f faults = f :: faults := by
      rw [joinFault, if_neg]
      intro same
      obtain ⟨g, latest, place⟩ := Option.map_eq_some_iff.1 same
      exact fresh g (List.mem_of_head? latest) f List.mem_cons_self place
    have fresh' : ∀ g ∈ f :: faults, ∀ g' ∈ found, g.2 ≠ g'.2 := by
      intro g hg g' hg'
      rcases List.mem_cons.1 hg with rfl | old
      · exact Nat.ne_of_lt (first g' hg')
      · exact fresh g old g' (List.mem_cons_of_mem _ hg')
    rw [List.reverse_cons, List.append_assoc, List.singleton_append, ← ih later fresh', ← kept]
    rfl

end Reader

/-! ### Songs in outline -/

/-- **A block is read without fault exactly if it is one of the grammar.** -/
theorem blockFault?_eq_none_iff {ts : List Token} (h : Braced Balanced ts) :
    blockFault? ts = none ↔ ∃ block, BlockTokens block ts := by
  constructor
  · intro faultless
    obtain ⟨o, inside, c, ho, balanced, hc, rfl⟩ := h
    obtain ⟨block, filled, body⟩ :=
      OpenBlock.exists_body (OpenBlock.reads_start o.position) balanced hc faultless
    exact ⟨block, o, inside, c, ho, ⟨filled, body⟩, hc, rfl⟩
  · rintro ⟨block, tokens⟩
    -- the reader that keeps the block has no fault afterwards
    have kept := Reader.foldl_block tokens ⟨.beforeBlock, [], [], []⟩
    obtain ⟨-, faults⟩ := Reader.leads_block h ⟨.beforeBlock, [], [], []⟩ rfl
    rw [kept] at faults
    cases found : blockFault? ts with
    | none => rfl
    | some f =>
      rw [found] at faults
      cases faults

theorem Braced.exists_sublist {Q : List Token → Prop} {ts : List Token} (h : Braced Q ts) :
    ∃ us, Q us ∧ us.Sublist ts := by
  obtain ⟨o, us, c, -, inside, -, rfl⟩ := h
  exact ⟨us, inside, .trans (.cons _ (.refl us)) (List.sublist_append_left _ _)⟩

theorem Separated.sublist {α : Type} {R : α → List Token → Prop} (own : α → List Token)
    (each : ∀ a ts, R a ts → (own a).Sublist ts) {as : List α} {ts : List Token}
    (h : Separated R as ts) : (as.flatMap own).Sublist ts := by
  induction h with
  | one h => simpa using each _ _ h
  | cons h hc _ ih =>
    rw [List.flatMap_cons]
    exact (each _ _ h).append (.cons _ ih)

theorem SongOutline.sublist {parts : List (List (List Token))} {ts : List Token}
    (h : SongOutline parts ts) : parts.flatten.flatten.Sublist ts := by
  obtain ⟨us, separated, within⟩ := h.exists_sublist
  have blocks : ∀ blocks vs, PartOutline blocks vs → blocks.flatten.Sublist vs := by
    intro blocks vs part
    obtain ⟨ws, separated, within⟩ := part.exists_sublist
    have tokens := separated.sublist id fun block ts (outline : BlockOutline block ts) => by
      rw [outline.1]
      exact .refl block
    rw [List.flatMap_id] at tokens
    exact tokens.trans within
  have tokens := separated.sublist List.flatten blocks
  rw [List.flatten_flatten, ← List.flatMap_def]
  exact tokens.trans within

theorem SongOutline.braced {parts : List (List (List Token))} {ts : List Token}
    (h : SongOutline parts ts) : ∀ block ∈ parts.flatten, Braced Balanced block := by
  intro block hblock
  obtain ⟨blocks, hblocks, mem⟩ := List.mem_flatten.1 hblock
  obtain ⟨us, separated, -⟩ := h.inside
  obtain ⟨vs, part, -⟩ := separated.mem.2 blocks hblocks
  obtain ⟨ws, separated, -⟩ := part.inside
  obtain ⟨xs, outline, -⟩ := separated.mem.2 block mem
  obtain ⟨rfl, braced⟩ := outline
  exact braced

theorem SongOutline.faults_ascend {parts : List (List (List Token))} {text : List Char}
    (h : SongOutline parts (tokens text)) :
    (parts.flatten.filterMap blockFault?).Pairwise (·.2 < ·.2) := by
  have ascends := (tokens_ascend text).sublist h.sublist
  refine List.Pairwise.filterMap blockFault? ?_ (List.pairwise_flatten.1 ascends).2
  intro ts us before f hf g hg
  obtain ⟨-, t, ht, place⟩ := blockFault?_isFaultAt hf
  obtain ⟨-, u, hu, place'⟩ := blockFault?_isFaultAt hg
  rw [← place, ← place']
  exact before t ht u hu

/-- **A faulty block hides no fault of another.**  In a text with the braces and commas of a song,
whatever its blocks hold between braces that match, the faults are those of the stray characters and
then, block by block, the fault of each block that is none of the grammar.  It is the fault of the
block read by itself: it depends on the tokens of the block alone, and moves with them.  Behind the
brace that closes a block, and not before, the reader is behind the block, whether the block is
faulty or not. -/
theorem faults_of_blocks {text : List Char} {parts : List (List (List Token))}
    (outline : SongOutline parts (tokens text)) :
    (readNested text).faults =
      (strayFaults text ++ parts.flatten.filterMap blockFault?).map
        (fun (cause, p) => ⟨cause, p, text⟩) ∧
    ∀ ts ∈ parts.flatten,
      (blockFault? ts = none ↔ ∃ block, BlockTokens block ts) ∧
      (∀ f : Nat → Nat, blockFault? (ts.map fun t => { t with position := f t.position }) =
        (blockFault? ts).map fun (cause, p) => (cause, f p)) ∧
      ∀ r : Reader, r.stage = .beforeBlock →
        (ts.foldl Reader.step r).stage = .afterBlock ∧
        ∀ us, us <+: ts → us ≠ [] → us ≠ ts →
          (∃ b, (us.foldl Reader.step r).stage = .inBlock b) ∨
            ∃ depth, (us.foldl Reader.step r).stage = .skipping depth := by
  constructor
  · have led := Reader.leads_song outline (.start (strayFaults text).reverse) rfl
    have fresh : ∀ f ∈ (strayFaults text).reverse, ∀ g ∈ parts.flatten.filterMap blockFault?,
        f.2 ≠ g.2 := by
      intro f hf g hg
      obtain ⟨block, hblock, found⟩ := List.mem_filterMap.1 hg
      obtain ⟨-, t, ht, place⟩ := blockFault?_isFaultAt found
      have mem : t ∈ tokens text := outline.sublist.subset (List.mem_flatten.2 ⟨block, hblock, ht⟩)
      rw [← place]
      exact (position_ne_stray mem (List.mem_reverse.1 hf)).symm
    have kept : (nestedReader text).faults = (parts.flatten.filterMap blockFault?).reverse ++
        (strayFaults text).reverse := by
      rw [nestedReader, Reader.finish, led.1]
      exact led.2.trans (Reader.joinFaults_eq outline.faults_ascend fresh)
    rw [readNested_faults, kept, List.reverse_append, List.reverse_reverse, List.reverse_reverse]
  · intro ts hts
    have braced := outline.braced ts hts
    exact ⟨blockFault?_eq_none_iff braced, fun f => blockFault?_moved f ts,
      fun r before => ⟨(Reader.leads_block braced r before).1,
        fun us => Reader.stays_in_block braced before⟩⟩

/-- A text with three blocks and a stray character: a block without notes, one of the grammar, and
one with a group that no note value precedes. -/
def threeBlocksText : List Char :=
  ['{', '{', '{', '}', ',', '{', '1', '}', ',', '{', '$', '(', ')', '}', '}', '}']

/-- The tokens of its blocks. -/
def threeBlocks : List (List Token) :=
  [[⟨.openBrace, ['{'], 2⟩, ⟨.closeBrace, ['}'], 3⟩],
    [⟨.openBrace, ['{'], 5⟩, ⟨.note, ['1'], 6⟩, ⟨.closeBrace, ['}'], 7⟩],
    [⟨.openBrace, ['{'], 9⟩, ⟨.openParen, ['('], 11⟩, ⟨.closeParen, [')'], 12⟩,
      ⟨.closeBrace, ['}'], 13⟩]]

theorem faults_of_threeBlocks : SongOutline [threeBlocks] (tokens threeBlocksText) ∧
    (readNested threeBlocksText).faults =
      [⟨.strayChar '$', 10, threeBlocksText⟩, ⟨.noNotes, 2, threeBlocksText⟩,
        ⟨.inBlock "(", 11, threeBlocksText⟩] := by
  have read : tokens threeBlocksText = [⟨.openBrace, ['{'], 0⟩, ⟨.openBrace, ['{'], 1⟩] ++
      [⟨.openBrace, ['{'], 2⟩, ⟨.closeBrace, ['}'], 3⟩] ++ ⟨.comma, [','], 4⟩ ::
      [⟨.openBrace, ['{'], 5⟩, ⟨.note, ['1'], 6⟩, ⟨.closeBrace, ['}'], 7⟩] ++ ⟨.comma, [','], 8⟩ ::
      [⟨.openBrace, ['{'], 9⟩, ⟨.openParen, ['('], 11⟩, ⟨.closeParen, [')'], 12⟩,
        ⟨.closeBrace, ['}'], 13⟩] ++ [⟨.closeBrace, ['}'], 14⟩, ⟨.closeBrace, ['}'], 15⟩] := by cbv
  have strays : strayFaults threeBlocksText = [(.strayChar '$', 10)] := by cbv
  have faults : threeBlocks.filterMap blockFault? = [(.noNotes, 2), (.inBlock "(", 11)] := by rfl
  have outline : SongOutline [threeBlocks] (tokens threeBlocksText) := by
    rw [read]
    have third : Balanced [⟨.openParen, ['('], 11⟩, ⟨.closeParen, [')'], 12⟩] := rfl
    have second : Balanced [⟨.note, ['1'], 6⟩] := rfl
    exact ⟨_, _, _, rfl, .one ⟨_, _, _, rfl, .cons ⟨rfl, _, [], _, rfl, rfl, rfl, rfl⟩ rfl
      (.cons ⟨rfl, _, _, _, rfl, second, rfl, rfl⟩ rfl
        (.one ⟨rfl, _, _, _, rfl, third, rfl, rfl⟩)), rfl, rfl⟩, rfl, rfl⟩
  refine ⟨outline, (faults_of_blocks outline).1.trans ?_⟩
  rw [strays, List.flatten_singleton, faults]
  rfl

end ChordSequencer.Notation
