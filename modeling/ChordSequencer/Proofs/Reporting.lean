import ChordSequencer.Proofs.Completeness
import ChordSequencer.Proofs.Layout
import Mathlib.Data.List.Induction

/-!
# The order in which faults are reported

The stray characters of a text are reported first, from the left to the right.  The other faults
come after them in the order in which the reader meets them, and only the latest one is looked at
when a further one is kept.  That they, too, go from the left to the right, and that no place is
reported twice, rests on what the reader holds on to: a fault is met at the token that is read, or
else at the opening brace or a note value of the block that is open, and no fault has been kept
since that block was opened.

* `Reader.Takes` : everything that a token can do to the faults of a reader and to its open block.
* `OpenBlock.Among` : what an open block remembers are tokens of its own.
* `Reader.Places` : the invariant.  `Reader.Places.step` is the step and `Reader.places_foldl` the
  run.
* `faults_in_order` : the order of the faults of any text.
-/

namespace ChordSequencer.Notation

/-! ### Keeping a fault -/

/-- A fault joins others, the latest first, unless the latest one is at the same place. -/
def joinFault (f : Cause × Nat) (faults : List (Cause × Nat)) : List (Cause × Nat) :=
  if faults.head?.map (·.2) = some f.2 then faults else f :: faults

theorem Reader.record_eq (r : Reader) (cause : Cause) (p : Nat) :
    r.record cause p = { r with faults := joinFault (cause, p) r.faults } := by
  obtain ⟨stage, blocks, parts, faults⟩ := r
  cases faults with
  | nil => simp [record, joinFault]
  | cons f faults =>
    simp only [record, joinFault, List.head?_cons, Option.map_some, Option.some.injEq]
    split <;> rfl

theorem joinFault_joinFault (cause cause' : Cause) (p : Nat) (faults : List (Cause × Nat)) :
    joinFault (cause', p) (joinFault (cause, p) faults) = joinFault (cause, p) faults := by
  simp only [joinFault]
  split
  · rfl
  · simp

/-- What a fault in the syntax is about: it is no stray character. -/
def Cause.IsSyntax (cause : Cause) : Prop := ∀ c, cause ≠ .strayChar c

theorem isSyntax_expected (bracket place : String) (token : Option String) :
    (Cause.expected bracket place token).IsSyntax := fun _ => by simp

/-- A fault in the syntax, at one of these tokens. -/
def IsFaultAt (ts : List Token) (f : Cause × Nat) : Prop :=
  f.1.IsSyntax ∧ ∃ t ∈ ts, t.position = f.2

theorem IsFaultAt.mono {ts us : List Token} {f : Cause × Nat} (h : IsFaultAt ts f) (sub : ts ⊆ us) :
    IsFaultAt us f := by
  obtain ⟨syntactic, t, mem, place⟩ := h
  exact ⟨syntactic, t, sub mem, place⟩

/-! ### What an open block remembers -/

namespace OpenBlock

variable {b : OpenBlock} {own us : List Token}

/-- The opening brace and the note values of an open block are among these tokens. -/
structure Among (b : OpenBlock) (own : List Token) : Prop where
  /-- The opening brace. -/
  opening : ∃ o ∈ own, o.position = b.opening
  /-- The note values before open groups. -/
  tags : ∀ g ∈ b.groups, g.tag ∈ own
  /-- The note value that waits for its note or group. -/
  pending : ∀ d ∈ b.pending, d ∈ own

theorem among_start (o : Token) : (start o.position).Among [o] :=
  ⟨⟨o, List.mem_singleton_self o, rfl⟩, List.forall_mem_nil _, by simp [start]⟩

theorem Among.mono (h : b.Among own) (sub : own ⊆ us) : b.Among us := by
  obtain ⟨⟨o, mem, place⟩, tags, pending⟩ := h
  exact ⟨⟨o, sub mem, place⟩, fun g hg => sub (tags g hg), fun d hd => sub (pending d hd)⟩

theorem Among.add (h : b.Among own) (item : Item) : (b.add item).Among own := by
  obtain ⟨opening, tags, -⟩ := h
  have none_waits : ∀ d ∈ (none : Option Token), d ∈ own :=
    fun d hd => absurd hd (Option.not_mem_none d)
  simp only [OpenBlock.add]
  split
  · rename_i outside
    exact ⟨opening, by simp [outside], none_waits⟩
  · rename_i g gs inside
    rw [inside] at tags
    obtain ⟨tag, outer⟩ := List.forall_mem_cons.1 tags
    exact ⟨opening, List.forall_mem_cons.2 ⟨tag, outer⟩, none_waits⟩

/-- What a token makes of an open block still remembers only these tokens, and a fault is at one of
them. -/
def Effect.Among (own : List Token) : Effect → Prop
  | .goesOn b => b.Among own
  | .closes _ => True
  | .fault cause p _ => IsFaultAt own (cause, p)

theorem among_fault {t : Token} {cause : Cause} {passed : Bool} (ht : t ∈ own)
    (syntactic : cause.IsSyntax) : (Effect.fault cause t.position passed).Among own :=
  ⟨syntactic, t, ht, rfl⟩

variable {t : Token}

theorem stepPending_among (h : b.Among own) {tag : Token} (htag : tag ∈ own) (ht : t ∈ own) :
    (b.stepPending tag t).Among own := by
  simp only [stepPending]
  split
  · exact h.add _
  · exact ⟨h.opening, List.forall_mem_cons.2 ⟨htag, h.tags⟩, by simp⟩
  · exact among_fault ht (isSyntax_expected _ _ _)

theorem stepGroup_among (h : b.Among own) {g : OpenGroup} {gs : List OpenGroup}
    (inside : b.groups = g :: gs) (ht : t ∈ own) : (b.stepGroup g gs t).Among own := by
  obtain ⟨tag, outer⟩ := List.forall_mem_cons.1 (inside ▸ h.tags)
  simp only [stepGroup]
  split
  · split
    · exact among_fault tag fun c => by simp
    · have closed : ({ b with groups := gs } : OpenBlock).Among own := ⟨h.opening, outer, h.pending⟩
      exact closed.add _
  · exact h.add _
  · exact ⟨h.opening, h.tags, fun d hd => by cases hd; exact ht⟩
  · exact among_fault ht fun c => by simp

theorem stepBody_among (h : b.Among own) (ht : t ∈ own) : (b.stepBody t).Among own := by
  simp only [stepBody]
  split
  · split
    · exact ⟨fun c => by simp, h.opening⟩
    · trivial
  · exact ⟨h.opening, h.tags, h.pending⟩
  · exact h.add _
  · exact ⟨h.opening, h.tags, fun d hd => by cases hd; exact ht⟩
  · split
    · exact ⟨h.opening, h.tags, h.pending⟩
    · exact among_fault ht fun c => by simp
  · exact among_fault ht fun c => by simp

/-- **A token that an open block reads becomes one of its own.** -/
theorem Among.step (h : b.Among own) (t : Token) : (b.step t).Among (own ++ [t]) := by
  have further := h.mono (List.subset_append_left own [t])
  have here : t ∈ own ++ [t] := List.mem_append_right _ (List.mem_singleton_self t)
  simp only [OpenBlock.step]
  split
  · rename_i tag waiting
    exact stepPending_among further (further.pending tag (waiting ▸ rfl)) here
  · rename_i inside
    exact stepGroup_among further inside here
  · exact stepBody_among further here

theorem endCause_isSyntax (b : OpenBlock) : b.endCause.IsSyntax := by
  intro c
  simp only [endCause]
  split
  · exact isSyntax_expected _ _ _ c
  · simp
  · simp

end OpenBlock

namespace Reader

variable {r r' : Reader} {t : Token} {strays found : List (Cause × Nat)} {earlier own : List Token}

/-! ### What a token does -/

/-- What a token makes of the faults of a reader and of the block that is open. -/
inductive Takes (r : Reader) (t : Token) (r' : Reader) : Prop
  /-- No fault, and no block is open. -/
  | passes (faults : r'.faults = r.faults) (outside : ∀ b, r'.stage ≠ .inBlock b)
  /-- A block is opened. -/
  | opens (faults : r'.faults = r.faults) (inside : r'.stage = .inBlock (.start t.position))
  /-- The open block goes on. -/
  | goesOn {b b' : OpenBlock} (before : r.stage = .inBlock b) (effect : b.step t = .goesOn b')
      (faults : r'.faults = r.faults) (inside : r'.stage = .inBlock b')
  /-- The open block is faulty. -/
  | blockFault {b : OpenBlock} {cause : Cause} {p : Nat} {passed : Bool}
      (before : r.stage = .inBlock b) (effect : b.step t = .fault cause p passed)
      (faults : r'.faults = joinFault (cause, p) r.faults) (outside : ∀ b, r'.stage ≠ .inBlock b)
  /-- The token cannot stand outside the blocks. -/
  | fault {cause : Cause} (syntactic : cause.IsSyntax)
      (faults : r'.faults = joinFault (cause, t.position) r.faults)
      (outside : ∀ b, r'.stage ≠ .inBlock b)

theorem skip_outside (r : Reader) (depth : Nat) (t : Token) (b : OpenBlock) :
    (r.skip depth t).stage ≠ .inBlock b := by
  simp only [skip]
  split <;> simp

theorem halt_takes (r : Reader) {cause : Cause} (syntactic : cause.IsSyntax) (t : Token) :
    r.Takes t (r.halt cause t) :=
  .fault syntactic (by simp only [halt, record_eq]) (by simp [halt])

theorem expect_takes (r : Reader) (kind : TokenKind) (bracket place : String) (t : Token)
    {next : Stage} (leads : r.Takes t { r with stage := next }) :
    r.Takes t (r.expect kind bracket place t next) := by
  simp only [expect]
  split
  · exact leads
  · exact r.halt_takes (isSyntax_expected _ _ _) t

theorem stepBlock_takes {b : OpenBlock} (before : r.stage = .inBlock b) (t : Token) :
    r.Takes t (r.stepBlock b t) := by
  simp only [stepBlock]
  split
  · rename_i effect
    exact .goesOn before effect rfl rfl
  · exact .passes rfl (by simp)
  · rename_i effect
    exact .blockFault before effect (by simp only [record_eq]) (by simp)
  · rename_i effect
    refine .blockFault before effect ?_ (skip_outside _ 0 t)
    simp only [record_eq, skip]
    split <;> rfl

/-- **What a token can do to a reader.** -/
theorem step_takes (r : Reader) (t : Token) : r.Takes t (r.step t) := by
  simp only [Reader.step]
  split
  · exact r.expect_takes _ _ _ t (.passes rfl (by simp))
  · exact r.expect_takes _ _ _ t (.passes rfl (by simp))
  · exact r.expect_takes _ _ _ t (.opens rfl rfl)
  · rename_i b before
    exact stepBlock_takes before t
  · refine .passes ?_ (r.skip_outside _ t)
    simp only [skip]
    split <;> rfl
  · split
    · exact .passes rfl (by simp)
    · exact .passes rfl (by simp)
    · exact r.halt_takes (isSyntax_expected _ _ _) t
  · split
    · exact .passes rfl (by simp)
    · exact .passes rfl (by simp)
    · exact r.halt_takes (isSyntax_expected _ _ _) t
  · exact r.halt_takes (fun _ => by simp) t
  · rename_i halted
    exact .passes rfl fun b => by simp [halted]

theorem finish_faults (r : Reader) (length : Nat) : (r.finish length).faults = r.faults ∨
    ∃ cause : Cause, cause.IsSyntax ∧
      (r.finish length).faults = joinFault (cause, length) r.faults := by
  simp only [finish]
  split
  case h_4 b _ =>
    refine .inr ⟨b.endCause, b.endCause_isSyntax, ?_⟩
    simp only [record_eq, joinFault_joinFault]
  case h_8 => exact .inl rfl
  case h_9 => exact .inl rfl
  all_goals exact .inr ⟨_, isSyntax_expected _ _ _, by rw [record_eq]⟩

/-! ### The invariant -/

/-- The faults of a reader are strays and, after them, faults `found` at tokens `earlier`, from the
left to the right.  Nothing was found in the open block, which has read the tokens `own`. -/
structure Places (r : Reader) (strays found : List (Cause × Nat)) (earlier own : List Token) :
    Prop where
  /-- What was found comes after the strays, the latest first. -/
  faults : r.faults = found ++ strays
  /-- From the left to the right. -/
  descends : found.Pairwise fun f g => g.2 < f.2
  /-- At these tokens. -/
  places : ∀ f ∈ found, IsFaultAt earlier f
  /-- The open block remembers tokens of its own. -/
  inside : ∀ b, r.stage = .inBlock b → b.Among own

/-- A fault to the right of what was found is found, too, or left out. -/
theorem exists_joined {f : Cause × Nat} (descends : found.Pairwise fun f g => g.2 < f.2)
    (right : ∀ g ∈ found, g.2 < f.2) (strays : List (Cause × Nat)) :
    ∃ found', joinFault f (found ++ strays) = found' ++ strays ∧
      (found'.Pairwise fun f g => g.2 < f.2) ∧ ∀ g ∈ found', g = f ∨ g ∈ found := by
  simp only [joinFault]
  split
  · exact ⟨found, rfl, descends, fun g hg => .inr hg⟩
  · exact ⟨f :: found, rfl, List.pairwise_cons.2 ⟨right, descends⟩, fun g hg => List.mem_cons.1 hg⟩

theorem lt_of_isFaultAt {ts us : List Token}
    (ascends : (ts ++ us).Pairwise (·.position < ·.position)) {f g : Cause × Nat}
    (hf : IsFaultAt ts f) (hg : IsFaultAt us g) : f.2 < g.2 := by
  obtain ⟨-, t, ht, place⟩ := hf
  obtain ⟨-, u, hu, place'⟩ := hg
  rw [← place, ← place']
  exact (List.pairwise_append.1 ascends).2.2 t ht u hu

/-- A fault that is met at a token of the open block, or at the token that is read, joins the
others. -/
theorem Places.joins (h : r.Places strays found earlier own) {late : List Token}
    (ascends : (earlier ++ late).Pairwise (·.position < ·.position)) {f : Cause × Nat}
    (met : IsFaultAt late f) (faults : r'.faults = joinFault f r.faults)
    (outside : ∀ b, r'.stage ≠ .inBlock b) :
    ∃ found', r'.Places strays found' (earlier ++ late) [] := by
  have right : ∀ g ∈ found, g.2 < f.2 := fun g hg => lt_of_isFaultAt ascends (h.places g hg) met
  obtain ⟨found', joined, descends, from_found⟩ := exists_joined h.descends right strays
  refine ⟨found', ?_, descends, fun g hg => ?_, fun b inside => absurd inside (outside b)⟩
  · rw [faults, h.faults, joined]
  · rcases from_found g hg with rfl | known
    · exact met.mono (List.subset_append_right _ _)
    · exact (h.places g known).mono (List.subset_append_left _ _)

/-- **A token keeps the faults in order.** -/
theorem Places.step (h : r.Places strays found earlier own) (t : Token)
    (ascends : (earlier ++ own ++ [t]).Pairwise (·.position < ·.position)) :
    ∃ found' earlier' own', (r.step t).Places strays found' earlier' own' ∧
      earlier' ++ own' = earlier ++ own ++ [t] := by
  rw [List.append_assoc] at ascends ⊢
  have here : t ∈ own ++ [t] := List.mem_append_right _ (List.mem_singleton_self t)
  cases r.step_takes t with
  | passes faults outside =>
    refine ⟨found, earlier ++ (own ++ [t]), [], ⟨faults.trans h.faults, h.descends, fun f hf => ?_,
      fun b inside => absurd inside (outside b)⟩, List.append_nil _⟩
    exact (h.places f hf).mono (List.subset_append_left _ _)
  | opens faults inside =>
    refine ⟨found, earlier ++ own, [t], ⟨faults.trans h.faults, h.descends, fun f hf => ?_,
      fun b now => ?_⟩, List.append_assoc _ _ _⟩
    · exact (h.places f hf).mono (List.subset_append_left _ _)
    · rw [inside] at now
      cases now
      exact OpenBlock.among_start t
  | goesOn before effect faults inside =>
    refine ⟨found, earlier, own ++ [t], ⟨faults.trans h.faults, h.descends, h.places,
      fun b now => ?_⟩, rfl⟩
    rw [inside] at now
    cases now
    have among := (h.inside _ before).step t
    rwa [effect] at among
  | blockFault before effect faults outside =>
    have met := (h.inside _ before).step t
    rw [effect] at met
    obtain ⟨found', placed⟩ := h.joins ascends met faults outside
    exact ⟨found', _, [], placed, List.append_nil _⟩
  | fault syntactic faults outside =>
    obtain ⟨found', placed⟩ := h.joins ascends ⟨syntactic, t, here, rfl⟩ faults outside
    exact ⟨found', _, [], placed, List.append_nil _⟩

/-- **A reader has its faults in order**, whatever it has read. -/
theorem places_foldl (strays : List (Cause × Nat)) {ts : List Token}
    (ascends : ts.Pairwise (·.position < ·.position)) :
    ∃ found earlier own, (ts.foldl Reader.step (start strays)).Places strays found earlier own ∧
      earlier ++ own = ts := by
  induction ts using List.reverseRecOn with
  | nil =>
    exact ⟨[], [], [], ⟨rfl, .nil, List.forall_mem_nil _, by simp [start]⟩, rfl⟩
  | append_singleton ts t ih =>
    obtain ⟨found, earlier, own, placed, rfl⟩ := ih (List.pairwise_append.1 ascends).1
    rw [List.foldl_append]
    exact placed.step t ascends

theorem Places.finish (h : r.Places strays found earlier own) {length : Nat}
    (short : ∀ t ∈ earlier, t.position < length) :
    ∃ found', (r.finish length).faults = found' ++ strays ∧
      (found'.Pairwise fun f g => g.2 < f.2) ∧
      ∀ f ∈ found', f.1.IsSyntax ∧ (f.2 = length ∨ ∃ t ∈ earlier, t.position = f.2) := by
  have known : ∀ f ∈ found, f.1.IsSyntax ∧ (f.2 = length ∨ ∃ t ∈ earlier, t.position = f.2) :=
    fun f hf => ⟨(h.places f hf).1, .inr (h.places f hf).2⟩
  rcases r.finish_faults length with same | ⟨cause, syntactic, faults⟩
  · exact ⟨found, same.trans h.faults, h.descends, known⟩
  · have right : ∀ g ∈ found, g.2 < length := by
      intro g hg
      obtain ⟨-, t, ht, place⟩ := h.places g hg
      rw [← place]
      exact short t ht
    obtain ⟨found', joined, descends, from_found⟩ :=
      exists_joined (f := (cause, length)) h.descends right strays
    refine ⟨found', by rw [faults, h.faults, joined], descends, fun f hf => ?_⟩
    rcases from_found f hf with rfl | old
    · exact ⟨syntactic, .inl rfl⟩
    · exact known f old

end Reader

/-! ### Texts -/

theorem readNested_faults (text : List Char) : (readNested text).faults =
    (nestedReader text).faults.reverse.map fun (cause, p) => ⟨cause, p, text⟩ := by
  simp only [readNested]
  split
  · rename_i none_found
    rw [none_found]
    rfl
  · rfl

/-- **Faults are reported from the left to the right, and no place twice.**  The faults of a text
are first those of its stray characters, one at each character that neither a token nor a run of
blanks covers, in ascending order of their places; and then faults in the syntax, in ascending
order, each at the beginning of a token or at the end of the text.  All places are different. -/
theorem faults_in_order (text : List Char) :
    ∃ found : List (Cause × Nat),
      (readNested text).faults =
        (strayFaults text ++ found).map (fun (cause, p) => ⟨cause, p, text⟩) ∧
      (∀ cause p, (cause, p) ∈ strayFaults text ↔
        ∃ c, cause = .strayChar c ∧ text[p]? = some c ∧
          ∀ l ∈ Lexeme.ofText 0 text, l.kind ≠ .stray →
            ¬ (l.position ≤ p ∧ p < l.position + l.text.length)) ∧
      (strayFaults text).Pairwise (·.2 < ·.2) ∧ found.Pairwise (·.2 < ·.2) ∧
      (∀ f ∈ found, (∀ c, f.1 ≠ .strayChar c) ∧
        (f.2 = text.length ∨ ∃ t ∈ tokens text, t.position = f.2)) ∧
      ((strayFaults text ++ found).map (·.2)).Nodup := by
  obtain ⟨found, earlier, own, placed, read⟩ :=
    Reader.places_foldl (strayFaults text).reverse (tokens_ascend text)
  have earlier_tokens : earlier ⊆ tokens text := read ▸ List.subset_append_left earlier own
  obtain ⟨found', faults, descends, places⟩ :=
    placed.finish fun t ht => position_lt (earlier_tokens ht)
  have ascends : found'.reverse.Pairwise (·.2 < ·.2) := List.pairwise_reverse.2 descends
  have places' : ∀ f ∈ found'.reverse, (∀ c, f.1 ≠ .strayChar c) ∧
      (f.2 = text.length ∨ ∃ t ∈ tokens text, t.position = f.2) := by
    intro f hf
    obtain ⟨syntactic, place⟩ := places f (List.mem_reverse.1 hf)
    exact ⟨syntactic, place.imp_right fun ⟨t, ht, here⟩ => ⟨t, earlier_tokens ht, here⟩⟩
  have strays := strayFaults_ascend text
  refine ⟨found'.reverse, ?_, fun cause p => mem_strayFaults_iff, strays, ascends, places', ?_⟩
  · rw [readNested_faults, nestedReader, faults, List.reverse_append, List.reverse_reverse]
  · rw [List.map_append]
    refine List.nodup_append.2 ⟨List.pairwise_map.2 (strays.imp Nat.ne_of_lt),
      List.pairwise_map.2 (ascends.imp Nat.ne_of_lt), ?_⟩
    intro p hp q hq
    obtain ⟨f, hf, rfl⟩ := List.mem_map.1 hp
    obtain ⟨g, hg, rfl⟩ := List.mem_map.1 hq
    rcases (places' g hg).2 with atEnd | ⟨t, ht, place⟩
    · obtain ⟨c, -, char, -⟩ := mem_strayFaults_iff.1 hf
      rw [atEnd]
      exact Nat.ne_of_lt (List.getElem?_eq_some_iff.1 char).1
    · rw [← place]
      exact (position_ne_stray ht hf).symm

end ChordSequencer.Notation
