import ChordSequencer.Proofs.Aside
import ChordSequencer.Proofs.Pace

/-!
# Performing in turn

A caller who is alone performs the parts of a song one after another, each to its end
(`Conductor.inTurn`): blocks, and steps in which nothing is played.  A round of a song is all its
blocks in their order, and a step of rest if none of them plays anything (`Song.round`).

* `Song.rounds_blocks` : which block of the song comes when.
* `Conductor.Later` : what a performance leaves alone or only lets grow.
* `Conductor.inTurn_blocks` : whether a selector was performed is known from the blocks.
* `Conductor.inTurn_counts`, `Conductor.inTurn_waits` : the number of blocks, and the block in which
  the caller waits.
* `Conductor.performBlocks_inTurn` : under the virtual clock the caller performs blocks in turn.
-/

namespace ChordSequencer

/-- What a caller can perform of a song. -/
inductive Part
  /-- A block. -/
  | block (b : Block)
  /-- A step in which nothing is played. -/
  | rest

namespace Part

/-- The block, if it is one. -/
def block? : Part → Option Block
  | block b => some b
  | rest => none

end Part

namespace Song

variable (song : Song)

/-- No block of the song plays anything. -/
def Silent : Prop := ∀ b ∈ song.blocks, b.selectors = []

instance : Decidable song.Silent :=
  inferInstanceAs (Decidable (∀ b ∈ song.blocks, b.selectors = []))

/-- One round of the song: its blocks in their order, and a step if none of them plays anything. -/
def round : List Part := song.blocks.map .block ++ if song.Silent then [.rest] else []

/-- Some rounds of the song. -/
def rounds (n : Nat) : List Part := (List.replicate n song.round).flatten

theorem rounds_succ (n : Nat) : song.rounds (n + 1) = song.round ++ song.rounds n := by
  rw [rounds, List.replicate_succ, List.flatten_cons, rounds]

theorem round_blocks : song.round.filterMap Part.block? = song.blocks := by
  have blocks : (song.blocks.map Part.block).filterMap Part.block? = song.blocks := by
    rw [List.filterMap_map]
    exact List.filterMap_some
  rw [round, List.filterMap_append, blocks]
  split <;> simp [Part.block?]

theorem rounds_of_plays (plays : ¬ song.Silent) (n : Nat) :
    song.rounds n = (List.replicate n song.blocks).flatten.map .block := by
  rw [rounds, round, if_neg plays, List.append_nil, List.map_flatten, List.map_replicate]

/-- **In some rounds** each block of the song is followed by the next one, and the last one by the
first. -/
theorem rounds_blocks (n : Nat) :
    ((song.rounds n).filterMap Part.block?).length = n * song.blocks.length ∧
      ∀ i < n * song.blocks.length,
        ((song.rounds n).filterMap Part.block?)[i]? = song.blocks[i % song.blocks.length]? := by
  induction n with
  | zero => simp [rounds]
  | succ n ih =>
    obtain ⟨length, blocks⟩ := ih
    rw [rounds_succ, List.filterMap_append, round_blocks]
    refine ⟨by rw [List.length_append, length]; ring, fun i inside => ?_⟩
    rcases Nat.lt_or_ge i song.blocks.length with first | later
    · rw [List.getElem?_append_left first, Nat.mod_eq_of_lt first]
    · rw [List.getElem?_append_right later, blocks _ (by rw [Nat.succ_mul] at inside; omega),
        ← Nat.mod_eq_sub_mod later]

end Song

namespace Conductor

variable {c c' d : Conductor}

/-! ### What grows -/

/-- A conductor after a while of performing: it still has its song, was stopped or not as before,
and has performed no fewer selectors. -/
structure Later (c c' : Conductor) : Prop where
  /-- The song is the same. -/
  song : c'.song = c.song
  /-- Playback was stopped or not as before. -/
  stopRequested : c'.stopRequested = c.stopRequested
  /-- No fewer selectors were performed. -/
  steps : c.stepsPerformed ≤ c'.stepsPerformed

theorem Later.refl (c : Conductor) : c.Later c := ⟨rfl, rfl, le_rfl⟩

theorem Later.trans (h : c.Later c') (h' : c'.Later d) : c.Later d :=
  ⟨h'.song.trans h.song, h'.stopRequested.trans h.stopRequested, h.steps.trans h'.steps⟩

theorem Deed.later {hold : Hold} (h : Deed hold c c') : c.Later c' := by
  have frame := h.change.frame_eq
  refine ⟨congrArg Frame.song frame, congrArg Frame.stopRequested frame, ?_⟩
  cases h with
  | @begins i note | @resumes i note =>
    obtain ⟨sent, sounding, same⟩ := c.noteOn_frame i.channel note i.velocity
    rw [noteOnOf, same]
  | ends channel note =>
    obtain ⟨sent, sounding, same⟩ := c.noteOff_frame channel note
    rw [same]
  | silences =>
    obtain ⟨sent, same⟩ := c.release_frame
    rw [same]
  | @announces i =>
    obtain ⟨sent, same⟩ := c.send_frame (.program i.channel i.timbre)
    rw [same]
  | reworks | warns | countsBlock => exact le_rfl
  | counts => exact Nat.le_succ _

theorem Deeds.later {hold : Hold} (h : Deeds hold c c') : c.Later c' := by
  induction h with
  | refl => exact .refl c
  | tail _ deed ih => exact ih.trans deed.later

theorem beginSelector_counts {selector : String} {base : Nat} {seconds : Float} {hold : Hold}
    (waits : c.beginSelector selector base = (c', .waits seconds hold)) :
    c.stepsPerformed < c'.stepsPerformed := by
  rcases (beginSelector_counted selector base : _ ∨ Does .step id c.counted _) with
    ⟨why, failed⟩ | does
  · rw [waits] at failed
    cases failed
  · have later := does.deeds.later
    rw [waits] at later
    exact later.steps

theorem enterSelector_counts {base : Nat} {selector : String} {todo all : List String}
    {again : Nat} {seconds : Float} {cursor : BlockCursor}
    (waits : c.enterSelector base selector todo all again = (c', .waits seconds cursor)) :
    c.stepsPerformed < c'.stepsPerformed := by
  simp only [enterSelector] at waits
  split at waits
  · cases waits
  · split at waits <;> rename_i begun <;> cases waits
    exact beginSelector_counts begun

theorem nextSelector_counts {base : Nat} {todo all : List String} {again : Nat} {seconds : Float}
    {cursor : BlockCursor}
    (waits : c.nextSelector base todo all again = (c', .waits seconds cursor)) :
    c.stepsPerformed < c'.stepsPerformed := by
  simp only [nextSelector] at waits
  split at waits
  · exact enterSelector_counts waits
  · exact enterSelector_counts waits
  · cases waits

theorem beginBlock_counts {b : Block} {seconds : Float} {cursor : BlockCursor}
    (waits : c.beginBlock b = (c', .waits seconds cursor)) :
    c.stepsPerformed < c'.stepsPerformed := by
  rcases beginBlock_prepared (c := c) b with ⟨why, failed⟩ | ⟨c₁, j, prepared⟩
  · rw [waits] at failed
    cases failed
  · obtain ⟨sent, announced⟩ := prepared.announced
    rw [prepared.beginBlock] at waits
    have counted := nextSelector_counts waits
    rw [announced] at counted
    exact counted

/-! ### Performing in turn -/

section Through

variable {κ : Type} {resume : Conductor → κ → Conductor × Outcome κ}

theorem through_length (r : Conductor × Outcome κ) (pauses : List Pause) :
    (through resume r pauses).2.length ≤ pauses.length :=
  through_invariant (P := fun _ later => later.length ≤ pauses.length)
    (fun _ _ _ _ _ few => Nat.le_of_succ_le few) pauses r le_rfl

/-- A performance that waits takes a pause at least to come to its end. -/
theorem through_waits {seconds : Float} {next : κ} {pauses later : List Pause}
    (ended : through resume (c, .waits seconds next) pauses = ((d, .ended), later)) :
    later.length < pauses.length := by
  cases pauses with
  | nil => cases ended
  | cons p pauses =>
    have shorter : (through resume (resume (c.pause p) next) pauses).2.length ≤ pauses.length :=
      through_length _ pauses
    rw [through] at ended
    rw [ended] at shorter
    exact Nat.lt_succ_of_le shorter

end Through

/-- A part begins. -/
def beginPart (c : Conductor) : Part → Conductor × Outcome (Option BlockCursor)
  | .block b => (c.beginBlock b).map id (.map some)
  | .rest =>
    match c.stepSeconds with
    | .ok seconds => (c, .waits seconds none)
    | .error why => (c, .failed why)

/-- A part goes on after a wait. -/
def resumePart (c : Conductor) : Option BlockCursor → Conductor × Outcome (Option BlockCursor)
  | some cursor => (c.resumeBlock cursor).map id (.map some)
  | none => (c, .ended)

/-- The caller performs parts one after another, each to its end, as far as the pauses go, and
leaves the other pauses. -/
def inTurn : Conductor → List Part → List Pause →
    (Conductor × Outcome (Option BlockCursor)) × List Pause
  | c, [], pauses => ((c, .ended), pauses)
  | c, part :: rest, pauses =>
    match through resumePart (c.beginPart part) pauses with
    | ((c, .ended), later) => inTurn c rest later
    | r => r

/-- The caller goes on with other parts when a performance has ended. -/
def andThen (parts : List Part) : (Conductor × Outcome (Option BlockCursor)) × List Pause →
    (Conductor × Outcome (Option BlockCursor)) × List Pause
  | ((c, .ended), later) => inTurn c parts later
  | r => r

theorem inTurn_cons (part : Part) (rest : List Part) (pauses : List Pause) :
    inTurn c (part :: rest) pauses =
      andThen rest (through resumePart (c.beginPart part) pauses) := by
  rw [inTurn]
  cases through resumePart (c.beginPart part) pauses with
  | mk r later =>
    obtain ⟨c', outcome⟩ := r
    cases outcome <;> rfl

theorem inTurn_append (parts more : List Part) : ∀ (c : Conductor) (pauses : List Pause),
    inTurn c (parts ++ more) pauses = andThen more (inTurn c parts pauses) := by
  induction parts with
  | nil => exact fun _ _ => rfl
  | cons part rest ih =>
    intro c pauses
    rw [List.cons_append, inTurn_cons, inTurn_cons]
    cases through resumePart (c.beginPart part) pauses with
    | mk r later =>
      obtain ⟨c', outcome⟩ := r
      cases outcome with
      | ended => exact ih c' later
      | waits | failed => rfl

theorem andThen_ended {parts : List Part} {later : List Pause}
    {q : (Conductor × Outcome (Option BlockCursor)) × List Pause}
    (ended : andThen parts q = ((d, .ended), later)) :
    ∃ c₁ pauses₁, q = ((c₁, .ended), pauses₁) ∧
      inTurn c₁ parts pauses₁ = ((d, .ended), later) := by
  obtain ⟨⟨c₁, outcome⟩, pauses₁⟩ := q
  cases outcome with
  | ended => exact ⟨c₁, pauses₁, rfl, ended⟩
  | waits | failed => cases ended

/-! ### What performing in turn comes to -/

theorem through_later {κ : Type} {resume : Conductor → κ → Conductor × Outcome κ}
    (goes : ∀ (c : Conductor) next, c.Later (resume c next).1) (pauses : List Pause)
    (r : Conductor × Outcome κ) : r.1.Later (through resume r pauses).1.1 := by
  have paused (c : Conductor) (p : Pause) : c.Later (c.pause p) := ⟨rfl, rfl, le_rfl⟩
  exact through_invariant (P := fun r' _ => r.1.Later r'.1)
    (fun c _ next p _ went => went.trans ((paused c p).trans (goes _ next))) pauses r (.refl _)

theorem beginPart_later (part : Part) : c.Later (c.beginPart part).1 := by
  cases part with
  | block b => exact (beginBlock_does b : Does .step _ c _).deeds.later
  | rest =>
    simp only [beginPart]
    split <;> exact .refl c

theorem resumePart_later (c : Conductor) (next : Option BlockCursor) :
    c.Later (c.resumePart next).1 := by
  cases next with
  | none => exact .refl c
  | some cursor => exact (resumeBlock_does cursor).deeds.later

theorem performed_later {part : Part} {pauses later : List Pause}
    (ended : through resumePart (c.beginPart part) pauses = ((d, .ended), later)) : c.Later d := by
  have went := through_later resumePart_later pauses (c.beginPart part)
  rw [ended] at went
  exact (beginPart_later part).trans went

theorem inTurn_later (parts : List Part) : ∀ {c : Conductor} {pauses later : List Pause},
    inTurn c parts pauses = ((d, .ended), later) → c.Later d := by
  induction parts with
  | nil =>
    intro c pauses later ended
    cases ended
    exact .refl _
  | cons part rest ih =>
    intro c pauses later ended
    rw [inTurn_cons] at ended
    obtain ⟨c₁, pauses₁, performed, ended⟩ := andThen_ended ended
    exact (performed_later performed).trans (ih ended)

/-- A block that plays nothing passes at once and counts no selector; any other block counts one and
takes a pause. -/
theorem performed_block (goes : c.stopRequested = false) {b : Block} {pauses later : List Pause}
    (ended : through resumePart (c.beginPart (.block b)) pauses = ((d, .ended), later)) :
    (b.selectors = [] ∧ d.stepsPerformed = c.stepsPerformed ∧ later = pauses) ∨
      (b.selectors ≠ [] ∧ c.stepsPerformed < d.stepsPerformed ∧ later.length < pauses.length) := by
  have went := through_later resumePart_later pauses (c.beginPart (.block b))
  rw [ended] at went
  cases begun : c.beginBlock b with
  | mk c₁ outcome =>
    have part : c.beginPart (.block b) = (c₁, outcome.map some) := by
      simp only [beginPart, begun]
      rfl
    rw [part] at ended went
    cases outcome with
    | waits seconds cursor =>
      refine .inr ⟨fun empty => ?_, (beginBlock_counts begun).trans_le went.steps,
        through_waits ended⟩
      -- a block without selectors has nothing to wait for
      rcases beginBlock_prepared (c := c) b with ⟨why, failed⟩ | ⟨c₂, j, prepared⟩
      · rw [begun] at failed
        cases failed
      · rw [prepared.beginBlock, empty, nextSelector_over (by simp)] at begun
        cases begun
    | ended =>
      refine .inl ⟨?_, ?_⟩
      · by_contra plays
        exact beginBlock_goes goes plays (congrArg Prod.snd begun)
      · rw [Outcome.map, through_ended] at ended
        cases ended
        exact ⟨(beginBlock_silent goes begun).1, rfl⟩
    | failed why =>
      rw [Outcome.map, through_failed] at ended
      cases ended

/-- **Whether a selector was performed** in blocks that came to their end is known from the blocks,
and so is whether they took a pause. -/
theorem inTurn_blocks (blocks : List Block) :
    ∀ {c : Conductor} {pauses later : List Pause}, c.stopRequested = false →
      inTurn c (blocks.map .block) pauses = ((d, .ended), later) →
      ((∀ b ∈ blocks, b.selectors = []) ∧ d.stepsPerformed = c.stepsPerformed ∧ later = pauses) ∨
        (¬ (∀ b ∈ blocks, b.selectors = []) ∧ c.stepsPerformed < d.stepsPerformed ∧
          later.length < pauses.length) := by
  induction blocks with
  | nil =>
    intro c pauses later _ ended
    cases ended
    exact .inl ⟨List.forall_mem_nil _, rfl, rfl⟩
  | cons b left ih =>
    intro c pauses later goes ended
    rw [List.map_cons, inTurn_cons] at ended
    obtain ⟨c₁, pauses₁, performed, ended⟩ := andThen_ended ended
    have going := (performed_later performed).stopRequested.trans goes
    have rest := ih going ended
    have less : c₁.stepsPerformed ≤ d.stepsPerformed := (inTurn_later _ ended).steps
    have shorter : later.length ≤ pauses₁.length := by
      rcases rest with ⟨-, -, rfl⟩ | ⟨-, -, shorter⟩
      · exact le_rfl
      · exact shorter.le
    simp only [List.forall_mem_cons]
    rcases performed_block goes performed with ⟨silent, steps, rfl⟩ | ⟨plays, steps, took⟩
    · rcases rest with ⟨all, steps', rfl⟩ | ⟨some, steps', took⟩
      · exact .inl ⟨⟨silent, all⟩, steps'.trans steps, rfl⟩
      · exact .inr ⟨fun both => some both.2, steps ▸ steps', took⟩
    · exact .inr ⟨fun both => plays both.1, steps.trans_le less, shorter.trans_lt took⟩

/-! ### The block that is performed -/

theorem beginBlock_cursor {b : Block} {seconds : Float} {cursor : BlockCursor}
    (waits : c.beginBlock b = (c', .waits seconds cursor)) :
    cursor.base = b.base ∧ cursor.all = b.selectors := by
  obtain ⟨p, again, hold, -, rfl, -, -, rfl, -⟩ := beginBlock_entered [] [] waits
  exact ⟨rfl, rfl⟩

theorem resumeBlock_cursor {seconds : Float} {cursor cursor' : BlockCursor}
    (waits : c.resumeBlock cursor = (c', .waits seconds cursor')) :
    cursor'.base = cursor.base ∧ cursor'.all = cursor.all := by
  simp only [resumeBlock] at waits
  split at waits
  · cases waits
    exact ⟨rfl, rfl⟩
  · obtain ⟨selector, rest, again, hold, rfl, -⟩ := nextSelector_entered waits
    exact ⟨rfl, rfl⟩
  · cases waits

theorem through_block {b : Block} (c : Conductor) (pauses : List Pause) {seconds : Float}
    {next : Option BlockCursor}
    (waits : (through resumePart (c.beginPart (.block b)) pauses).1.2 = .waits seconds next) :
    ∃ cursor, next = some cursor ∧ cursor.base = b.base ∧ cursor.all = b.selectors := by
  let Own (r : Conductor × Outcome (Option BlockCursor)) : Prop := ∀ seconds next,
    r.2 = .waits seconds next → ∃ cursor, next = some cursor ∧ cursor.base = b.base ∧
      cursor.all = b.selectors
  -- the cursor of a block that has begun or gone on is seen from its outcome
  have own (r : Conductor × Outcome BlockCursor) (here : ∀ seconds cursor,
      r.2 = .waits seconds cursor → cursor.base = b.base ∧ cursor.all = b.selectors) :
      Own (r.map id (.map some)) := by
    obtain ⟨c, outcome⟩ := r
    intro seconds next waits
    cases outcome <;> cases waits
    exact ⟨_, rfl, here _ _ rfl⟩
  have begun : Own (c.beginPart (.block b)) :=
    own _ fun seconds cursor begun => beginBlock_cursor (Prod.ext rfl begun)
  have kept : Own (through resumePart (c.beginPart (.block b)) pauses).1 := by
    refine through_invariant (P := fun r _ => Own r) (fun c seconds next p _ now => ?_) pauses _
      begun
    obtain ⟨cursor, rfl, base, all⟩ := now seconds next rfl
    refine own _ fun seconds' cursor' again => ?_
    obtain ⟨base', all'⟩ := resumeBlock_cursor (Prod.ext rfl again)
    exact ⟨base'.trans base, all'.trans all⟩
  exact kept seconds next waits

theorem through_blocks (pauses : List Pause) (r : Conductor × Outcome (Option BlockCursor)) :
    (through resumePart r pauses).1.1.blocksPerformed = r.1.blocksPerformed := by
  refine through_invariant (P := fun r' _ => r'.1.blocksPerformed = r.1.blocksPerformed)
    (fun c _ next p _ same => Eq.trans ?_ same) pauses r rfl
  cases next with
  | none => rfl
  | some cursor => exact resumeBlock_blocks cursor

theorem performed_counts {b : Block} (pauses : List Pause)
    (fine : ∀ why, (through resumePart (c.beginPart (.block b)) pauses).1.2 ≠ .failed why) :
    (through resumePart (c.beginPart (.block b)) pauses).1.1.blocksPerformed =
      c.blocksPerformed + 1 := by
  rw [through_blocks]
  refine beginBlock_blocks (b := b) fun why failed => fine why ?_
  have begun : c.beginPart (.block b) = ((c.beginBlock b).1, .failed why) :=
    Prod.ext rfl (congrArg (Outcome.map some) failed)
  rw [begun, through_failed]

theorem performed_rest (c : Conductor) (pauses : List Pause) :
    (through resumePart (c.beginPart .rest) pauses).1.1.blocksPerformed = c.blocksPerformed ∧
      ∀ seconds cursor,
        (through resumePart (c.beginPart .rest) pauses).1.2 ≠ .waits seconds (some cursor) := by
  rw [through_blocks]
  simp only [beginPart]
  split
  · cases pauses with
    | nil => exact ⟨rfl, fun _ _ waits => by cases waits⟩
    | cons p pauses =>
      rw [through, resumePart, through_ended]
      exact ⟨rfl, fun _ _ waits => by cases waits⟩
  · rw [through_failed]
    exact ⟨rfl, fun _ _ waits => by cases waits⟩

theorem performed_blocks {part : Part} {pauses later : List Pause}
    (performed : through resumePart (c.beginPart part) pauses = ((d, .ended), later)) :
    d.blocksPerformed = c.blocksPerformed + ([part].filterMap Part.block?).length := by
  cases part with
  | rest =>
    have same := (performed_rest c pauses).1
    rw [performed] at same
    exact same
  | block b =>
    have counted := performed_counts (c := c) (b := b) pauses
    rw [performed] at counted
    exact counted fun why failed => by cases failed

theorem filterMap_block_cons (part : Part) (rest : List Part) :
    (part :: rest).filterMap Part.block? =
      [part].filterMap Part.block? ++ rest.filterMap Part.block? := by
  rw [← List.filterMap_append, List.singleton_append]

/-- Parts that have ended have counted their blocks. -/
theorem inTurn_counts (parts : List Part) : ∀ {c : Conductor} {pauses later : List Pause},
    inTurn c parts pauses = ((d, .ended), later) →
      d.blocksPerformed = c.blocksPerformed + (parts.filterMap Part.block?).length := by
  induction parts with
  | nil =>
    intro c pauses later ended
    cases ended
    rfl
  | cons part rest ih =>
    intro c pauses later ended
    rw [inTurn_cons] at ended
    obtain ⟨c₁, pauses₁, performed, others⟩ := andThen_ended ended
    rw [ih others, performed_blocks performed, filterMap_block_cons part rest, List.length_append]
    ring

/-- **The block that waits** is known from the number of those that were performed. -/
theorem inTurn_waits {seconds : Float} {cursor : BlockCursor} (parts : List Part) :
    ∀ {c : Conductor} {pauses later : List Pause},
      inTurn c parts pauses = ((d, .waits seconds (some cursor)), later) →
      ∃ i b, (parts.filterMap Part.block?)[i]? = some b ∧
        d.blocksPerformed = c.blocksPerformed + i + 1 ∧
        cursor.base = b.base ∧ cursor.all = b.selectors := by
  induction parts with
  | nil =>
    intro c pauses later waits
    cases waits
  | cons part rest ih =>
    intro c pauses later waits
    rw [inTurn_cons] at waits
    cases performed : through resumePart (c.beginPart part) pauses with
    | mk r pauses₁ =>
      obtain ⟨c₁, outcome⟩ := r
      rw [performed] at waits
      cases outcome with
      | failed why => cases waits
      | ended =>
        obtain ⟨i, b, here, blocks, own⟩ := ih waits
        refine ⟨([part].filterMap Part.block?).length + i, b, ?_, ?_, own⟩
        · rw [filterMap_block_cons part rest, List.getElem?_append_right (Nat.le_add_right ..),
            Nat.add_sub_cancel_left, here]
        · rw [blocks, performed_blocks performed]
          ring
      | waits =>
        cases waits
        cases part with
        | rest =>
          have other := (performed_rest c pauses).2 seconds cursor
          rw [performed] at other
          exact absurd rfl other
        | block b =>
          have counted := performed_counts (c := c) (b := b) pauses
          obtain ⟨cursor', same, base, all⟩ :=
            through_block c pauses (congrArg (fun q => q.1.2) performed)
          rw [performed] at counted
          cases same
          exact ⟨0, b, rfl, counted fun why failed => (by cases failed), base, all⟩

/-! ### The caller under the virtual clock -/

theorem through_part (pauses : List Pause) : ∀ r : Conductor × Outcome BlockCursor,
    through resumePart (r.map id (.map some)) pauses =
      ((through resumeBlock r pauses).1.map id (.map some), (through resumeBlock r pauses).2) := by
  induction pauses with
  | nil => rintro ⟨c, outcome⟩; cases outcome <;> rfl
  | cons p pauses ih =>
    rintro ⟨c, outcome⟩
    cases outcome with
    | waits seconds cursor => exact ih _
    | ended | failed why => rfl

/-- A block that ends whatever the pauses are is performed alone by the caller. -/
theorem performBlock_through (dead : c.task.any (·.live) = false) {turns : Nat} {b : Block}
    (ends : ∀ pauses : List Pause, turns ≤ pauses.length → ∃ d later,
      through resumePart (c.beginPart (.block b)) pauses = ((d, .ended), later)) :
    ∃ d used, through resumePart (c.beginPart (.block b)) used = ((d, .ended), []) ∧
      c.performBlock turns b = (d, .ok ()) ∧ d.task = c.task := by
  have task := (c.beginBlock_changes b).task_eq
  obtain ⟨d, used, went, -, finished, kept⟩ := finish_through
    (fun c cursor => (c.resumeBlock_changes cursor).task_eq) turns turns
    (r := c.beginBlock b) (by rw [task]; exact dead) fun pauses length => by
      obtain ⟨d, later, ended⟩ := ends pauses length.ge
      rw [beginPart, through_part] at ended
      cases outcome : (through resumeBlock (c.beginBlock b) pauses).1.2 with
      | ended => rfl
      | waits | failed =>
        have here := congrArg (fun q => q.1.2) ended
        simp [outcome, Outcome.map] at here
  refine ⟨d, used, ?_, finished, kept.trans task⟩
  rw [beginPart, through_part, went]
  rfl

/-- **Blocks that end whatever the pauses are** are performed in turn by the caller. -/
theorem performBlocks_inTurn (turns : Nat) (blocks : List Block) :
    ∀ {c : Conductor}, c.task.any (·.live) = false →
      (∀ pauses : List Pause, turns ≤ pauses.length → ∃ d later,
        inTurn c (blocks.map .block) pauses = ((d, .ended), later)) →
      ∃ d used, inTurn c (blocks.map .block) used = ((d, .ended), []) ∧
        performBlocks turns c blocks = (d, .ok ()) := by
  induction blocks with
  | nil => exact fun {c} _ _ => ⟨c, [], rfl, rfl⟩
  | cons b rest ih =>
    intro c dead ends
    simp only [List.map_cons, inTurn_cons] at ends ⊢
    obtain ⟨c₁, used, first, performed, task⟩ := performBlock_through dead (b := b)
      fun pauses enough => by
        obtain ⟨d, later, ended⟩ := ends pauses enough
        obtain ⟨c₁, pauses₁, performed, -⟩ := andThen_ended ended
        exact ⟨c₁, pauses₁, performed⟩
    obtain ⟨d, more, others, all⟩ := ih (task.symm ▸ dead) fun pauses enough => by
      obtain ⟨d, later, ended⟩ := ends (used ++ pauses) (by rw [List.length_append]; omega)
      rw [through_more pauses first] at ended
      exact ⟨d, later, ended⟩
    refine ⟨d, used ++ more, ?_, ?_⟩
    · rw [through_more more first]
      exact others
    · rw [performBlocks, performed]
      exact all

end Conductor

end ChordSequencer
