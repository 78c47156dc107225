import ChordSequencer.Proofs.Acceptance
import ChordSequencer.Proofs.CompactForm

/-!
# What loading a text gives

A text has a song exactly when nothing is wrong with it, and whatever is wrong with it is logged.
A song is never empty: it has a block, and each of its blocks has a command and a selector
(`Song.load_outcome`).

* `Notation.read_cases` : a text is read as what its form says, or else it has a fault.  Nothing is
  left out on the way, so what is read derives from the tokens or the words of the text.
* `Notation.plays_of_songTokens` : no token is blank and no group is empty, so each item plays a
  word.
* `Song.runsFrom_plays` : the runs of such items play a word, and there is at least one.
-/

namespace ChordSequencer

open Notation Text

namespace Notation

/-! ### Reading -/

/-- **A text is read as what its form says, or else it has a fault.** -/
theorem read_cases (text : String) :
    (∃ head tail, read text = .success (.compact head tail) ∧
      List.Forall₂ (fun w b => CompactBlock.read w = .ok b) (words text.toList) (head :: tail)) ∨
    (∃ parts, read text = .success (.nested parts) ∧ SongTokens parts (tokens text.toList)) ∨
    ∃ f fs, read text = .failure (f :: fs) := by
  by_cases hbrace : (text.toList.dropWhile isBlank).head? = some '\x7b'
  · have hread : read text = readNested text.toList := by
      obtain ⟨r, hr⟩ := List.head?_eq_some_iff.1 hbrace
      simp only [read, hr]
    rw [hread]
    refine .inr ((readNested_cases text.toList).imp_left ?_)
    rintro ⟨parts, hparts, -, hsong⟩
    exact ⟨parts, hparts, hsong⟩
  · rw [read_eq_readCompact hbrace]
    by_cases hform : words text.toList ≠ [] ∧ ∀ w ∈ words text.toList, CompactBlock.IsChunk w
    · exact .inl (readCompact_success hform.1 hform.2)
    · exact .inr (.inr (readCompact_failure hform))

/-! ### Items that play something -/

/-- Every note of an item has a word, and every group an item. -/
inductive Item.Plays : Item → Prop
  /-- A note. -/
  | note {value : String} {own : Option String} (word : words value.toList ≠ []) :
      Plays (.note value own)
  /-- A group. -/
  | group {duration : String} {items : List Item} (filled : items ≠ [])
      (each : ∀ i ∈ items, i.Plays) : Plays (.group duration items)

/-- A block has items, and all of them play something. -/
def NestedBlock.Plays (b : NestedBlock) : Prop := b.items ≠ [] ∧ ∀ i ∈ b.items, i.Plays

/-- A token is what was scanned from its first character, which is not blank. -/
theorem scan_of_mem_tokens {text : List Char} {t : Token} (h : t ∈ tokens text) :
    ∃ c r n, isBlank c = false ∧ Lexeme.scan c r = (.token t.kind, n) ∧ t.text = c :: r.take n := by
  suffices lexemes : ∀ position, ∀ l ∈ Lexeme.ofText position text, ∀ t, l.token? = some t →
      ∃ c r n, isBlank c = false ∧ Lexeme.scan c r = (.token t.kind, n) ∧
        t.text = c :: r.take n by
    obtain ⟨l, mem, token⟩ := List.mem_filterMap.1 h
    exact lexemes 0 l mem t token
  clear h
  intro position
  induction position, text using Lexeme.ofText.induct with
  | case1 position => simp [Lexeme.ofText]
  | case2 position c r kind n scanned ih =>
    rintro l mem t token
    rw [Lexeme.ofText] at mem
    simp only [scanned] at mem
    rcases List.mem_cons.1 mem with rfl | later
    · -- a lexeme that begins with a blank is no token
      have visible : isBlank c = false := by
        by_contra blank
        rw [Bool.not_eq_false] at blank
        simp only [Lexeme.scan] at scanned
        rw [if_pos blank] at scanned
        cases scanned
        cases token
      cases kind with
      | token kind =>
        cases token
        exact ⟨c, r, n, visible, scanned, rfl⟩
      | blank => cases token
      | stray => cases token
    · exact ih l later t token

theorem mem_tokens {text : List Char} {t : Token} (h : t ∈ tokens text) : words t.text ≠ [] := by
  obtain ⟨c, r, n, visible, -, begins⟩ := scan_of_mem_tokens h
  rw [begins, words_cons visible]
  exact List.cons_ne_nil _ _

theorem plays_of_itemTokens {i : Item} {ts : List Token} (h : ItemTokens i ts) :
    (∀ t ∈ ts, words t.text ≠ []) → i.Plays := by
  have plays {n : Token} (hn : words n.text ≠ []) (own : Option String) :
      (Item.note (OpenBlock.textOf n) own).Plays := by
    refine .note ?_
    rwa [OpenBlock.textOf, String.toList_ofList]
  induction h with
  | note _ => exact fun ht => plays (ht _ List.mem_cons_self) none
  | timed _ _ => exact fun ht => plays (ht _ (List.mem_cons_of_mem _ List.mem_cons_self)) _
  | @group d o c inner _ _ _ filled each ih =>
    intro ht
    refine .group (mt List.map_eq_nil_iff.1 filled) fun i hi => ?_
    obtain ⟨p, hp, rfl⟩ := List.mem_map.1 hi
    refine ih p hp fun t htoken => ht t ?_
    have hinner : t ∈ inner.flatMap (·.2) := List.mem_flatMap.2 ⟨p, hp, htoken⟩
    exact List.mem_append_left _ (List.mem_cons_of_mem _ (List.mem_cons_of_mem _ hinner))

/-- A song has parts, they have blocks, these have items, and each item comes from tokens of the
song. -/
theorem items_of_songTokens {parts : List (List NestedBlock)} {ts : List Token}
    (h : SongTokens parts ts) {P : Item → Prop}
    (each : ∀ i us, ItemTokens i us → us ⊆ ts → P i) :
    parts ≠ [] ∧ ∀ part ∈ parts, part ≠ [] ∧ ∀ b ∈ part, b.items ≠ [] ∧ ∀ i ∈ b.items, P i := by
  obtain ⟨inSong, hparts, hsong⟩ := h.inside
  obtain ⟨someParts, eachPart⟩ := hparts.mem
  refine ⟨someParts, fun part hpart => ?_⟩
  obtain ⟨ofPart, hpart, subPart⟩ := eachPart part hpart
  obtain ⟨inPart, hblocks, hin⟩ := hpart.inside
  obtain ⟨someBlocks, eachBlock⟩ := hblocks.mem
  refine ⟨someBlocks, fun b hb => ?_⟩
  obtain ⟨ofBlock, hb, subBlock⟩ := eachBlock b hb
  obtain ⟨inBlock, ⟨someItems, hbody⟩, hinBlock⟩ := hb.inside
  refine ⟨someItems, fun i hi => ?_⟩
  obtain ⟨ofItem, hitem, subItem⟩ := hbody.mem i hi
  refine each i ofItem hitem fun t htoken => ?_
  exact hsong (subPart (hin (subBlock (hinBlock (subItem htoken)))))

theorem plays_of_songTokens {parts : List (List NestedBlock)} {ts : List Token}
    (h : SongTokens parts ts) (ht : ∀ t ∈ ts, words t.text ≠ []) :
    parts ≠ [] ∧ ∀ part ∈ parts, part ≠ [] ∧ ∀ b ∈ part, b.Plays :=
  items_of_songTokens h fun _ _ hi sub => plays_of_itemTokens hi fun t mem => ht t (sub mem)

end Notation

namespace Song

/-! ### Runs -/

/-- A run that plays at least one word. -/
def Run.Sounds (r : Run) : Prop := ∃ note ∈ r.notes, words note.toList ≠ []

theorem gathered_sounds {duration : String} {notes : List String}
    (h : ∀ note ∈ notes, words note.toList ≠ []) : ∀ r ∈ gathered duration notes, r.Sounds := by
  cases notes with
  | nil => simp [gathered]
  | cons note notes =>
    intro r mem
    rw [gathered, List.mem_singleton] at mem
    · rw [mem]
      refine ⟨note, ?_, h note List.mem_cons_self⟩
      simp
    · exact List.cons_ne_nil _ _

/-- The runs of items that play something play something, and there are runs unless there is nothing
to play. -/
theorem runsFrom_plays (duration : String) (items : List Item) (notes : List String) :
    (∀ note ∈ notes, words note.toList ≠ []) → (∀ i ∈ items, i.Plays) →
      (∀ r ∈ runsFrom duration items notes, r.Sounds) ∧
        (runsFrom duration items notes = [] → notes = [] ∧ items = []) := by
  refine runsFrom.induct
    (fun duration items notes => (∀ note ∈ notes, words note.toList ≠ []) →
      (∀ i ∈ items, i.Plays) → (∀ r ∈ runsFrom duration items notes, r.Sounds) ∧
        (runsFrom duration items notes = [] → notes = [] ∧ items = []))
    (fun item => ∀ d inner, item = .group d inner → item.Plays →
      (∀ r ∈ groupRuns item, r.Sounds) ∧ groupRuns item ≠ [])
    ?note ?group ?nil ?plain ?same ?own ?inner duration items notes
  case note =>
    intro value own d inner h
    cases h
  case group =>
    rintro d inner ih d' inner' ⟨⟩ (_ | ⟨filled, each⟩)
    rw [groupRuns]
    obtain ⟨sounds, only⟩ := ih (List.forall_mem_nil _) each
    exact ⟨sounds, fun none => filled (only none).2⟩
  case nil =>
    intro duration notes hn _
    rw [runsFrom]
    refine ⟨gathered_sounds hn, ?_⟩
    cases notes with
    | nil => exact fun _ => ⟨rfl, rfl⟩
    | cons note notes => exact fun none => absurd none (List.cons_ne_nil _ _)
  case plain =>
    intro duration items notes value ih hn hi
    obtain ⟨⟨word⟩, hi⟩ := List.forall_mem_cons.1 hi
    obtain ⟨sounds, only⟩ := ih (List.forall_mem_cons.2 ⟨word, hn⟩) hi
    rw [runsFrom]
    exact ⟨sounds, fun none => absurd (only none).1 (List.cons_ne_nil _ _)⟩
  case same =>
    intro items notes value d ih hn hi
    obtain ⟨⟨word⟩, hi⟩ := List.forall_mem_cons.1 hi
    obtain ⟨sounds, only⟩ := ih (List.forall_mem_cons.2 ⟨word, hn⟩) hi
    rw [runsFrom, if_pos rfl]
    exact ⟨sounds, fun none => absurd (only none).1 (List.cons_ne_nil _ _)⟩
  case own =>
    intro duration items notes value d other ih hn hi
    obtain ⟨⟨word⟩, hi⟩ := List.forall_mem_cons.1 hi
    rw [runsFrom, if_neg other]
    refine ⟨List.forall_mem_append.2 ⟨gathered_sounds hn, List.forall_mem_cons.2 ⟨?_, ?_⟩⟩, ?_⟩
    · exact ⟨value, List.mem_singleton_self _, word⟩
    · exact (ih (List.forall_mem_nil _) hi).1
    · exact fun none => absurd (List.append_eq_nil_iff.1 none).2 (List.cons_ne_nil _ _)
  case inner =>
    intro duration items notes d inner group ih hn hi
    obtain ⟨hgroup, hi⟩ := List.forall_mem_cons.1 hi
    obtain ⟨inside, filled⟩ := group d inner rfl hgroup
    rw [runsFrom]
    refine ⟨List.forall_mem_append.2
      ⟨List.forall_mem_append.2 ⟨gathered_sounds hn, inside⟩, ?_⟩, ?_⟩
    · exact (ih (List.forall_mem_nil _) hi).1
    · intro none
      exact absurd (List.append_eq_nil_iff.1 (List.append_eq_nil_iff.1 none).1).2 filled

/-! ### Blocks -/

theorem blockOf_plays {commands : List Command} {r : Run} (h : r.Sounds) :
    (blockOf commands r).selectors ≠ [] := by
  obtain ⟨note, mem, word⟩ := h
  have blank : isBlank ' ' = true := by decide
  simp only [blockOf, Block.selectors, String.toList_intercalate]
  rw [show " ".toList = [' '] from rfl, words_intercalate blank]
  intro none
  rw [List.map_eq_nil_iff, List.flatMap_eq_nil_iff] at none
  exact word (none note.toList (List.mem_map_of_mem mem))

theorem blocksOf_plays (commands : List Command) {runs : List Run} (filled : runs ≠ [])
    (h : ∀ r ∈ runs, r.Sounds) :
    blocksOf commands runs ≠ [] ∧
      ∀ k ∈ blocksOf commands runs, k.commands ≠ [] ∧ k.selectors ≠ [] := by
  cases runs with
  | nil => exact absurd rfl filled
  | cons r rs =>
    obtain ⟨hr, hrs⟩ := List.forall_mem_cons.1 h
    refine ⟨List.cons_ne_nil _ _, List.forall_mem_cons.2 ⟨⟨List.cons_ne_nil _ _, ?_⟩, ?_⟩⟩
    · exact blockOf_plays hr
    · intro k hk
      obtain ⟨r', hr', rfl⟩ := List.mem_map.1 hk
      exact ⟨List.cons_ne_nil _ _, blockOf_plays (hrs r' hr')⟩

theorem ofNestedBlock_plays {b : NestedBlock} (h : b.Plays) :
    ofNestedBlock b ≠ [] ∧ ∀ k ∈ ofNestedBlock b, k.commands ≠ [] ∧ k.selectors ≠ [] := by
  obtain ⟨sounds, only⟩ := runsFrom_plays NoteValue.quarter b.items [] (List.forall_mem_nil _) h.2
  have filled : runs NoteValue.quarter b.items ≠ [] := fun none => h.1 (only none).2
  obtain ⟨once, plays⟩ := blocksOf_plays (commandsOf b.attributes) filled sounds
  -- a block is played at least once
  obtain ⟨n, hn⟩ : ∃ n, (max (repeatCount b.attributes 1) 1).toNat = n + 1 :=
    ⟨_, (Nat.sub_add_cancel (by omega)).symm⟩
  simp only [ofNestedBlock]
  rw [hn]
  constructor
  · rw [List.replicate_succ, List.flatten_cons]
    exact fun none => once (List.append_eq_nil_iff.1 none).1
  · intro k hk
    obtain ⟨copy, hcopy, hk⟩ := List.mem_flatten.1 hk
    rw [List.eq_of_mem_replicate hcopy] at hk
    exact plays k hk

theorem ofCompactBlock_plays {w : List Char} {b : CompactBlock} (h : CompactBlock.read w = .ok b) :
    (ofCompactBlock b).commands ≠ [] ∧ (ofCompactBlock b).selectors ≠ [] := by
  obtain ⟨-, ⟨filled, -⟩, -⟩ := CompactBlock.read_ok h
  exact ⟨List.cons_ne_nil _ _, mt List.map_eq_nil_iff.1 filled⟩

/-! ### Songs -/

theorem treeWarnings_level (t : Tree) : ∀ line ∈ treeWarnings t, line.level = .warning := by
  cases t with
  | compact head tail => exact List.forall_mem_nil _
  | nested parts =>
    intro line hline
    obtain ⟨b, -, hline⟩ := List.mem_flatMap.1 hline
    obtain ⟨a, -, ha⟩ := List.mem_filterMap.1 hline
    split at ha <;> cases ha
    rfl

/-- The song of a text that is read has blocks, and each has a command and a selector. -/
theorem load_filled {text : String} {song : Song} (loaded : (load text).1 = some song) :
    song.blocks ≠ [] ∧ ∀ b ∈ song.blocks, b.commands ≠ [] ∧ b.selectors ≠ [] := by
  rcases read_cases text with ⟨head, tail, hread, hblocks⟩ | ⟨parts, hread, hsong⟩ | ⟨f, fs, hread⟩
  · rw [load, hread] at loaded
    cases loaded
    refine ⟨List.cons_ne_nil _ _, fun k hk => ?_⟩
    obtain ⟨b, hb, rfl⟩ := List.mem_map.1 hk
    obtain ⟨w, hw⟩ : ∃ w, CompactBlock.read w = .ok b :=
      exists_forall₂_iff.1 ⟨_, List.Forall₂.flip hblocks⟩ b hb
    exact ofCompactBlock_plays hw
  · rw [load, hread] at loaded
    cases loaded
    obtain ⟨someParts, eachPart⟩ := plays_of_songTokens hsong fun t ht => mem_tokens ht
    constructor
    · obtain ⟨part, hpart⟩ := List.exists_mem_of_ne_nil _ someParts
      obtain ⟨b, hb⟩ := List.exists_mem_of_ne_nil _ (eachPart part hpart).1
      intro none
      have hnone := List.flatMap_eq_nil_iff.1 none b (List.mem_flatten.2 ⟨part, hpart, hb⟩)
      exact (ofNestedBlock_plays ((eachPart part hpart).2 b hb)).1 hnone
    · intro k hk
      obtain ⟨b, hb, hk⟩ := List.mem_flatMap.1 hk
      obtain ⟨part, hpart, hb⟩ := List.mem_flatten.1 hb
      exact (ofNestedBlock_plays ((eachPart part hpart).2 b hb)).2 k hk
  · rw [load, hread] at loaded
    cases loaded

/-- **Every block of a loaded song plays something.** -/
theorem load_plays {text : String} {song : Song} (loaded : (load text).1 = some song) :
    ∀ b ∈ song.blocks, b.selectors ≠ [] :=
  fun b hb => ((load_filled loaded).2 b hb).2

theorem load_block {c : Char} {s : List Char} {b : CompactBlock} (hc : c ≠ '\x7b')
    (visible : (c :: s).all (!isBlank ·) = true) (read : CompactBlock.read (c :: s) = .ok b) :
    (load (String.ofList (c :: s))).1 = some ⟨[ofCompactBlock b]⟩ := by
  have hwords : words (c :: s) = [c :: s] := by
    rw [words, chunks_visible visible]
    rfl
  have hform : ∀ w ∈ words (c :: s), CompactBlock.IsChunk w := by
    rw [hwords]
    exact List.forall_mem_singleton.2 (CompactBlock.read_ok read).1
  obtain ⟨head, tail, hread, hblocks⟩ := readCompact_success (by simp [hwords]) hform
  -- the only word is the text, and it is read as `b`
  rw [hwords, List.forall₂_cons, read, List.forall₂_nil_left_iff] at hblocks
  obtain ⟨⟨⟩, rfl⟩ := hblocks
  have hfirst : isBlank c = false := by
    rw [List.all_cons, Bool.and_eq_true, Bool.not_eq_true'] at visible
    exact visible.1
  rw [load, read_eq_readCompact (by simp [hfirst, hc]), String.toList_ofList, hread]
  rfl

/-- **A text has a song exactly when nothing is wrong with it, and a song is never empty.**  Reading
gives a tree exactly when it gives no faults.  Loading gives no song exactly when there are faults,
and the errors that it logs are the faults in their order.  A song has a block, and each of its
blocks has a command and a selector. -/
theorem load_outcome (text : String) :
    ((Notation.read text).tree.isSome ↔ (Notation.read text).faults = []) ∧
    ((load text).1 = none ↔ (Notation.read text).faults ≠ []) ∧
    (load text).2.filter (·.level = .error) =
      (Notation.read text).faults.map (fun f => .fail s!"Syntax error: {f.describe}") ∧
    ∀ song ∈ (load text).1,
      song.blocks ≠ [] ∧ ∀ b ∈ song.blocks, b.commands ≠ [] ∧ b.selectors ≠ [] := by
  have filled : ∀ song ∈ (load text).1,
      song.blocks ≠ [] ∧ ∀ b ∈ song.blocks, b.commands ≠ [] ∧ b.selectors ≠ [] :=
    fun song loaded => load_filled loaded
  have outcome : (∃ tree, Notation.read text = .success tree) ∨
      ∃ f fs, Notation.read text = .failure (f :: fs) := by
    rcases read_cases text with ⟨head, tail, hread, -⟩ | ⟨parts, hread, -⟩ | hfault
    · exact .inl ⟨_, hread⟩
    · exact .inl ⟨_, hread⟩
    · exact .inr hfault
  rcases outcome with ⟨tree, hread⟩ | ⟨f, fs, hread⟩
  · refine ⟨?_, ?_, ?_, filled⟩ <;> simp only [load, hread]
    · exact iff_of_true rfl rfl
    · exact iff_of_false (Option.some_ne_none _) (fun faults => faults rfl)
    · refine List.filter_eq_nil_iff.2 fun line hline => ?_
      simp [treeWarnings_level tree line hline]
  · refine ⟨?_, ?_, ?_, filled⟩ <;> simp only [load, hread]
    · exact iff_of_false Bool.false_ne_true (List.cons_ne_nil _ _)
    · exact iff_of_true rfl (List.cons_ne_nil _ _)
    · refine List.filter_eq_self.2 fun line hline => ?_
      obtain ⟨fault, -, rfl⟩ := List.mem_map.1 hline
      rfl

end Song

end ChordSequencer
