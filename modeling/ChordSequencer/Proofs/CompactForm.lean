import ChordSequencer.Proofs.Words
import ChordSequencer.Song
import Mathlib.Data.List.Forall2

/-!
# The compact form loses nothing

A text of the compact form is a song exactly when it has words and each of them is made of commands
with commas between them, a colon and the content (`CompactBlock.IsChunk`).  The blocks of the song
are written as the words of the text, so nothing of a text is lost but the blanks between its words.

* `CompactBlock.read_append` : what a block is read as, once its colon is found.
* `CompactBlock.read_ok`, `CompactBlock.exists_read` : a block is read exactly when it has the form
  of a block, and is written as it was.
* `readCompact_success`, `readCompact_failure` : the texts that have no faults.
* `Song.load_compact` : the songs.
-/

namespace ChordSequencer

open Text

namespace Notation

/-! ### Reading one by one -/

section

variable {α β : Type} {R : α → β → Prop} {l : List α} {l' : List β}

theorem exists_forall₂_iff : (∃ l', List.Forall₂ R l l') ↔ ∀ a ∈ l, ∃ b, R a b := by
  induction l with
  | nil => simp
  | cons a l ih =>
    simp only [List.forall₂_cons_left_iff, List.forall_mem_cons, ← ih]
    constructor
    · rintro ⟨_, b, l', hb, hl, -⟩
      exact ⟨⟨b, hb⟩, l', hl⟩
    · rintro ⟨⟨b, hb⟩, l', hl⟩
      exact ⟨b :: l', b, l', hb, hl, rfl⟩

theorem map_eq_of_forall₂ {f : β → α} (hf : ∀ a b, R a b → f b = a) (h : List.Forall₂ R l l') :
    l'.map f = l := by
  induction h with
  | nil => rfl
  | cons hb _ ih => rw [List.map_cons, hf _ _ hb, ih]

end

namespace CompactBlock

/-! ### What a block looks like -/

/-- A letter and a value of at least one character. -/
def IsCommand (s : List Char) : Prop :=
  ∃ c value, isLetter c = true ∧ value ≠ [] ∧ (∀ d ∈ value, isValueChar d = true) ∧ s = c :: value

/-- At least one character that is played. -/
def IsContent (s : List Char) : Prop := s ≠ [] ∧ ∀ c ∈ s, isContentChar c = true

/-- Commands with commas between them, a colon and the content. -/
def IsChunk (s : List Char) : Prop :=
  ∃ commands content, commands ≠ [] ∧ (∀ p ∈ commands, IsCommand p) ∧ IsContent content ∧
    s = [','].intercalate commands ++ ':' :: content

/-! ### How a block is read -/

theorem cutAt_eq (sep : Char) (s : List Char) :
    (cutAt sep s).1 :: (cutAt sep s).2 = s.splitOn sep := by
  induction s with
  | nil => rfl
  | cons c s ih =>
    rw [List.splitOn_cons_eq_if_modifyHead, ← ih]
    by_cases h : c = sep <;> simp [cutAt, h]

theorem readCommand_eq_ok_iff {s : List Char} {c : Command} :
    readCommand s = .ok c ↔ ∃ letter value, isLetter letter = true ∧ value ≠ [] ∧
      (∀ d ∈ value, isValueChar d = true) ∧ s = letter :: value ∧
      c = ⟨String.singleton letter, String.ofList value⟩ := by
  cases s with
  | nil => simp [readCommand]
  | cons letter value =>
    have hread : readCommand (letter :: value) = .ok c ↔
        (isLetter letter = true ∧ value ≠ [] ∧ ∀ d ∈ value, isValueChar d = true) ∧
          ⟨String.singleton letter, String.ofList value⟩ = c := by
      simp only [readCommand]
      split <;> rename_i h <;>
        simp only [Bool.and_eq_true, Bool.not_eq_true', List.isEmpty_eq_false_iff, List.all_eq_true,
          and_assoc] at h
      · exact ⟨fun hc => ⟨h, Except.ok.inj hc⟩, fun hc => congrArg _ hc.2⟩
      · exact ⟨fun hc => (by cases hc), fun hc => absurd hc.1 h⟩
    rw [hread]
    constructor
    · rintro ⟨⟨hl, hne, hv⟩, rfl⟩
      exact ⟨letter, value, hl, hne, hv, rfl, rfl⟩
    · rintro ⟨_, _, hl, hne, hv, hs, rfl⟩
      obtain ⟨rfl, rfl⟩ := List.cons.inj hs
      exact ⟨⟨hl, hne, hv⟩, rfl⟩

theorem exists_readCommand_iff {s : List Char} : (∃ c, readCommand s = .ok c) ↔ IsCommand s := by
  simp only [readCommand_eq_ok_iff, IsCommand]
  constructor
  · rintro ⟨c, letter, value, hl, hne, hv, hs, -⟩
    exact ⟨letter, value, hl, hne, hv, hs⟩
  · rintro ⟨letter, value, hl, hne, hv, hs⟩
    exact ⟨_, letter, value, hl, hne, hv, hs, rfl⟩

theorem render_of_readCommand {s : List Char} {c : Command} (h : readCommand s = .ok c) :
    c.render.toList = s := by
  obtain ⟨letter, value, -, -, -, rfl, rfl⟩ := readCommand_eq_ok_iff.1 h
  simp [Command.render]

theorem readCommands_eq_ok_iff (ps : List (List Char)) (cs : List Command) (offset : Nat) :
    readCommands offset ps = .ok cs ↔ List.Forall₂ (fun p c => readCommand p = .ok c) ps cs := by
  induction ps generalizing offset cs with
  | nil => cases cs <;> simp [readCommands]
  | cons p ps ih =>
    rw [List.forall₂_cons_left_iff]
    simp only [readCommands, ← ih _ (offset + p.length + 1)]
    cases readCommand p with
    | error cause => simp
    | ok c =>
      cases readCommands (offset + p.length + 1) ps with
      | error why => simp [Except.map]
      | ok cs' => simp [Except.map, eq_comm]

/-- The written form of a block. -/
def written (b : CompactBlock) : List Char :=
  [','].intercalate ((b.head :: b.tail).map (·.render.toList)) ++ ':' :: b.content.toList

theorem read_append {head content : List Char} (h : ':' ∉ head) (b : CompactBlock) :
    read (head ++ ':' :: content) = .ok b ↔ IsContent content ∧ b.content = String.ofList content ∧
      List.Forall₂ (fun p c => readCommand p = .ok c) (head.splitOn ',') (b.head :: b.tail) := by
  have hchars : ∀ c ∈ head, decide (c ≠ ':') = true := by
    rintro c hc
    rw [decide_eq_true_eq]
    rintro rfl
    exact h hc
  have hcolon : ∀ c ∈ (':' :: content).head?, decide (c ≠ ':') = false := by
    rintro c ⟨⟩
    decide
  simp only [read, takeWhile_append_stop hchars hcolon, dropWhile_append_stop hchars hcolon]
  rw [← cutAt_eq, List.forall₂_cons, ← readCommands_eq_ok_iff _ _ ((cutAt ',' head).1.length + 1)]
  by_cases hhead : head = []
  · subst hhead
    simp [cutAt, readCommand]
  by_cases hcontent : content = []
  · simp [hhead, hcontent, IsContent]
  simp only [List.isEmpty_iff, hhead, hcontent, if_false]
  cases hd : content.dropWhile isContentChar with
  | cons c r =>
    have : ¬ IsContent content := by
      rintro ⟨-, hall⟩
      rw [List.dropWhile_eq_nil_iff.2 hall] at hd
      cases hd
    simp [this]
  | nil =>
    have : IsContent content := ⟨hcontent, List.dropWhile_eq_nil_iff.1 hd⟩
    cases readCommand (cutAt ',' head).1 with
    | error cause => simp
    | ok c =>
      cases readCommands ((cutAt ',' head).1.length + 1) (cutAt ',' head).2 with
      | error why => simp [Except.map]
      | ok cs =>
        obtain ⟨c', cs', content'⟩ := b
        simp [Except.map, this, and_comm, and_assoc, eq_comm]

theorem read_of_not_mem {chunk : List Char} (h : ':' ∉ chunk) (b : CompactBlock) :
    read chunk ≠ .ok b := by
  have hdrop : chunk.dropWhile (· ≠ ':') = [] := by
    rw [List.dropWhile_eq_nil_iff]
    rintro c hc
    rw [decide_eq_true_eq]
    rintro rfl
    exact h hc
  intro h
  simp only [read, hdrop] at h
  cases h

theorem isValueChar_ne {c : Char} (h : isValueChar c = true) : c ≠ ',' ∧ c ≠ ':' := by
  constructor <;>
  · rintro rfl
    exact absurd h (by decide)

theorem not_mem_of_isCommand {s : List Char} (h : IsCommand s) : ',' ∉ s ∧ ':' ∉ s := by
  obtain ⟨letter, value, hl, -, hv, rfl⟩ := h
  have hall : ∀ c ∈ letter :: value, c ≠ ',' ∧ c ≠ ':' :=
    List.forall_mem_cons.2 ⟨isValueChar_ne (by simp [isValueChar, hl]),
      fun c hc => isValueChar_ne (hv c hc)⟩
  exact ⟨fun hc => (hall _ hc).1 rfl, fun hc => (hall _ hc).2 rfl⟩

/-- A block that is read has the form of a block, plays something and is written as it was. -/
theorem read_ok {chunk : List Char} {b : CompactBlock} (h : read chunk = .ok b) :
    IsChunk chunk ∧ IsContent b.content.toList ∧ b.written = chunk := by
  by_cases hcolon : ':' ∈ chunk
  · obtain ⟨head, content, rfl, hhead⟩ := List.eq_append_cons_of_mem hcolon
    obtain ⟨hcontent, hb, hcommands⟩ := (read_append hhead b).1 h
    have hsplit : [','].intercalate (head.splitOn ',') = head := List.intercalate_splitOn ','
    have hwritten : (b.head :: b.tail).map (·.render.toList) = head.splitOn ',' :=
      map_eq_of_forall₂ (fun _ _ => render_of_readCommand) hcommands
    have htext : b.content.toList = content := by rw [hb, String.toList_ofList]
    refine ⟨⟨head.splitOn ',', content, List.splitOn_ne_nil _ _, fun p hp => ?_, hcontent, ?_⟩,
      htext ▸ hcontent, ?_⟩
    · exact exists_readCommand_iff.1 (exists_forall₂_iff.1 ⟨_, hcommands⟩ p hp)
    · rw [hsplit]
    · rw [written, hwritten, hsplit, htext]
  · exact absurd h (read_of_not_mem hcolon b)

/-- What has the form of a block can be read. -/
theorem exists_read {chunk : List Char} (h : IsChunk chunk) : ∃ b, read chunk = .ok b := by
  obtain ⟨commands, content, filled, hcommands, hcontent, rfl⟩ := h
  have hcolon : ':' ∉ [','].intercalate commands := by
    intro hc
    rcases mem_intercalate hc with hc | ⟨p, hp, hc⟩
    · exact absurd hc (by decide)
    · exact (not_mem_of_isCommand (hcommands p hp)).2 hc
  have hsplit : ([','].intercalate commands).splitOn ',' = commands :=
    List.splitOn_intercalate ',' (fun p hp => (not_mem_of_isCommand (hcommands p hp)).1) filled
  obtain ⟨cs, hcs⟩ := exists_forall₂_iff.2 fun p hp => exists_readCommand_iff.2 (hcommands p hp)
  cases cs with
  | nil => exact absurd (List.forall₂_nil_right_iff.1 hcs) filled
  | cons c cs =>
    exact ⟨⟨c, cs, String.ofList content⟩,
      (read_append hcolon _).2 ⟨hcontent, rfl, by rwa [hsplit]⟩⟩

end CompactBlock

/-! ### Texts -/

theorem readChunk_eq_ok_iff {text chunk : List Char} {position : Nat} {b : CompactBlock} :
    readChunk text position chunk = .ok b ↔ CompactBlock.read chunk = .ok b := by
  simp only [readChunk]
  cases CompactBlock.read chunk <;> simp

/-- A text has no faults when each of its words has the form of a block. -/
theorem compactFaults_eq_nil_iff (text : List Char) :
    compactFaults text = [] ↔ ∀ w ∈ words text, CompactBlock.IsChunk w := by
  simp only [compactFaults, List.filterMap_eq_nil_iff, words, List.forall_mem_map]
  refine forall₂_congr fun pw _ => ?_
  constructor
  · intro h
    cases hr : readChunk text pw.1 pw.2 with
    | error fault => simp [hr] at h
    | ok b => exact (CompactBlock.read_ok (readChunk_eq_ok_iff.1 hr)).1
  · intro h
    obtain ⟨b, hb⟩ := CompactBlock.exists_read h
    simp [readChunk_eq_ok_iff.2 hb]

theorem forall₂_compactBlocks {text : List Char} (h : ∀ w ∈ words text, CompactBlock.IsChunk w) :
    List.Forall₂ (fun w b => CompactBlock.read w = .ok b) (words text) (compactBlocks text) := by
  simp only [words, compactBlocks, List.forall_mem_map] at h ⊢
  generalize chunks text = l at h ⊢
  induction l with
  | nil => exact .nil
  | cons pw l ih =>
    obtain ⟨hw, hl⟩ := List.forall_mem_cons.1 h
    obtain ⟨b, hb⟩ := CompactBlock.exists_read hw
    rw [List.filterMap_cons, List.map_cons]
    simp only [readChunk_eq_ok_iff.2 hb]
    exact .cons hb (ih hl)

/-- A text of words that have the form of blocks is read as the blocks of its words. -/
theorem readCompact_success {text : List Char} (filled : words text ≠ [])
    (h : ∀ w ∈ words text, CompactBlock.IsChunk w) :
    ∃ head tail, readCompact text = .success (.compact head tail) ∧
      List.Forall₂ (fun w b => CompactBlock.read w = .ok b) (words text) (head :: tail) := by
  have hblocks := forall₂_compactBlocks h
  simp only [readCompact, (compactFaults_eq_nil_iff text).2 h]
  cases hb : compactBlocks text with
  | nil =>
    rw [hb, List.forall₂_nil_right_iff] at hblocks
    exact absurd hblocks filled
  | cons head tail => exact ⟨head, tail, rfl, hb ▸ hblocks⟩

/-- Any other text has a fault. -/
theorem readCompact_failure {text : List Char}
    (h : ¬ (words text ≠ [] ∧ ∀ w ∈ words text, CompactBlock.IsChunk w)) :
    ∃ f fs, readCompact text = .failure (f :: fs) := by
  cases hf : compactFaults text with
  | cons f fs => exact ⟨f, fs, by simp only [readCompact, hf]⟩
  | nil =>
    have hall := (compactFaults_eq_nil_iff text).1 hf
    have hnone : words text = [] := by
      by_contra filled
      exact h ⟨filled, hall⟩
    have hblocks := forall₂_compactBlocks hall
    rw [hnone, List.forall₂_nil_left_iff] at hblocks
    exact ⟨⟨.emptySong, 0, text⟩, [], by simp only [readCompact, hf, hblocks]⟩

theorem read_eq_readCompact {text : String}
    (h : (text.toList.dropWhile isBlank).head? ≠ some '\x7b') :
    read text = readCompact text.toList := by
  simp only [read]
  split
  · rename_i hblank
    have hnone : chunks text.toList = [] := by
      rw [chunks_eq_nil_iff, List.all_eq_true]
      exact List.dropWhile_eq_nil_iff.1 hblank
    simp only [readCompact, compactFaults, compactBlocks, hnone, List.filterMap_nil]
  · rename_i hbrace
    exact absurd (congrArg List.head? hbrace) h
  · rfl

end Notation

/-- The written form of a block without a separator. -/
def Block.written (b : Block) : String :=
  ",".intercalate (b.commands.map (·.render)) ++ ":" ++ b.content

namespace Song

open Notation

theorem written_ofCompactBlock (b : CompactBlock) :
    (ofCompactBlock b).written = String.ofList b.written := by
  rw [← String.toList_inj, String.toList_ofList]
  simp [Block.written, ofCompactBlock, CompactBlock.written, String.toList_append,
    String.toList_intercalate, Function.comp_def]

/-- **The compact form is read exactly and loses nothing.**  A text that does not begin with a brace
is a song exactly when it has words and each of them is made of commands with commas between them, a
colon and the content.  The song has one block for each word, which is written as this word, so that
joining the blocks gives the words joined; the selectors of a block are the characters of its
content. -/
theorem load_compact (text : String) (h : (text.toList.dropWhile isBlank).head? ≠ some '\x7b') :
    ((load text).1.isSome ↔
      words text.toList ≠ [] ∧ ∀ w ∈ words text.toList, CompactBlock.IsChunk w) ∧
    ∀ song ∈ (load text).1,
      song.blocks.map (·.written) = (words text.toList).map String.ofList ∧
      " ".intercalate (song.blocks.map (·.written)) =
        " ".intercalate ((words text.toList).map String.ofList) ∧
      ∀ b ∈ song.blocks, b.separator = none ∧
        b.selectors = b.content.toList.map String.singleton := by
  simp only [load, read_eq_readCompact h]
  by_cases hform : words text.toList ≠ [] ∧ ∀ w ∈ words text.toList, CompactBlock.IsChunk w
  · obtain ⟨head, tail, hread, hblocks⟩ := readCompact_success hform.1 hform.2
    rw [hread]
    refine ⟨iff_of_true rfl hform, ?_⟩
    rintro song ⟨⟩
    have hwritten : (head :: tail).map (·.written) = words text.toList :=
      map_eq_of_forall₂ (fun _ _ hb => (CompactBlock.read_ok hb).2.2) hblocks
    have heach : (ofTree (.compact head tail)).blocks.map (·.written) =
        (words text.toList).map String.ofList := by
      rw [← hwritten]
      simp only [ofTree, List.map_map, Function.comp_def, written_ofCompactBlock]
    refine ⟨heach, congrArg _ heach, fun b hb => ?_⟩
    obtain ⟨b, -, rfl⟩ := List.mem_map.1 hb
    exact ⟨rfl, rfl⟩
  · obtain ⟨f, fs, hread⟩ := readCompact_failure hform
    rw [hread]
    exact ⟨iff_of_false Bool.false_ne_true hform, fun song hs => by cases hs⟩

/-- Two blocks with blanks of three kinds around them. -/
theorem load_compact_two_blocks :
    ("\tW0,O-3:1.=a \n K7:s".toList.dropWhile isBlank).head? ≠ some '\x7b' ∧
    ∃ song ∈ (load "\tW0,O-3:1.=a \n K7:s").1,
      " ".intercalate (song.blocks.map (·.written)) = "W0,O-3:1.=a K7:s" := by
  have hbrace : ("\tW0,O-3:1.=a \n K7:s".toList.dropWhile isBlank).head? ≠ some '\x7b' := by decide
  have hwords : words "\tW0,O-3:1.=a \n K7:s".toList = ["W0,O-3:1.=a".toList, "K7:s".toList] := by
    decide +kernel
  have hwheel : CompactBlock.IsCommand ['W', '0'] :=
    ⟨'W', ['0'], by decide, by decide, List.all_eq_true.1 rfl, rfl⟩
  have hoctave : CompactBlock.IsCommand ['O', '-', '3'] :=
    ⟨'O', ['-', '3'], by decide, by decide, List.all_eq_true.1 rfl, rfl⟩
  have hkey : CompactBlock.IsCommand ['K', '7'] :=
    ⟨'K', ['7'], by decide, by decide, List.all_eq_true.1 rfl, rfl⟩
  have hfirst : CompactBlock.IsChunk "W0,O-3:1.=a".toList :=
    ⟨[['W', '0'], ['O', '-', '3']], ['1', '.', '=', 'a'], by decide,
      List.forall_mem_cons.2 ⟨hwheel, List.forall_mem_singleton.2 hoctave⟩,
      ⟨by decide, List.all_eq_true.1 rfl⟩, by decide⟩
  have hsecond : CompactBlock.IsChunk "K7:s".toList :=
    ⟨[['K', '7']], ['s'], by decide, List.forall_mem_singleton.2 hkey,
      ⟨by decide, List.all_eq_true.1 rfl⟩, by decide⟩
  refine ⟨hbrace, ?_⟩
  obtain ⟨hiff, hall⟩ := load_compact _ hbrace
  have hform : ∀ w ∈ words "\tW0,O-3:1.=a \n K7:s".toList, CompactBlock.IsChunk w := by
    rw [hwords]
    exact List.forall_mem_cons.2 ⟨hfirst, List.forall_mem_singleton.2 hsecond⟩
  obtain ⟨song, hsong⟩ := Option.isSome_iff_exists.1 (hiff.2 ⟨by rw [hwords]; decide, hform⟩)
  refine ⟨song, hsong, ?_⟩
  rw [(hall song hsong).2.1, hwords]
  decide

end Song

end ChordSequencer
