import ChordSequencer.Proofs.Ending
import ChordSequencer.Proofs.Flattening
import ChordSequencer.Proofs.Ignoring
import ChordSequencer.Proofs.Places
import ChordSequencer.Proofs.Restating
import ChordSequencer.Proofs.Steering

/-!
# Unknown attributes

The nested form keeps an attribute that names no setting as a command, to be reported when its block
is performed.  It is: a block that begins without failing has reported all its unknown commands
(`Conductor.beginBlock_warned`), and so it goes for the blocks of a song, whether the caller
performs them one after another or playback does (`Song.Begun.warned`).

But the commands of a song are called by their codes, and a name that is a code is kept like any
other.  So an attribute that names no setting is reported and changes nothing just if its name is no
code either; one that is called `O` is obeyed like `octave` (`Song.unknown_attribute_ignored_iff`).
-/

namespace ChordSequencer

open Notation Text

/-- Any selectors. -/
abbrev anything (_ : String) (_ : Nat) : Prop := True

/-! ### The log only grows -/

namespace Conductor

theorem within_anything (c : Conductor) : c.Within anything c := by
  refine ⟨fun _ _ _ _ => trivial, fun place _ => ?_, .same rfl⟩
  cases place with
  | beginning | filler => exact trivial
  | inBlock => exact ⟨fun _ _ _ _ => trivial, fun _ _ => trivial, fun _ _ => trivial⟩

theorem Steer.grows {c c' : Conductor} (steer : c.Steer c') : Reports anything c c' := by
  have within := c.within_anything
  cases steer with
  | stays => exact .same rfl
  | setSong changed => exact (within.setSong (fun _ _ _ _ _ _ => trivial) changed).reports
  | setInstrument exchanged =>
    simp only [Conductor.setInstrument] at exchanged
    split at exchanged <;> cases exchanged
    exact .same rfl
  | setTempo changed =>
    simp only [Conductor.setTempo, checkTempo] at changed
    split at changed <;> cases changed
    exact .same rfl
  | start begun => exact (within.start begun).reports
  | requestStop => exact .same rfl
  | turn waits => exact (within.turn waits).reports
  | interrupt => exact within.interrupt.reports
  | collect => exact within.collect.reports
  | pass => exact .same rfl

end Conductor

theorem Scene.run_grows (s : Scene) (actions : List Action) :
    Conductor.Reports anything s.conductor (s.run actions).conductor := by
  refine run_reports ⟨s.conductor.within_anything, fun call _ => ?_⟩ actions fun o _ => ?_
  · cases call with
    | selector => exact trivial
    | block => exact ⟨fun _ _ => trivial, fun _ _ => trivial⟩
  · cases o with
    | setSong => exact fun _ _ _ _ _ _ => trivial
    | performBlock => exact fun _ _ => trivial
    | _ => exact trivial

/-! ### Blocks that begin -/

namespace Conductor

variable {c c' c'' : Conductor} {i : Instrument} {command : Command} {b : Block}

/-- All unknown commands of a block were reported since. -/
def Warned (c c' : Conductor) (b : Block) : Prop :=
  ∀ command ∈ b.commands, command.known = false → c.Logged c' (.unknownCommand command)

theorem Warned.later (h : c.Warned c' b) (grows : Reports anything c' c'') : c.Warned c'' b :=
  fun command mem unknown => (h command mem unknown).later grows

theorem Warned.earlier (grows : Reports anything c c') (h : c'.Warned c'' b) : c.Warned c'' b :=
  fun command mem unknown => .earlier grows (h command mem unknown)

theorem applyCommands_logged (unknown : command.known = false) (base : Nat)
    (earlier later : List Command) :
    ∀ {c : Conductor} {i : Instrument}, c.instrument = some i → (∀ x ∈ earlier, ¬ x.Chokes) →
      c.Logged (applyCommands base c (earlier ++ command :: later)).1
        (.unknownCommand command) := by
  induction earlier with
  | nil =>
    intro c i hi _
    rw [List.nil_append, applyCommands, applyCommand_unknown unknown base hi]
    have logged : c.Logged { c with log := .unknownCommand command :: c.log }
        (.unknownCommand command) := ⟨[_], rfl, List.mem_singleton.2 rfl⟩
    exact logged.later (P := anything) (applyCommands_reports later)
  | cons x earlier ih =>
    intro c i hi fits
    obtain ⟨first, rest⟩ := List.forall_mem_cons.1 fits
    obtain ⟨c', applied, j, one, hj, -⟩ := applyCommand_duration hi base first
    rw [List.cons_append, applyCommands, one]
    exact .earlier (P := anything) (applyCommand_reports one) (ih hj rest)

theorem applyCommands_fit (base : Nat) (commands : List Command) :
    ∀ {c : Conductor} {i : Instrument}, c.instrument = some i →
      (applyCommands base c commands).2 = none → ∀ x ∈ commands, ¬ x.Chokes := by
  induction commands with
  | nil => exact fun _ _ x mem => absurd mem List.not_mem_nil
  | cons x commands ih =>
    intro c i hi through
    by_cases chokes : x.Chokes
    · rw [applyCommands, applyCommand_chokes hi base chokes] at through
      cases through
    · obtain ⟨c', applied, j, one, hj, -⟩ := applyCommand_duration hi base chokes
      rw [applyCommands, one] at through
      exact List.forall_mem_cons.2 ⟨chokes, ih hj through⟩

/-- **A block that begins reports its unknown commands**, unless a command before chokes. -/
theorem beginBlock_logged (hi : c.instrument = some i) (unknown : command.known = false)
    {earlier later : List Command} (stands : b.commands = earlier ++ command :: later)
    (fits : ∀ x ∈ earlier, ¬ x.Chokes) :
    c.Logged (c.beginBlock b).1 (.unknownCommand command) := by
  have applied := applyCommands_logged unknown b.base earlier later
    (c := { c with instrument := some { i with repeats := 1 } }) rfl fits
  rw [← stands] at applied
  have logged : c.Logged _ (.unknownCommand command) := applied
  exact logged.later (beginBlock_onward (P := anything) (fun _ _ => trivial) hi).reports

/-- A block that begins without failing has reported all its unknown commands. -/
theorem beginBlock_warned (begun : ∀ why, (c.beginBlock b).2 ≠ .failed why) :
    c.Warned (c.beginBlock b).1 b := by
  intro command mem unknown
  rcases beginBlock_prepared (c := c) b with ⟨why, failed⟩ | ⟨c₁, j, prepared⟩
  · exact absurd failed (begun why)
  · obtain ⟨i, hi, applied⟩ := prepared.applied
    have fits := applyCommands_fit b.base b.commands
      (c := { c with instrument := some { i with repeats := 1 } }) rfl (by rw [applied])
    obtain ⟨earlier, later, stands⟩ := List.append_of_mem mem
    exact beginBlock_logged hi unknown stands
      fun x hx => fits x (stands ▸ List.mem_append_left _ hx)

/-! ### Direct performances -/

theorem performBlock_onward (turns : Nat) (b : Block) :
    Reports anything (c.beginBlock b).1 (c.performBlock turns b).1 := by
  obtain ⟨s, ⟨actions, -, reached⟩, conductor, -⟩ :=
    Scene.finish_leads (Q := fun _ => True) turns (f := .block) resumeBlock (fun _ _ => rfl) []
      turns (c.beginBlock b) (s := .opening c) rfl
  have grows := Scene.run_grows
    ((Scene.opening c).follow ((c.beginBlock b).map id (.map .block)) []) actions
  rw [reached, conductor, Scene.follow_conductor] at grows
  exact grows

theorem performBlock_grows (turns : Nat) (b : Block) :
    Reports anything c (c.performBlock turns b).1 :=
  (beginBlock_tells fun _ _ => trivial).reports.trans (performBlock_onward turns b)

theorem performBlocks_grows (turns : Nat) (blocks : List Block) :
    ∀ c : Conductor, Reports anything c (performBlocks turns c blocks).1 := by
  induction blocks with
  | nil => exact fun _ => .same rfl
  | cons b rest ih =>
    intro c
    have first := performBlock_grows (c := c) turns b
    rw [performBlocks]
    split
    · rename_i c₁ performed
      rw [performed] at first
      exact first.trans (ih c₁)
    · exact first

theorem performBlock_begun {turns : Nat} (performed : c.performBlock turns b = (c', .ok ()))
    (why : Failure) : (c.beginBlock b).2 ≠ .failed why := by
  intro failed
  simp only [performBlock] at performed
  rw [← Prod.eta (c.beginBlock b), failed] at performed
  cases turns <;> cases performed

theorem performBlock_warned {turns : Nat} (performed : c.performBlock turns b = (c', .ok ())) :
    c.Warned c' b := by
  have onward := performBlock_onward (c := c) turns b
  rw [performed] at onward
  exact (beginBlock_warned (performBlock_begun performed)).later onward

/-- Blocks that are performed to their end have reported all their unknown commands. -/
theorem performBlocks_warned {turns : Nat} (blocks : List Block) :
    ∀ {c : Conductor}, performBlocks turns c blocks = (c', .ok ()) →
      ∀ b ∈ blocks, c.Warned c' b := by
  induction blocks with
  | nil => exact fun _ b mem => absurd mem List.not_mem_nil
  | cons b rest ih =>
    intro c performed
    rw [performBlocks] at performed
    split at performed
    · rename_i c₁ first
      have earlier := performBlock_grows (c := c) turns b
      have later := performBlocks_grows turns rest c₁
      rw [first] at earlier
      rw [performed] at later
      exact List.forall_mem_cons.2 ⟨(performBlock_warned first).later later,
        fun k hk => .earlier earlier (ih performed k hk)⟩
    · rename_i failed
      exact absurd performed (failed c')

theorem finish_able (turns : Nat) :
    ∀ (n : Nat) {r : Conductor × Outcome BlockCursor}, r.1.Able →
      r.1.task.any (·.live) = false → (∀ why, r.2 ≠ .failed why) →
      ∃ d, finish turns resumeBlock n r = (d, .ok ()) ∧ d.Able ∧ d.task = r.1.task := by
  intro n
  induction n with
  | zero =>
    rintro ⟨c, outcome⟩ able dead begun
    cases outcome with
    | waits | ended => exact ⟨c, rfl, able, rfl⟩
    | failed why => exact absurd rfl (begun why)
  | succ n ih =>
    rintro ⟨c, outcome⟩ able dead begun
    cases outcome with
    | ended => exact ⟨c, rfl, able, rfl⟩
    | failed why => exact absurd rfl (begun why)
    | waits seconds cursor =>
      obtain ⟨time, waited⟩ : ∃ time, c.wait turns seconds = c.pause ⟨time, c.task⟩ :=
        ⟨_, wait_dead dead turns seconds⟩
      have later : (c.pause ⟨time, c.task⟩).Able := ⟨able.goes, able.plays⟩
      have task := ((c.pause ⟨time, c.task⟩).resumeBlock_changes cursor).task_eq
      obtain ⟨d, able', outcome⟩ := resumeBlock_able later cursor
      have onward {o : Outcome BlockCursor}
          (resumed : (c.pause ⟨time, c.task⟩).resumeBlock cursor = (d, o))
          (fine : ∀ why, o ≠ .failed why) : ∃ d', finish turns resumeBlock (n + 1)
            (c, .waits seconds cursor) = (d', .ok ()) ∧ d'.Able ∧ d'.task = c.task := by
        rw [resumed] at task
        obtain ⟨d', finished, able'', same⟩ :=
          ih (r := (d, o)) able' (by rw [task]; exact dead) fine
        exact ⟨d', by rw [finish, waited, resumed]; exact finished, able'', same.trans task⟩
      rcases outcome with ended | ⟨_, _, waits, -⟩
      · exact onward ended fun _ failed => by cases failed
      · exact onward waits fun _ failed => by cases failed

/-- **Blocks that do not overflow** are performed to their end by a conductor that can perform and
is alone. -/
theorem performBlocks_able (turns : Nat) (blocks : List Block) :
    ∀ {c : Conductor}, c.Able → c.task.any (·.live) = false → (∀ b ∈ blocks, ¬ b.Overflows) →
      ∃ d, performBlocks turns c blocks = (d, .ok ()) := by
  induction blocks with
  | nil => exact fun {c} _ _ _ => ⟨c, rfl⟩
  | cons b rest ih =>
    intro c able dead fits
    obtain ⟨first, later⟩ := List.forall_mem_cons.1 fits
    have task := (c.beginBlock_changes b).task_eq
    obtain ⟨c₁, able₁, outcome⟩ := beginBlock_able able first
    have onward {o : Outcome BlockCursor} (begun : c.beginBlock b = (c₁, o))
        (fine : ∀ why, o ≠ .failed why) :
        ∃ d, performBlocks turns c (b :: rest) = (d, .ok ()) := by
      rw [begun] at task
      obtain ⟨d, performed, able', same⟩ := finish_able turns turns (r := (c₁, o)) able₁
        (by rw [task]; exact dead) fine
      obtain ⟨d', all⟩ := ih able' (by rw [same, task]; exact dead) later
      exact ⟨d', by rw [performBlocks, performBlock, begun, performed]; exact all⟩
    rcases outcome with ⟨ended, -⟩ | ⟨_, _, waits⟩
    · exact onward ended fun _ failed => by cases failed
    · exact onward waits fun _ failed => by cases failed

/-! ### Playback -/

/-- The blocks of a pass that have begun before a place have reported their unknown commands. -/
def PlaceWarned (before c : Conductor) (blocks : List Block) : Place → Prop
  | .beginning => True
  | .filler => True
  | .inBlock left _ _ => ∃ done, blocks = done ++ left ∧ ∀ b ∈ done, before.Warned c b

/-- A stretch of playback comes to a wait only at such a place. -/
def Warns (before : Conductor) (blocks : List Block) (r : Conductor × Outcome Place) : Prop :=
  ∀ seconds next, r.2 = .waits seconds next → before.PlaceWarned r.1 blocks next

variable {before : Conductor} {blocks : List Block}

theorem Warns.waits {seconds : Float} {next : Place} (h : before.PlaceWarned c blocks next) :
    before.Warns blocks (c, .waits seconds next) := by
  intro _ _ waits
  cases waits
  exact h

theorem Warns.ended : before.Warns blocks (c, .ended) := by
  intro _ _ waits
  cases waits

theorem Warns.failed {why : Failure} : before.Warns blocks (c, .failed why) := by
  intro _ _ waits
  cases waits

theorem playBlocks_warns (n : Nat) (left : List Block) :
    ∀ {c : Conductor} {done : List Block}, blocks = done ++ left → Reports anything before c →
      (∀ b ∈ done, before.Warned c b) → before.Warns blocks (playBlocks n c left) := by
  induction left with
  | nil => exact fun _ _ _ => .ended
  | cons b left ih =>
    intro c done stands grown warned
    have begun := beginBlock_tells (P := anything) (c := c) (b := b) fun _ _ => trivial
    have more (begins : ∀ why, (c.beginBlock b).2 ≠ .failed why) :
        ∀ k ∈ done ++ [b], before.Warned (c.beginBlock b).1 k := by
      refine List.forall_mem_append.2 ⟨fun k hk => (warned k hk).later begun.reports, ?_⟩
      exact List.forall_mem_singleton.2 (.earlier grown (beginBlock_warned begins))
    have onward : blocks = (done ++ [b]) ++ left := by
      rw [stands, List.append_assoc, List.singleton_append]
    rw [playBlocks]
    split
    · exact .ended
    · split <;> rename_i h <;> rw [h] at begun more
      · exact .waits ⟨_, onward, more fun _ failed => by cases failed⟩
      · exact ih onward (grown.trans begun.reports) (more fun _ failed => by cases failed)
      · exact .failed

theorem fillStep_warns : before.Warns blocks c.fillStep := by
  simp only [fillStep]
  split
  · exact .waits trivial
  · exact .failed

theorem newPass_warns (grown : Reports anything before c) :
    before.Warns c.songBlocks c.newPass := by
  have played := playBlocks_warns c.stepsPerformed c.songBlocks rfl grown
    fun b mem => absurd mem List.not_mem_nil
  simp only [newPass]
  split
  · exact .ended
  · split
    · split
      · exact .ended
      · exact fillStep_warns
    · exact played

theorem endPass_warns (n : Nat) (grown : Reports anything before c) :
    before.Warns c.songBlocks (c.endPass n) := by
  simp only [endPass]
  split
  · exact .ended
  · split
    · exact fillStep_warns
    · exact newPass_warns grown

/-- **Playback from one wait to the next** goes past no block without its warnings. -/
theorem resumePlayback_warns (grown : Reports anything before c) {place : Place}
    (there : before.PlaceWarned c c.songBlocks place) :
    before.Warns c.songBlocks (c.resumePlayback place) := by
  cases place with
  | beginning => exact newPass_warns grown
  | filler => exact newPass_warns grown
  | inBlock left n cursor =>
    obtain ⟨done, stands, warned⟩ := there
    have within : cursor.Within anything := ⟨fun _ _ => trivial, fun _ _ => trivial⟩
    have resumed := (resumeBlock_tells (c := c) within).reports
    have changed := resumeBlock_changes (c := c) cursor
    simp only [resumePlayback]
    split
    · rename_i h
      rw [h] at resumed
      exact .waits ⟨done, stands, fun b hb => (warned b hb).later resumed⟩
    · rename_i c₁ h
      rw [h] at resumed changed
      have grown₁ := grown.trans resumed
      have played := playBlocks_warns n left stands grown₁ fun b hb => (warned b hb).later resumed
      have passed := (playBlocks_does n left : Does .step Place.hold c₁ _).deeds.changes
      have reports : Reports anything c₁ (playBlocks n c₁ left).1 :=
        (playBlocks_tells n fun _ _ _ _ => trivial).reports
      split
      · rename_i c₂ h
        rw [h] at passed reports
        have song : c₂.songBlocks = c.songBlocks := Changes.songBlocks_eq (changed.trans passed)
        exact song ▸ endPass_warns n (grown₁.trans reports)
      · exact played
    · exact .failed

/-- Since `before`, playback has reported the unknown commands of all blocks that have begun in the
pass under way. -/
structure Heeded (before c : Conductor) : Prop where
  /-- Nothing was taken from the log. -/
  grown : Reports anything before c
  /-- A task that waits is running, so that the song stays. -/
  running : ∀ place, c.place? = some place → c.running = true
  /-- The blocks that have begun. -/
  place : ∀ place, c.place? = some place → before.PlaceWarned c c.songBlocks place

theorem heeded_idle (idle : c.place? = none) : c.Heeded c :=
  ⟨.same rfl, fun _ waits => (by cases idle.symm.trans waits),
    fun _ waits => (by cases idle.symm.trans waits)⟩

theorem Heeded.over (h : before.Heeded c) (steer : c.Steer c') (gone : c'.place? = none) :
    before.Heeded c' :=
  ⟨h.grown.trans steer.grows, fun _ waits => (by cases gone.symm.trans waits),
    fun _ waits => (by cases gone.symm.trans waits)⟩

theorem Heeded.same (h : before.Heeded c) (log : c'.log = c.log) (song : c'.song = c.song)
    (task : c'.task = c.task) (running : c'.running = c.running) : before.Heeded c' := by
  obtain ⟨grown, runs, place⟩ := h
  have grows : Reports anything c c' := .same log
  have there : c'.place? = c.place? := by simp only [place?, task]
  refine ⟨grown.trans grows, fun next waits => ?_, fun next waits => ?_⟩
  · rw [running]
    exact runs next (there ▸ waits)
  · have warned := place next (there ▸ waits)
    rw [show c'.songBlocks = c.songBlocks by simp only [songBlocks, song]]
    cases next with
    | beginning | filler => exact trivial
    | inBlock left n cursor =>
      obtain ⟨done, stands, all⟩ := warned
      exact ⟨done, stands, fun b hb => (all b hb).later grows⟩

theorem Heeded.turn (h : before.Heeded c) {place : Place} (waits : c.place? = some place) :
    before.Heeded (c.turn place) := by
  have warns := resumePlayback_warns h.grown (h.place place waits)
  have changes := c.resumePlayback_changes place
  have turned : c.Steer (c.turn place) := .turn waits
  have there := settle_place? (c.resumePlayback place)
  cases resumed : c.resumePlayback place with
  | mk c' outcome =>
    have turn : c.turn place = settle (c', outcome) := by rw [Conductor.turn, resumed]
    rw [resumed] at warns changes there
    rw [turn] at turned ⊢
    cases outcome with
    | waits seconds next =>
      have running : c'.running = true :=
        (congrArg Frame.running changes.frame_eq).trans (h.running place waits)
      refine ⟨h.grown.trans turned.grows, fun _ _ => running, fun next' at' => ?_⟩
      rw [there] at at'
      cases at'
      have song : (settle (c', .waits seconds next)).songBlocks = c.songBlocks :=
        changes.songBlocks_eq
      rw [song]
      exact warns seconds next rfl
    | ended | failed why => exact h.over turned there

/-- **Whatever happens** to a conductor that is only controlled. -/
theorem Heeded.steer (h : before.Heeded c) (steer : c.Steer c') : before.Heeded c' := by
  cases steer with
  | stays => exact h
  | setSong changed =>
    -- a task that waits is running, and then the song is not changed
    have idle : c.running = false ∧ c'.place? = c.place? := by
      simp only [Conductor.setSong] at changed
      split at changed <;> cases changed
      exact ⟨Bool.eq_false_of_not_eq_true ‹_›, rfl⟩
    refine h.over (.setSong changed) (Option.eq_none_iff_forall_ne_some.2 fun place waits => ?_)
    rw [idle.2] at waits
    exact Bool.false_ne_true (idle.1.symm.trans (h.running place waits))
  | setInstrument exchanged =>
    simp only [Conductor.setInstrument] at exchanged
    split at exchanged <;> cases exchanged
    exact h.same rfl rfl rfl rfl
  | setTempo changed =>
    simp only [Conductor.setTempo, checkTempo] at changed
    split at changed <;> cases changed
    exact h.same rfl rfl rfl rfl
  | start begun =>
    obtain ⟨-, rfl⟩ | ⟨-, -, -, rfl⟩ := start_cases begun
    · exact h
    · refine ⟨h.grown.trans (Steer.start begun).grows, fun _ _ => rfl, fun place at' => ?_⟩
      cases at'
      exact trivial
  | requestStop => exact h.same rfl rfl rfl rfl
  | turn waits => exact h.turn waits
  | interrupt =>
    cases waits : c.place? with
    | none =>
      rw [interrupt_none waits]
      exact h
    | some place =>
      exact h.over .interrupt (by rw [interrupt_place? waits]; rfl)
  | collect =>
    obtain ⟨sent, released⟩ := release_frame { c with task := none, running := false }
    exact h.over .collect (by simp only [Conductor.collect, released]; rfl)
  | pass => exact h.same rfl rfl rfl rfl

end Conductor

/-- Playback that the caller controls, in whatever way, heeds the blocks of every pass. -/
theorem Scene.run_heeded {before : Conductor} (actions : List Action) {s : Scene}
    (only : ∀ o, Action.begin o ∈ actions → o.controls = true) (lone : s.calls = [])
    (h : before.Heeded s.conductor) : before.Heeded (s.run actions).conductor := by
  refine (run_kept (P := fun s => before.Heeded s.conductor ∧ s.calls = [])
    (fun s a playback here => ?_) actions only ⟨h, lone⟩).1
  have steered := step_steer here.2 playback
  exact ⟨here.1.steer steered.conductor, steered.calls⟩

/-- Since `c`, playback has begun the blocks `done` of a song, in the pass under way. -/
structure Song.Begun (song : Song) (c c' : Conductor) (done : List Block) : Prop where
  /-- No playback was under way. -/
  idle : c.place? = none
  /-- Playback was controlled since. -/
  controlled : ∃ actions, (∀ o, Action.begin o ∈ actions → o.controls = true) ∧
    ((Scene.opening c).run actions).conductor = c'
  /-- The song is the one that is played. -/
  chosen : c'.song = some song
  /-- Playback waits in the last of the blocks, and the others of the song are left. -/
  waits : ∃ left n cursor, c'.place? = some (.inBlock left n cursor) ∧ song.blocks = done ++ left

/-- A conductor that can perform begins the first block of its song when playback is started. -/
theorem Song.begun_first {song : Song} {c : Conductor} (able : c.Able) (idle : c.place? = none)
    (still : c.running = false) (chosen : c.song = some song) {b : Block} {left : List Block}
    (blocks : song.blocks = b :: left) (plays : b.selectors ≠ []) (fits : ¬ b.Overflows) :
    ∃ c', song.Begun c c' [b] := by
  obtain ⟨i, n, hi, playable, small⟩ := able.plays
  let started : Conductor :=
    { c with stopRequested := false, running := true, task := some (.ready .beginning) }
  have begins : c.start = .ok started := by
    rw [Conductor.start, if_neg (by simp [still]), if_neg (by simp [chosen]),
      if_neg (by simp [hi])]
  have ready : started.Able := ⟨rfl, i, n, hi, playable, small⟩
  obtain ⟨d, -, ⟨-, nothing⟩ | ⟨seconds, cursor, waits⟩⟩ := Conductor.beginBlock_able ready fits
  · exact absurd nothing plays
  have turned : started.turn .beginning =
      Conductor.settle (d, .waits seconds (.inBlock left started.stepsPerformed cursor)) := by
    have first : started.songBlocks = b :: left := by
      rw [Conductor.songBlocks, show started.song = some song from chosen]
      exact blocks
    have unstopped : started.stopRequested = false := rfl
    simp only [Conductor.turn, Conductor.resumePlayback, Conductor.newPass, first,
      Conductor.playBlocks, unstopped, waits, Bool.false_eq_true, ↓reduceIte]
  have changes := started.beginBlock_changes b
  rw [waits] at changes
  refine ⟨started.turn .beginning, idle, ⟨[.begin .start, .turn], ?_, ?_⟩, ?_, left,
    started.stepsPerformed, cursor, ?_, by rw [blocks, List.singleton_append]⟩
  · simp [Operation.controls]
  · simp only [Scene.run, List.foldl_cons, List.foldl_nil, Scene.step, Scene.operate,
      Scene.attempting, Scene.opening, begins]
    rfl
  · rw [turned]
    exact (congrArg Conductor.Frame.song changes.frame_eq).trans chosen
  · rw [turned]
    exact Conductor.settle_place? _

/-- **Blocks that have begun** have reported their unknown commands. -/
theorem Song.Begun.warned {song : Song} {c c' : Conductor} {done : List Block}
    (h : song.Begun c c' done) : ∀ b ∈ done, c.Warned c' b := by
  obtain ⟨idle, ⟨actions, only, rfl⟩, chosen, left, n, cursor, waits, stands⟩ := h
  obtain ⟨done', stands', warned⟩ :=
    (Scene.run_heeded actions only rfl (Conductor.heeded_idle idle)).place _ waits
  have blocks : ((Scene.opening c).run actions).conductor.songBlocks = song.blocks := by
    simp only [Conductor.songBlocks, chosen]
  rw [blocks, stands, List.append_cancel_right_eq] at stands'
  exact stands' ▸ warned

/-! ### Unknown attributes -/

namespace Notation

/-- The attribute is no count and no command: its name is neither that of a setting nor, as it
stands, the code of one. -/
def Attribute.ignored (a : Attribute) : Bool :=
  !Song.isRepeat a && (Setting.ofName? a.name).isNone && (Setting.ofCode? a.name).isNone

/-- A block without the attributes that are ignored. -/
def NestedBlock.plain (b : NestedBlock) : NestedBlock :=
  { b with attributes := b.attributes.filter (!·.ignored) }

end Notation

namespace Song

variable {a : Attribute}

theorem commandOf_known (command : isRepeat a = false) : (commandOf a).known = !a.ignored := by
  simp only [commandOf, Command.known, Attribute.ignored, command]
  cases Setting.ofName? a.name with
  | none => cases Setting.ofCode? a.name <;> rfl
  | some s => cases s <;> rfl

theorem commandsOf_plain (attributes : List Attribute) :
    commandsOf (attributes.filter (!·.ignored)) = (commandsOf attributes).filter (·.known) := by
  simp only [commandsOf, List.filter_map, List.filter_filter]
  refine congrArg (List.map commandOf) (List.filter_congr fun a _ => ?_)
  cases count : isRepeat a with
  | true => rw [Bool.not_true, Bool.false_and, Bool.and_false]
  | false => simp [commandOf_known count]

theorem repeatCount_plain (attributes : List Attribute) :
    ∀ n, repeatCount (attributes.filter (!·.ignored)) n = repeatCount attributes n := by
  induction attributes with
  | nil => exact fun _ => rfl
  | cons a attributes ih =>
    intro n
    cases ignored : a.ignored with
    | false =>
      rw [List.filter_cons_of_pos (by simp [ignored])]
      exact ih _
    | true =>
      have count : isRepeat a = false := by
        simp only [Attribute.ignored, Bool.and_eq_true, Bool.not_eq_true'] at ignored
        exact ignored.1.1
      rw [List.filter_cons_of_neg (by simp [ignored]), ih]
      simp only [repeatCount, List.foldl_cons, count]
      rfl

theorem blocksOf_plain (commands : List Command) (runs : List Run) :
    blocksOf (commands.filter (·.known)) runs = (blocksOf commands runs).map Block.plain := by
  have first (commands : List Command) (r : Run) :
      blockOf (commands.filter (·.known)) r = (blockOf commands r).plain := by
    have known : Command.known ⟨"D", r.duration⟩ = true := rfl
    rw [blockOf, blockOf, Block.plain, List.filter_cons_of_pos known]
  cases runs with
  | nil => rfl
  | cons r rs =>
    rw [blocksOf, blocksOf, List.map_cons, first, List.map_map]
    exact congrArg _ (List.map_congr_left fun r _ => first [] r)

theorem ofNestedBlock_plain (b : NestedBlock) :
    ofNestedBlock b.plain = (ofNestedBlock b).map Block.plain := by
  simp only [ofNestedBlock, NestedBlock.plain, commandsOf_plain, repeatCount_plain, blocksOf_plain,
    List.map_flatten, List.map_replicate]

theorem ofTree_plain (parts : List (List NestedBlock)) :
    ofTree (.nested (parts.map (·.map NestedBlock.plain))) = (ofTree (.nested parts)).plain := by
  simp only [ofTree, Song.plain, List.map_flatMap, ← ofNestedBlock_plain, List.flatMap_map,
    ← List.map_flatten]

theorem mem_head_commands {b : NestedBlock} {k : Block}
    (first : (ofNestedBlock b).head? = some k) (mem : a ∈ b.attributes)
    (other : a.name ≠ "repeat") : commandOf a ∈ k.commands := by
  have command : commandOf a ∈ b.commands :=
    List.mem_map_of_mem (List.mem_filter.2 ⟨mem, by simpa using other⟩)
  obtain ⟨n, copies⟩ := Nat.exists_eq_succ_of_ne_zero (copies_pos b).ne'
  simp only [ofNestedBlock_eq, copies, List.replicate_succ, List.flatten_cons] at first
  cases items : runs NoteValue.quarter b.items with
  | nil => simp [items, blocksOf] at first
  | cons r rs =>
    simp only [items, blocksOf, List.cons_append, List.head?_cons, Option.some.injEq] at first
    rw [← first]
    exact List.mem_cons_of_mem _ command

/-- **Attributes that name no setting.** Such an attribute is passed over as an unknown command just
if its name is not the code of a setting either; otherwise it is the same command as the one that
calls the setting by its name.  If it is no code, a song is performed in the same way, in any scene
and with any actions, when the attribute and all its like are taken out of the text, but for their
warnings.  And its block is not performed without one: neither when the caller performs the song to
its end, as a conductor does that can perform and is alone if no block overflows, nor when playback
has begun the block. -/
theorem unknown_attribute_ignored_iff (other : a.name ≠ "repeat")
    (unnamed : Setting.ofName? a.name = none) :
    (∀ (c : Conductor) (i : Instrument) (base : Nat), c.instrument = some i →
      (c.applyCommand (commandOf a) base =
          .ok ({ c with log := .unknownCommand ⟨a.name, a.value⟩ :: c.log }, false) ↔
        Setting.ofCode? a.name = none)) ∧
    (∀ s, Setting.ofCode? a.name = some s → commandOf a = commandOf ⟨s.name, a.value⟩) ∧
    (Setting.ofCode? a.name = none → ∀ parts : List (List NestedBlock), ∀ b ∈ parts.flatten,
      a ∈ b.attributes →
      (a ∉ b.plain.attributes ∧
        ofTree (.nested (parts.map (·.map NestedBlock.plain))) = (ofTree (.nested parts)).plain ∧
        ∀ (s : Scene) (actions : List Action),
          s.plain.run (actions.map Action.plain) = (s.run actions).plain) ∧
      ∀ k, (ofNestedBlock b).head? = some k → ∀ c : Conductor,
        (∀ turns, c.Able → c.task.any (·.live) = false →
          (∀ k ∈ (ofTree (.nested parts)).blocks, ¬ k.Overflows) →
          ∃ c', c.performBlocks turns (ofTree (.nested parts)).blocks = (c', .ok ())) ∧
        (∀ turns c', c.performBlocks turns (ofTree (.nested parts)).blocks = (c', .ok ()) →
          c.Logged c' (.unknownCommand ⟨a.name, a.value⟩)) ∧
        ∀ c' done, (ofTree (.nested parts)).Begun c c' done → k ∈ done →
          c.Logged c' (.unknownCommand ⟨a.name, a.value⟩)) := by
  have kept : commandOf a = ⟨a.name, a.value⟩ := by rw [commandOf, unnamed]
  have command : isRepeat a = false := by simpa [isRepeat] using other
  refine ⟨fun c i base hi => ?_, fun s called => ?_, fun uncalled parts b hb mem => ⟨?_, ?_⟩⟩
  · rw [kept, Conductor.applyCommand_unknown_iff _ _ hi, Command.known, Option.isSome_eq_false_iff,
      Option.isNone_iff_eq_none]
  · have name : Setting.ofName? s.name = some s := by cases s <;> decide
    rw [kept, commandOf, name, ← Setting.ofCode?_code called]
  · refine ⟨fun stays => ?_, ofTree_plain parts, fun s actions => Scene.run_plain actions s⟩
    have ignored : a.ignored = true := by simp [Attribute.ignored, command, unnamed, uncalled]
    simp [NestedBlock.plain, ignored] at stays
  · intro k first c
    have unknown : Command.known ⟨a.name, a.value⟩ = false := by simp [Command.known, uncalled]
    have stands := kept ▸ mem_head_commands first mem other
    have hk : k ∈ (ofTree (.nested parts)).blocks :=
      List.mem_flatMap.2 ⟨b, hb, List.mem_of_head? first⟩
    refine ⟨fun turns able alone fits => Conductor.performBlocks_able turns _ able alone fits,
      fun turns c' performed => ?_, fun c' done begun mem => begun.warned k mem _ stands unknown⟩
    exact Conductor.performBlocks_warned _ performed k hk _ stands unknown

/-- A note with an attribute whose name is neither that of a setting nor a code. -/
def swinging : NestedBlock := ⟨[.note "1" none], [⟨"swing", "5"⟩]⟩

/-- It is reported by the caller who performs it and by playback that has come to it. -/
theorem unknown_attribute_ignored_swinging : ∃ c c' c'' : Conductor,
    c.performBlocks 1 (ofTree (.nested [[swinging]])).blocks = (c', .ok ()) ∧
    c.Logged c' (.unknownCommand ⟨"swing", "5"⟩) ∧
    (ofTree (.nested [[swinging]])).Begun c c'' (ofNestedBlock swinging) ∧
    c.Logged c'' (.unknownCommand ⟨"swing", "5"⟩) := by
  obtain ⟨c₀, created⟩ : ∃ c₀, Conductor.create true .standard 120.0 = .ok c₀ := ⟨_, rfl⟩
  let song : Song := ofTree (.nested [[swinging]])
  let k : Block := ⟨[⟨"D", "4n"⟩, ⟨"swing", "5"⟩], "1", some " "⟩
  have once : ofNestedBlock swinging = [k] := by decide +kernel
  have blocks : song.blocks = [k] := by decide +kernel
  have small : ¬ Number.TooLarge 4 := by decide +kernel
  have read : NoteValue.ofText "4n" = .ok ⟨4, .note⟩ := by decide +kernel
  have fits : ¬ k.Overflows := by
    rintro (⟨command, mem, code, v, value, large⟩ | ⟨n, last, large⟩)
    · obtain rfl | rfl : command = ⟨"D", "4n"⟩ ∨ command = ⟨"swing", "5"⟩ := by simpa [k] using mem
      · rw [read] at value
        cases value
        exact small large
      · exact absurd code (by decide)
    · have four : (k.commands.filterMap (·.count? k.base)).getLast? = some 4 := by decide +kernel
      rw [four] at last
      cases last
      exact small large
  let c : Conductor := { c₀ with song := some song, instrument := some .initial }
  obtain ⟨task, goes, still, scales⟩ : c.task = none ∧ c.stopRequested = false ∧
      c.running = false ∧ c.catalog.entries ≠ [] := by
    cases created
    exact ⟨rfl, rfl, rfl, by decide⟩
  have able : c.Able := ⟨goes, .initial, 4, rfl, initial_playable scales, small⟩
  obtain ⟨c'', begun⟩ := begun_first able (by rw [Conductor.place?, task]; rfl) still rfl blocks
    (by decide +kernel) fits
  obtain ⟨-, -, unknown⟩ :=
    unknown_attribute_ignored_iff (a := ⟨"swing", "5"⟩) (by decide) (by decide)
  obtain ⟨-, reported⟩ := unknown (by decide) [[swinging]] swinging (List.mem_singleton.2 rfl)
    (List.mem_singleton.2 rfl)
  obtain ⟨comes, direct, playback⟩ := reported k (by rw [once]; rfl) c
  obtain ⟨c', performed⟩ := comes 1 able (by rw [task]; rfl) fun k' mem => by
    have here : k' ∈ song.blocks := mem
    rw [blocks] at here
    exact List.mem_singleton.1 here ▸ fits
  exact ⟨c, c', c'', performed, direct 1 c' performed, once ▸ begun,
    playback c'' _ begun (List.mem_singleton.2 rfl)⟩

/-- The name `O` is not that of a setting, but the attribute is obeyed without a warning. -/
theorem code_attribute_obeyed :
    Setting.ofName? "O" = none ∧
      ofNestedBlock ⟨[.note "1" none], [⟨"O", "3"⟩]⟩ =
        [⟨[⟨"D", "4n"⟩, ⟨"O", "3"⟩], "1", some " "⟩] ∧
      ∀ c : Conductor, c.instrument = some .initial → c.applyCommand ⟨"O", "3"⟩ 10 =
        .ok ({ c with instrument := some { Instrument.initial with octave := 3 } }, true) := by
  refine ⟨by decide, by decide +kernel, fun c hi => ?_⟩
  have number : Setting.number "3" 10 none none = .ok 3 := by decide +kernel
  have called : Setting.ofCode? "O" = some .octave := rfl
  simp only [Conductor.applyCommand, Conductor.requireInstrument, hi, Except.bind,
    Setting.applyCode, called, Setting.apply, number]
  rfl

end Song

end ChordSequencer
