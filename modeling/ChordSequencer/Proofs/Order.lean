import ChordSequencer.Proofs.Doubles
import ChordSequencer.Proofs.Ending
import ChordSequencer.Proofs.Pace

/-!
# The conductor is in order

A conductor that runs has one task that lives, a song and an instrument; one that is idle holds a
task at most that has failed, until the failure has come out.  Song and instrument stay the same
while it runs, and what is refused leaves it as it was.

* `Conductor.InOrder` : the conductor between the operations; `Scene.InOrder` : the invariant.
* `Scene.step_inOrder` : every action keeps it.
* `Scene.live_stays` : a task that lives is never replaced or forgotten.
* `Conductor.Keeps` : the bonds; `Scene.step_keeps`, `Operation.perform_keeps` : nothing but the
  operations that are refused while the conductor runs would change them.
* `Conductor.Refuses` : what is refused.
* `conductor_in_order` : all of it, for every run of actions and for the virtual clock.
-/

namespace ChordSequencer

open Conductor

/-! ### Bonds -/

namespace Conductor

/-- The same song, and the same instrument as far as performances have not changed it. -/
structure Keeps (c c' : Conductor) : Prop where
  /-- The song is the same. -/
  song : c'.song = c.song
  /-- The scales are the same. -/
  catalog : c'.catalog = c.catalog
  /-- The instrument is the same but for what performances have done to it. -/
  instrument : Option.Rel (Relation.ReflTransGen (Instrument.Rework c.catalog)) c.instrument
    c'.instrument

variable {c c' c'' : Conductor}

theorem Keeps.same (song : c'.song = c.song) (catalog : c'.catalog = c.catalog)
    (instrument : c'.instrument = c.instrument) : c.Keeps c' := by
  refine ⟨song, catalog, ?_⟩
  rw [instrument]
  cases c.instrument with
  | none => exact .none
  | some i => exact .some .refl

theorem Keeps.trans (h : c.Keeps c') (h' : c'.Keeps c'') : c.Keeps c'' := by
  obtain ⟨song, catalog, bound⟩ := h
  obtain ⟨song', catalog', bound'⟩ := h'
  refine ⟨song'.trans song, catalog'.trans catalog, ?_⟩
  rw [catalog] at bound'
  generalize c.instrument = i at bound ⊢
  generalize c'.instrument = j at bound bound'
  generalize c''.instrument = k at bound' ⊢
  cases bound with
  | none =>
    cases bound'
    exact .none
  | some first =>
    cases bound' with
    | some later => exact .some (first.trans later)

theorem Keeps.isSome (h : c.Keeps c') : c'.instrument.isSome = c.instrument.isSome := by
  obtain ⟨-, -, bound⟩ := h
  generalize c.instrument = i at bound ⊢
  generalize c'.instrument = j at bound ⊢
  cases bound <;> rfl

theorem Deed.keeps {hold : Hold} (d : Deed hold c c') : c.Keeps c' := by
  have frame := d.change.frame_eq
  have song : c'.song = c.song := congrArg Frame.song frame
  have catalog : c'.catalog = c.catalog := congrArg Frame.catalog frame
  cases d with
  | begins | resumes => exact .same song catalog (noteOn_instrument ..)
  | ends => exact .same song catalog (noteOff_instrument ..)
  | silences => exact .same song catalog release_instrument
  | @announces i =>
    obtain ⟨sent, sends⟩ := c.send_frame (.program i.channel i.timbre)
    exact .same song catalog (by rw [sends])
  | reworks hi reworked =>
    refine ⟨song, catalog, ?_⟩
    rw [hi]
    exact .some (.single reworked)
  | warns | counts | countsBlock => exact .same song catalog rfl

theorem Deeds.keeps {hold : Hold} (d : Deeds hold c c') : c.Keeps c' := by
  induction d with
  | refl => exact .same rfl rfl rfl
  | tail _ deed ih => exact ih.trans deed.keeps

theorem release_keeps : c.Keeps c.release := Deed.keeps (Deed.silences : Deed .step c _)

theorem settle_keeps {r : Conductor × Outcome Place} (h : c.Keeps r.1) : c.Keeps (settle r) := by
  obtain ⟨c', outcome⟩ := r
  cases outcome <;> exact h.trans (.same rfl rfl rfl)

theorem turn_keeps (place : Place) : c.Keeps (c.turn place) :=
  settle_keeps (resumePlayback_does place).deeds.keeps

theorem leave_keeps (place : Place) : c.Keeps (c.leave place) := by
  cases place with
  | beginning => exact .same rfl rfl rfl
  | filler => exact .same rfl rfl rfl
  | inBlock => exact release_keeps.trans (.same rfl rfl rfl)

theorem interrupt_keeps : c.Keeps c.interrupt := by
  simp only [interrupt]
  split
  · exact (leave_keeps _).trans (.same rfl rfl rfl)
  · exact (leave_keeps _).trans (.same rfl rfl rfl)
  · exact .same rfl rfl rfl

theorem collect_keeps : c.Keeps c.collect.1 := by
  have cleared : c.Keeps { c with task := none, running := false } := .same rfl rfl rfl
  exact cleared.trans release_keeps

theorem start_keeps (h : c.start = .ok c') : c.Keeps c' := by
  obtain ⟨-, rfl⟩ | ⟨-, -, -, rfl⟩ := start_cases h <;> exact .same rfl rfl rfl

theorem setTempo_keeps {bpm : Float} (h : c.setTempo bpm = .ok c') : c.Keeps c' := by
  simp only [setTempo, checkTempo] at h
  split at h <;> cases h
  exact .same rfl rfl rfl

end Conductor

/-! ### Refusals -/

namespace Operation

variable {c : Conductor} (turns : Nat)

theorem setSong_running (running : c.running = true) (song : Option Song) :
    (setSong song).perform turns c = (c, .error .songInUse) := by
  simp only [perform, Conductor.setSong, if_pos running]
  rfl

theorem setInstrument_running (running : c.running = true) (i : Instrument) :
    (setInstrument i).perform turns c = (c, .error .instrumentInUse) := by
  simp only [perform, Conductor.setInstrument, if_pos running]
  rfl

end Operation

/-- What a conductor refuses, with its state as it was. -/
structure Conductor.Refuses (turns : Nat) (c : Conductor) : Prop where
  /-- Another song while it runs. -/
  song : c.running = true → ∀ song,
    (Operation.setSong song).perform turns c = (c, .error .songInUse)
  /-- Another instrument while it runs. -/
  instrument : c.running = true → ∀ i,
    (Operation.setInstrument i).perform turns c = (c, .error .instrumentInUse)
  /-- A tempo that is not positive. -/
  tempo : ∀ bpm ≤ 0.0, (Operation.setTempo bpm).perform turns c = (c, .error (.refused .tempo))
  /-- To start without a song. -/
  start : c.running = false → c.song = none →
    Operation.start.perform turns c = (c, .error .noSong)
  /-- To start without an instrument. -/
  startSilent : c.running = false → c.song ≠ none → c.instrument = none →
    Operation.start.perform turns c = (c, .error .noInstrument)
  /-- To start once more changes nothing, and is not refused. -/
  startAgain : c.running = true → Operation.start.perform turns c = (c, .ok ())

theorem Conductor.refuses (turns : Nat) (c : Conductor) : c.Refuses turns := by
  refine ⟨Operation.setSong_running turns, Operation.setInstrument_running turns,
    fun bpm low => ?_, fun idle none => ?_, fun idle some none => ?_, fun running => ?_⟩
  · simp only [Operation.perform, setTempo, checkTempo, if_pos low]
    rfl
  · simp only [Operation.perform, start, idle, none]
    rfl
  · obtain ⟨song, there⟩ := Option.ne_none_iff_exists'.1 some
    simp only [Operation.perform, start, idle, there, none]
    rfl
  · simp only [Operation.perform, start, if_pos running]
    rfl

/-- An operation that binds a song or an instrument. -/
def Operation.binds : Operation → Bool
  | setSong _ => true
  | setInstrument _ => true
  | _ => false

namespace Scene

variable {s : Scene}

theorem follow_keeps {hold : Hold} {κ : Type} {left : κ → Hold} {f : κ → Call}
    {r : Conductor × Outcome κ} {others : List Call} (d : Does hold left s.conductor r) :
    s.conductor.Keeps (s.follow (r.map id (.map f)) others).conductor := by
  rw [follow_conductor]
  exact d.deeds.keeps

theorem halt_keeps : s.conductor.Keeps s.halt.conductor := by
  simp only [halt]
  split <;> exact .same rfl rfl rfl

theorem beginPlay_keeps (limited : Bool) : s.conductor.Keeps (s.beginPlay limited).conductor := by
  simp only [beginPlay]
  split
  · rename_i begun
    exact start_keeps begun
  · exact .same rfl rfl rfl

theorem proceed_keeps (c : Conductor) : c.Keeps (proceed c) := by
  simp only [proceed]
  split
  · exact turn_keeps _
  · exact turn_keeps _
  · exact .same rfl rfl rfl

theorem attempting_keeps {r : Except Failure Conductor} (h : ∀ c, r = .ok c → s.conductor.Keeps c) :
    s.conductor.Keeps (s.attempting r).conductor := by
  cases r with
  | ok c => exact h c rfl
  | error why => exact .same rfl rfl rfl

theorem operate_keeps {o : Operation} (h : s.conductor.running = true ∨ o.binds = false) :
    s.conductor.Keeps (s.operate o).conductor := by
  cases o with
  | setSong song =>
    have running := h.resolve_right (by simp [Operation.binds])
    simp only [operate, setSong, if_pos running]
    exact .same rfl rfl rfl
  | setInstrument i =>
    have running := h.resolve_right (by simp [Operation.binds])
    simp only [operate, exchange, setInstrument, if_pos running]
    exact .same rfl rfl rfl
  | setTempo bpm => exact attempting_keeps fun c set => setTempo_keeps set
  | start => exact attempting_keeps fun c begun => start_keeps begun
  | stop => exact halt_keeps
  | play seconds => exact beginPlay_keeps _
  | playCancelled seconds after => exact beginPlay_keeps _
  | sleep | performBlock | performSelector => exact .same rfl rfl rfl

/-- **No action changes the bonds** but one that binds, and none at all while the conductor runs. -/
theorem step_keeps (s : Scene) (a : Action)
    (h : s.conductor.running = true ∨ ∀ o, a = .begin o → o.binds = false) :
    s.conductor.Keeps (s.step a).conductor := by
  have same : s.conductor.Keeps s.conductor := .same rfl rfl rfl
  cases a with
  | begin o =>
    cases o with
    | performBlock b => exact follow_keeps (beginBlock_does b : Does .step _ _ _)
    | performSelector selector base =>
      exact follow_keeps (beginSelector_does selector base : Does .step _ _ _)
    | _ =>
      simp only [step]
      split
      · exact operate_keeps (h.imp id fun only => only _ rfl)
      · exact same
  | expire =>
    simp only [step]
    split
    · exact halt_keeps
    · exact same
  | cancel =>
    simp only [step]
    split
    · exact halt_keeps
    · exact same
    · exact same
  | finish =>
    simp only [step]
    split
    · exact same
    · split
      · exact same
      · exact collect_keeps
      · exact halt_keeps
  | turn =>
    simp only [step]
    split
    · exact same
    · exact proceed_keeps _
  | interrupt =>
    simp only [step]
    split
    · exact interrupt_keeps
    · exact same
  | resume index =>
    simp only [step]
    split
    · rename_i call _
      cases call with
      | selector hold => exact follow_keeps (resumeSelector_does hold)
      | block cursor => exact follow_keeps (resumeBlock_does cursor)
    · exact same
  | drop index =>
    simp only [step]
    split
    · rename_i call _
      cases call with
      | selector hold => exact same
      | block cursor => exact release_keeps
    · exact same
  | pass time => exact .same rfl rfl rfl

/-- **The bonds last** as long as the conductor runs: to the end of a run of actions before each of
which it was running. -/
theorem run_keeps (actions : List Action) :
    ∀ {s : Scene}, (∀ earlier a later, actions = earlier ++ a :: later →
        (s.run earlier).conductor.running = true) →
      s.conductor.Keeps (s.run actions).conductor := by
  induction actions with
  | nil => exact fun _ => .same rfl rfl rfl
  | cons a actions ih =>
    intro s running
    have first := step_keeps s a (.inl (running [] a actions rfl))
    refine first.trans (ih fun earlier b later split => ?_)
    exact running (a :: earlier) b later (by rw [split]; rfl)

end Scene

namespace Operation

variable {c : Conductor} {o : Operation}

/-- **No operation changes the bonds** under the virtual clock but one that binds, and none at all
that begins while the conductor runs. -/
theorem perform_keeps (turns : Nat) (hm : c.Manned)
    (h : c.running = true ∨ o.binds = false) : c.Keeps (o.perform turns c).1 := by
  by_cases binds : o.binds = true
  · have running := h.resolve_right (by simp [binds])
    cases o with
    | setSong song =>
      rw [setSong_running turns running song]
      exact .same rfl rfl rfl
    | setInstrument i =>
      rw [setInstrument_running turns running i]
      exact .same rfl rfl rfl
    | _ => cases binds
  · obtain ⟨s, ⟨actions, begun, reached⟩, conductor, -⟩ := Scene.leadsBy_perform turns hm o
    have kept := Scene.run_kept (P := fun s => c.Keeps s.conductor) (Q := fun o => o.binds = false)
      (fun s a only before => before.trans (Scene.step_keeps s a (.inr only))) actions
      (s := Scene.opening c) (fun o' mem => begun o' mem ▸ Bool.eq_false_of_not_eq_true binds)
      (.same rfl rfl rfl)
    rw [reached, conductor] at kept
    exact kept

/-- **The bonds last** as long as the conductor runs between the operations. -/
theorem performAll_keeps (turns : Nat) (operations : List Operation) :
    ∀ {c : Conductor}, c.Manned → (∀ earlier o later, operations = earlier ++ o :: later →
        (performAll turns c earlier).running = true) →
      c.Keeps (performAll turns c operations) := by
  induction operations with
  | nil => exact fun _ _ => .same rfl rfl rfl
  | cons o operations ih =>
    intro c hm running
    have first := perform_keeps turns hm (o := o) (.inl (running [] o operations rfl))
    refine first.trans (ih ((perform_moves turns c o).manned hm) fun earlier p later split => ?_)
    exact running (o :: earlier) p later (by rw [split]; rfl)

end Operation

/-! ### Order -/

namespace Conductor

/-- What a conductor that runs has. -/
structure Active (c : Conductor) : Prop where
  /-- Its task lives. -/
  live : c.task.any (·.live) = true
  /-- It has a song. -/
  song : c.song.isSome = true
  /-- It has an instrument. -/
  instrument : c.instrument.isSome = true
  /-- It was not stopped. -/
  goes : c.stopRequested = false

/-- A conductor that runs is active, and one that is idle holds a task only if it has failed. -/
structure InOrder (c : Conductor) : Prop where
  /-- While it runs. -/
  active : c.running = true → c.Active
  /-- While it is idle. -/
  failed : c.running = false → ∀ task, c.task = some task → ∃ why, task = .finished (.error why)

variable {c c' : Conductor}

theorem InOrder.running (h : c.InOrder) (live : c.task.any (·.live) = true) : c.running = true := by
  by_contra idle
  have idle := Bool.eq_false_of_not_eq_true idle
  cases task : c.task with
  | none =>
    rw [task] at live
    cases live
  | some t =>
    obtain ⟨why, rfl⟩ := h.failed idle t task
    rw [task] at live
    cases live

theorem InOrder.alike (h : c.InOrder) (running : c'.running = c.running) (task : c'.task = c.task)
    (song : c'.song = c.song) (instrument : c'.instrument.isSome = c.instrument.isSome)
    (stopped : c'.stopRequested = c.stopRequested) : c'.InOrder := by
  refine ⟨fun runs => ?_, fun idle => ?_⟩
  · obtain ⟨live, sings, plays, goes⟩ := h.active (running ▸ runs)
    exact ⟨by rw [task]; exact live, by rw [song]; exact sings, instrument.trans plays,
      stopped.trans goes⟩
  · rw [task]
    exact h.failed (running ▸ idle)

theorem InOrder.does {κ : Type} {hold : Hold} {left : κ → Hold} {r : Conductor × Outcome κ}
    (h : c.InOrder) (d : Does hold left c r) : r.1.InOrder := by
  have frame := d.deeds.changes.frame_eq
  exact h.alike (congrArg Frame.running frame) (congrArg Frame.task frame)
    (congrArg Frame.song frame) d.deeds.keeps.isSome (congrArg Frame.stopRequested frame)

theorem live_of_place? {place : Place} (waits : c.place? = some place) :
    c.task.any (·.live) = true := by
  cases task : c.task with
  | none =>
    rw [place?, task] at waits
    cases waits
  | some t =>
    rw [place?, task] at waits
    cases t with
    | ready | asleep => rfl
    | finished => cases waits

/-- **A turn leaves a conductor in order**: its task lives or has failed, since it was not
stopped. -/
theorem InOrder.turn (h : c.InOrder) {place : Place} (waits : c.place? = some place) :
    (c.turn place).InOrder := by
  have runs := h.running (live_of_place? waits)
  have active := h.active runs
  have goes := resumePlayback_goes active.goes place
  have does := h.does (resumePlayback_does place)
  have frame := (c.resumePlayback_changes place).frame_eq
  rw [Conductor.turn]
  cases resumed : c.resumePlayback place with
  | mk c' outcome =>
    rw [resumed] at goes does frame
    have runs' : c'.running = true := (congrArg Frame.running frame).trans runs
    cases outcome with
    | waits seconds next =>
      obtain ⟨-, song, instrument, going⟩ := does.active runs'
      refine ⟨fun _ => ⟨?_, song, instrument, going⟩, fun idle => ?_⟩
      · simp only [settle, Option.any_some]
        split <;> rfl
      · change c'.running = false at idle
        rw [runs'] at idle
        cases idle
    | ended => exact absurd rfl goes
    | failed why =>
      refine ⟨fun runs => (by cases runs), fun _ task there => ?_⟩
      cases there
      exact ⟨why, rfl⟩

theorem InOrder.proceed (h : c.InOrder) : (Scene.proceed c).InOrder := by
  cases waits : c.place? with
  | none =>
    rw [proceed_none waits]
    exact h
  | some place =>
    rw [proceed_place? waits]
    exact h.turn waits

theorem InOrder.start (h : c.InOrder) (begun : c.start = .ok c') : c'.InOrder := by
  obtain ⟨-, rfl⟩ | ⟨-, song, instrument, rfl⟩ := start_cases begun
  · exact h
  · exact ⟨fun _ => ⟨rfl, song, instrument, rfl⟩, fun idle => by cases idle⟩

theorem InOrder.gone (idle : c.running = false) (gone : c.task = none) : c.InOrder := by
  refine ⟨fun runs => ?_, fun _ task there => ?_⟩
  · rw [idle] at runs
    cases runs
  · rw [gone] at there
    cases there

/-! ### The tempo -/

theorem turn_bpm (place : Place) : (c.turn place).bpm = c.bpm := by
  have kept : (c.resumePlayback place).1.bpm = c.bpm :=
    congrArg Frame.bpm (c.resumePlayback_changes place).frame_eq
  rw [turn]
  generalize c.resumePlayback place = r at kept ⊢
  obtain ⟨c', outcome⟩ := r
  cases outcome <;> exact kept

theorem proceed_bpm : (Scene.proceed c).bpm = c.bpm := by
  simp only [Scene.proceed]
  split
  · exact turn_bpm _
  · exact turn_bpm _
  · rfl

theorem release_bpm : c.release.bpm = c.bpm := congrArg Frame.bpm (Changes.release .refl).frame_eq

theorem leave_bpm (place : Place) : (c.leave place).bpm = c.bpm := by
  cases place with
  | beginning | filler => rfl
  | inBlock => exact release_bpm

theorem interrupt_bpm : c.interrupt.bpm = c.bpm := by
  simp only [interrupt]
  split
  · exact leave_bpm _
  · exact leave_bpm _
  · rfl

theorem start_bpm (begun : c.start = .ok c') : c'.bpm = c.bpm := by
  obtain ⟨-, rfl⟩ | ⟨-, -, -, rfl⟩ := start_cases begun <;> rfl

/-- A tempo that is accepted is positive if it is a number. -/
theorem checkTempo_pos {bpm bpm' : Float} (number : bpm.isNaN = false)
    (accepted : checkTempo bpm = .ok bpm') : 0.0 < bpm' := by
  simp only [checkTempo] at accepted
  split at accepted
  · cases accepted
  · rename_i high
    cases accepted
    exact Number.positive_of_not_le number high

end Conductor

/-- An operation with which no tempo is set but numbers. -/
def Operation.Numeric : Operation → Prop
  | setTempo bpm => bpm.isNaN = false
  | _ => True

/-! ### Scenes -/

namespace Scene

/-- The tempo is positive, and unless the task is being cancelled the conductor is in order. -/
structure InOrder (s : Scene) : Prop where
  /-- The tempo is positive. -/
  tempo : 0.0 < s.conductor.bpm
  /-- The conductor is in order. -/
  order : s.control.cancelling = false → s.conductor.InOrder

variable {s : Scene}

theorem InOrder.follow {κ : Type} {hold : Hold} {left : κ → Hold} {f : κ → Call}
    {r : Conductor × Outcome κ} {others : List Call} (h : s.InOrder)
    (d : Does hold left s.conductor r) : (s.follow (r.map id (.map f)) others).InOrder := by
  have tempo : r.1.bpm = s.conductor.bpm := congrArg Frame.bpm d.deeds.changes.frame_eq
  refine ⟨?_, fun still => ?_⟩
  · rw [follow_conductor]
    exact tempo ▸ h.tempo
  · rw [follow_control] at still
    rw [follow_conductor]
    have order := (h.order still).does d
    exact order

/-- Whoever stops playback cancels the task if there is one. -/
theorem InOrder.halt (h : s.InOrder) (w : s.Watched) : s.halt.InOrder := by
  by_cases there : s.conductor.task.isSome = true
  · rw [halt_busy there]
    exact ⟨h.tempo, fun still => by cases still⟩
  · have free : s.control = .free := by
      by_contra busy
      exact there (w.there busy)
    simp only [Scene.halt]
    rw [if_neg there]
    exact ⟨h.tempo, fun _ => h.order (by rw [free]; rfl)⟩

theorem InOrder.beginPlay (h : s.InOrder) (free : s.control = .free) (limited : Bool) :
    (s.beginPlay limited).InOrder := by
  have order := h.order (by rw [free]; rfl)
  simp only [Scene.beginPlay]
  split
  · rename_i begun
    exact ⟨by rw [start_bpm begun]; exact h.tempo, fun _ => order.start begun⟩
  · exact ⟨h.tempo, h.order⟩

theorem InOrder.attempting (h : s.InOrder) (free : s.control = .free)
    {r : Except Failure Conductor}
    (kept : ∀ c, r = .ok c → 0.0 < c.bpm ∧ c.InOrder) : (s.attempting r).InOrder := by
  cases r with
  | ok c => exact ⟨(kept c rfl).1, fun _ => (kept c rfl).2⟩
  | error why => exact ⟨h.tempo, fun _ => h.order (by rw [free]; rfl)⟩

theorem InOrder.operate (h : s.InOrder) (w : s.Watched) (free : s.control = .free) {o : Operation}
    (ok : o.Numeric) : (s.operate o).InOrder := by
  have order := h.order (by rw [free]; rfl)
  cases o with
  | setSong song =>
    refine h.attempting free fun c set => ?_
    simp only [setSong] at set
    split at set <;> cases set
    rename_i idle
    exact ⟨h.tempo, fun runs => absurd runs idle, order.failed⟩
  | setInstrument i =>
    simp only [Scene.operate, exchange]
    split
    · rename_i exchanged
      simp only [setInstrument] at exchanged
      split at exchanged <;> cases exchanged
      rename_i idle
      exact ⟨h.tempo, fun _ => ⟨fun runs => absurd runs idle, order.failed⟩⟩
    · exact ⟨h.tempo, h.order⟩
  | setTempo bpm =>
    refine h.attempting free fun c set => ?_
    simp only [setTempo] at set
    obtain ⟨bpm', accepted, rfl⟩ := Setting.map_ok (Setting.refusing_ok set)
    exact ⟨checkTempo_pos ok accepted, order.alike rfl rfl rfl rfl rfl⟩
  | start =>
    refine h.attempting free fun c begun => ⟨?_, order.start begun⟩
    rw [start_bpm begun]
    exact h.tempo
  | stop => exact h.halt w
  | play seconds => exact h.beginPlay free _
  | playCancelled seconds after => exact h.beginPlay free _
  | sleep | performBlock | performSelector => exact h

/-- **Every action leaves the conductor in order.** -/
theorem step_inOrder (a : Action) (ok : ∀ o, a = .begin o → o.Numeric) (w : s.Watched)
    (h : s.InOrder) : (s.step a).InOrder := by
  cases a with
  | begin o =>
    cases o with
    | performBlock b => exact h.follow (beginBlock_does b : Does .step _ _ _)
    | performSelector selector base =>
      exact h.follow (beginSelector_does selector base : Does .step _ _ _)
    | _ =>
      simp only [step]
      split
      · rename_i free
        exact h.operate w free (ok _ rfl)
      · exact h
  | expire =>
    simp only [step]
    split
    · exact h.halt w
    · exact h
  | cancel =>
    simp only [step]
    split
    · exact h.halt w
    · exact ⟨h.tempo, fun still => by cases still⟩
    · exact h
  | finish =>
    simp only [step]
    split
    · exact h
    · split
      · exact h
      · refine ⟨release_bpm (c := { s.conductor with task := none, running := false }) ▸ h.tempo,
          fun _ => .gone ?_ ?_⟩
        · exact (Changes.release .refl).running_eq
        · exact (Changes.release .refl).task_eq
      · exact h.halt w
  | turn =>
    simp only [step]
    split
    · exact h
    · exact ⟨proceed_bpm (c := s.conductor) ▸ h.tempo, fun still => (h.order still).proceed⟩
  | interrupt =>
    simp only [step]
    split
    · rename_i cancelling
      refine ⟨interrupt_bpm (c := s.conductor) ▸ h.tempo, fun still => ?_⟩
      change s.control.cancelling = false at still
      rw [cancelling] at still
      cases still
    · exact h
  | resume index =>
    simp only [step]
    split
    · rename_i call _
      cases call with
      | selector hold => exact h.follow (resumeSelector_does hold)
      | block cursor => exact h.follow (resumeBlock_does cursor)
    · exact h
  | drop index =>
    simp only [step]
    split
    · rename_i call _
      cases call with
      | selector hold => exact ⟨h.tempo, h.order⟩
      | block cursor =>
        have ended : Does .step (fun hold : Hold => hold) s.conductor
            (s.conductor.release, .ended) := .ended (.single .silences)
        exact ⟨release_bpm (c := s.conductor) ▸ h.tempo, fun still => (h.order still).does ended⟩
    · exact h
  | pass time => exact ⟨h.tempo, fun still => (h.order still).alike rfl rfl rfl rfl rfl⟩

/-- **A task that lives is never replaced or forgotten**: it stays as it is, goes on to its next
wait, or is cancelled. -/
theorem live_stays (w : s.Watched) (h : s.InOrder) (live : s.alive = true) (a : Action) :
    (s.step a).conductor.task = s.conductor.task ∨
      (s.step a).conductor.task = (proceed s.conductor).task ∨
      (s.step a).conductor.task = s.conductor.interrupt.task := by
  by_cases free : s.control = .free
  · have runs := (h.order (by rw [free]; rfl)).running live
    have started : s.conductor.start = .ok s.conductor := by simp only [start, if_pos runs]
    cases a with
    | begin o =>
      left
      cases o with
      | performBlock b =>
        simp only [step, follow_conductor]
        exact (beginBlock_changes b).task_eq
      | performSelector selector base =>
        simp only [step, follow_conductor]
        exact (beginSelector_changes selector base).task_eq
      | setSong song =>
        simp only [step, if_pos free, operate]
        exact (attempting_kept fun _ => setSong_task).2
      | setInstrument i =>
        simp only [step, if_pos free, operate]
        exact (exchange_kept i).2
      | setTempo bpm =>
        simp only [step, if_pos free, operate]
        exact (attempting_kept fun _ => setTempo_task).2
      | start =>
        simp only [step, if_pos free, operate, started]
        rfl
      | stop =>
        simp only [step, if_pos free, operate, halt]
        split <;> rfl
      | play | playCancelled =>
        simp only [step, if_pos free, operate, beginPlay, started]
      | sleep => simp only [step, if_pos free, operate]
    | turn =>
      simp [step, free, Control.cancelling]
    | resume index =>
      left
      simp only [step]
      split
      · rw [follow_conductor, resume_task]
      · rfl
    | drop index =>
      left
      simp only [step]
      split
      · exact drop_task _ _
      · rfl
    | finish => simp [step, live]
    | expire | cancel | interrupt | pass => simp [step, free, Control.cancelling]
  · rcases step_busy (w.there free) free a with ⟨dead, -⟩ | ⟨-, stays⟩
    · rw [live] at dead
      cases dead
    · exact stays

end Scene

/-! ### All of it -/

/-- **The conductor is in order.**  Take a conductor after any operations, among which no tempo is
set but numbers.  Its tempo is positive; while it runs it has a task that lives, a song and an
instrument, and it was not stopped; while it is idle it holds a task only if it has failed; and song
and instrument stay the same to the end of any operations before each of which it runs.  While it
runs it refuses other ones, and it refuses to start without them and to take a tempo that is not
positive, each time with its state as it was; to start once more changes nothing.  The same holds
if the task, its caller and direct performances go on in any order, unless the task is just being
cancelled, and a task that lives is never replaced or forgotten. -/
theorem conductor_in_order {audible : Bool} {catalog : Catalog} {bpm : Float} {c₀ : Conductor}
    (created : create audible catalog bpm = .ok c₀) (number : bpm.isNaN = false) :
    (∀ turns operations, (∀ o ∈ operations, o.Numeric) →
      let c := Operation.performAll turns c₀ operations
      0.0 < c.bpm ∧ c.InOrder ∧ c.Refuses turns ∧
      ∀ later, (∀ earlier o rest, later = earlier ++ o :: rest →
          (Operation.performAll turns c earlier).running = true) →
        c.Keeps (Operation.performAll turns c later)) ∧
    (∀ actions, (∀ o, Action.begin o ∈ actions → o.Numeric) →
      let s := (Scene.opening c₀).run actions
      0.0 < s.conductor.bpm ∧ (s.control.cancelling = false → s.conductor.InOrder) ∧
      (s.alive = true → ∀ a, (s.step a).conductor.task = s.conductor.task ∨
        (s.step a).conductor.task = (Scene.proceed s.conductor).task ∨
        (s.step a).conductor.task = s.conductor.interrupt.task) ∧
      ∀ later, (∀ earlier a rest, later = earlier ++ a :: rest →
          (s.run earlier).conductor.running = true) →
        s.conductor.Keeps (s.run later).conductor) := by
  have manned := create_manned created
  have kept (s : Scene) (a : Action) (ok : ∀ o, a = .begin o → o.Numeric)
      (h : s.Watched ∧ s.InOrder) : (s.step a).Watched ∧ (s.step a).InOrder :=
    ⟨Scene.step_watched h.1 a, Scene.step_inOrder a ok h.1 h.2⟩
  have opened : (Scene.opening c₀).Watched ∧ (Scene.opening c₀).InOrder := by
    refine ⟨Scene.opening_watched manned, ?_⟩
    obtain ⟨bpm', accepted, rfl⟩ := Setting.map_ok created
    exact ⟨checkTempo_pos number accepted, fun _ => .gone rfl rfl⟩
  refine ⟨fun turns operations ok => ?_, fun actions ok => ?_⟩
  · intro c
    obtain ⟨-, order⟩ := Scene.performAll_kept kept
      (fun s free h => ⟨Scene.opening_watched h.1.manned, h.2.tempo,
        fun _ => h.2.order (by rw [free]; rfl)⟩) turns operations manned ok opened
    exact ⟨order.tempo, order.order rfl, c.refuses turns,
      fun later => Operation.performAll_keeps turns later
        ((Operation.performAll_moves turns operations c₀).manned manned)⟩
  · intro s
    obtain ⟨watched, order⟩ := Scene.run_kept kept actions ok opened
    exact ⟨order.tempo, order.order, Scene.live_stays watched order,
      fun later => Scene.run_keeps later⟩

/-- A conductor that has just been started. -/
theorem conductor_in_order_started : ∃ c₀, create true .standard 120.0 = .ok c₀ ∧
    let c := Operation.performAll 0 c₀ [.setSong (some ⟨[]⟩), .setInstrument .initial, .start]
    c.running = true ∧ c.Active := by
  refine ⟨_, rfl, rfl, ?_⟩
  have order := ((@conductor_in_order true .standard 120.0 _ rfl rfl).1 0
    [.setSong (some ⟨[]⟩), .setInstrument .initial, .start] (by simp [Operation.Numeric])).2.1
  exact order.active rfl

end ChordSequencer
