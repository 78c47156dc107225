import ChordSequencer.Proofs.Sounding
import ChordSequencer.Proofs.VirtualClock

/-!
# The end of playback

Playback is ended by stopping it, by cancelling it, when its time is over, or when it fails.  All
these ways lead through the same last step, and whoever has asked for the end goes on only after it:
then the task has ended, not only been given up, the conductor is idle, and no voice sounds
(`Conductor.AtRest`).

* `Conductor.collect_atRest` : the last step.
* `Scene.Watched` : the invariant; whoever waits for the end of playback waits for a task that is
  there.
* `Scene.finished_stays` : what a task has come to is not lost before the caller learns of it.
* `Scene.returns_at_rest` : the step with which a call returns.
* `playback_ends_at_rest` : all of it, for every run of actions and for the virtual clock.
-/

namespace ChordSequencer

namespace Conductor

variable {c : Conductor}

/-- Nothing is left of playback, and no voice sounds. -/
structure AtRest (c : Conductor) : Prop where
  /-- The conductor is idle. -/
  idle : c.running = false
  /-- The task is gone. -/
  gone : c.task = none
  /-- No voice is remembered. -/
  silent : c.sounding = []
  /-- No voice is heard. -/
  heard : soundingAfter c.sent = ∅

/-! ### The last step -/

/-- **Clearing away leaves nothing**, whatever the task has come to. -/
theorem collect_atRest (h : c.Faithful) : c.collect.1.AtRest := by
  have faithful := h.moves collect_moves
  obtain ⟨sent, released⟩ := release_frame { c with task := none, running := false }
  have cleared : c.collect.1 =
      { c with task := none, running := false, sent := sent, sounding := [] } := released
  -- nothing is remembered, and a faithful conductor remembers all that is heard
  have heard := faithful.heard
  rw [cleared] at heard ⊢
  refine ⟨rfl, rfl, rfl, heard.trans ?_⟩
  exact ite_self _

/-- Stopping leaves nothing of a task that is there, whether it has begun, waits or has ended. -/
theorem stop_atRest (h : c.Faithful) (there : c.task.isSome = true) : c.stop.1.AtRest := by
  simp only [stop]
  rw [if_neg (by rw [Option.isNone_iff_eq_none]; intro hn; rw [hn] at there; cases there)]
  exact collect_atRest (h.moves (requestStop_moves.trans interrupt_moves))

end Conductor

/-! ### Scenes -/

/-- An action with which playback may begin. -/
def Action.starts : Action → Bool
  | begin .start => true
  | begin (.play _) => true
  | begin (.playCancelled _ _) => true
  | _ => false

namespace Scene

open Conductor

/-- Whoever waits for the end of playback waits for a task that is there. -/
structure Watched (s : Scene) : Prop where
  /-- A conductor that runs has a task. -/
  manned : s.conductor.Manned
  /-- There is a task while a call that controls playback is under way. -/
  there : s.control ≠ .free → s.conductor.task.isSome = true

variable {s : Scene}

theorem proceed_task {c : Conductor} (h : c.task.isSome = true) :
    (proceed c).task.isSome = true := by
  simp only [proceed]
  split
  · exact settle_task _
  · exact settle_task _
  · exact h

theorem proceed_finished {c : Conductor} {result : Except Failure Unit}
    (h : c.task = some (.finished result)) : proceed c = c := by
  simp only [proceed]
  rw [h]

theorem proceed_none {c : Conductor} (h : c.task = none) : proceed c = c := by
  simp only [proceed]
  rw [h]

theorem follow_control (r : Conductor × Outcome Call) (others : List Call) :
    (s.follow r others).control = s.control := by
  obtain ⟨c, outcome⟩ := r
  cases outcome <;> rfl

theorem follow_conductor (r : Conductor × Outcome Call) (others : List Call) :
    (s.follow r others).conductor = r.1 := by
  obtain ⟨c, outcome⟩ := r
  cases outcome <;> rfl

theorem resume_task (call : Call) (c : Conductor) : (call.resume c).1.task = c.task := by
  cases call with
  | selector hold => exact (resumeSelector_changes hold).task_eq
  | block cursor => exact (resumeBlock_changes cursor).task_eq

theorem drop_task (call : Call) (c : Conductor) : (call.drop c).task = c.task := by
  cases call with
  | selector hold => rfl
  | block cursor => exact Changes.task_eq (.single .silences)

/-- The call stays under way, and the task is as it was, has gone on to its next wait, or has been
cancelled. -/
def Ongoing (s s' : Scene) : Prop :=
  s'.control ≠ .free ∧
    (s'.conductor.task = s.conductor.task ∨
      s'.conductor.task = (proceed s.conductor).task ∨
      s'.conductor.task = s.conductor.interrupt.task)

/-- **What an action can do while a call is under way.** Either the call returns, which it does by
clearing away a task that does not live, or it goes on. -/
theorem step_busy (there : s.conductor.task.isSome = true) (busy : s.control ≠ .free) (a : Action) :
    (s.alive = false ∧ s.step a = s.returning s.conductor.collect) ∨ s.Ongoing (s.step a) := by
  have same : s.Ongoing s := ⟨busy, .inl rfl⟩
  have halted : s.Ongoing s.halt := by
    rw [halt_busy there]
    exact ⟨Control.noConfusion, .inl rfl⟩
  cases a with
  | begin o =>
    right
    cases o with
    | performBlock b =>
      simp only [step, Ongoing, follow_control, follow_conductor]
      exact ⟨busy, .inl (beginBlock_changes b).task_eq⟩
    | performSelector selector base =>
      simp only [step, Ongoing, follow_control, follow_conductor]
      exact ⟨busy, .inl (beginSelector_changes selector base).task_eq⟩
    | _ =>
      simp only [step, if_neg busy]
      exact same
  | expire =>
    right
    simp only [step]
    split
    · exact halted
    · exact same
  | cancel =>
    right
    simp only [step]
    split
    · exact halted
    · exact ⟨Control.noConfusion, .inl rfl⟩
    · exact same
  | finish =>
    -- the only action with which a call can return
    simp only [step]
    split
    · exact .inr same
    · rename_i dead
      split
      · rename_i free
        exact absurd free busy
      · exact .inl ⟨Bool.eq_false_of_not_eq_true dead, rfl⟩
      · exact .inr halted
  | turn =>
    right
    simp only [step]
    split
    · exact same
    · exact ⟨busy, .inr (.inl rfl)⟩
  | interrupt =>
    right
    simp only [step]
    split
    · exact ⟨busy, .inr (.inr rfl)⟩
    · exact same
  | resume index =>
    right
    simp only [step]
    split
    · simp only [Ongoing, follow_control, follow_conductor]
      exact ⟨busy, .inl (resume_task _ _)⟩
    · exact same
  | drop index =>
    right
    simp only [step]
    split
    · exact ⟨busy, .inl (drop_task _ _)⟩
    · exact same
  | pass time => exact .inr same

theorem exchange_kept (i : Instrument) :
    (s.exchange i).control = s.control ∧ (s.exchange i).conductor.task = s.conductor.task := by
  simp only [exchange]
  split
  · rename_i exchanged
    exact ⟨rfl, setInstrument_task exchanged⟩
  · exact ⟨rfl, rfl⟩

theorem operate_there (manned : s.conductor.Manned) (free : s.control = .free) (o : Operation)
    (busy : (s.operate o).control ≠ .free) : (s.operate o).conductor.task.isSome = true := by
  have playing (limited : Bool) (busy : (s.beginPlay limited).control ≠ .free) :
      (s.beginPlay limited).conductor.task.isSome = true := by
    unfold beginPlay at busy ⊢
    split
    · rename_i started
      exact start_task manned started
    · rename_i refused
      simp only [refused] at busy
      exact absurd free busy
  cases o with
  | setSong | setTempo | start => exact absurd rfl busy
  | setInstrument i => exact absurd ((exchange_kept i).1.trans free) busy
  | stop =>
    simp only [operate] at busy ⊢
    by_cases there : s.conductor.task.isSome = true
    · rw [halt_busy there]
      exact there
    · simp only [halt] at busy
      rw [if_neg there] at busy
      exact absurd rfl busy
  | play seconds => exact playing _ busy
  | playCancelled seconds after => exact playing _ busy
  | sleep | performBlock | performSelector => exact absurd free busy

theorem step_watched (h : s.Watched) (a : Action) : (s.step a).Watched := by
  refine ⟨(step_moves s a).manned h.manned, fun busy => ?_⟩
  by_cases free : s.control = .free
  · -- a call has just begun, and no other action takes control
    cases a with
    | begin o =>
      cases o with
      | performBlock b =>
        simp only [step, follow_control] at busy
        exact absurd free busy
      | performSelector selector base =>
        simp only [step, follow_control] at busy
        exact absurd free busy
      | _ =>
        simp only [step, if_pos free] at busy ⊢
        exact operate_there h.manned free _ busy
    | finish =>
      simp only [step, free] at busy
      split at busy <;> exact absurd free busy
    | resume index =>
      simp only [step] at busy
      split at busy
      · rw [follow_control] at busy
        exact absurd free busy
      · exact absurd free busy
    | drop index =>
      simp only [step] at busy
      split at busy <;> exact absurd free busy
    | _ =>
      simp [step, free, Control.cancelling] at busy
  · have there := h.there free
    rcases step_busy there free a with ⟨_, returned⟩ | ⟨_, same | gone | cut⟩
    · rw [returned] at busy
      exact absurd rfl busy
    · rw [same]
      exact there
    · rw [gone]
      exact proceed_task there
    · obtain ⟨task, there⟩ := Option.isSome_iff_exists.1 there
      rw [cut, interrupt_task there]
      rfl

theorem run_watched (actions : List Action) :
    ∀ {s : Scene}, s.Watched → (s.run actions).Watched := by
  induction actions with
  | nil => exact fun h => h
  | cons a actions ih => exact fun h => ih (step_watched h a)

theorem opening_watched {c : Conductor} (h : c.Manned) : (opening c).Watched :=
  ⟨h, fun busy => absurd rfl busy⟩

/-- **A call returns at rest.** The task has ended, what it came to is the answer, and all is
cleared away. -/
theorem returns_at_rest (h : s.Watched) (faithful : s.conductor.Faithful) {a : Action}
    (busy : s.control ≠ .free) (free : (s.step a).control = .free) :
    (s.step a).conductor.AtRest ∧ s.conductor.task = some (.finished (s.step a).answer) := by
  have there := h.there busy
  rcases step_busy there busy a with ⟨dead, returned⟩ | ⟨still, _⟩
  · obtain ⟨result, ended⟩ := finished_of_dead there dead
    rw [returned]
    refine ⟨collect_atRest faithful, ?_⟩
    change s.conductor.task = some (.finished s.conductor.collect.2)
    rw [collect_answer ended]
    exact ended
  · exact absurd free still

/-- What a task has come to is not lost while a call is under way: it stays until the call returns,
with this answer. -/
theorem finished_stays (h : s.Watched) (busy : s.control ≠ .free) {result : Except Failure Unit}
    (ended : s.conductor.task = some (.finished result)) (a : Action) :
    ((s.step a).control ≠ .free ∧ (s.step a).conductor.task = some (.finished result)) ∨
      ((s.step a).control = .free ∧ (s.step a).answer = result) := by
  rcases step_busy (h.there busy) busy a with ⟨_, returned⟩ | ⟨still, same | gone | cut⟩
  · right
    rw [returned]
    exact ⟨rfl, collect_answer ended⟩
  · exact .inl ⟨still, same.trans ended⟩
  · rw [proceed_finished ended] at gone
    exact .inl ⟨still, gone.trans ended⟩
  · exact .inl ⟨still, cut.trans (interrupt_task ended)⟩

theorem attempting_kept {r : Except Failure Conductor}
    (h : ∀ c, r = .ok c → c.task = s.conductor.task) :
    (s.attempting r).control = .free ∧ (s.attempting r).conductor.task = s.conductor.task := by
  refine ⟨rfl, ?_⟩
  cases r with
  | ok c => exact h c rfl
  | error why => rfl

theorem none_stays (free : s.control = .free) (gone : s.conductor.task = none) {a : Action}
    (ha : a.starts = false) : (s.step a).control = .free ∧ (s.step a).conductor.task = none := by
  cases a with
  | begin o =>
    cases o with
    | performBlock b =>
      simp only [step, follow_control, follow_conductor]
      exact ⟨free, (beginBlock_changes b).task_eq.trans gone⟩
    | performSelector selector base =>
      simp only [step, follow_control, follow_conductor]
      exact ⟨free, (beginSelector_changes selector base).task_eq.trans gone⟩
    | start | play | playCancelled => cases ha
    | setSong song =>
      simp only [step, if_pos free, operate]
      rw [← gone]
      exact attempting_kept fun _ => setSong_task
    | setInstrument i =>
      simp only [step, if_pos free, operate]
      exact ⟨(exchange_kept i).1.trans free, (exchange_kept i).2.trans gone⟩
    | setTempo bpm =>
      simp only [step, if_pos free, operate]
      rw [← gone]
      exact attempting_kept fun _ => setTempo_task
    | stop =>
      simp only [step, if_pos free, operate, halt, gone]
      exact ⟨rfl, gone⟩
    | sleep seconds =>
      simp only [step, if_pos free, operate]
      exact ⟨free, gone⟩
  | expire | cancel | interrupt =>
    simp [step, free, gone, Control.cancelling]
  | finish =>
    simp [step, alive, free, gone]
  | turn =>
    simp [step, free, gone, Control.cancelling, proceed_none gone]
  | resume index =>
    simp only [step]
    split
    · rw [follow_control, follow_conductor, resume_task]
      exact ⟨free, gone⟩
    · exact ⟨free, gone⟩
  | drop index =>
    simp only [step]
    split
    · exact ⟨free, (drop_task _ _).trans gone⟩
    · exact ⟨free, gone⟩
  | pass time => exact ⟨free, gone⟩

theorem run_none_stays (later : List Action) :
    ∀ {s : Scene}, s.control = .free → s.conductor.task = none →
      (∀ a ∈ later, a.starts = false) →
      (s.run later).control = .free ∧ (s.run later).conductor.task = none := by
  induction later with
  | nil => exact fun free gone _ => ⟨free, gone⟩
  | cons a later ih =>
    intro s free gone ha
    obtain ⟨free, gone⟩ := none_stays free gone (ha a List.mem_cons_self)
    exact ih free gone fun b hb => ha b (List.mem_cons_of_mem _ hb)

theorem turn_none (free : s.control = .free) (gone : s.conductor.task = none) :
    s.step .turn = s ∧ s.step .interrupt = s := by
  constructor
  · simp only [step, proceed_none gone]
    split <;> rfl
  · simp only [step, free]
    exact if_neg Bool.false_ne_true

theorem finish_returns {result : Except Failure Unit} (busy : s.control ≠ .free)
    (ended : s.conductor.task = some (.finished result)) :
    ((s.step .finish).step .finish).control = .free := by
  have halted : s.halt = { s with conductor := s.conductor.requestStop, control := .stopping } :=
    halt_busy (by rw [ended]; rfl)
  -- a play stops playback with the first of the two, and returns with the second
  cases control : s.control with
  | free => exact absurd control busy
  | stopping => simp [step, alive, ended, control, Task.live, returning, collect]
  | playing limited =>
    simp [step, alive, ended, control, Task.live, halted, requestStop, returning]
  | cancelled =>
    simp [step, alive, ended, control, Task.live, halted, requestStop, returning]

/-- How a call that waited for the end of playback has returned. -/
structure Returned (s s' : Scene) : Prop where
  /-- Nothing is left of playback, and no voice sounds. -/
  atRest : s'.conductor.AtRest
  /-- The task had ended before, and the caller learns what it came to. -/
  ended : s.conductor.task = some (.finished s'.answer)
  /-- Whatever happens later, until playback is started again no task acts. -/
  silent : ∀ later, (∀ b ∈ later, b.starts = false) →
    (s'.run later).step .turn = s'.run later ∧ (s'.run later).step .interrupt = s'.run later

theorem returned (h : s.Watched) (faithful : s.conductor.Faithful) {a : Action}
    (busy : s.control ≠ .free) (free : (s.step a).control = .free) : s.Returned (s.step a) := by
  obtain ⟨rest, ended⟩ := returns_at_rest h faithful busy free
  refine ⟨rest, ended, fun later silent => ?_⟩
  obtain ⟨free, gone⟩ := run_none_stays later free rest.gone silent
  exact turn_none free gone

/-- Whatever a call waits for, it can be cancelled, and then it returns. -/
theorem cancel_returns (h : s.Watched) (busy : s.control ≠ .free) :
    (s.run [.cancel, .interrupt, .finish, .finish]).control = .free := by
  obtain ⟨task, there⟩ := Option.isSome_iff_exists.1 (h.there busy)
  have cancelling : (s.step .cancel).control.cancelling = true ∧
      (s.step .cancel).conductor.task = some task := by
    have halted := halt_busy (h.there busy)
    cases control : s.control with
    | free => exact absurd control busy
    | playing limited => cases limited <;> simp [step, control, halted, requestStop,
        Control.cancelling, there]
    | cancelled => simp [step, control, Control.cancelling, there]
    | stopping => simp [step, control, Control.cancelling, there]
  obtain ⟨cancelling, held⟩ := cancelling
  have cut : (s.step .cancel).step .interrupt =
      { s.step .cancel with conductor := (s.step .cancel).conductor.interrupt } := by
    generalize s.step .cancel = s' at cancelling ⊢
    simp only [step, cancelling, ↓reduceIte]
  -- after the cancellation the task has ended, so that what is left is to learn of it
  change (((s.step .cancel).step .interrupt).step .finish |>.step .finish).control = .free
  rw [cut]
  refine finish_returns ?_ (interrupt_task held)
  intro free
  change (s.step .cancel).control = .free at free
  rw [free] at cancelling
  cases cancelling

end Scene

/-! ### All ways to the end -/

open Conductor

/-- An operation that ends playback: a stop when a task is there, or a play that can begin. -/
def Operation.ends (c : Conductor) : Operation → Prop
  | stop => c.task.isSome = true
  | play _ => ∃ c', c.start = .ok c'
  | playCancelled _ _ => ∃ c', c.yield.start = .ok c'
  | _ => False

theorem Conductor.playOut_atRest {c : Conductor} (h : c.Faithful) (there : c.task.isSome = true)
    (turns : Nat) (seconds cut : Option Float) : (c.playOut turns seconds cut).1.AtRest := by
  unfold playOut
  split
  · exact stop_atRest (h.moves (advance_moves _ _ _)) (advance_task _ _ there)
  · exact stop_atRest (h.moves (stopAt_moves ..)) (stopAt_task _ _ there)
  · split
    · exact stop_atRest (h.moves (yield_moves c)) (yield_task there)
    · dsimp only
      split
      · exact stop_atRest (h.moves (stopAt_moves ..)) (stopAt_task _ _ there)
      · exact stop_atRest (h.moves (stopAt_moves ..)) (stopAt_task _ _ there)

theorem Operation.perform_atRest {c : Conductor} (h : c.Faithful) (hm : c.Manned) (turns : Nat)
    {o : Operation} (ends : o.ends c) : (o.perform turns c).1.AtRest := by
  cases o with
  | stop => exact stop_atRest h ends
  | play seconds =>
    obtain ⟨c', started⟩ := ends
    simp only [perform, Conductor.play, started]
    exact playOut_atRest (h.moves (start_moves started)) (start_task hm started) ..
  | playCancelled seconds after =>
    obtain ⟨c', started⟩ := ends
    have yielded := yield_moves c
    have faithful := h.moves (yielded.trans (start_moves started))
    have there := start_task (yielded.manned hm) started
    simp only [perform, Conductor.playCancelled, started]
    split
    · cases seconds with
      | none => exact stop_atRest faithful there
      | some limit => exact stop_atRest (faithful.moves (yield_moves c')) (yield_task there)
    · obtain ⟨idle, gone, silent, heard⟩ := playOut_atRest faithful there turns seconds
        (some (c.yield.clock + after))
      exact ⟨idle, gone, silent, heard⟩
  | _ => exact ends.elim

/-- **Playback ends at rest**, in whatever way it is ended.  Take any conductor after any
operations, and let the task, its caller and direct performances go on in any order.  When a call
that waits for the end of playback returns, the task has ended and all is cleared away, and only
then does the caller learn what the task came to; this is not lost meanwhile, and a call that is
cancelled does return.  Under the virtual clock each operation that ends playback is such a call. -/
theorem playback_ends_at_rest {audible : Bool} {catalog : Catalog} {bpm : Float} {c₀ : Conductor}
    (created : create audible catalog bpm = .ok c₀) (turns : Nat) (operations : List Operation) :
    let c := Operation.performAll turns c₀ operations
    (∀ actions a, let s := (Scene.opening c).run actions
      (s.control ≠ .free →
        ((s.step a).control = .free → s.Returned (s.step a)) ∧
        (∀ result, s.conductor.task = some (.finished result) →
          ((s.step a).control ≠ .free ∧ (s.step a).conductor.task = some (.finished result)) ∨
          ((s.step a).control = .free ∧ (s.step a).answer = result)) ∧
        (s.run [.cancel, .interrupt, .finish, .finish]).control = .free) ∧
      (s.control = .free → s.conductor.task.isSome = true →
        (s.step (.begin .stop)).control = .stopping)) ∧
    ∀ o : Operation, o.ends c → (o.perform turns c).1.AtRest ∧
      ∃ s, (Scene.opening c).Leads s ∧ s.conductor = (o.perform turns c).1 ∧
        s.control = .free ∧ s.answer = (o.perform turns c).2 := by
  intro c
  have moved : Moves c₀ c := Operation.performAll_moves turns operations c₀
  have faithful : c.Faithful := (create_faithful created).moves moved
  have manned : c.Manned := moved.manned (create_manned created)
  refine ⟨fun actions a => ?_, fun o ends => ?_⟩
  · intro s
    have watched : s.Watched := Scene.run_watched actions (Scene.opening_watched manned)
    have heard : s.conductor.Faithful := Scene.run_faithful (s := Scene.opening c) faithful actions
    refine ⟨fun busy => ⟨?_, ?_, ?_⟩, fun free there => ?_⟩
    · exact Scene.returned watched heard busy
    · exact fun result ended => Scene.finished_stays watched busy ended a
    · exact Scene.cancel_returns watched busy
    · simp only [Scene.step, if_pos free, Scene.operate, Scene.halt_busy there]
  · refine ⟨Operation.perform_atRest faithful manned turns ends, ?_⟩
    obtain ⟨s, led, conductor, control, answer⟩ := Scene.leads_perform turns manned o
    refine ⟨s, led, conductor, control, answer ?_⟩
    cases o with
    | performBlock | performSelector => exact ends.elim
    | _ => rfl

/-- A call that stops playback in the step of a note, and a stop there under the virtual clock. -/
theorem playback_ends_in_step : ∃ c₀, create true .standard 120.0 = .ok c₀ ∧
    (let playing := [.begin (.setSong (some ⟨[⟨[], "1", none⟩]⟩)),
      .begin (.setInstrument .initial), .begin .start, .turn]
    let s := (Scene.opening c₀).run (playing ++ [.begin .stop, .interrupt])
    ((Scene.opening c₀).run playing).conductor.sounding = [⟨0, 60⟩] ∧ s.control = .stopping ∧
      (s.step .finish).control = .free ∧ s.Returned (s.step .finish)) ∧
    let c := Operation.performAll 1 c₀
      [.setSong (some ⟨[⟨[], "1", none⟩]⟩), .setInstrument .initial, .start, .sleep 0.0]
    c.sounding = [⟨0, 60⟩] ∧ (Operation.stop.perform 1 c).1.AtRest := by
  obtain ⟨c₀, created⟩ : ∃ c₀, create true .standard 120.0 = .ok c₀ := ⟨_, rfl⟩
  have ends (operations : List Operation) := playback_ends_at_rest created 1 operations
  refine ⟨c₀, created, ?_, ?_⟩
  · intro playing s
    have stopping : s.control = .stopping := by
      cases created
      decide +kernel
    have free : (s.step .finish).control = .free := by
      cases created
      decide +kernel
    have busy : s.control ≠ .free := by
      rw [stopping]
      exact nofun
    have returned : s.Returned (s.step .finish) := (((ends []).1 _ .finish).1 busy).1 free
    refine ⟨?_, stopping, free, returned⟩
    cases created
    decide +kernel
  · intro c
    have there : c.task.isSome = true := by
      cases created
      decide +kernel
    refine ⟨?_, ((ends _).2 .stop there).1⟩
    cases created
    decide +kernel

end ChordSequencer
