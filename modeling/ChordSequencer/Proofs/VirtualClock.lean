import ChordSequencer.Proofs.Interleaving
import ChordSequencer.Proofs.Task
import Mathlib.Tactic.Set

/-!
# The virtual clock is one of the orders

A scene leaves it open who goes on after a wait; the virtual clock decides it by the times.  What an
operation comes to under the virtual clock, some actions of a scene come to as well
(`Scene.leads_perform`), so that whatever holds for every run of actions holds under the virtual
clock, too.
-/

namespace ChordSequencer

open Conductor

/-- The operations of the caller who controls playback; the others are direct performances. -/
def Operation.controls : Operation → Bool
  | performBlock _ => false
  | performSelector _ _ => false
  | _ => true

namespace Scene

/-- Some actions lead from one scene to another. -/
def Leads (s s' : Scene) : Prop := ∃ actions, s.run actions = s'

/-- Some actions lead from one scene to another, with which no other operations begin. -/
def LeadsBy (s : Scene) (Q : Operation → Prop) (s' : Scene) : Prop :=
  ∃ actions, (∀ o, Action.begin o ∈ actions → Q o) ∧ s.run actions = s'

variable {s s' s'' : Scene} {Q : Operation → Prop}

theorem LeadsBy.refl (s : Scene) : s.LeadsBy Q s :=
  ⟨[], fun _ mem => absurd mem List.not_mem_nil, rfl⟩

theorem LeadsBy.single {a : Action} (h : ∀ o, a = .begin o → Q o) :
    s.LeadsBy Q (s.step a) :=
  ⟨[a], fun o mem => h o (List.mem_singleton.1 mem).symm, rfl⟩

theorem LeadsBy.without {a : Action} (h : ∀ o, a ≠ .begin o) : s.LeadsBy Q (s.step a) :=
  .single fun o same => absurd same (h o)

theorem LeadsBy.begins {o : Operation} (h : Q o) : s.LeadsBy Q (s.step (.begin o)) :=
  .single fun _ same => by cases same; exact h

theorem LeadsBy.trans (h : s.LeadsBy Q s') (h' : s'.LeadsBy Q s'') :
    s.LeadsBy Q s'' := by
  obtain ⟨actions, only, rfl⟩ := h
  obtain ⟨actions', only', rfl⟩ := h'
  refine ⟨actions ++ actions', fun o mem => ?_, List.foldl_append⟩
  exact (List.mem_append.1 mem).elim (only o) (only' o)

theorem LeadsBy.leads (h : s.LeadsBy Q s') : s.Leads s' := by
  obtain ⟨actions, -, reached⟩ := h
  exact ⟨actions, reached⟩

/-! ### Letting the task go on -/

theorem turn_leads (busy : s.control.cancelling = false) :
    s.LeadsBy Q { s with conductor := proceed s.conductor } := by
  have turned : s.step .turn = { s with conductor := proceed s.conductor } := by
    simp only [step, busy, Bool.false_eq_true, ↓reduceIte]
  rw [← turned]
  exact .without fun _ => Action.noConfusion

theorem pass_leads (time : Float) :
    s.LeadsBy Q { s with conductor := { s.conductor with clock := time } } :=
  .without (a := .pass time) fun _ => Action.noConfusion

theorem advance_leads (limit : Option Float) :
    ∀ (n : Nat) {s : Scene}, s.control.cancelling = false →
      s.LeadsBy Q { s with conductor := advance n s.conductor limit } := by
  intro n
  induction n with
  | zero => exact fun _ => .refl _
  | succ n ih =>
    intro s busy
    simp only [advance]
    split
    · rename_i place ready
      have turned := turn_leads (Q := Q) busy
      rw [show proceed s.conductor = s.conductor.turn place by rw [proceed, ready]] at turned
      exact turned.trans (ih busy)
    · rename_i wakes place asleep
      -- the clock is set to the time at which the task wakes, and the task goes on
      split
      · have woken := pass_leads (s := s) (Q := Q) wakes
        have turned := turn_leads (Q := Q)
          (s := { s with conductor := { s.conductor with clock := wakes } }) busy
        rw [show proceed { s.conductor with clock := wakes } =
          turn { s.conductor with clock := wakes } place by rw [proceed, asleep]] at turned
        exact (woken.trans turned).trans (ih busy)
      · exact .refl _
    · exact .refl _
    · exact .refl _

theorem yield_leads (busy : s.control.cancelling = false) :
    s.LeadsBy Q { s with conductor := s.conductor.yield } := by
  simp only [yield]
  split
  · rename_i place ready
    have turned := turn_leads (Q := Q) busy
    rw [show proceed s.conductor = s.conductor.turn place by rw [proceed, ready]] at turned
    exact turned
  · exact .refl _

theorem waitUntil_leads (turns : Nat) (time : Float) (busy : s.control.cancelling = false) :
    s.LeadsBy Q { s with conductor := s.conductor.waitUntil turns time } :=
  (advance_leads _ _ busy).trans (pass_leads time)

theorem wait_leads (turns : Nat) (seconds : Float) (busy : s.control.cancelling = false) :
    s.LeadsBy Q { s with conductor := s.conductor.wait turns seconds } := by
  simp only [wait]
  split
  · exact yield_leads busy
  · exact waitUntil_leads _ _ busy

theorem stopAt_leads (turns : Nat) (time : Float) (busy : s.control.cancelling = false) :
    s.LeadsBy Q { s with conductor := playOut.stopAt turns s.conductor time } := by
  simp only [playOut.stopAt]
  split
  · exact waitUntil_leads _ _ busy
  · exact advance_leads _ _ busy

/-! ### Direct performances -/

theorem finish_leads (turns : Nat) {κ : Type} {f : κ → Call}
    (resume : Conductor → κ → Conductor × Outcome κ)
    (hf : ∀ c next, (f next).resume c = (resume c next).map id (.map f)) (others : List Call) :
    ∀ (n : Nat) (r : Conductor × Outcome κ) {s : Scene}, s.control.cancelling = false →
      ∃ s', (s.follow (r.map id (.map f)) others).LeadsBy Q s' ∧
        s'.conductor = (finish turns resume n r).1 ∧ s'.control = s.control := by
  intro n
  induction n with
  | zero =>
    rintro ⟨c, outcome⟩ s _
    cases outcome <;> exact ⟨_, .refl _, rfl, rfl⟩
  | succ n ih =>
    rintro ⟨c, outcome⟩ s busy
    cases outcome with
    | waits seconds next =>
      -- the call waits in front of the others, and is resumed as the first of them
      have waited := wait_leads (Q := Q)
        (s := { s with conductor := c, calls := f next :: others }) turns seconds busy
      obtain ⟨s', led, conductor, control⟩ := ih (resume (c.wait turns seconds) next) busy
      refine ⟨s', waited.trans (.trans (.without (a := .resume 0) fun _ => Action.noConfusion) ?_),
        conductor, control⟩
      have resumed := hf (c.wait turns seconds) next
      simp only [step, follow, List.getElem?_cons_zero, List.eraseIdx_cons_zero]
      rw [resumed]
      exact led
    | ended => exact ⟨_, .refl _, rfl, rfl⟩
    | failed why => exact ⟨_, .refl _, rfl, rfl⟩

/-! ### Control -/

variable {c : Conductor} {answer : Except Failure Unit} {calls : List Call}

theorem halt_busy (there : s.conductor.task.isSome = true) :
    s.halt = { s with conductor := s.conductor.requestStop, control := .stopping } := by
  simp only [halt]
  rw [if_pos there]

/-- Whoever stops playback waits for the end of the task and then clears it away. -/
theorem halt_run (there : s.conductor.task.isSome = true) :
    s.halt.run [.interrupt, .finish] = s.returning s.conductor.stop := by
  obtain ⟨task, held⟩ := Option.isSome_iff_exists.1 there
  have cut := interrupt_task (c := s.conductor.requestStop) held
  have stopped : s.conductor.stop = s.conductor.requestStop.interrupt.collect := by
    simp only [stop]
    rw [if_neg (by rw [held]; exact Bool.false_ne_true)]
  rw [halt_busy there, stopped]
  simp only [run, List.foldl_cons, List.foldl_nil, step, Control.cancelling, ↓reduceIte, alive, cut,
    Option.any_some, Task.live, Bool.false_eq_true]
  rfl

theorem stop_run (free : s.control = .free) (there : s.conductor.task.isSome = true) :
    s.run [.begin .stop, .interrupt, .finish] = s.returning s.conductor.stop := by
  have begun : s.step (.begin .stop) = s.halt := by simp only [step, if_pos free, operate]
  rw [← halt_run there, ← begun]
  rfl

theorem expire_run (playing : s.control = .playing true)
    (there : s.conductor.task.isSome = true) :
    s.run [.expire, .interrupt, .finish] = s.returning s.conductor.stop := by
  have expired : s.step .expire = s.halt := by simp only [step, if_pos playing]
  rw [← halt_run there, ← expired]
  rfl

theorem cancel_limited_run (playing : s.control = .playing true)
    (there : s.conductor.task.isSome = true) :
    s.run [.cancel, .interrupt, .finish] = s.returning s.conductor.stop := by
  have cancelled : s.step .cancel = s.halt := by simp only [step, playing]
  rw [← halt_run there, ← cancelled]
  rfl

/-- A play without limit is ended when it is cancelled, and the task with it: the play goes on from
its wait and stops a task that has already been cancelled. -/
theorem cancel_run (playing : s.control = .playing false)
    (there : s.conductor.task.isSome = true) :
    s.run [.cancel, .interrupt, .finish, .finish] = s.returning s.conductor.stop := by
  obtain ⟨task, held⟩ := Option.isSome_iff_exists.1 there
  have cut := interrupt_task held
  have stopped : s.conductor.stop = s.conductor.interrupt.requestStop.collect := by
    simp only [stop]
    rw [if_neg (by rw [held]; exact Bool.false_ne_true), requestStop_interrupt]
  rw [stopped]
  simp only [run, List.foldl_cons, List.foldl_nil, step, playing, Control.cancelling, ↓reduceIte,
    alive, cut, Option.any_some, Task.live, Bool.false_eq_true, halt, Option.isSome_some,
    requestStop]
  rfl

theorem stop_leads (free : s.control = .free) (ok : Q .stop) :
    s.LeadsBy Q (s.returning s.conductor.stop) := by
  by_cases there : s.conductor.task.isSome = true
  · exact ⟨_, by simpa using ok, stop_run free there⟩
  · have begun : s.step (.begin .stop) = s.halt := by simp only [step, if_pos free, operate]
    refine (begun ▸ LeadsBy.begins ok).trans ?_
    simp only [halt, stop]
    rw [if_neg there, if_pos (by simpa using there)]
    exact .refl _

theorem expire_leads (playing : s.control = .playing true)
    (there : s.conductor.task.isSome = true) : s.LeadsBy Q (s.returning s.conductor.stop) :=
  ⟨_, by simp, expire_run playing there⟩

theorem cancel_leads (playing : s.control = .playing false)
    (there : s.conductor.task.isSome = true) : s.LeadsBy Q (s.returning s.conductor.stop) :=
  ⟨_, by simp, cancel_run playing there⟩

theorem playOut_leads (turns : Nat) (seconds cut : Option Float)
    (there : s.conductor.task.isSome = true) (playing : s.control = .playing seconds.isSome) :
    s.LeadsBy Q (s.returning (s.conductor.playOut turns seconds cut)) := by
  have busy : s.control.cancelling = false := by rw [playing]; rfl
  unfold playOut
  split
  · exact (advance_leads none turns busy).trans (cancel_leads playing (advance_task _ _ there))
  · exact (stopAt_leads turns _ busy).trans (cancel_leads playing (stopAt_task _ _ there))
  · split
    · exact (yield_leads busy).trans (expire_leads playing (yield_task there))
    · dsimp only
      split
      · exact (stopAt_leads turns _ busy).trans (expire_leads playing (stopAt_task _ _ there))
      · exact (stopAt_leads turns _ busy).trans (expire_leads playing (stopAt_task _ _ there))

theorem beginPlay_ok (limited : Bool) (h : s.conductor.start = .ok c) :
    s.beginPlay limited = { s with conductor := c, control := .playing limited } := by
  simp only [beginPlay]
  rw [h]

theorem beginPlay_error (limited : Bool) {why : Failure} (h : s.conductor.start = .error why) :
    s.beginPlay limited = { s with answer := .error why } := by
  simp only [beginPlay]
  rw [h]

theorem play_leads (turns : Nat) (seconds : Option Float) (hm : s.conductor.Manned)
    (free : s.control = .free) (ok : Q (.play seconds)) :
    s.LeadsBy Q { s with
      conductor := (s.conductor.play turns seconds).1
      answer := (s.conductor.play turns seconds).2 } := by
  have begun : s.step (.begin (.play seconds)) = s.beginPlay seconds.isSome := by
    simp only [step, if_pos free, operate]
  refine (begun ▸ LeadsBy.begins ok).trans ?_
  simp only [play]
  split
  · rename_i why refused
    rw [beginPlay_error _ refused]
    exact .refl _
  · rename_i c started
    rw [beginPlay_ok _ started]
    have led := playOut_leads (Q := Q)
      (s := { s with conductor := c, control := .playing seconds.isSome })
      turns seconds none (start_task hm started) rfl
    simpa only [returning, free] using led

theorem playCancelled_leads (turns : Nat) (seconds : Option Float) (after : Float)
    (hm : s.conductor.Manned) (free : s.control = .free)
    (ok : Q (.playCancelled seconds after)) :
    s.LeadsBy Q { s with
      conductor := (s.conductor.playCancelled turns seconds after).1
      answer := (s.conductor.playCancelled turns seconds after).2 } := by
  have busy : s.control.cancelling = false := by rw [free]; rfl
  have yielded := yield_leads (Q := Q) busy
  have hm := (yield_moves s.conductor).manned hm
  -- the caller lets the task go on once before the play begins beside it
  set s₁ : Scene := { s with conductor := s.conductor.yield } with hs₁
  have free₁ : s₁.control = .free := free
  have begun : s₁.step (.begin (.playCancelled seconds after)) = s₁.beginPlay seconds.isSome := by
    simp only [step, if_pos free₁, operate]
  refine yielded.trans ((begun ▸ LeadsBy.begins ok).trans ?_)
  simp only [playCancelled]
  split
  · split
    · rename_i why refused
      rw [beginPlay_error (s := s₁) _ refused]
      exact .refl _
    · rename_i c started
      rw [beginPlay_ok (s := s₁) _ started]
      have led := cancel_leads (Q := Q)
        (s := { s₁ with conductor := c, control := .playing false }) rfl (start_task hm started)
      simpa only [returning, hs₁, free, Option.isSome_none] using led
    · rename_i c limit started
      rw [beginPlay_ok (s := s₁) _ started]
      have there := start_task hm started
      have went := yield_leads (Q := Q)
        (s := { s₁ with conductor := c, control := .playing true }) rfl
      have led := expire_leads (Q := Q)
        (s := { s₁ with conductor := c.yield, control := .playing true }) rfl (yield_task there)
      simpa only [returning, hs₁, free, Option.isSome_some] using went.trans led
  · split
    · rename_i why refused
      rw [beginPlay_error (s := s₁) _ refused]
      exact waitUntil_leads (s := { s₁ with answer := .error why }) turns _ busy
    · rename_i c started
      rw [beginPlay_ok (s := s₁) _ started]
      have led := playOut_leads (Q := Q)
        (s := { s₁ with conductor := c, control := .playing seconds.isSome }) turns seconds
        (some (s.conductor.yield.clock + after)) (start_task hm started) rfl
      have passed := led.trans (pass_leads (s.conductor.yield.clock + after))
      simpa only [returning, hs₁, free] using passed

theorem exchange_attempt (i : Instrument) :
    (s.exchange i).conductor = (Operation.attempt s.conductor (s.conductor.setInstrument i)).1 ∧
      (s.exchange i).control = s.control ∧
      (s.exchange i).answer =
        (Operation.attempt s.conductor (s.conductor.setInstrument i)).2 := by
  simp only [exchange]
  cases s.conductor.setInstrument i with
  | ok c => exact ⟨rfl, rfl, rfl⟩
  | error why => exact ⟨rfl, rfl, rfl⟩

/-- What an operation comes to under the virtual clock, some actions come to with which no other
operation begins. -/
theorem leadsBy_perform (turns : Nat) (hm : c.Manned) (o : Operation) :
    ∃ s, (opening c).LeadsBy (· = o) s ∧ s.conductor = (o.perform turns c).1 ∧ s.control = .free ∧
      (o.controls = true → s.answer = (o.perform turns c).2) := by
  have begun (o : Operation) : (opening c).LeadsBy (· = o) ((opening c).step (.begin o)) :=
    .begins rfl
  have attempted (o : Operation) (r : Except Failure Conductor)
      (same : (opening c).step (.begin o) = (opening c).attempting r) :
      (opening c).LeadsBy (· = o) ((opening c).returning (Operation.attempt c r)) := by
    have led := begun o
    rw [same] at led
    exact led
  cases o with
  | setSong song => exact ⟨_, attempted (.setSong song) _ rfl, rfl, rfl, fun _ => rfl⟩
  | setInstrument i =>
    obtain ⟨conductor, control, answer⟩ := exchange_attempt (s := opening c) i
    exact ⟨_, begun (.setInstrument i), conductor, control, fun _ => answer⟩
  | setTempo bpm => exact ⟨_, attempted (.setTempo bpm) _ rfl, rfl, rfl, fun _ => rfl⟩
  | start => exact ⟨_, attempted .start _ rfl, rfl, rfl, fun _ => rfl⟩
  | stop => exact ⟨_, stop_leads rfl rfl, rfl, rfl, fun _ => rfl⟩
  | sleep seconds => exact ⟨_, wait_leads turns seconds rfl, rfl, rfl, fun _ => rfl⟩
  | play seconds => exact ⟨_, play_leads turns seconds hm rfl rfl, rfl, rfl, fun _ => rfl⟩
  | playCancelled seconds after =>
    exact ⟨_, playCancelled_leads turns seconds after hm rfl rfl, rfl, rfl, fun _ => rfl⟩
  | performBlock b =>
    obtain ⟨s, led, conductor, control⟩ := finish_leads turns (f := .block) resumeBlock
      (fun _ _ => rfl) [] turns (c.beginBlock b) (s := opening c) rfl
    exact ⟨s, (begun (.performBlock b)).trans led, conductor, control, nofun⟩
  | performSelector selector base =>
    obtain ⟨s, led, conductor, control⟩ := finish_leads turns (f := .selector) resumeSelector
      (fun _ _ => rfl) [] turns (c.beginSelector selector base) (s := opening c) rfl
    exact ⟨s, (begun (.performSelector selector base)).trans led, conductor, control, nofun⟩

/-- **What an operation comes to under the virtual clock, some actions come to.** The operations of
the caller who controls playback come to the same answer as well. -/
theorem leads_perform (turns : Nat) (hm : c.Manned) (o : Operation) :
    ∃ s, (opening c).Leads s ∧ s.conductor = (o.perform turns c).1 ∧ s.control = .free ∧
      (o.controls = true → s.answer = (o.perform turns c).2) := by
  obtain ⟨s, led, rest⟩ := leadsBy_perform turns hm o
  exact ⟨s, led.leads, rest⟩

/-! ### What every action keeps -/

section Kept

variable {P : Scene → Prop}
  (kept : ∀ s a, (∀ o, a = .begin o → Q o) → P s → P (s.step a))
include kept

theorem run_kept (actions : List Action) :
    ∀ {s : Scene}, (∀ o, Action.begin o ∈ actions → Q o) → P s → P (s.run actions) := by
  induction actions with
  | nil => exact fun _ holds => holds
  | cons a actions ih =>
    intro s only holds
    have first : ∀ o, a = .begin o → Q o :=
      fun o same => only o (List.mem_cons.2 (.inl same.symm))
    exact ih (fun o mem => only o (List.mem_cons_of_mem _ mem)) (kept s a first holds)

/-- **What every action keeps holds after any operations** under the virtual clock, if it does not
depend on anything but the conductor while no operation is under way. -/
theorem performAll_kept (alone : ∀ s, s.control = .free → P s → P (opening s.conductor))
    (turns : Nat) (operations : List Operation) :
    ∀ {c : Conductor}, c.Manned → (∀ o ∈ operations, Q o) → P (opening c) →
      P (opening (Operation.performAll turns c operations)) := by
  induction operations with
  | nil => exact fun _ _ holds => holds
  | cons o operations ih =>
    intro c hm only holds
    obtain ⟨s, ⟨actions, begun, reached⟩, conductor, free, -⟩ := leadsBy_perform turns hm o
    have first : ∀ o', Action.begin o' ∈ actions → Q o' :=
      fun o' mem => begun o' mem ▸ only o List.mem_cons_self
    have after : P s := reached ▸ run_kept kept actions first holds
    have again := alone s free after
    rw [conductor] at again
    exact ih ((Operation.perform_moves turns c o).manned hm)
      (fun o' mem => only o' (List.mem_cons_of_mem _ mem)) again

end Kept

end Scene

end ChordSequencer
