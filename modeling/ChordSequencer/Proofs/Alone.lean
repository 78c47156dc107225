import ChordSequencer.Proofs.Interleaving
import ChordSequencer.Proofs.Task
import Mathlib.Data.List.Induction

/-!
# Performances that nobody interleaves with

A performance that is alone goes on from each of its waits as it has left the conductor, except that
meanwhile time has passed, and that the playback task may have taken note of where it waits
(`Conductor.Pause`).  What a performance does alone does not depend on who performs it: a direct
performance and the playback task pause differently, and both are runs over a list of pauses
(`Conductor.alone`).  Playback that is alone depends only on the times at which it goes on
(`Conductor.playedAt`).

* `Conductor.alone_append` : a run goes on from where it has come to.
* `Conductor.through_alone` : so is a run to the end of a performance, which may leave some pauses;
  `Conductor.through_invariant` : what it keeps.
* `Conductor.finish_through`, `Conductor.finish_alone` : the caller who performs under the virtual
  clock while no task lives performs alone.
* `Conductor.advance_playedAt` : under the virtual clock playback is alone while the caller waits.
* `Scene.run_playedAt` : it is alone in a scene in which nothing but the task goes on.
-/

namespace ChordSequencer

namespace Conductor

/-- What can change while a performance waits and nobody else acts. -/
structure Pause where
  /-- The time after the wait. -/
  time : Float
  /-- The playback task after the wait. -/
  task : Option Task

/-- The conductor after a pause. -/
def pause (c : Conductor) (p : Pause) : Conductor := { c with clock := p.time, task := p.task }

variable {κ : Type} (resume : Conductor → κ → Conductor × Outcome κ)

/-- A performance goes on after a pause. One that does not wait stays as it is. -/
def goOn (r : Conductor × Outcome κ) (p : Pause) : Conductor × Outcome κ :=
  match r with
  | (c, .waits _ next) => resume (c.pause p) next
  | r => r

/-- What a performance comes to alone: it goes on after each pause. -/
def alone (r : Conductor × Outcome κ) (pauses : List Pause) : Conductor × Outcome κ :=
  pauses.foldl (goOn resume) r

variable {resume}

theorem alone_append (r : Conductor × Outcome κ) (pauses later : List Pause) :
    alone resume r (pauses ++ later) = alone resume (alone resume r pauses) later :=
  List.foldl_append

theorem alone_ended (c : Conductor) (pauses : List Pause) :
    alone resume (c, .ended) pauses = (c, .ended) := by
  induction pauses with
  | nil => rfl
  | cons p pauses ih => exact ih

theorem alone_failed (c : Conductor) (why : Failure) (pauses : List Pause) :
    alone resume (c, .failed why) pauses = (c, .failed why) := by
  induction pauses with
  | nil => rfl
  | cons p pauses ih => exact ih

/-! ### To the end of a performance -/

variable (resume) in
/-- A performance goes on after each pause to its end, and leaves the other pauses. -/
def through : Conductor × Outcome κ → List Pause → (Conductor × Outcome κ) × List Pause
  | (c, .waits _ next), p :: pauses => through (resume (c.pause p) next) pauses
  | r, pauses => (r, pauses)

theorem through_ended (c : Conductor) (pauses : List Pause) :
    through resume (c, .ended) pauses = ((c, .ended), pauses) := by
  cases pauses <;> rfl

theorem through_failed (c : Conductor) (why : Failure) (pauses : List Pause) :
    through resume (c, .failed why) pauses = ((c, .failed why), pauses) := by
  cases pauses <;> rfl

/-- What going on after a pause keeps holds of what a performance comes to and of the pauses that it
leaves. -/
theorem through_invariant {P : Conductor × Outcome κ → List Pause → Prop}
    (keeps : ∀ c seconds next p later, P (c, .waits seconds next) (p :: later) →
      P (resume (c.pause p) next) later) (pauses : List Pause) :
    ∀ r, P r pauses → P (through resume r pauses).1 (through resume r pauses).2 := by
  induction pauses with
  | nil => rintro ⟨c, outcome⟩ h; cases outcome <;> exact h
  | cons p pauses ih =>
    rintro ⟨c, outcome⟩ h
    cases outcome with
    | waits seconds next => exact ih _ (keeps c seconds next p pauses h)
    | ended | failed why => exact h

/-- A performance that goes on to its end goes on alone. -/
theorem through_alone (pauses : List Pause) (r : Conductor × Outcome κ) :
    (through resume r pauses).1 = alone resume r pauses := by
  induction pauses generalizing r with
  | nil => obtain ⟨c, outcome⟩ := r; cases outcome <;> rfl
  | cons p pauses ih =>
    obtain ⟨c, outcome⟩ := r
    cases outcome with
    | waits seconds next => exact ih _
    | ended => exact (alone_ended c (p :: pauses)).symm
    | failed why => exact (alone_failed c why (p :: pauses)).symm

theorem alone_invariant {P : Conductor → Prop} (waits : ∀ c p, P c → P (pause c p))
    (goes : ∀ c next, P c → P (resume c next).1) (pauses : List Pause) {r : Conductor × Outcome κ}
    (h : P r.1) : P (alone resume r pauses).1 := by
  rw [← through_alone]
  refine through_invariant (P := fun r _ => P r.1) ?_ pauses r h
  intro c seconds next p later h
  exact goes _ next (waits c p h)

theorem through_more {used later : List Pause} (more : List Pause) {d : Conductor} :
    ∀ {r : Conductor × Outcome κ}, through resume r used = ((d, .ended), later) →
      through resume r (used ++ more) = ((d, .ended), later ++ more) := by
  induction used with
  | nil =>
    rintro ⟨c, outcome⟩ ended
    cases outcome with
    | waits | failed => cases ended
    | ended =>
      cases ended
      exact through_ended _ more
  | cons p used ih =>
    rintro ⟨c, outcome⟩ ended
    cases outcome with
    | waits seconds next => exact ih ended
    | failed why => cases ended
    | ended =>
      cases ended
      rfl

/-! ### Direct performances under the virtual clock -/

/-- A task that does not live does not go on. -/
theorem advance_dead {c : Conductor} (dead : c.task.any (·.live) = false) (n : Nat)
    (limit : Option Float) : advance n c limit = c := by
  cases task : c.task with
  | none =>
    cases n with
    | zero => rfl
    | succ n => simp only [advance, task]
  | some t =>
    obtain ⟨result, ended⟩ := finished_of_dead (by rw [task]; rfl) dead
    exact advance_finished ended n limit

/-- The time after a wait that begins at some time, while nobody else goes on. -/
def elapse (time seconds : Float) : Float := if seconds ≤ 0.0 then time else time + seconds

theorem wait_dead {c : Conductor} (dead : c.task.any (·.live) = false) (turns : Nat)
    (seconds : Float) : c.wait turns seconds = c.pause ⟨elapse c.clock seconds, c.task⟩ := by
  simp only [wait, elapse]
  split
  · simp only [yield]
    split
    · rename_i place ready
      rw [ready] at dead
      cases dead
    · rfl
  · simp only [waitUntil]
    rw [advance_dead dead]
    rfl

/-- **The caller performs alone while no task lives.** Where all runs over so many pauses end, the
performance of the caller is one that has used up its pauses, and the task is as before. -/
theorem finish_through (kept : ∀ c next, (resume c next).1.task = c.task) (turns : Nat) :
    ∀ (n : Nat) {r : Conductor × Outcome κ}, r.1.task.any (·.live) = false →
      (∀ pauses : List Pause, pauses.length = n → (through resume r pauses).1.2 = .ended) →
      ∃ c used, through resume r used = ((c, .ended), []) ∧ used.length ≤ n ∧
        finish turns resume n r = (c, .ok ()) ∧ c.task = r.1.task := by
  intro n
  induction n with
  | zero =>
    rintro ⟨c, outcome⟩ - ends
    cases outcome with
    | waits | failed => cases ends [] rfl
    | ended => exact ⟨c, [], rfl, Nat.le_refl 0, rfl, rfl⟩
  | succ n ih =>
    rintro ⟨c, outcome⟩ dead ends
    cases outcome with
    | waits seconds next =>
      obtain ⟨time, waited⟩ : ∃ time, c.wait turns seconds = c.pause ⟨time, c.task⟩ :=
        ⟨_, wait_dead dead turns seconds⟩
      have same : (resume (c.pause ⟨time, c.task⟩) next).1.task = c.task := kept _ next
      obtain ⟨d, used, went, few, finished, task⟩ :=
        ih (r := resume (c.pause ⟨time, c.task⟩) next) (by rw [same]; exact dead)
          fun pauses length => ends (⟨time, c.task⟩ :: pauses) (by simp [length])
      refine ⟨d, ⟨time, c.task⟩ :: used, went, Nat.succ_le_succ few, ?_, task.trans same⟩
      rw [finish, waited]
      exact finished
    | ended => exact ⟨c, [], rfl, Nat.zero_le _, rfl, rfl⟩
    | failed why =>
      cases ends (List.replicate (n + 1) ⟨c.clock, c.task⟩) List.length_replicate

/-- What all runs over so many pauses end in, the performance of the caller ends in. -/
theorem finish_alone (kept : ∀ c next, (resume c next).1.task = c.task) (turns : Nat)
    {P : Conductor → Prop} (n : Nat) {r : Conductor × Outcome κ}
    (dead : r.1.task.any (·.live) = false) (ends : ∀ pauses : List Pause, pauses.length = n →
      (alone resume r pauses).2 = .ended ∧ P (alone resume r pauses).1) :
    ∃ c, finish turns resume n r = (c, .ok ()) ∧ P c := by
  obtain ⟨c, used, went, few, finished, -⟩ :=
    finish_through kept turns n dead fun pauses length => by
      rw [through_alone]
      exact (ends pauses length).1
  refine ⟨c, finished, ?_⟩
  obtain ⟨-, holds⟩ := ends (used ++ List.replicate (n - used.length) ⟨c.clock, c.task⟩) (by
    rw [List.length_append, List.length_replicate]
    omega)
  rw [← through_alone, through_more _ went] at holds
  exact holds

/-! ### Playback -/

/-- Playback that nobody interleaves with: the task goes on at each of some times. After the `k`-th
of them it has come to its `k`-th wait. -/
def playedAt (c : Conductor) (times : List Float) : Conductor :=
  times.foldl (fun c time => Scene.proceed { c with clock := time }) c

theorem playedAt_append (c : Conductor) (times later : List Float) :
    c.playedAt (times ++ later) = (c.playedAt times).playedAt later :=
  List.foldl_append

theorem playedAt_moves (times : List Float) : ∀ c : Conductor, Moves c (c.playedAt times) := by
  induction times with
  | nil => exact fun _ => .refl
  | cons time times ih =>
    intro c
    have passed : Moves c { c with clock := time } := Moves.steer .refl rfl rfl rfl id
    exact (passed.trans (Scene.proceed_moves _)).trans (ih _)

variable (c : Conductor) (turns : Nat)

/-- **Under the virtual clock playback is alone** while the caller waits. -/
theorem advance_playedAt (limit : Option Float) :
    ∀ (n : Nat) (c : Conductor), ∃ times, advance n c limit = c.playedAt times := by
  intro n
  induction n with
  | zero => exact fun c => ⟨[], rfl⟩
  | succ n ih =>
    intro c
    cases task : c.task with
    | none => exact ⟨[], by simp only [advance, task]; rfl⟩
    | some t =>
      cases t with
      | ready place =>
        obtain ⟨times, went⟩ := ih (c.turn place)
        have turned : Scene.proceed { c with clock := c.clock } = c.turn place := by
          simp only [Scene.proceed, task]
        refine ⟨c.clock :: times, ?_⟩
        rw [advance_ready task, went, playedAt, playedAt, List.foldl_cons, turned]
      | asleep wakes place =>
        rw [advance_asleep task]
        split
        · obtain ⟨times, went⟩ := ih ({ c with clock := wakes }.turn place)
          have turned : Scene.proceed { c with clock := wakes } =
              { c with clock := wakes }.turn place := by
            simp only [Scene.proceed, task]
          refine ⟨wakes :: times, ?_⟩
          rw [went, playedAt, playedAt, List.foldl_cons, turned]
        · exact ⟨[], rfl⟩
      | finished result => exact ⟨[], advance_finished task _ limit⟩

theorem yield_playedAt : ∃ times, c.yield = c.playedAt times := by
  unfold yield
  split
  · rename_i place ready
    have turned : Scene.proceed { c with clock := c.clock } = c.turn place := by
      simp only [Scene.proceed, ready]
    exact ⟨[c.clock], turned.symm⟩
  · exact ⟨[], rfl⟩

theorem wait_playedAt (seconds : Float) :
    ∃ times time, c.wait turns seconds = { c.playedAt times with clock := time } := by
  unfold wait
  split
  · obtain ⟨times, went⟩ := c.yield_playedAt
    exact ⟨times, (c.playedAt times).clock, went⟩
  · obtain ⟨times, went⟩ := advance_playedAt (some (c.clock + seconds)) turns c
    exact ⟨times, c.clock + seconds, by rw [waitUntil, went]⟩

theorem stopAt_playedAt (time : Float) :
    ∃ times time', playOut.stopAt turns c time = { c.playedAt times with clock := time' } := by
  obtain ⟨times, went⟩ := advance_playedAt (some time) turns c
  refine ⟨times, ?_⟩
  simp only [playOut.stopAt, went]
  split
  · exact ⟨time, rfl⟩
  · exact ⟨(c.playedAt times).clock, rfl⟩

theorem sleeps_playedAt (waits : List Float) : ∃ times time,
    Operation.performAll turns c (waits.map .sleep) = { c.playedAt times with clock := time } := by
  induction waits using List.reverseRecOn with
  | nil => exact ⟨[], c.clock, rfl⟩
  | append_singleton waits seconds ih =>
    obtain ⟨times, time, slept⟩ := ih
    have last : Operation.performAll turns c ((waits ++ [seconds]).map .sleep) =
        ({ c.playedAt times with clock := time }).wait turns seconds := by
      rw [← slept, Operation.performAll, List.map_append, List.foldl_append]
      rfl
    obtain ⟨later, time', waited⟩ := wait_playedAt { c.playedAt times with clock := time } turns
      seconds
    rw [last, waited]
    -- a wait that the task does not use changes nothing but the time
    cases later with
    | nil => exact ⟨times, time', rfl⟩
    | cons first later =>
      refine ⟨times ++ first :: later, time', ?_⟩
      rw [playedAt_append]
      rfl

end Conductor

namespace Scene

/-- **Playback is alone** in a scene in which nothing but the task goes on. -/
theorem run_playedAt (times : List Float) :
    ∀ {s : Scene}, s.control.cancelling = false →
      s.run (times.flatMap fun time => [.pass time, .turn]) =
        { s with conductor := s.conductor.playedAt times } := by
  induction times with
  | nil => exact fun _ => rfl
  | cons time times ih =>
    intro s busy
    have turned : (s.step (.pass time)).step .turn =
        { s with conductor := proceed { s.conductor with clock := time } } := by
      simp only [step, busy, Bool.false_eq_true, ↓reduceIte]
    calc s.run ((time :: times).flatMap fun time => [.pass time, .turn])
        = ((s.step (.pass time)).step .turn).run
            (times.flatMap fun time => [.pass time, .turn]) := rfl
      _ = { s with conductor := s.conductor.playedAt (time :: times) } := by
          rw [turned]
          exact ih busy

end Scene

end ChordSequencer
