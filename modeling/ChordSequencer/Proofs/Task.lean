import ChordSequencer.Conductor.Scene
import ChordSequencer.Proofs.Stretch

/-!
# The playback task

A task goes on turn by turn until it has ended (`Conductor.advance_add_of_finished`).  It stays
there, whatever is done with it, until it is cleared away, and what it has come to by itself is what
is then handed out (`Conductor.collect_answer`).
-/

namespace ChordSequencer

/-- What a task has come to when it is cancelled: what it had come to by itself, and no failure if
it had not ended. -/
def Task.outcome : Task → Except Failure Unit
  | finished result => result
  | _ => .ok ()

/-- The place at which a task waits, or where it begins. -/
def Task.place? : Task → Option Place
  | ready place => some place
  | asleep _ place => some place
  | finished _ => none

namespace Conductor

variable {c : Conductor}

/-- The place at which the playback task waits. -/
def place? (c : Conductor) : Option Place := c.task.bind Task.place?

/-! ### Turns -/

theorem advance_ready {place : Place} (ready : c.task = some (.ready place)) (n : Nat)
    (limit : Option Float) : advance (n + 1) c limit = advance n (c.turn place) limit := by
  simp only [advance, ready]

theorem advance_asleep {wakes : Float} {place : Place}
    (asleep : c.task = some (.asleep wakes place)) (n : Nat) (limit : Option Float) :
    advance (n + 1) c limit =
      if isBefore wakes limit then advance n ({ c with clock := wakes }.turn place) limit
      else c := by
  simp only [advance, asleep]

theorem advance_finished {result : Except Failure Unit} (ended : c.task = some (.finished result))
    (n : Nat) (limit : Option Float) : advance n c limit = c := by
  cases n with
  | zero => rfl
  | succ n => simp only [advance, ended]

/-- Once the task has ended, more turns make no difference. -/
theorem advance_add_of_finished (limit : Option Float) (n m : Nat) :
    ∀ c : Conductor, (∃ result, (advance n c limit).task = some (.finished result)) →
      advance (n + m) c limit = advance n c limit := by
  induction n with
  | zero =>
    rintro c ⟨result, ended⟩
    exact advance_finished ended _ limit
  | succ n ih =>
    rintro c ⟨result, ended⟩
    rw [Nat.succ_add]
    cases task : c.task with
    | none => simp only [advance, task]
    | some t =>
      cases t with
      | ready place =>
        rw [advance_ready task] at ended
        rw [advance_ready task, advance_ready task]
        exact ih _ ⟨result, ended⟩
      | asleep wakes place =>
        rw [advance_asleep task] at ended
        rw [advance_asleep task, advance_asleep task]
        -- a task that does not wake before the limit has made no turn at all
        by_cases before : isBefore wakes limit = true
        · rw [if_pos before] at ended
          rw [if_pos before, if_pos before]
          exact ih _ ⟨result, ended⟩
        · rw [if_neg before, if_neg before]
      | finished result' => rw [advance_finished task, advance_finished task]

/-! ### The task is there -/

theorem settle_task (r : Conductor × Outcome Place) : (settle r).task.isSome = true := by
  obtain ⟨c, outcome⟩ := r
  cases outcome <;> rfl

theorem settle_place? (r : Conductor × Outcome Place) :
    (settle r).place? = match r.2 with
      | .waits _ next => some next
      | _ => none := by
  obtain ⟨c, outcome⟩ := r
  cases outcome with
  | waits seconds next =>
    simp only [settle, place?, Option.bind_some]
    split <;> rfl
  | ended => rfl
  | failed why => rfl

theorem proceed_place? {place : Place} (waits : c.place? = some place) :
    Scene.proceed c = c.turn place := by
  cases task : c.task with
  | none =>
    rw [place?, task] at waits
    cases waits
  | some t =>
    rw [place?, task] at waits
    cases t with
    | ready _ | asleep _ _ =>
      cases waits
      simp only [Scene.proceed, task]
    | finished result => cases waits

theorem proceed_none (gone : c.place? = none) : Scene.proceed c = c := by
  cases task : c.task with
  | none => simp only [Scene.proceed, task]
  | some t =>
    cases t with
    | finished result => simp only [Scene.proceed, task]
    | ready _ | asleep _ _ =>
      rw [place?, task] at gone
      cases gone

theorem interrupt_place? {place : Place} (waits : c.place? = some place) :
    c.interrupt = { c.leave place with task := some (.finished (.ok ())) } := by
  cases task : c.task with
  | none =>
    rw [place?, task] at waits
    cases waits
  | some t =>
    rw [place?, task] at waits
    cases t with
    | ready _ | asleep _ _ =>
      cases waits
      simp only [interrupt, task]
    | finished result => cases waits

theorem interrupt_none (gone : c.place? = none) : c.interrupt = c := by
  cases task : c.task with
  | none => simp only [interrupt, task]
  | some t =>
    cases t with
    | finished result => simp only [interrupt, task]
    | ready _ | asleep _ _ =>
      rw [place?, task] at gone
      cases gone

theorem yield_task (h : c.task.isSome = true) : c.yield.task.isSome = true := by
  simp only [yield]
  split
  · exact settle_task _
  · exact h

theorem advance_task (limit : Option Float) :
    ∀ (n : Nat) {c : Conductor}, c.task.isSome = true →
      (advance n c limit).task.isSome = true := by
  intro n
  induction n with
  | zero => exact fun h => h
  | succ n ih =>
    intro c h
    simp only [advance]
    split
    · exact ih (settle_task _)
    · split
      · exact ih (settle_task _)
      · exact h
    · exact h
    · exact h

theorem stopAt_task (turns : Nat) (time : Float) (h : c.task.isSome = true) :
    (playOut.stopAt turns c time).task.isSome = true := by
  simp only [playOut.stopAt]
  split <;> exact advance_task _ _ h

theorem start_task {c' : Conductor} (hm : c.Manned) (h : c.start = .ok c') :
    c'.task.isSome = true := by
  obtain ⟨runs, rfl⟩ | ⟨-, -, -, rfl⟩ := start_cases h
  · exact hm runs
  · rfl

theorem setSong_task {song : Option Song} {c' : Conductor} (h : c.setSong song = .ok c') :
    c'.task = c.task := by
  simp only [setSong] at h
  split at h <;> cases h
  rfl

theorem setInstrument_task {i : Instrument} {c' : Conductor} (h : c.setInstrument i = .ok c') :
    c'.task = c.task := by
  simp only [setInstrument] at h
  split at h <;> cases h
  rfl

theorem setTempo_task {bpm : Float} {c' : Conductor} (h : c.setTempo bpm = .ok c') :
    c'.task = c.task := by
  simp only [setTempo, checkTempo] at h
  split at h <;> cases h
  rfl

/-! ### The end of the task -/

theorem interrupt_task {task : Task} (there : c.task = some task) :
    c.interrupt.task = some (.finished task.outcome) := by
  simp only [interrupt]
  rw [there]
  cases task with
  | ready place => rfl
  | asleep wakes place => rfl
  | finished result => exact there

theorem finished_of_dead (there : c.task.isSome = true) (dead : c.task.any (·.live) = false) :
    ∃ result, c.task = some (.finished result) := by
  cases h : c.task with
  | none => rw [h] at there; cases there
  | some task =>
    rw [h] at dead
    cases task with
    | ready place => cases dead
    | asleep wakes place => cases dead
    | finished result => exact ⟨result, rfl⟩

theorem collect_answer {result : Except Failure Unit} (h : c.task = some (.finished result)) :
    c.collect.2 = result := by
  simp only [collect]
  rw [h]

theorem release_requestStop (c : Conductor) : c.requestStop.release = c.release.requestStop := by
  -- what is sent does not depend on whether playback was asked to stop
  have sent (voices : List Voice) : ∀ c : Conductor,
      voices.foldl (fun c v => c.send v.off) c.requestStop =
        (voices.foldl (fun c v => c.send v.off) c).requestStop := by
    induction voices with
    | nil => exact fun _ => rfl
    | cons v vs ih =>
      intro c
      rw [List.foldl_cons, List.foldl_cons, ← ih]
      congr 1
      unfold send requestStop
      split <;> rfl
  simp only [release]
  rw [show c.requestStop.sounding = c.sounding from rfl, sent]
  rfl

/-- It does not matter whether a task is cancelled before or after playback is asked to stop. -/
theorem requestStop_interrupt (c : Conductor) :
    c.requestStop.interrupt = c.interrupt.requestStop := by
  have left (place : Place) : c.requestStop.leave place = (c.leave place).requestStop := by
    cases place with
    | beginning => rfl
    | filler => rfl
    | inBlock left before cursor =>
      simp only [leave]
      rw [release_requestStop]
      rfl
  simp only [interrupt]
  rw [show c.requestStop.task = c.task from rfl]
  split
  · rw [left]; rfl
  · rw [left]; rfl
  · rfl

end Conductor

end ChordSequencer
