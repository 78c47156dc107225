import ChordSequencer.Proofs.VirtualClock

/-!
# Scenes with nothing but playback

A caller who begins no direct performance only controls playback.  Whatever such a caller does, and
whenever the task goes on, one of few things happens to the conductor (`Conductor.Steer`): an
invariant of playback holds in all such scenes if each of these keeps it.

* `Scene.step_steer` : every action is one of them, and no direct performance comes about.
-/

namespace ChordSequencer

/-- What can happen to a conductor that is only controlled. -/
inductive Conductor.Steer (c : Conductor) : Conductor → Prop
  /-- Nothing. -/
  | stays : Steer c c
  /-- The song is changed. -/
  | setSong {song : Option Song} {c' : Conductor} (changed : c.setSong song = .ok c') : Steer c c'
  /-- The instrument is exchanged. -/
  | setInstrument {i : Instrument} {c' : Conductor} (exchanged : c.setInstrument i = .ok c') :
    Steer c c'
  /-- The tempo is changed. -/
  | setTempo {bpm : Float} {c' : Conductor} (changed : c.setTempo bpm = .ok c') : Steer c c'
  /-- Playback begins. -/
  | start {c' : Conductor} (begun : c.start = .ok c') : Steer c c'
  /-- Playback is asked to stop. -/
  | requestStop : Steer c c.requestStop
  /-- The task goes on from its place. -/
  | turn {place : Place} (waits : c.place? = some place) : Steer c (c.turn place)
  /-- The task is cancelled. -/
  | interrupt : Steer c c.interrupt
  /-- The task is cleared away. -/
  | collect : Steer c c.collect.1
  /-- Time passes. -/
  | pass (clock : Float) : Steer c { c with clock }

namespace Scene

open Conductor

variable {s s' : Scene}

/-- One scene comes from another by control alone. -/
structure Steered (s s' : Scene) : Prop where
  /-- What has happened to the conductor. -/
  conductor : s.conductor.Steer s'.conductor
  /-- No direct performance is under way. -/
  calls : s'.calls = []

variable (lone : s.calls = [])

include lone

theorem Steered.refl : s.Steered s := ⟨.stays, lone⟩

theorem attempting_steered {r : Except Failure Conductor}
    (steers : ∀ c, r = .ok c → s.conductor.Steer c) : s.Steered (s.attempting r) := by
  simp only [attempting, returning, Operation.attempt]
  cases r with
  | ok c => exact ⟨steers c rfl, lone⟩
  | error why => exact ⟨.stays, lone⟩

theorem halt_steered : s.Steered s.halt := by
  simp only [halt]
  split
  · exact ⟨.requestStop, lone⟩
  · exact ⟨.stays, lone⟩

theorem beginPlay_steered (limited : Bool) : s.Steered (s.beginPlay limited) := by
  simp only [beginPlay]
  split
  · rename_i begun
    exact ⟨.start begun, lone⟩
  · exact ⟨.stays, lone⟩

theorem exchange_steered (i : Instrument) : s.Steered (s.exchange i) := by
  simp only [exchange]
  split
  · rename_i exchanged
    exact ⟨.setInstrument exchanged, by rw [lone]; rfl⟩
  · exact ⟨.stays, lone⟩

theorem operate_steered (o : Operation) : s.Steered (s.operate o) := by
  cases o with
  | setSong song => exact attempting_steered lone fun _ => .setSong
  | setInstrument i => exact exchange_steered lone i
  | setTempo bpm => exact attempting_steered lone fun _ => .setTempo
  | start => exact attempting_steered lone fun _ => .start
  | stop => exact halt_steered lone
  | play seconds => exact beginPlay_steered lone _
  | playCancelled seconds after => exact beginPlay_steered lone _
  | sleep | performBlock | performSelector => exact .refl lone

theorem turn_steered : s.Steered { s with conductor := proceed s.conductor } := by
  refine ⟨?_, lone⟩
  cases waits : s.conductor.place? with
  | none =>
    rw [Conductor.proceed_none waits]
    exact .stays
  | some place =>
    rw [proceed_place? waits]
    exact .turn waits

/-- **One action** that begins no direct performance. -/
theorem step_steer {a : Action} (playback : ∀ o, a = .begin o → o.controls = true) :
    s.Steered (s.step a) := by
  cases a with
  | begin o =>
    cases o with
    | performBlock | performSelector => cases playback _ rfl
    | _ =>
      simp only [step]
      split
      · exact operate_steered lone _
      · exact .refl lone
  | expire =>
    simp only [step]
    split
    · exact halt_steered lone
    · exact .refl lone
  | cancel =>
    simp only [step]
    split
    · exact halt_steered lone
    · exact ⟨.stays, lone⟩
    · exact .refl lone
  | finish =>
    simp only [step]
    split
    · exact .refl lone
    · split
      · exact .refl lone
      · exact ⟨.collect, lone⟩
      · exact halt_steered lone
  | turn =>
    simp only [step]
    split
    · exact .refl lone
    · exact turn_steered lone
  | interrupt =>
    simp only [step]
    split
    · exact ⟨.interrupt, lone⟩
    · exact .refl lone
  | resume index | drop index =>
    simp only [step, lone, List.getElem?_nil]
    exact .refl lone
  | pass time => exact ⟨.pass time, lone⟩

end Scene

end ChordSequencer
