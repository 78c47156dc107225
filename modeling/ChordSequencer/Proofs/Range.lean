import ChordSequencer.CommandLine.Session
import ChordSequencer.Proofs.Meaning
import ChordSequencer.Proofs.Sounding
import ChordSequencer.Proofs.VirtualClock

/-!
# Only valid messages are sent

MIDI knows 16 channels, and data up to 127 (`Message.Valid`).  The pitches of a chord know no such
bounds, and the settings come from texts.  That all that is sent is valid rests on three things: the
settings are refused outside their bounds, pitches are passed over that cannot be played, and a note
is ended on the channel on which it began.

* `Instrument.InRange`, `Conductor.InRange`, `Scene.InRange` : the invariants of an instrument, of a
  conductor, and of all who wait.
* `Conductor.Deed.inRange` : a single deed keeps the invariant.
* `Scene.step_inRange` : every action keeps it, if an instrument that is set is in range.
* `Conductor.emits_valid` : all that a conductor ever sends is valid, and no output refuses it.
-/

namespace ChordSequencer

/-! ### Messages -/

/-- A message that MIDI knows. -/
structure Message.Valid (m : Message) : Prop where
  /-- The channel is one of the 16 channels. -/
  channel : 0 ≤ m.channel ∧ m.channel ≤ 15
  /-- The data are bytes without their highest bit. -/
  data : ∀ n ∈ m.data, 0 ≤ n ∧ n ≤ 127

theorem Message.isChannel_iff {n : Int} : isChannel n = true ↔ 0 ≤ n ∧ n ≤ 15 := by
  simp [isChannel]

theorem Message.isData_iff {n : Int} : isData n = true ↔ 0 ≤ n ∧ n ≤ 127 := by
  simp [isData]

theorem Message.check_ok_iff {m : Message} : m.check = .ok m ↔ m.Valid := by
  constructor
  · intro h
    simp only [check] at h
    split at h
    · cases h
    · rename_i known
      split at h
      · cases h
      · rename_i bytes
        simp only [Bool.not_eq_false, List.all_eq_true] at known bytes
        exact ⟨isChannel_iff.1 known, fun n mem => isData_iff.1 (bytes n mem)⟩
  · rintro ⟨known, bytes⟩
    have bytes' : m.data.all isData = true :=
      List.all_eq_true.2 fun n mem => isData_iff.2 (bytes n mem)
    simp only [check]
    rw [isChannel_iff.2 known, bytes']
    rfl

/-- All that was sent is valid. -/
def OnlyValid (sent : List (Float × Trigger)) : Prop :=
  ∀ event ∈ sent, (Message.ofTrigger event.2).Valid

/-- What is valid is taken by every output. -/
theorem OnlyValid.sendAll (sent : List (Float × Trigger)) :
    OnlyValid sent → ∀ output : CommandLine.Output, (output.sendAll sent).2 = .ok () := by
  induction sent with
  | nil => exact fun _ _ => rfl
  | cons event rest ih =>
    obtain ⟨time, t⟩ := event
    intro valid output
    obtain ⟨first, later⟩ := List.forall_mem_cons.1 valid
    have passed := Message.check_ok_iff.2 first
    have taken : ∃ output', output.send time t = .ok output' := by
      cases output with
      | file path r =>
        simp only [CommandLine.Output.send, Recording.record, passed, Except.map]
        exact ⟨_, rfl⟩
      | live d =>
        simp only [CommandLine.Output.send, Device.send, passed, Except.map]
        exact ⟨_, rfl⟩
    obtain ⟨output', taken⟩ := taken
    simp only [CommandLine.Output.sendAll, taken]
    exact ih later output'

/-! ### Instruments -/

/-- An instrument of which every message is valid. -/
structure Instrument.InRange (i : Instrument) : Prop where
  /-- The channel is one of the 16 channels. -/
  channel : 0 ≤ i.channel ∧ i.channel ≤ 15
  /-- The velocity is a byte. -/
  velocity : 0 ≤ i.velocity ∧ i.velocity ≤ 127
  /-- The sound is a byte. -/
  timbre : 0 ≤ i.timbre ∧ i.timbre ≤ 127

namespace Setting

variable {catalog : Catalog} {i j : Instrument} {value : String} {base : Nat}

theorem number_between {low high m : Int}
    (h : refusing (number value base (some low) (some high)) = .ok m) : low ≤ m ∧ m ≤ high :=
  ⟨(number_bounds (refusing_ok h)).1 low rfl, (number_bounds (refusing_ok h)).2 high rfl⟩

theorem apply_inRange {s : Setting} (hi : i.InRange) (h : s.apply catalog i value base = .ok j) :
    j.InRange := by
  cases s with
  | channel =>
    obtain ⟨m, read, rfl⟩ := map_ok h
    exact ⟨number_between read, hi.velocity, hi.timbre⟩
  | timbre =>
    obtain ⟨m, read, rfl⟩ := map_ok h
    exact ⟨hi.channel, hi.velocity, number_between read⟩
  | velocity =>
    obtain ⟨m, read, rfl⟩ := map_ok h
    exact ⟨hi.channel, number_between read, hi.timbre⟩
  | _ =>
    obtain ⟨a, -, rfl⟩ := map_ok h
    exact ⟨hi.channel, hi.velocity, hi.timbre⟩

end Setting

theorem Instrument.Rework.inRange {catalog : Catalog} {i j : Instrument}
    (h : i.Rework catalog j) (hi : i.InRange) : j.InRange := by
  cases h with
  | once => exact ⟨hi.channel, hi.velocity, hi.timbre⟩
  | takes applied =>
    simp only [Setting.applyCode] at applied
    split at applied
    · exact Setting.apply_inRange hi applied
    · cases applied
  | selects => exact ⟨hi.channel, hi.velocity, hi.timbre⟩
  | plays found =>
    obtain ⟨-, rfl⟩ := selectNotes_ok found
    exact ⟨hi.channel, hi.velocity, hi.timbre⟩

namespace CommandLine.Config

theorem applySettings_inRange {catalog : Catalog} (settings : List (String × Json)) :
    ∀ {i j : Instrument}, i.InRange → (applySettings catalog i settings).2 = .ok j → j.InRange := by
  induction settings with
  | nil =>
    intro i j hi h
    cases h
    exact hi
  | cons setting rest ih =>
    obtain ⟨key, value⟩ := setting
    intro i j hi h
    simp only [applySettings] at h
    split at h
    · exact ih hi h
    · split at h
      · rename_i applied
        exact ih (Setting.apply_inRange hi applied) h
      · exact ih hi h
      · cases h

/-- **An instrument that a configuration sets up is in range.** -/
theorem instrument_inRange {catalog : Catalog} {config : Json} {i : Instrument}
    (h : (instrument catalog config).2 = .ok i) : i.InRange := by
  have initial : Instrument.initial.InRange := ⟨by decide, by decide, by decide⟩
  simp only [instrument] at h
  split at h
  · cases h
  · exact applySettings_inRange _ initial h

end CommandLine.Config

/-! ### Conductors -/

/-- A voice that a message can begin and end. -/
structure Voice.InRange (v : Voice) : Prop where
  /-- The channel is one of the 16 channels. -/
  channel : 0 ≤ v.channel ∧ v.channel ≤ 15
  /-- The pitch can be played. -/
  note : 0 ≤ v.note ∧ v.note ≤ 127

theorem Voice.InRange.off {v : Voice} (h : v.InRange) : (Message.ofTrigger v.off).Valid :=
  ⟨h.channel, by simpa [Voice.off, Message.ofTrigger, Message.data] using h.note⟩

theorem isPlayable_iff {note : Int} : isPlayable note = true ↔ 0 ≤ note ∧ note ≤ 127 := by
  simp [isPlayable]

/-- What is left of a selector is in range. -/
structure Hold.InRange (hold : Hold) : Prop where
  /-- The instrument with which it goes on. -/
  own : ∀ i, hold.own = some i → i.InRange
  /-- The voices that it has left to play. -/
  coming : ∀ note ∈ hold.coming, isPlayable note = true

theorem Hold.InRange.step : Hold.InRange .step :=
  ⟨fun _ own => (by cases own), fun _ mem => (by cases mem)⟩

theorem Hold.InRange.next {hold next : Hold} (h : hold.InRange) (follows : hold.Follows next) :
    next.InRange := by
  refine ⟨fun i own => ?_, fun note mem => (follows.coming note mem).elim id (h.coming note)⟩
  rcases follows.own with none | same
  · rw [none] at own
    cases own
  · exact h.own i (same ▸ own)

namespace Conductor

/-- A conductor that has sent nothing but valid messages, and whose instrument and voices give rise
to no others. -/
structure InRange (c : Conductor) : Prop where
  /-- The instrument. -/
  instrument : ∀ i, c.instrument = some i → i.InRange
  /-- The voices that sound. -/
  sounding : ∀ v ∈ c.sounding, v.InRange
  /-- What was sent. -/
  sent : OnlyValid c.sent

variable {c c' : Conductor} {hold : Hold}

theorem InRange.fresh (instrument : ∀ i, c.instrument = some i → i.InRange)
    (sounding : c.sounding = []) (sent : c.sent = []) : c.InRange := by
  refine ⟨instrument, fun v mem => ?_, fun event mem => ?_⟩
  · rw [sounding] at mem
    cases mem
  · rw [sent] at mem
    cases mem

theorem InRange.alike (h : c.InRange) (instrument : c'.instrument = c.instrument)
    (sounding : c'.sounding = c.sounding) (sent : c'.sent = c.sent) : c'.InRange :=
  ⟨instrument ▸ h.instrument, sounding ▸ h.sounding, sent ▸ h.sent⟩

theorem InRange.send (h : c.InRange) {t : Trigger} (valid : (Message.ofTrigger t).Valid) :
    (c.send t).InRange := by
  simp only [Conductor.send]
  split
  · exact ⟨h.instrument, h.sounding, List.forall_mem_cons.2 ⟨valid, h.sent⟩⟩
  · exact h

theorem InRange.noteOnOf (h : c.InRange) {i : Instrument} (hi : i.InRange) {note : Int}
    (playable : isPlayable note = true) : (c.noteOnOf i note).InRange := by
  have byte := isPlayable_iff.1 playable
  have sent : (c.send (.noteOn i.channel note i.velocity)).InRange := by
    refine h.send ⟨hi.channel, ?_⟩
    simpa [Message.ofTrigger, Message.data] using ⟨byte, hi.velocity⟩
  simp only [Conductor.noteOnOf, noteOn]
  split
  · exact sent
  · exact ⟨sent.instrument, List.forall_mem_cons.2 ⟨⟨hi.channel, byte⟩, sent.sounding⟩, sent.sent⟩

theorem InRange.noteOff (h : c.InRange) (channel note : Int) :
    (c.noteOff channel note).InRange := by
  simp only [Conductor.noteOff]
  split
  · rename_i sounds
    -- a note that sounds began in range
    have sent := h.send (h.sounding _ sounds).off
    exact ⟨sent.instrument, fun v mem => h.sounding v (List.mem_of_mem_filter mem), sent.sent⟩
  · exact h

theorem InRange.foldl_off (voices : List Voice) :
    ∀ {c : Conductor}, c.InRange → (∀ v ∈ voices, v.InRange) →
      (voices.foldl (fun c v => c.send v.off) c).InRange := by
  induction voices with
  | nil => exact fun h _ => h
  | cons v voices ih =>
    intro c h all
    obtain ⟨first, later⟩ := List.forall_mem_cons.1 all
    exact ih (h.send first.off) later

theorem InRange.release (h : c.InRange) : c.release.InRange := by
  have ended := InRange.foldl_off _ h fun v mem => h.sounding v (mem_sorted.1 mem)
  exact ⟨ended.instrument, fun _ mem => absurd mem List.not_mem_nil, ended.sent⟩

/-- **A deed keeps a conductor in range.** -/
theorem Deed.inRange (d : Deed hold c c') (left : hold.InRange) (h : c.InRange) : c'.InRange := by
  cases d with
  | begins hi playable => exact h.noteOnOf (h.instrument _ hi) playable
  | resumes hi coming =>
    refine h.noteOnOf ?_ (left.coming _ coming)
    rcases Option.or_eq_some_iff.1 hi with own | ⟨-, bound⟩
    · exact left.own _ own
    · exact h.instrument _ bound
  | ends => exact h.noteOff ..
  | silences => exact h.release
  | announces hi =>
    have known := h.instrument _ hi
    refine h.send ⟨known.channel, ?_⟩
    simpa [Message.ofTrigger, Message.data] using known.timbre
  | reworks hi reworked =>
    refine ⟨fun j same => ?_, h.sounding, h.sent⟩
    cases same
    exact reworked.inRange (h.instrument _ hi)
  | warns | counts | countsBlock => exact h.alike rfl rfl rfl

theorem Deeds.inRange (d : Deeds hold c c') (left : hold.InRange) (h : c.InRange) :
    c'.InRange := by
  induction d with
  | refl => exact h
  | tail _ deed ih => exact deed.inRange left ih

theorem Does.inRange {κ : Type} {left : κ → Hold} {r : Conductor × Outcome κ}
    (d : Does hold left c r) (coming : hold.InRange) (h : c.InRange) :
    r.1.InRange ∧ ∀ seconds next, r.2 = .waits seconds next → (left next).InRange :=
  ⟨d.deeds.inRange coming h, fun seconds next waits => coming.next (d.follows seconds next waits)⟩

/-- A conductor in range whose playback task goes on in range. -/
structure PlaysInRange (c : Conductor) : Prop extends c.InRange where
  /-- What the task has left of its selector. -/
  place : ∀ place, c.place? = some place → place.hold.InRange

theorem PlaysInRange.steer (h : c.PlaysInRange) (instrument : c'.instrument = c.instrument)
    (sounding : c'.sounding = c.sounding) (sent : c'.sent = c.sent) (task : c'.task = c.task) :
    c'.PlaysInRange :=
  ⟨h.toInRange.alike instrument sounding sent, by rw [place?, task]; exact h.place⟩

theorem PlaysInRange.release (h : c.PlaysInRange) : c.release.PlaysInRange :=
  ⟨h.toInRange.release, by rw [place?, (Changes.release .refl).task_eq]; exact h.place⟩

theorem PlaysInRange.does {κ : Type} {left : κ → Hold} {r : Conductor × Outcome κ}
    (h : c.PlaysInRange) (d : Does hold left c r) (coming : hold.InRange) : r.1.PlaysInRange :=
  ⟨(d.inRange coming h.toInRange).1, by rw [place?, d.deeds.changes.task_eq]; exact h.place⟩

theorem PlaysInRange.turn (h : c.PlaysInRange) {place : Place} (waits : c.place? = some place) :
    (c.turn place).PlaysInRange := by
  have does := resumePlayback_does (c := c) place
  obtain ⟨inRange, next⟩ := does.inRange (h.place place waits) h.toInRange
  have there := settle_place? (c.resumePlayback place)
  cases resumed : c.resumePlayback place with
  | mk c' outcome =>
    rw [resumed] at inRange next there
    rw [Conductor.turn, resumed]
    cases outcome with
    | waits seconds next' =>
      refine ⟨inRange.alike rfl rfl rfl, fun place' at' => ?_⟩
      rw [there] at at'
      cases at'
      exact next seconds next' rfl
    | ended | failed why =>
      refine ⟨inRange.alike rfl rfl rfl, fun place' at' => ?_⟩
      rw [there] at at'
      cases at'

theorem PlaysInRange.proceed (h : c.PlaysInRange) : (Scene.proceed c).PlaysInRange := by
  cases waits : c.place? with
  | none =>
    rw [proceed_none waits]
    exact h
  | some place =>
    rw [proceed_place? waits]
    exact h.turn waits

theorem PlaysInRange.start (h : c.PlaysInRange) (begun : c.start = .ok c') : c'.PlaysInRange := by
  obtain ⟨-, rfl⟩ | ⟨-, -, -, rfl⟩ := start_cases begun
  · exact h
  · refine ⟨h.toInRange.alike rfl rfl rfl, fun place at' => ?_⟩
    cases at'
    exact .step

theorem PlaysInRange.over (h : c.InRange) (gone : c.place? = none) : c.PlaysInRange :=
  ⟨h, fun _ waits => by rw [gone] at waits; cases waits⟩

theorem InRange.leave (h : c.InRange) (place : Place) : (c.leave place).InRange := by
  cases place with
  | beginning => exact h
  | filler => exact h.alike rfl rfl rfl
  | inBlock => exact h.release.alike rfl rfl rfl

theorem PlaysInRange.interrupt (h : c.PlaysInRange) : c.interrupt.PlaysInRange := by
  simp only [Conductor.interrupt]
  split
  · exact .over ((h.toInRange.leave _).alike rfl rfl rfl) rfl
  · exact .over ((h.toInRange.leave _).alike rfl rfl rfl) rfl
  · exact h

theorem InRange.collect (h : c.InRange) : c.collect.1.PlaysInRange := by
  have cleared : InRange { c with task := none, running := false } := h.alike rfl rfl rfl
  exact .over cleared.release (congrArg (Option.bind · Task.place?) (Changes.release .refl).task_eq)

end Conductor

/-! ### Scenes -/

/-- What is left of the selector of a direct performance. -/
def Call.hold : Call → Hold
  | selector hold => hold
  | block cursor => cursor.hold

theorem Call.keep_inRange {i : Option Instrument} (hi : ∀ j, i = some j → j.InRange) {call : Call}
    (h : call.hold.InRange) : (call.keep i).hold.InRange := by
  have kept (hold : Hold) (h : hold.InRange) : (hold.keep i).InRange := by
    cases hold with
    | step => exact h
    | voice note rest seconds own =>
      refine ⟨fun j same => ?_, h.coming⟩
      rcases Option.or_eq_some_iff.1 same with own | ⟨-, bound⟩
      · exact h.own j own
      · exact hi j bound
  cases call with
  | selector hold => exact kept hold h
  | block cursor => exact kept cursor.hold h

/-- An operation that sets no instrument out of range. -/
def Operation.SetsInRange : Operation → Prop
  | setInstrument i => i.InRange
  | _ => True

namespace Scene

open Conductor

/-- A conductor in range, and all who wait go on in range. -/
structure InRange (s : Scene) : Prop where
  /-- The conductor and the playback task. -/
  conductor : s.conductor.PlaysInRange
  /-- The direct performances. -/
  calls : ∀ call ∈ s.calls, call.hold.InRange

variable {s : Scene}

theorem InRange.follow {κ : Type} {f : κ → Call} {left : κ → Hold} {hold : Hold}
    {r : Conductor × Outcome κ} {others : List Call} (h : s.InRange)
    (d : Does hold left s.conductor r) (coming : hold.InRange)
    (same : ∀ next, (f next).hold = left next) (rest : ∀ call ∈ others, call.hold.InRange) :
    (s.follow (r.map id (.map f)) others).InRange := by
  have conductor := h.conductor.does d coming
  have next := (d.inRange coming h.conductor.toInRange).2
  obtain ⟨c, outcome⟩ := r
  cases outcome with
  | waits seconds left =>
    refine ⟨conductor, List.forall_mem_cons.2 ⟨?_, rest⟩⟩
    rw [same]
    exact next seconds left rfl
  | ended => exact ⟨conductor, rest⟩
  | failed why => exact ⟨conductor, rest⟩

theorem InRange.resume (h : s.InRange) {call : Call} (coming : call.hold.InRange)
    {others : List Call} (rest : ∀ call ∈ others, call.hold.InRange) :
    (s.follow (call.resume s.conductor) others).InRange := by
  cases call with
  | selector hold => exact h.follow (resumeSelector_does hold) coming (fun _ => rfl) rest
  | block cursor => exact h.follow (resumeBlock_does cursor) coming (fun _ => rfl) rest

theorem InRange.attempting (h : s.InRange) {r : Except Failure Conductor}
    (kept : ∀ c, r = .ok c → c.PlaysInRange) : (s.attempting r).InRange := by
  cases r with
  | ok c => exact ⟨kept c rfl, h.calls⟩
  | error why => exact ⟨h.conductor, h.calls⟩

theorem InRange.halt (h : s.InRange) : s.halt.InRange := by
  simp only [Scene.halt]
  split
  · exact ⟨h.conductor.steer rfl rfl rfl rfl, h.calls⟩
  · exact ⟨h.conductor, h.calls⟩

theorem InRange.beginPlay (h : s.InRange) (limited : Bool) : (s.beginPlay limited).InRange := by
  simp only [Scene.beginPlay]
  split
  · rename_i begun
    exact ⟨h.conductor.start begun, h.calls⟩
  · exact ⟨h.conductor, h.calls⟩

theorem InRange.exchange (h : s.InRange) {i : Instrument} (hi : i.InRange) :
    (s.exchange i).InRange := by
  simp only [Scene.exchange]
  split
  · rename_i exchanged
    simp only [setInstrument] at exchanged
    split at exchanged <;> cases exchanged
    refine ⟨⟨⟨fun j same => ?_, h.conductor.sounding, h.conductor.sent⟩, h.conductor.place⟩,
      fun call mem => ?_⟩
    · cases same
      exact hi
    · obtain ⟨call', mem', rfl⟩ := List.mem_map.1 mem
      exact Call.keep_inRange h.conductor.instrument (h.calls call' mem')
  · exact ⟨h.conductor, h.calls⟩

theorem InRange.operate (h : s.InRange) {o : Operation} (ok : o.SetsInRange) :
    (s.operate o).InRange := by
  cases o with
  | setSong song =>
    refine h.attempting fun c set => ?_
    simp only [setSong] at set
    split at set <;> cases set
    exact h.conductor.steer rfl rfl rfl rfl
  | setInstrument i => exact h.exchange ok
  | setTempo bpm =>
    refine h.attempting fun c set => ?_
    simp only [setTempo, checkTempo] at set
    split at set <;> cases set
    exact h.conductor.steer rfl rfl rfl rfl
  | start => exact h.attempting fun c begun => h.conductor.start begun
  | stop => exact h.halt
  | play seconds => exact h.beginPlay _
  | playCancelled seconds after => exact h.beginPlay _
  | sleep | performBlock | performSelector => exact h

/-- **Every action keeps all in range.** -/
theorem step_inRange (s : Scene) (a : Action) (ok : ∀ o, a = .begin o → o.SetsInRange)
    (h : s.InRange) : (s.step a).InRange := by
  have others (index : Nat) : ∀ call ∈ s.calls.eraseIdx index, call.hold.InRange :=
    fun call mem => h.calls call (List.mem_of_mem_eraseIdx mem)
  cases a with
  | begin o =>
    cases o with
    | performBlock b => exact h.follow (beginBlock_does b) .step (fun _ => rfl) h.calls
    | performSelector selector base =>
      exact h.follow (beginSelector_does selector base) .step (fun _ => rfl) h.calls
    | _ =>
      simp only [step]
      split
      · exact h.operate (ok _ rfl)
      · exact h
  | expire =>
    simp only [step]
    split
    · exact h.halt
    · exact h
  | cancel =>
    simp only [step]
    split
    · exact h.halt
    · exact ⟨h.conductor, h.calls⟩
    · exact h
  | finish =>
    simp only [step]
    split
    · exact h
    · split
      · exact h
      · exact ⟨h.conductor.toInRange.collect, h.calls⟩
      · exact h.halt
  | turn =>
    simp only [step]
    split
    · exact h
    · exact ⟨h.conductor.proceed, h.calls⟩
  | interrupt =>
    simp only [step]
    split
    · exact ⟨h.conductor.interrupt, h.calls⟩
    · exact h
  | resume index =>
    simp only [step]
    split
    · rename_i call found
      exact h.resume (h.calls call (List.mem_of_getElem? found)) (others index)
    · exact h
  | drop index =>
    simp only [step]
    split
    · rename_i call found
      refine ⟨?_, others index⟩
      cases call with
      | selector hold => exact h.conductor
      | block cursor => exact h.conductor.release
    · exact h
  | pass time => exact ⟨h.conductor.steer rfl rfl rfl rfl, h.calls⟩

end Scene

/-! ### Everything that is sent -/

open Conductor

/-- What was sent is valid, and no output refuses it. -/
def Emits (sent : List (Float × Trigger)) : Prop :=
  OnlyValid sent ∧ ∀ output : CommandLine.Output, (output.sendAll sent.reverse).2 = .ok ()

theorem Conductor.InRange.emits {c : Conductor} (h : c.InRange) : Emits c.sent :=
  ⟨h.sent, OnlyValid.sendAll _ fun event mem => h.sent event (List.mem_reverse.1 mem)⟩

theorem Conductor.create_inRange {audible : Bool} {catalog : Catalog} {bpm : Float} {c : Conductor}
    (created : create audible catalog bpm = .ok c) : (Scene.opening c).InRange := by
  simp only [create, checkTempo] at created
  split at created <;> cases created
  refine ⟨.over (.fresh (fun i same => ?_) rfl rfl) rfl, fun _ mem => absurd mem List.not_mem_nil⟩
  cases same

/-- **Only valid messages are sent.**  Whatever a conductor is asked to do, in whatever order the
playback task, its caller and the direct performances go on, and for however long, all its triggers
are valid messages, and every output takes them all.  This holds of every song and every tempo that
is accepted, as long as the instruments that are set are in range; those that configurations set up
are.  Under the virtual clock it holds after any operations, and so it does of what a session
plays. -/
theorem Conductor.emits_valid {audible : Bool} {catalog : Catalog} {bpm : Float} {c₀ : Conductor}
    (created : create audible catalog bpm = .ok c₀) :
    (∀ actions, (∀ o, Action.begin o ∈ actions → o.SetsInRange) →
      Emits ((Scene.opening c₀).run actions).conductor.sent) ∧
    (∀ turns operations, (∀ o ∈ operations, o.SetsInRange) →
      Emits (Operation.performAll turns c₀ operations).sent) ∧
    ∀ (config : Json) (i : Instrument), (CommandLine.Config.instrument catalog config).2 = .ok i →
      i.InRange ∧ ∀ (song : Song) (turns : Nat) (seconds : Option Float),
        Emits ({ c₀ with song := some song, instrument := some i }.play turns seconds).1.sent := by
  have inRange := create_inRange created
  have operated (turns : Nat) (operations : List Operation)
      (ok : ∀ o ∈ operations, o.SetsInRange) :
      Emits (Operation.performAll turns c₀ operations).sent :=
    (Scene.performAll_kept Scene.step_inRange
      (fun s _ h => ⟨h.conductor, fun _ mem => absurd mem List.not_mem_nil⟩) turns operations
      (create_manned created) ok inRange).conductor.emits
  refine ⟨fun actions ok => ?_, operated, fun config i built => ?_⟩
  · exact (Scene.run_kept Scene.step_inRange actions ok inRange).conductor.emits
  · have known := CommandLine.Config.instrument_inRange built
    refine ⟨known, fun song turns seconds => ?_⟩
    have idle : c₀.running = false := create_running created
    -- a session sets the song and the instrument and plays
    have played := operated turns [.setSong (some song), .setInstrument i, .play seconds]
      (by simp [Operation.SetsInRange, known])
    simpa [Operation.performAll, Operation.perform, Operation.attempt, setSong, setInstrument, idle]
      using played

/-- A session with an empty configuration. -/
theorem Conductor.emits_valid_initial : ∃ c₀, create true .standard 120.0 = .ok c₀ ∧
    (CommandLine.Config.instrument .standard (.obj [])).2 = .ok .initial ∧
    ∀ turns seconds, Emits ({ c₀ with
      song := some ⟨[⟨[⟨"O", "9"⟩], "1", none⟩]⟩
      instrument := some .initial }.play turns seconds).1.sent :=
  ⟨_, rfl, rfl, ((@Conductor.emits_valid true .standard 120.0 _ rfl).2.2 (.obj []) _ rfl).2 _⟩

end ChordSequencer
