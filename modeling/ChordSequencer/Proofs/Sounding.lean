import ChordSequencer.Proofs.Interleaving
import Mathlib.Data.Finset.Basic
import Mathlib.Data.Finset.Dedup

/-!
# What sounds

Someone who hears only the output can tell which voices sound: the beginning of a note adds its
voice, the end of a note takes it away, and nothing else matters (`soundingAfter`).  This file shows
that the conductor always remembers exactly these voices, and that it never ends a note that does
not sound.

* `Conductor.Faithful` : the invariant; the conductor remembers what the output heard.
* `Conductor.Faithful.change` : every change keeps it, and so does every stretch of a performance.
* `Scene.run_faithful` : it holds in every scene that actions lead to, whatever their order.
* `sounding_heard` : what follows for a conductor that begins its life with an output, in every
  scene and between all operations under the virtual clock.
-/

namespace ChordSequencer

/-! ### Hearing -/

/-- What sounds once a trigger is heard, given what sounded before. -/
def Trigger.hear (sounding : Finset Voice) : Trigger → Finset Voice
  | noteOn channel note _ => insert ⟨channel, note⟩ sounding
  | noteOff channel note => sounding.erase ⟨channel, note⟩
  | program _ _ => sounding

/-- What sounds after some triggers, of which the latest comes first. -/
def soundingAfter : List (Float × Trigger) → Finset Voice
  | [] => ∅
  | (_, t) :: earlier => t.hear (soundingAfter earlier)

/-- Every end of a note among some triggers is the end of a voice that sounds at that moment. -/
def NoStrayEnds (sent : List (Float × Trigger)) : Prop :=
  ∀ time v earlier, (time, Voice.off v) :: earlier <:+ sent → v ∈ soundingAfter earlier

theorem noStrayEnds_nil : NoStrayEnds [] := by
  intro time v earlier h
  simp at h

theorem noStrayEnds_cons {event : Float × Trigger} {sent : List (Float × Trigger)} :
    NoStrayEnds (event :: sent) ↔
      (∀ v, event.2 = Voice.off v → v ∈ soundingAfter sent) ∧ NoStrayEnds sent := by
  constructor
  · intro h
    refine ⟨fun v hv => h event.1 v sent ?_, fun time v earlier hs => ?_⟩
    · rw [← hv]
    · exact h time v earlier (hs.trans (List.suffix_cons _ _))
  · rintro ⟨hv, h⟩ time v earlier hs
    rcases List.suffix_cons_iff.1 hs with he | hs
    · obtain ⟨rfl, rfl⟩ := List.cons.inj he
      exact hv v rfl
    · exact h time v earlier hs

theorem Voice.off_inj {v w : Voice} (h : v.off = w.off) : v = w := by
  obtain ⟨hc, hn⟩ := Trigger.noteOff.inj h
  cases v; cases w; simp_all

namespace Conductor

/-- The conductor remembers what its output heard: the voices that sound, each once, and no end of a
note was stray. -/
structure Faithful (c : Conductor) : Prop where
  /-- Each voice is remembered once. -/
  nodup : c.sounding.Nodup
  /-- The voices are those that were heard; a conductor without output is not heard at all. -/
  heard : soundingAfter c.sent = if c.audible then c.sounding.toFinset else ∅
  /-- No note was ended that did not sound. -/
  noStray : NoStrayEnds c.sent

/-! ### Changes keep the conductor faithful -/

variable {c : Conductor}

theorem mem_sorted {v : Voice} {voices : List Voice} :
    v ∈ Voice.sorted voices ↔ v ∈ voices :=
  (List.mergeSort_perm voices Voice.le).mem_iff

theorem nodup_sorted {voices : List Voice} (h : voices.Nodup) : (Voice.sorted voices).Nodup :=
  (List.mergeSort_perm voices Voice.le).nodup_iff.2 h

/-- Ending voices that sound, each once, takes them away and is nowhere stray. -/
theorem heard_foldl_off {voices : List Voice} (hd : voices.Nodup) :
    ∀ {c : Conductor}, c.audible = true → NoStrayEnds c.sent →
      (∀ v ∈ voices, v ∈ soundingAfter c.sent) →
      soundingAfter (voices.foldl (fun c v => c.send v.off) c).sent =
          soundingAfter c.sent \ voices.toFinset ∧
        NoStrayEnds (voices.foldl (fun c v => c.send v.off) c).sent := by
  induction voices with
  | nil => intro c _ hs _; simpa using hs
  | cons v vs ih =>
    intro c ha hs hm
    obtain ⟨hv, hd⟩ := List.nodup_cons.1 hd
    have sent : (c.send v.off).sent = (c.clock, v.off) :: c.sent := by simp [send, ha]
    have after : soundingAfter (c.send v.off).sent = (soundingAfter c.sent).erase v := by
      rw [sent]; rfl
    -- the voices left are others than `v`, so that they still sound
    obtain ⟨heard, stray⟩ := ih hd (c := c.send v.off) (by simp [send, ha])
      (by
        rw [sent, noStrayEnds_cons]
        refine ⟨fun w hw => ?_, hs⟩
        rw [← Voice.off_inj hw]
        exact hm v List.mem_cons_self)
      (by
        intro w hw
        rw [after, Finset.mem_erase]
        exact ⟨fun he => hv (he ▸ hw), hm w (List.mem_cons_of_mem _ hw)⟩)
    refine ⟨?_, stray⟩
    rw [List.foldl_cons, heard, after, List.toFinset_cons]
    ext w
    simp only [Finset.mem_sdiff, Finset.mem_erase, Finset.mem_insert]
    tauto

theorem Faithful.noteOn (h : c.Faithful) (channel note velocity : Int) :
    (c.noteOn channel note velocity).Faithful := by
  obtain ⟨hd, hh, hs⟩ := h
  have stray (sent : List (Float × Trigger)) (hs : NoStrayEnds sent) :
      NoStrayEnds ((c.clock, .noteOn channel note velocity) :: sent) :=
    noStrayEnds_cons.2 ⟨fun v hv => (by cases hv), hs⟩
  unfold Conductor.noteOn Conductor.send
  cases ha : c.audible
  · simp only [ha, Bool.false_eq_true, ↓reduceIte] at hh ⊢
    split
    · exact ⟨hd, by simp [ha, hh], hs⟩
    · rename_i hn
      exact ⟨List.nodup_cons.2 ⟨hn, hd⟩, by simp [hh], hs⟩
  · simp only [ha, ↓reduceIte] at hh ⊢
    split
    · -- a voice that begins once more is heard again and remembered once
      rename_i hm
      refine ⟨hd, ?_, stray _ hs⟩
      simp only [soundingAfter, Trigger.hear, ↓reduceIte, hh]
      exact Finset.insert_eq_of_mem (List.mem_toFinset.2 hm)
    · rename_i hn
      refine ⟨List.nodup_cons.2 ⟨hn, hd⟩, ?_, stray _ hs⟩
      simp only [soundingAfter, Trigger.hear, ↓reduceIte, hh, List.toFinset_cons]

theorem Faithful.noteOff (h : c.Faithful) (channel note : Int) :
    (c.noteOff channel note).Faithful := by
  obtain ⟨hd, hh, hs⟩ := h
  simp only [Conductor.noteOff]
  split
  · rename_i hm
    have gone : (c.sounding.filter (· ≠ (⟨channel, note⟩ : Voice))).toFinset =
        c.sounding.toFinset.erase ⟨channel, note⟩ := by
      ext v
      simp only [List.mem_toFinset, List.mem_filter, Finset.mem_erase, decide_eq_true_eq]
      tauto
    cases ha : c.audible
    · simp only [ha, Bool.false_eq_true, ↓reduceIte] at hh
      exact ⟨hd.filter _, by simp [Conductor.send, ha, hh], by simpa [Conductor.send, ha] using hs⟩
    · simp only [ha, ↓reduceIte] at hh
      refine ⟨hd.filter _, ?_, ?_⟩
      · simp only [Conductor.send, ha, ↓reduceIte, soundingAfter, Trigger.hear, hh, gone]
      · simp only [Conductor.send, ha, ↓reduceIte, noStrayEnds_cons]
        refine ⟨fun v hv => ?_, hs⟩
        have : v = ⟨channel, note⟩ := Voice.off_inj hv.symm
        rw [hh, List.mem_toFinset, this]
        exact hm
  · exact ⟨hd, hh, hs⟩

theorem Faithful.release (h : c.Faithful) : c.release.Faithful := by
  obtain ⟨hd, hh, hs⟩ := h
  cases ha : c.audible
  · -- without an output nothing is sent, and only what is remembered changes
    have silent (voices : List Voice) : voices.foldl (fun c v => c.send v.off) c = c := by
      induction voices with
      | nil => rfl
      | cons v vs ih => rw [List.foldl_cons]; simpa [send, ha] using ih
    simp only [Conductor.release]
    rw [silent]
    exact ⟨List.nodup_nil, by simpa [ha] using hh, hs⟩
  · simp only [ha, ↓reduceIte] at hh
    obtain ⟨heard, stray⟩ := heard_foldl_off (nodup_sorted hd) ha hs fun v hv => by
      rw [hh, List.mem_toFinset]
      exact mem_sorted.1 hv
    have all : (Voice.sorted c.sounding).toFinset = c.sounding.toFinset := by
      ext v
      rw [List.mem_toFinset, List.mem_toFinset, mem_sorted]
    refine ⟨List.nodup_nil, ?_, stray⟩
    change soundingAfter
      (List.foldl (fun (c : Conductor) (v : Voice) => c.send v.off) c _).sent = _
    rw [heard, all, hh, Finset.sdiff_self]
    exact (ite_self _).symm

theorem Faithful.alike {c c' : Conductor} (h : c.Faithful) (audible : c'.audible = c.audible)
    (sent : c'.sent = c.sent) (sounding : c'.sounding = c.sounding) : c'.Faithful :=
  ⟨sounding ▸ h.nodup, by rw [sent, audible, sounding]; exact h.heard, sent ▸ h.noStray⟩

/-- **Every change keeps a conductor faithful.** -/
theorem Faithful.change {c c' : Conductor} (h : c.Faithful) (hc : Change c c') : c'.Faithful := by
  cases hc with
  | begins i note => exact h.noteOn ..
  | ends channel note => exact h.noteOff ..
  | silences => exact h.release
  | @chooses _ i =>
    obtain ⟨hd, hh, hs⟩ := h
    simp only [Conductor.send]
    cases ha : c.audible
    · simp only [Bool.false_eq_true, ↓reduceIte]
      exact ⟨hd, hh, hs⟩
    · simp only [↓reduceIte]
      exact ⟨hd, by simpa [soundingAfter, Trigger.hear, ha] using hh,
        noStrayEnds_cons.2 ⟨fun v hv => (by cases hv), hs⟩⟩
  | quietly hf hs hv => exact h.alike (congrArg Frame.audible hf) hs hv

theorem Faithful.moves {c c' : Conductor} (h : c.Faithful) (hm : Moves c c') : c'.Faithful := by
  induction hm with
  | refl => exact h
  | tail _ hstep ih =>
    cases hstep with
    | change hc => exact ih.change hc
    | steer ha hs hv _ => exact ih.alike ha hs hv

theorem Faithful.heard_audible (h : c.Faithful) (audible : c.audible = true) :
    soundingAfter c.sent = c.sounding.toFinset := by
  rw [h.heard, if_pos audible]

theorem create_faithful {audible : Bool} {catalog : Catalog} {bpm : Float}
    (h : create audible catalog bpm = .ok c) : c.Faithful := by
  simp only [create, checkTempo] at h
  split at h
  · cases h
  · cases h
    exact ⟨List.nodup_nil, by simp [soundingAfter], noStrayEnds_nil⟩

theorem create_running {audible : Bool} {catalog : Catalog} {bpm : Float}
    (h : create audible catalog bpm = .ok c) : c.running = false := by
  simp only [create, checkTempo] at h
  split at h <;> cases h
  rfl

theorem create_manned {audible : Bool} {catalog : Catalog} {bpm : Float}
    (h : create audible catalog bpm = .ok c) : c.Manned :=
  manned_of_idle (create_running h)

theorem create_audible {audible : Bool} {catalog : Catalog} {bpm : Float}
    (h : create audible catalog bpm = .ok c) : c.audible = audible := by
  simp only [create, checkTempo] at h
  split at h <;> cases h
  rfl

end Conductor

/-! ### Runs -/

open Conductor

theorem Scene.run_faithful {s : Scene} (h : s.conductor.Faithful) (actions : List Action) :
    (s.run actions).conductor.Faithful :=
  h.moves (run_moves actions s)

/-- **What sounds is what was heard.** A conductor with an output remembers at every wait exactly
the voices that its output heard begin and not end, and no end was sent for a voice that did not
sound. This holds in whatever order the playback task, its caller and the direct performances go on,
and between all operations under the virtual clock. -/
theorem sounding_heard {catalog : Catalog} {bpm : Float} {c₀ : Conductor}
    (created : create true catalog bpm = .ok c₀) :
    (∀ actions, let c := ((Scene.opening c₀).run actions).conductor
      c.sounding.toFinset = soundingAfter c.sent ∧ NoStrayEnds c.sent) ∧
    (∀ turns operations, let c := Operation.performAll turns c₀ operations
      c.sounding.toFinset = soundingAfter c.sent ∧ NoStrayEnds c.sent) := by
  have heard {c : Conductor} (hm : Moves c₀ c) :
      c.sounding.toFinset = soundingAfter c.sent ∧ NoStrayEnds c.sent := by
    have audible : c.audible = true := hm.audible_eq.trans (create_audible created)
    have faithful : c.Faithful := (create_faithful created).moves hm
    exact ⟨(faithful.heard_audible audible).symm, faithful.noStray⟩
  refine ⟨fun actions => ?_, fun turns operations => ?_⟩
  · exact heard (Scene.run_moves actions (Scene.opening c₀))
  · exact heard (Operation.performAll_moves turns operations c₀)

theorem sounding_heard_standard : ∃ c₀, create true .standard 120.0 = .ok c₀ ∧
    ∀ actions, let c := ((Scene.opening c₀).run actions).conductor
      c.sounding.toFinset = soundingAfter c.sent ∧ NoStrayEnds c.sent :=
  ⟨_, rfl, (@sounding_heard .standard 120.0 _ rfl).1⟩

end ChordSequencer
