import ChordSequencer.Proofs.Range
import ChordSequencer.Proofs.Releasing

/-!
# The life of a MIDI output

A MIDI output is opened once, is asked to send, to silence all channels and to close, in any order
and with any numbers, and never fails for what its device does.  Whether a device is held, whether
it can be sent to, and whether it was closed already makes no difference to the caller: a request is
refused for its numbers alone.

* `Device.Request.Refused`, `Device.Request.messages` : why a request is refused and what it asks
  for, both said of its own numbers.
* `Device.Request.due` : the messages that are asked for up to the first request that closes.
* `Device.answer_held`, `Device.run_held` : what one request does to a device that is held, and what
  any run of requests does.
* `Device.life` : the life of every output that is opened.
-/

namespace ChordSequencer

/-! ### Messages that are refused -/

namespace Message

variable {m : Message}

/-- A channel is one of the 16, and numbers are bytes without their highest bit. -/
def InRange (channel : Int) (numbers : List Int) : Prop :=
  (0 ≤ channel ∧ channel ≤ 15) ∧ ∀ n ∈ numbers, 0 ≤ n ∧ n ≤ 127

instance (channel : Int) (numbers : List Int) : Decidable (InRange channel numbers) :=
  inferInstanceAs (Decidable (_ ∧ _))

theorem valid_iff : m.Valid ↔ InRange m.channel m.data :=
  ⟨fun h => ⟨h.channel, h.data⟩, fun h => ⟨h.1, h.2⟩⟩

instance (m : Message) : Decidable m.Valid := decidable_of_iff _ valid_iff.symm

/-- Why a channel and numbers are refused: the channel is none of the 16, or it is one of them and
the numbers are no bytes without their highest bit. -/
def OutOfRange (channel : Int) (numbers : List Int) (why : Refusal) : Prop :=
  (¬ (0 ≤ channel ∧ channel ≤ 15) ∧ why = .channelRange) ∨
    ((0 ≤ channel ∧ channel ≤ 15) ∧ (∃ n ∈ numbers, ¬ (0 ≤ n ∧ n ≤ 127)) ∧ why = .dataRange)

theorem check_error_iff {why : Refusal} :
    m.check = .error why ↔ OutOfRange m.channel m.data why := by
  have channel : isChannel m.channel = false ↔ ¬ (0 ≤ m.channel ∧ m.channel ≤ 15) := by
    rw [← isChannel_iff, Bool.not_eq_true]
  have data : m.data.all isData = false ↔ ∃ n ∈ m.data, ¬ (0 ≤ n ∧ n ≤ 127) := by
    simp only [List.all_eq_false, ← isData_iff]
  simp only [check, OutOfRange]
  split
  · rename_i outside
    simp [channel.1 outside, eq_comm]
  · rename_i inside
    rw [channel, not_not] at inside
    split
    · rename_i bytes
      simpa only [inside, not_true, false_and, true_and, false_or, data.1 bytes,
        Except.error.injEq] using eq_comm
    · rename_i bytes
      rw [data] at bytes
      simp only [inside, bytes, and_self, not_true, false_and, and_false, or_self, reduceCtorEq]

theorem silence_getElem : silence.length = 32 ∧ ∀ channel < 16,
    silence[2 * channel]? = some (.control channel 123 0) ∧
      silence[2 * channel + 1]? = some (.control channel 120 0) := by
  decide

end Message

/-! ### Requests -/

namespace Device

/-- What a MIDI output can be asked for. -/
inductive Request
  /-- To send a trigger. -/
  | send (t : Trigger)
  /-- To silence all channels. -/
  | panic
  /-- To give up the device. -/
  | close
  deriving DecidableEq

namespace Request

open Message (InRange OutOfRange)

/-- Why a request is refused, which depends on its numbers alone. -/
def Refused : Request → Refusal → Prop
  | send (.noteOn channel note velocity) => OutOfRange channel [note, velocity]
  | send (.noteOff channel note) => OutOfRange channel [note]
  | send (.program channel number) => OutOfRange channel [number]
  | panic | close => fun _ => False

/-- The messages that a request asks for, which are none if it is refused. -/
def messages : Request → List Message
  | send (.noteOn channel note velocity) =>
    if InRange channel [note, velocity] then [.noteOn channel note velocity] else []
  | send (.noteOff channel note) => if InRange channel [note] then [.noteOff channel note] else []
  | send (.program channel number) =>
    if InRange channel [number] then [.program channel number] else []
  | panic | close => Message.silence

/-- The messages that are asked for up to the first request that closes. -/
def due : List Request → List Message
  | [] => []
  | request :: rest => request.messages ++ if request = close then [] else due rest

/-- The end of a note is sent with a velocity of its own, which is never refused. -/
theorem refused_send (t : Trigger) (why : Refusal) :
    (send t).Refused why ↔
      OutOfRange (Message.ofTrigger t).channel (Message.ofTrigger t).data why := by
  cases t with
  | noteOff channel note =>
    simp [Refused, OutOfRange, Message.ofTrigger, Message.channel, Message.data]
  | noteOn channel note velocity => rfl
  | program channel number => rfl

theorem messages_send (t : Trigger) : (send t).messages =
    if (Message.ofTrigger t).Valid then [.ofTrigger t] else [] := by
  simp only [Message.valid_iff]
  cases t with
  | noteOff channel note =>
    simp [messages, InRange, Message.ofTrigger, Message.channel, Message.data]
  | noteOn channel note velocity => rfl
  | program channel number => rfl

end Request

/-- Answers a request: the device afterwards, and why the request is refused if it is. -/
def answer (d : Device) : Request → Device × Except Refusal Unit
  | .send t =>
    match d.send (.ofTrigger t) with
    | .ok d => (d, .ok ())
    | .error why => (d, .error why)
  | .panic => (d.panic, .ok ())
  | .close => (d.close, .ok ())

/-- Answers requests one after another; those that are refused are passed over. -/
def run (d : Device) (requests : List Request) : Device :=
  requests.foldl (fun d request => (d.answer request).1) d

variable {d : Device} {requests : List Request}

theorem run_cons (request : Request) :
    d.run (request :: requests) = (d.answer request).1.run requests := rfl

theorem run_append (later : List Request) :
    d.run (requests ++ later) = (d.run requests).run later :=
  List.foldl_append

/-! ### One request -/

theorem answer_send (d : Device) (t : Trigger) : (d.answer (.send t)).1 =
    if (Message.ofTrigger t).Valid then d.transmit (.ofTrigger t) else d := by
  simp only [answer, send]
  split_ifs with valid
  · rw [Message.check_ok_iff.2 valid]
    rfl
  · cases checked : (Message.ofTrigger t).check with
    | ok m =>
      -- a check that passes hands on the message as it is
      have same : m = Message.ofTrigger t := by
        simp only [Message.check] at checked
        split_ifs at checked
        exact (Except.ok.inj checked).symm
      exact absurd (Message.check_ok_iff.1 (same ▸ checked)) valid
    | error why => rfl

/-- **A request is refused for its numbers alone.** -/
theorem answer_error_iff (d : Device) (request : Request) {why : Refusal} :
    (d.answer request).2 = .error why ↔ request.Refused why := by
  cases request with
  | send t =>
    rw [Request.refused_send, ← Message.check_error_iff]
    simp only [answer, send]
    cases (Message.ofTrigger t).check <;> simp [Except.map]
  | panic => simp [answer, Request.Refused]
  | close => simp [answer, Request.Refused]

theorem answer_refused {request : Request} {why : Refusal}
    (refused : (d.answer request).2 = .error why) : (d.answer request).1 = d := by
  cases request with
  | send t =>
    simp only [answer] at refused ⊢
    cases sent : d.send (.ofTrigger t) with
    | ok d' => simp [sent] at refused
    | error why => rfl
  | panic => cases refused
  | close => cases refused

/-! ### Runs of requests -/

theorem run_unheld (unheld : d.isOpen = false) (requests : List Request) : d.run requests = d := by
  have silent (m : Message) : d.transmit m = d := by
    simp only [transmit, unheld, Bool.false_eq_true, if_false]
  have silenced (ms : List Message) : ms.foldl transmit d = d := by
    induction ms with
    | nil => rfl
    | cons m ms ih => rw [List.foldl_cons, silent, ih]
  induction requests with
  | nil => rfl
  | cons request requests ih =>
    have step : (d.answer request).1 = d := by
      cases request with
      | send t => rw [answer_send, silent, ite_self]
      | panic => exact silenced _
      | close => simp only [answer, close, unheld, Bool.false_eq_true, if_false]
    rw [run_cons, step, ih]

/-- A device to which messages were sent, or on which they failed one by one. -/
def tried (d : Device) (ms : List Message) : Device :=
  if d.sendFails then { d with log := List.replicate ms.length sendFailure ++ d.log }
  else { d with sent := ms.reverse ++ d.sent }

@[simp] theorem tried_isOpen (d : Device) (ms : List Message) : (d.tried ms).isOpen = d.isOpen := by
  rw [tried]
  split <;> rfl

@[simp] theorem tried_nil (d : Device) : d.tried [] = d := by
  rw [tried]
  split <;> rfl

@[simp] theorem tried_tried (d : Device) (ms later : List Message) :
    (d.tried ms).tried later = d.tried (ms ++ later) := by
  cases fails : d.sendFails with
  | true => simp [tried, fails, Nat.add_comm ms.length, ← List.replicate_append_replicate]
  | false => simp [tried, fails]

/-- What a request does to a device that is held. -/
theorem answer_held (held : d.isOpen = true) (request : Request) : (d.answer request).1 =
    if request = .close then { d.tried request.messages with isOpen := false, closed := true }
    else d.tried request.messages := by
  have transmitted (ms : List Message) : ms.foldl transmit d = d.tried ms := foldl_transmit held ms
  cases request with
  | send t =>
    rw [answer_send, Request.messages_send, if_neg (show Request.send t ≠ .close from nofun)]
    split_ifs
    · exact transmitted [_]
    · exact d.tried_nil.symm
  | panic => exact transmitted _
  | close => simp only [answer, close, held, panic, transmitted, if_true, Request.messages]

/-- **What becomes of a device that is held**: the messages that are due are sent or fail, and the
device is given up at the first request that closes. -/
theorem run_held (held : d.isOpen = true) (requests : List Request) : d.run requests =
    if .close ∈ requests then
      { d.tried (Request.due requests) with isOpen := false, closed := true }
    else d.tried (Request.due requests) := by
  induction requests generalizing d with
  | nil => simp [run, Request.due]
  | cons request requests ih =>
    rw [run_cons, answer_held held, Request.due]
    by_cases closes : request = .close
    · -- the device is given up and nothing later changes it
      subst closes
      simp [run_unheld]
    · have later : Request.close ∈ request :: requests ↔ .close ∈ requests := by
        simp [Ne.symm closes]
      simp only [if_neg closes, later]
      rw [ih (by simpa using held), tried_tried]

/-- A device is given up at the first request that closes, and no later request changes it. -/
theorem run_close (d : Device) (requests later : List Request) :
    d.run (requests ++ .close :: later) = d.run (requests ++ [.close]) := by
  have givenUp (d : Device) : d.close.isOpen = false := by
    rw [close]
    split_ifs with held
    · rfl
    · exact Bool.not_eq_true _ ▸ held
  rw [run_append, run_append, run_cons, run_cons]
  exact run_unheld (givenUp _) later

/-! ### Every output -/

/-- **The life of a MIDI output.**  Whatever devices are there and whatever was asked for before, a
request is refused exactly if its numbers are out of range, the channel first, and then nothing is
sent and nothing changes.  If a device was opened and can be sent to, exactly the messages that are
due before it is given up were sent, in order; if sending fails, each of them was logged once as an
error and the device is held all the same.  Nothing happens after the first request that closes, and
without a device nothing happens at all.  All channels are silenced by two controllers each, in the
order of the channels. -/
theorem life (supply : DeviceSupply) (wanted : Option String) (requests : List Request) :
    let opened := ofName supply wanted
    let d := opened.run requests
    (∀ request why, (d.answer request).2 = .error why ↔ request.Refused why) ∧
    (∀ request why, request.Refused why → (d.answer request).1 = d) ∧
    (∀ later, opened.run (requests ++ .close :: later) = opened.run (requests ++ [.close])) ∧
    ((∃ name, Opens supply wanted name ∧ opened = .holding name supply.sendFails ∧
        d.isOpen = decide (.close ∉ requests) ∧ d.closed = decide (.close ∈ requests) ∧
        d.sent.reverse = (if supply.sendFails then [] else Request.due requests) ∧
        d.log = (if supply.sendFails then
          List.replicate (Request.due requests).length sendFailure else [])) ∨
      (∀ name, ¬ Opens supply wanted name) ∧ ∃ reason, opened = .without reason ∧ d = opened) ∧
    (Message.silence.length = 32 ∧ ∀ channel < 16,
      Message.silence[2 * channel]? = some (.control channel 123 0) ∧
      Message.silence[2 * channel + 1]? = some (.control channel 120 0)) ∧
    sendFailure.level = .error := by
  intro opened d
  refine ⟨fun request why => answer_error_iff d request, fun request why refused =>
    answer_refused ((answer_error_iff d request).2 refused), fun later => run_close _ _ _, ?_,
    Message.silence_getElem, rfl⟩
  obtain ⟨name, opens, holds⟩ | ⟨unopened, reason, without⟩ := ofName_opens supply wanted
  · have lived : d = _ := run_held (d := opened) (by rw [show opened = _ from holds]; rfl) requests
    refine .inl ⟨name, opens, holds, ?_⟩
    rw [lived, show opened = _ from holds]
    by_cases closes : Request.close ∈ requests <;> cases fails : supply.sendFails <;>
      simp [closes, tried, holding]
  · refine .inr ⟨unopened, reason, without, run_unheld ?_ requests⟩
    rw [show opened = _ from without]
    rfl

end Device

end ChordSequencer
