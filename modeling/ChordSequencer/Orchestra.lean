import ChordSequencer.Instrument

/-!
# Orchestras

An orchestra keeps its instruments in the order of their addition and beside it the order in which
they are perceived, so that rearranging them never moves an instrument. Slots are counted from 0, or
from -1 downwards from the end.
-/

namespace ChordSequencer

/-- Instruments and the order in which they are perceived. -/
structure Orchestra where
  /-- The instruments in the order of their addition. -/
  instruments : List Instrument
  /-- For each slot of the perceived order the place of its instrument. -/
  order : List Nat
  deriving DecidableEq, Repr

namespace Orchestra

/-- The orchestra without instruments. -/
def empty : Orchestra := ⟨[], []⟩

variable (o : Orchestra)

/-- The index of a slot. -/
def slot? (slot : Int) : Option Nat :=
  let n : Int := o.order.length
  if 0 ≤ slot ∧ slot < n then some slot.toNat
  else if -n ≤ slot ∧ slot < 0 then some (slot + n).toNat
  else none

/-- Adds an instrument at the end of both orders. -/
def add (i : Instrument) : Orchestra := ⟨o.instruments ++ [i], o.order ++ [o.order.length]⟩

/-- The place of the instrument at a slot. -/
def at? (slot : Int) : Option Nat := (o.slot? slot).bind (o.order[·]?)

/-- The instrument at a slot. -/
def get? (slot : Int) : Option Instrument := (o.at? slot).bind (o.instruments[·]?)

/-- The instruments in the perceived order, slot by slot. -/
def toList : List Instrument :=
  (List.range o.order.length).filterMap fun (slot : Nat) => o.get? slot

/-- Swaps the instruments of two slots. -/
def move? (source target : Int) : Option Orchestra :=
  match o.slot? source, o.slot? target with
  | some a, some b =>
    some { o with order := (o.order.set a (o.order.getD b 0)).set b (o.order.getD a 0) }
  | _, _ => none

/-- Changes the instrument at a place. -/
def update (place : Nat) (i : Instrument) : Orchestra :=
  { o with instruments := o.instruments.set place i }

/-- Lets the instruments at some places select their notes, one after another up to the first that
cannot. -/
def selectAt (c : Catalog) : Orchestra → List Nat → Orchestra × Option Refusal
  | o, [] => (o, none)
  | o, place :: rest =>
    match o.instruments[place]? with
    | none => selectAt c o rest
    | some i =>
      match i.selectNotes c with
      | .ok (_, j) => selectAt c (o.update place j) rest
      | .error why => (o, some why)

/-- Lets all instruments select their notes in the perceived order. -/
def selectNotes (c : Catalog) : Orchestra × Option Refusal := selectAt c o o.order

end Orchestra

end ChordSequencer
