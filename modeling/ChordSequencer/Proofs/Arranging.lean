import ChordSequencer.Orchestra
import Mathlib.Data.List.Induction
import Mathlib.Data.List.Nodup

/-!
# The perceived order of an orchestra

Slots below zero count from the end, so that every instrument can be named in two ways, and a slot
may be swapped with itself under its other name.

* `Orchestra.slot?_eq_some_iff` : the two ways to name a slot.
* `Orchestra.exchange` : the order with two of its entries exchanged; what a move does to it.  All
  laws of moves follow from its entries, `Orchestra.getElem?_exchange`.
* `Orchestra.Arranged` : the invariant; every place of an instrument stands in the order once.
* `Orchestra.arranged_after` : what holds after any requests, whether they succeed or not.
-/

namespace ChordSequencer

namespace Orchestra

variable {o o' : Orchestra} {slot source target : Int} {i j k : Nat}

/-- What can be asked of an orchestra. -/
inductive Request
  /-- To take an instrument in. -/
  | add (i : Instrument)
  /-- To swap the instruments of two slots. -/
  | move (source target : Int)

/-- The instrument that a request brings. -/
def Request.added? : Request → Option Instrument
  | add i => some i
  | move _ _ => none

/-- The orchestra after a request; one that is refused leaves it as it is. -/
def attempt (o : Orchestra) : Request → Orchestra
  | .add i => o.add i
  | .move source target => (o.move? source target).getD o

/-- The orchestra after requests one after another. -/
def attemptAll (o : Orchestra) (requests : List Request) : Orchestra := requests.foldl attempt o

/-- The places of the instruments stand in the order, each of them once. -/
def Arranged (o : Orchestra) : Prop := o.order.Perm (List.range o.instruments.length)

/-! ### Slots -/

/-- A slot is named from the beginning or from the end. -/
theorem slot?_eq_some_iff : o.slot? slot = some k ↔
    k < o.order.length ∧ (slot = k ∨ slot = k - o.order.length) := by
  simp only [slot?]
  split_ifs with front back
  · simp only [Option.some.injEq]
    omega
  · simp only [Option.some.injEq]
    omega
  · simp only [false_iff]
    omega

theorem slot?_eq_none_iff : o.slot? slot = none ↔
    ¬ (-o.order.length ≤ slot ∧ slot < o.order.length) := by
  rw [Option.eq_none_iff_forall_ne_some]
  simp only [ne_eq, slot?_eq_some_iff]
  constructor
  · rintro none_named ⟨low, high⟩
    rcases Int.lt_or_le slot 0 with back | front
    · exact none_named (slot + o.order.length).toNat (by omega)
    · exact none_named slot.toNat (by omega)
  · rintro outside k ⟨inside, named⟩
    omega

theorem emod_of_slot? (h : o.slot? slot = some k) : slot % (o.order.length : Int) = k := by
  obtain ⟨inside, rfl | rfl⟩ := slot?_eq_some_iff.1 h
  · exact Int.emod_eq_of_lt (by omega) (by omega)
  · rw [Int.sub_emod_right]
    exact Int.emod_eq_of_lt (by omega) (by omega)

theorem slot?_natCast (inside : k < o.order.length) : o.slot? k = some k :=
  slot?_eq_some_iff.2 ⟨inside, .inl rfl⟩

theorem at?_natCast (inside : k < o.order.length) : o.at? k = some o.order[k] := by
  simp only [at?, slot?_natCast inside, Option.bind_some, List.getElem?_eq_getElem inside]

theorem at?_add_length (low : -o.order.length ≤ slot) (back : slot < 0) :
    o.at? slot = o.at? (slot + o.order.length) := by
  have inside : (slot + o.order.length).toNat < o.order.length := by omega
  have here : o.slot? slot = some (slot + o.order.length).toNat :=
    slot?_eq_some_iff.2 ⟨inside, by omega⟩
  have there : o.slot? (slot + o.order.length) = some (slot + o.order.length).toNat :=
    slot?_eq_some_iff.2 ⟨inside, by omega⟩
  simp only [at?, here, there]

/-! ### Moves -/

/-- The orchestra with two entries of its order exchanged. -/
def exchange (o : Orchestra) (i j : Nat) : Orchestra :=
  { o with order := (o.order.set i (o.order.getD j 0)).set j (o.order.getD i 0) }

theorem move?_eq_some_iff : o.move? source target = some o' ↔
    ∃ i j, o.slot? source = some i ∧ o.slot? target = some j ∧ o' = o.exchange i j := by
  simp only [move?]
  split
  · rename_i i j hi hj
    simp [hi, hj, exchange, eq_comm]
  · rename_i missing
    simp only [reduceCtorEq, false_iff, not_exists]
    rintro i j ⟨hi, hj, -⟩
    exact missing i j hi hj

/-- **A move is refused** if one of its slots is not there. -/
theorem move?_eq_none_iff : o.move? source target = none ↔
    o.slot? source = none ∨ o.slot? target = none := by
  simp only [move?]
  cases o.slot? source <;> cases o.slot? target <;> simp

@[simp] theorem length_exchange : (o.exchange i j).order.length = o.order.length := by
  simp [exchange]

theorem slot?_exchange : (o.exchange i j).slot? slot = o.slot? slot := by
  simp only [slot?, length_exchange]

/-- The entries after an exchange. -/
theorem getElem?_exchange (hi : i < o.order.length) (hj : j < o.order.length) (k : Nat) :
    (o.exchange i j).order[k]? =
      if k = j then o.order[i]? else if k = i then o.order[j]? else o.order[k]? := by
  simp only [exchange, List.getElem?_set, List.length_set, List.getD_eq_getElem?_getD,
    List.getElem?_eq_getElem hi, List.getElem?_eq_getElem hj, Option.getD_some, hi, hj, if_true,
    eq_comm (a := k)]

/-- Exchanging twice restores the order. -/
theorem exchange_exchange (hi : i < o.order.length) (hj : j < o.order.length) :
    (o.exchange i j).exchange i j = o := by
  have entries : ((o.exchange i j).exchange i j).order = o.order := by
    refine List.ext_getElem? fun k => ?_
    rw [getElem?_exchange (by simpa using hi) (by simpa using hj)]
    simp only [getElem?_exchange hi hj]
    split_ifs <;> simp_all
  exact congrArg (Orchestra.mk o.instruments) entries

theorem exchange_comm (hi : i < o.order.length) (hj : j < o.order.length) :
    o.exchange j i = o.exchange i j := by
  have entries : (o.exchange j i).order = (o.exchange i j).order := by
    refine List.ext_getElem? fun k => ?_
    rw [getElem?_exchange hj hi, getElem?_exchange hi hj]
    split_ifs <;> simp_all
  exact congrArg (Orchestra.mk o.instruments) entries

theorem at?_exchange (hi : o.slot? source = some i) (hj : o.slot? target = some j) :
    (o.exchange i j).at? source = o.at? target ∧ (o.exchange i j).at? target = o.at? source ∧
      ∀ slot : Int, slot % o.order.length ≠ source % o.order.length →
        slot % o.order.length ≠ target % o.order.length →
        (o.exchange i j).at? slot = o.at? slot := by
  have entry := getElem?_exchange (slot?_eq_some_iff.1 hi).1 (slot?_eq_some_iff.1 hj).1
  refine ⟨?_, ?_, fun slot away apart => ?_⟩
  · simp only [at?, slot?_exchange, hi, hj, Option.bind_some, entry]
    split_ifs with same <;> simp [same]
  · simp only [at?, slot?_exchange, hi, hj, Option.bind_some, entry, if_true]
  · simp only [at?, slot?_exchange]
    cases hk : o.slot? slot with
    | none => rfl
    | some k =>
      rw [emod_of_slot? hk, emod_of_slot? hi] at away
      rw [emod_of_slot? hk, emod_of_slot? hj] at apart
      have other : k ≠ i ∧ k ≠ j := ⟨by omega, by omega⟩
      simp only [Option.bind_some, entry, other.1, other.2, if_false]

/-! ### The invariant -/

theorem Arranged.length (h : o.Arranged) : o.order.length = o.instruments.length := by
  simpa using List.Perm.length_eq h

theorem Arranged.add (h : o.Arranged) (i : Instrument) : (o.add i).Arranged := by
  simp only [Arranged, Orchestra.add, List.length_append, List.length_singleton, List.range_succ,
    h.length]
  exact List.Perm.append_right _ h

theorem Arranged.exchange (h : o.Arranged) (hi : i < o.order.length) (hj : j < o.order.length) :
    (o.exchange i j).Arranged := by
  simp only [Arranged, Orchestra.exchange, List.getD_eq_getElem?_getD,
    List.getElem?_eq_getElem hi, List.getElem?_eq_getElem hj, Option.getD_some]
  exact (List.set_set_perm hi hj).trans h

/-- **A request keeps the order a permutation** and adds the instrument that it brings. -/
theorem Arranged.attempt (h : o.Arranged) (r : Request) : (o.attempt r).Arranged ∧
    (o.attempt r).instruments = o.instruments ++ r.added?.toList := by
  cases r with
  | add i => exact ⟨h.add i, rfl⟩
  | move source target =>
    simp only [Orchestra.attempt, Request.added?, Option.toList_none, List.append_nil]
    cases moved : o.move? source target with
    | none => exact ⟨h, rfl⟩
    | some o' =>
      obtain ⟨i, j, hi, hj, rfl⟩ := move?_eq_some_iff.1 moved
      exact ⟨h.exchange (slot?_eq_some_iff.1 hi).1 (slot?_eq_some_iff.1 hj).1, rfl⟩

theorem Arranged.attemptAll (requests : List Request) : ∀ {o : Orchestra}, o.Arranged →
    (o.attemptAll requests).Arranged ∧
      (o.attemptAll requests).instruments = o.instruments ++ requests.filterMap (·.added?) := by
  induction requests with
  | nil => exact fun h => ⟨h, (List.append_nil _).symm⟩
  | cons r requests ih =>
    intro o h
    obtain ⟨arranged, grown⟩ := h.attempt r
    obtain ⟨all, more⟩ := ih arranged
    refine ⟨all, more.trans ?_⟩
    rw [grown, List.append_assoc]
    cases hr : r.added? <;> simp [hr]

theorem empty_arranged : empty.Arranged := List.Perm.nil

theorem Arranged.exists_slot (h : o.Arranged) {place : Nat}
    (inside : place < o.instruments.length) :
    ∃! slot : Nat, slot < o.instruments.length ∧ o.at? slot = some place := by
  have there : place ∈ o.order := h.mem_iff.2 (List.mem_range.2 inside)
  have once : o.order.Nodup := h.nodup_iff.2 List.nodup_range
  obtain ⟨k, hk, rfl⟩ := List.getElem_of_mem there
  refine ⟨k, ⟨h.length ▸ hk, at?_natCast hk⟩, ?_⟩
  rintro slot ⟨hslot, same⟩
  rw [← h.length] at hslot
  rw [at?_natCast hslot, Option.some.injEq] at same
  exact (once.getElem_inj_iff).1 same

/-! ### Going through the instruments -/

theorem filterMap_getElem?_range {α : Type} (l : List α) :
    (List.range l.length).filterMap (l[·]?) = l := by
  induction l using List.reverseRecOn with
  | nil => rfl
  | append_singleton l a ih =>
    have earlier : ∀ k ∈ List.range l.length, (l ++ [a])[k]? = l[k]? := fun k hk =>
      List.getElem?_append_left (List.mem_range.1 hk)
    rw [List.length_append, List.length_singleton, List.range_succ, List.filterMap_append,
      List.filterMap_congr earlier, ih]
    simp

theorem toList_eq (o : Orchestra) : o.toList = o.order.filterMap (o.instruments[·]?) := by
  have slots : ∀ k ∈ List.range o.order.length,
      o.get? k = (o.order[k]?).bind (o.instruments[·]?) := fun k hk => by
    have inside := List.mem_range.1 hk
    simp only [get?, at?_natCast inside, List.getElem?_eq_getElem inside]
  calc o.toList
      = (List.range o.order.length).filterMap fun k => (o.order[k]?).bind (o.instruments[·]?) :=
        List.filterMap_congr slots
    _ = ((List.range o.order.length).filterMap (o.order[·]?)).filterMap (o.instruments[·]?) :=
        List.filterMap_filterMap.symm
    _ = o.order.filterMap (o.instruments[·]?) := by rw [filterMap_getElem?_range]

theorem Arranged.map_toList (h : o.Arranged) :
    o.toList.map some = (List.range o.instruments.length).map fun (slot : Nat) => o.get? slot := by
  have filled : ∀ k ∈ List.range o.order.length, (o.get? k).isSome := by
    intro k hk
    have inside := List.mem_range.1 hk
    have place : o.order[k] < o.instruments.length := by
      simpa using h.mem_iff.1 (List.getElem_mem inside)
    simp only [get?, at?_natCast inside, Option.bind_some, List.getElem?_eq_getElem place,
      Option.isSome_some]
  rw [toList, List.map_filterMap_some_eq_filter_map_isSome, List.filter_eq_self.2, h.length]
  simpa using filled

theorem Arranged.toList_perm (h : o.Arranged) : o.toList.Perm o.instruments := by
  have all := List.Perm.filterMap (o.instruments[·]?) h
  rwa [← toList_eq, filterMap_getElem?_range] at all

/-! ### Histories -/

/-- **The order is a permutation for good.**  After any requests, whether they succeed or not, the
instruments are those that were added, in the order of their addition; every place stands in the
perceived order once, so that each instrument has one slot; and going through the orchestra comes to
each instrument once, slot by slot.  A slot below zero counts from the end.  A move is refused
exactly if one of its slots is not there, and then changes nothing.  Any other move leaves the
instruments where they are and swaps the two slots, however they are named, and no others; made
again it restores the order, and with its slots the other way round it leads to the same order. -/
theorem arranged_after (requests : List Request) :
    let o := empty.attemptAll requests
    let n := o.instruments.length
    o.instruments = requests.filterMap (·.added?) ∧ o.order.Perm (List.range n) ∧
    (∀ place < n, ∃! slot : Nat, slot < n ∧ o.at? slot = some place) ∧
    o.toList.Perm o.instruments ∧
    o.toList.map some = (List.range n).map (fun (slot : Nat) => o.get? slot) ∧
    (∀ slot : Int, -n ≤ slot → slot < 0 → o.at? slot = o.at? (slot + n)) ∧
    ∀ source target : Int,
      (o.move? source target = none ↔
        ¬ (-n ≤ source ∧ source < n) ∨ ¬ (-n ≤ target ∧ target < n)) ∧
      (o.move? source target = none → o.attempt (.move source target) = o) ∧
      ∀ o', o.move? source target = some o' →
        o.attempt (.move source target) = o' ∧ o'.instruments = o.instruments ∧
        o'.at? source = o.at? target ∧ o'.at? target = o.at? source ∧
        (∀ slot : Int, slot % n ≠ source % n → slot % n ≠ target % n → o'.at? slot = o.at? slot) ∧
        o'.move? source target = some o ∧ o.move? target source = some o' := by
  intro o n
  obtain ⟨arranged, added⟩ := empty_arranged.attemptAll requests
  have length : o.order.length = n := arranged.length
  refine ⟨added, arranged, fun place => arranged.exists_slot, arranged.toList_perm,
    arranged.map_toList, fun slot low back => ?_, fun source target => ⟨?_, fun refused => ?_, ?_⟩⟩
  · rw [← length] at low ⊢
    exact at?_add_length low back
  · rw [move?_eq_none_iff, slot?_eq_none_iff, slot?_eq_none_iff, length]
  · simp only [attempt, refused, Option.getD_none]
  · intro o' moved
    obtain ⟨i, j, hi, hj, rfl⟩ := move?_eq_some_iff.1 moved
    have inside := (slot?_eq_some_iff.1 hi).1
    have inside' := (slot?_eq_some_iff.1 hj).1
    obtain ⟨there, back, others⟩ := at?_exchange hi hj
    rw [length] at others
    refine ⟨by simp only [attempt, moved, Option.getD_some], rfl, there, back, others, ?_, ?_⟩
    · refine move?_eq_some_iff.2 ⟨i, j, ?_, ?_, (exchange_exchange inside inside').symm⟩
      · rw [slot?_exchange, hi]
      · rw [slot?_exchange, hj]
    · exact move?_eq_some_iff.2 ⟨j, i, hj, hi, (exchange_comm inside inside').symm⟩

/-- Three instruments, after a move that is refused and a move of a slot onto itself under its other
name: the first and the last of them are swapped. -/
theorem arranged_after_three :
    let requests := [.add .initial, .add { Instrument.initial with channel := 1 },
      .add { Instrument.initial with channel := 2 }, .move 0 3, .move 1 (-2)]
    let o := empty.attemptAll requests
    ∃ o', o.move? 0 (-1) = some o' ∧ o'.order = [2, 1, 0] ∧ o'.at? (-1) = some 0 ∧
      o'.at? (-2) = o.at? (-2) ∧ o'.move? 0 (-1) = some o := by
  intro requests o
  have moved : o.move? 0 (-1) = some ⟨o.instruments, [2, 1, 0]⟩ := by decide
  obtain ⟨-, -, -, -, -, -, moves⟩ := arranged_after requests
  obtain ⟨-, -, -, back, others, again, -⟩ := (moves 0 (-1)).2.2 _ moved
  exact ⟨_, moved, rfl, back.trans (by decide), others (-2) (by decide) (by decide), again⟩

end Orchestra

end ChordSequencer
