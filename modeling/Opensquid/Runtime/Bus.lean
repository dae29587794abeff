import Mathlib.Algebra.Order.Group.Unbundled.Int
import Mathlib.Data.List.Infix
import Mathlib.Tactic.Common

/-!
# The bus and its replay window

The bus numbers the envelopes and keeps the last ones in a ring. A read from a cursor gives the
envelopes behind it that the ring still has, and says if some are missing. The ring stands for the end
of the history (`Retains`); a read is stated on the history alone (`since_exact`). The ring has room
for one entry at least, and a cursor below zero counts as one that missed entries.
-/

namespace Opensquid.EventBus

/-! ## The ring -/

structure CircularBuffer (α : Type) where
  cap : Nat
  buf : List (Option α)
  head : Nat
  size : Nat
  totalAdded : Nat
  positive : 0 < cap
  room : buf.length = cap
  inside : head < cap
  fits : size ≤ cap
  counted : size ≤ totalAdded

structure Replay (α : Type) where
  events : List α
  gap : Bool
  deriving DecidableEq

namespace CircularBuffer

variable {α : Type}

/-- The longest array that can be made. -/
def maxLength : Int := 4294967295

/-- None: the array cannot be made. -/
def new (capacity : Int) : Option (CircularBuffer α) :=
  if max 1 capacity ≤ maxLength then
    some
      { cap := (max 1 capacity).toNat
        buf := List.replicate (max 1 capacity).toNat none
        head := 0
        size := 0
        totalAdded := 0
        positive := by omega
        room := List.length_replicate
        inside := by omega
        fits := Nat.zero_le _
        counted := Nat.le_refl 0 }
  else none

/-- A full ring loses its oldest entry. -/
def push (r : CircularBuffer α) (entry : α) : CircularBuffer α :=
  if room : r.size < r.cap then
    { r with
      buf := r.buf.set ((r.head + r.size) % r.cap) (some entry)
      size := r.size + 1
      totalAdded := r.totalAdded + 1
      room := by rw [List.length_set, r.room]
      fits := room
      counted := Nat.succ_le_succ r.counted }
  else
    { r with
      buf := r.buf.set ((r.head + r.size) % r.cap) (some entry)
      head := (r.head + 1) % r.cap
      totalAdded := r.totalAdded + 1
      room := by rw [List.length_set, r.room]
      inside := Nat.mod_lt _ r.positive
      counted := Nat.le_succ_of_le r.counted }

/-- What is at an index of the array, which may be nothing. -/
def slot (r : CircularBuffer α) (index : Nat) : Option α := r.buf[index]?.join

def since (r : CircularBuffer α) (cursor : Int) : Replay (Option α) :=
  if r.size = 0 then ⟨[], false⟩
  else
    let oldest := r.totalAdded - r.size + 1
    let start := max (cursor + 1).toNat oldest
    { events := (List.range' start (r.totalAdded + 1 - start)).map fun k =>
        r.slot ((r.head + (k - oldest)) % r.cap)
      gap := cursor < (oldest : Int) - 1 }

/-- The ring has the end of the history. -/
structure Retains (r : CircularBuffer α) (history : List α) : Prop where
  total : r.totalAdded = history.length
  size : r.size = min r.cap history.length
  entry : ∀ i < r.size, r.slot ((r.head + i) % r.cap) = history[history.length - r.size + i]?

variable {r : CircularBuffer α} {history : List α} {entry : α}

theorem slot_set_self {index : Nat} (inside : index < r.cap) :
    (r.buf.set index (some entry))[index]?.join = some entry := by
  rw [List.getElem?_set_self (by rw [r.room]; exact inside), Option.join_some]

theorem slot_set_of_ne {index other : Nat} (apart : index ≠ other) :
    (r.buf.set index (some entry))[other]?.join = r.slot other := by
  rw [List.getElem?_set_ne apart, slot]

/-- Different places of the window are different indices. -/
theorem mod_ne_mod {cap head i j : Nat} (below : i < j) (near : j < cap + i) :
    (head + i) % cap ≠ (head + j) % cap := by
  intro same
  have multiple := Nat.dvd_of_mod_eq_zero (Nat.sub_mod_eq_zero_of_mod_eq same.symm)
  rw [Nat.add_sub_add_left] at multiple
  have := Nat.le_of_dvd (by omega) multiple
  omega

theorem retains_new {capacity : Int} (made : new capacity = some r) : r.Retains [] := by
  unfold new at made
  split at made
  · cases made
    exact ⟨rfl, (Nat.min_zero _).symm, fun i small => absurd small (Nat.not_lt_zero i)⟩
  · cases made

theorem cap_of_new {capacity : Int} (made : new capacity = some r) :
    r.cap = (max 1 capacity).toNat := by
  unfold new at made
  split at made
  · cases made
    rfl
  · cases made

theorem cap_push : (r.push entry).cap = r.cap := by
  unfold push
  split <;> rfl

theorem Retains.push (retains : r.Retains history) : (r.push entry).Retains (history ++ [entry]) := by
  obtain ⟨total, size, entries⟩ := retains
  have capacity := r.positive
  have index : (r.head + r.size) % r.cap < r.cap := Nat.mod_lt _ capacity
  unfold CircularBuffer.push
  split
  · rename_i space
    refine ⟨?_, ?_, ?_⟩
    · simp [total]
    · simp only [List.length_append, List.length_singleton]
      omega
    · intro i small
      dsimp only at small ⊢
      rw [slot, List.length_append, List.length_singleton]
      dsimp only
      rcases Nat.lt_succ_iff_lt_or_eq.mp small with old | rfl
      · rw [slot_set_of_ne (mod_ne_mod old (by omega)).symm, entries i old,
          List.getElem?_append_left (by omega)]
        congr 1
        omega
      · rw [slot_set_self index, List.getElem?_append_right (by omega)]
        have first : history.length + 1 - (r.size + 1) + r.size - history.length = 0 := by omega
        rw [first, List.getElem?_cons_zero]
  · rename_i full
    have whole : r.size = r.cap := by
      have := r.fits
      omega
    refine ⟨?_, ?_, ?_⟩
    · simp [total]
    · simp only [List.length_append, List.length_singleton]
      omega
    · intro i small
      dsimp only at small ⊢
      rw [slot, List.length_append, List.length_singleton]
      dsimp only
      have shifted : ((r.head + 1) % r.cap + i) % r.cap = (r.head + (i + 1)) % r.cap := by
        rw [Nat.mod_add_mod]
        congr 1
        omega
      rw [shifted]
      by_cases last : i + 1 = r.size
      · rw [last, slot_set_self index, List.getElem?_append_right (by omega)]
        have first : history.length + 1 - r.size + i - history.length = 0 := by omega
        rw [first, List.getElem?_cons_zero]
      · rw [slot_set_of_ne (mod_ne_mod (by omega) (by omega)).symm, entries (i + 1) (by omega),
          List.getElem?_append_left (by omega)]
        congr 1
        omega

/-- A read gives the entries behind the cursor that are left. -/
theorem Retains.since_events (retains : r.Retains history) (cursor : Int) :
    (r.since cursor).events =
      (history.drop (max cursor.toNat (history.length - r.cap))).map some := by
  obtain ⟨total, size, entries⟩ := retains
  have capacity := r.positive
  have lost : history.length - r.size = history.length - r.cap := by omega
  unfold since
  split
  · rename_i empty
    have none : history = [] := List.length_eq_zero_iff.mp (by omega)
    rw [none]
    simp
  · apply List.ext_getElem?
    intro i
    have start : max (cursor + 1).toNat (r.totalAdded - r.size + 1) =
        max cursor.toNat (history.length - r.cap) + 1 := by omega
    dsimp only
    rw [start, List.getElem?_map, List.getElem?_map, List.getElem?_drop]
    by_cases inside : i < history.length - max cursor.toNat (history.length - r.cap)
    · rw [List.getElem?_range' (by omega), Option.map_some]
      have place : max cursor.toNat (history.length - r.cap) + 1 + 1 * i -
          (r.totalAdded - r.size + 1) =
            max cursor.toNat (history.length - r.cap) + i - (history.length - r.size) := by omega
      rw [place, entries _ (by omega)]
      have same : history.length - r.size +
          (max cursor.toNat (history.length - r.cap) + i - (history.length - r.size)) =
            max cursor.toNat (history.length - r.cap) + i := by omega
      rw [same]
      have present : max cursor.toNat (history.length - r.cap) + i < history.length := by omega
      rw [List.getElem?_eq_getElem present, Option.map_some]
    · rw [List.getElem?_eq_none (by rw [List.length_range']; omega),
        List.getElem?_eq_none (by omega), Option.map_none, Option.map_none]

theorem Retains.since_gap (retains : r.Retains history) (cursor : Int) :
    (r.since cursor).gap = true ↔
      history ≠ [] ∧ cursor < (history.length - r.cap : Nat) := by
  obtain ⟨total, size, -⟩ := retains
  have capacity := r.positive
  unfold since
  split
  · rename_i empty
    have none : history = [] := List.length_eq_zero_iff.mp (by omega)
    simp [none]
  · rename_i filled
    have some : history ≠ [] := by
      intro none
      rw [none, List.length_nil] at size
      omega
    rw [and_iff_right some, decide_eq_true_eq]
    omega

end CircularBuffer

/-! ## The bus -/

inductive MessageKind
  | tool_call
  | post_tool_call
  | prompt_submit
  | session_start
  | session_end
  | stop
  | schedule
  | webhook
  | inbound_channel
  | file_changed
  | transition
  | gate_action
  | memory_tick
  | topology
  | lap
  deriving DecidableEq

structure PublishInput (π : Type) where
  sender : String
  target : String
  kind : MessageKind
  corr : Option String
  payload : π

structure Envelope (π : Type) where
  seq : Nat
  sender : String
  target : String
  kind : MessageKind
  corr : Option String
  payload : π
  ts : Int
  deriving DecidableEq

/-- A subscriber. None: its filter throws. -/
structure Sub (π : Type) where
  id : Nat
  filter : Envelope π → Option Bool

structure Bus (π : Type) where
  hwm : Nat
  subs : List (Sub π)
  ring : CircularBuffer (Envelope π)

/-- What is called on a bus. -/
inductive Call (π : Type)
  | publish (input : PublishInput π) (now : Int)
  | subscribe (sub : Sub π)
  | unsubscribe (id : Nat)

namespace Bus

variable {π : Type}

def new (capacity : Int) : Option (Bus π) :=
  (CircularBuffer.new capacity).map fun ring => ⟨0, [], ring⟩

def envelope (bus : Bus π) (input : PublishInput π) (now : Int) : Envelope π where
  seq := bus.hwm + 1
  sender := input.sender
  target := input.target
  kind := input.kind
  corr := input.corr
  payload := input.payload
  ts := now

/-- The subscribers that are notified, each in a microtask of its own. -/
def notified (bus : Bus π) (full : Envelope π) : List (Sub π) :=
  bus.subs.filter fun s => s.filter full = some true

def publish (bus : Bus π) (input : PublishInput π) (now : Int) :
    Bus π × Envelope π × List (Sub π) :=
  let full := bus.envelope input now
  ({ bus with hwm := bus.hwm + 1, ring := bus.ring.push full }, full, bus.notified full)

def subscribe (bus : Bus π) (sub : Sub π) : Bus π := { bus with subs := bus.subs ++ [sub] }

def unsubscribe (bus : Bus π) (id : Nat) : Bus π :=
  { bus with subs := bus.subs.filter fun s => s.id ≠ id }

def since (bus : Bus π) (seq : Int) : Replay (Option (Envelope π)) := bus.ring.since seq

/-- The bus after the calls, and the envelopes that they have published. -/
def run (bus : Bus π) : List (Call π) → Bus π × List (Envelope π)
  | [] => (bus, [])
  | .publish input now :: calls =>
      let (next, full, _) := bus.publish input now
      let (last, published) := next.run calls
      (last, full :: published)
  | .subscribe sub :: calls => (bus.subscribe sub).run calls
  | .unsubscribe id :: calls => (bus.unsubscribe id).run calls

/-- The bus has published the history. -/
structure Published (bus : Bus π) (history : List (Envelope π)) : Prop where
  hwm : bus.hwm = history.length
  seq : ∀ i, ∀ e ∈ history[i]?, e.seq = i + 1
  ring : bus.ring.Retains history

variable {bus : Bus π} {history : List (Envelope π)}

theorem Published.publish (published : bus.Published history) (input : PublishInput π) (now : Int) :
    (bus.publish input now).1.Published (history ++ [bus.envelope input now]) where
  hwm := by
    rw [List.length_append, List.length_singleton, ← published.hwm]
    rfl
  seq i e mem := by
    rcases Nat.lt_trichotomy i history.length with old | here | beyond
    · rw [List.getElem?_append_left old] at mem
      exact published.seq i e mem
    · rw [here, List.getElem?_concat_length] at mem
      cases mem
      rw [here, ← published.hwm]
      rfl
    · rw [List.getElem?_eq_none (by rw [List.length_append, List.length_singleton]; omega)] at mem
      cases mem
  ring := published.ring.push

theorem Published.run (published : bus.Published history) (calls : List (Call π)) :
    (bus.run calls).1.Published (history ++ (bus.run calls).2) ∧
      (bus.run calls).1.ring.cap = bus.ring.cap := by
  induction calls generalizing bus history with
  | nil =>
      rw [Bus.run, List.append_nil]
      exact ⟨published, rfl⟩
  | cons call calls ih =>
      cases call with
      | publish input now =>
          obtain ⟨next, cap⟩ := ih (published.publish input now)
          rw [List.append_assoc, List.singleton_append] at next
          exact ⟨next, cap.trans CircularBuffer.cap_push⟩
      | subscribe sub => exact ih ⟨published.hwm, published.seq, published.ring⟩
      | unsubscribe id => exact ih ⟨published.hwm, published.seq, published.ring⟩

/-- Numbered from one on, the envelopes behind a cursor are the end of the list. -/
theorem filter_eq_drop {base : Nat} (cursor : Int)
    (seq : ∀ i, ∀ e ∈ history[i]?, e.seq = base + i + 1) :
    history.filter (fun e => cursor < e.seq) = history.drop (cursor - base).toNat := by
  induction history generalizing base with
  | nil => simp
  | cons e rest ih =>
      have first : e.seq = base + 0 + 1 := seq 0 e rfl
      have later : ∀ i, ∀ f ∈ rest[i]?, f.seq = base + 1 + i + 1 := by
        intro i f mem
        rw [seq (i + 1) f mem]
        omega
      by_cases behind : cursor < e.seq
      · have none : (cursor - (base + 1 : Nat)).toNat = 0 := by omega
        have start : (cursor - base).toNat = 0 := by omega
        rw [List.filter_cons_of_pos (by simpa using behind), ih later, none, start, List.drop_zero,
          List.drop_zero]
      · have next : (cursor - base).toNat = (cursor - (base + 1 : Nat)).toNat + 1 := by omega
        rw [List.filter_cons_of_neg (by simpa using behind), ih later, next, List.drop_succ_cons]

theorem Published.filter_drop (published : bus.Published history) (cursor : Int) (lost : Nat) :
    (history.drop lost).filter (fun e => cursor < e.seq) = history.drop (max cursor.toNat lost) := by
  have seq : ∀ i, ∀ e ∈ (history.drop lost)[i]?, e.seq = lost + i + 1 := by
    intro i e mem
    rw [List.getElem?_drop] at mem
    exact published.seq (lost + i) e mem
  rw [filter_eq_drop cursor seq, List.drop_drop]
  congr 1
  omega

theorem Published.exists_lost (published : bus.Published history) {cursor : Int} (natural : 0 ≤ cursor)
    (lost : Nat) (bound : lost ≤ history.length) :
    (∃ e ∈ history.take lost, cursor < e.seq) ↔ cursor < lost := by
  constructor
  · intro ⟨e, mem, behind⟩
    obtain ⟨i, inside⟩ := List.mem_iff_getElem?.mp mem
    rw [List.getElem?_take] at inside
    split at inside
    · have := published.seq i e inside
      omega
    · cases inside
  · intro behind
    have inside : lost - 1 < (history.take lost).length := by
      rw [List.length_take]
      omega
    refine ⟨(history.take lost)[lost - 1], List.getElem_mem inside, ?_⟩
    have entry : history[lost - 1]? = some (history.take lost)[lost - 1] := by
      rw [List.getElem_take, List.getElem?_eq_getElem]
    rw [published.seq (lost - 1) _ entry]
    omega

/-- A read gives the envelopes behind the cursor among the last ones that the ring has room for; a
cursor that is not below zero has a gap exactly if an envelope behind it is lost. -/
theorem since_exact (capacity : Int) (start : Bus π) (made : new capacity = some start)
    (calls : List (Call π)) (cursor : Int) :
    let published := (start.run calls).2
    let lost := published.length - (max 1 capacity).toNat
    ((start.run calls).1.since cursor).events =
        ((published.drop lost).filter fun e => cursor < e.seq).map some ∧
      (0 ≤ cursor → (((start.run calls).1.since cursor).gap = true ↔
        ∃ e ∈ published.take lost, cursor < e.seq)) := by
  obtain ⟨ring, ringMade, same⟩ := Option.map_eq_some_iff.mp made
  have cap := CircularBuffer.cap_of_new ringMade
  have empty : start.Published [] := by
    rw [← same]
    exact ⟨rfl, (fun i e mem => nomatch mem), CircularBuffer.retains_new ringMade⟩
  obtain ⟨published, kept⟩ := empty.run calls
  rw [List.nil_append] at published
  have room : (start.run calls).1.ring.cap = (max 1 capacity).toNat := by
    rw [kept, ← cap, ← same]
  intro history lost
  constructor
  · rw [published.filter_drop, Bus.since, published.ring.since_events, room]
  · intro natural
    rw [published.exists_lost natural lost (Nat.sub_le _ _), Bus.since, published.ring.since_gap, room]
    constructor
    · exact fun gap => gap.2
    · intro behind
      refine ⟨fun none => ?_, behind⟩
      have length : history.length = 0 := List.length_eq_zero_iff.mpr none
      omega

def lap : Call Unit := .publish ⟨"x", "topic:t", .lap, none, ()⟩ 0

theorem since_exact_wrapped : ∃ start : Bus Unit, new 2 = some start ∧
    ((start.run [lap, lap, lap]).1.since 0).events =
      (((start.run [lap, lap, lap]).2.drop 1).filter fun e => 0 < e.seq).map some ∧
    ((start.run [lap, lap, lap]).1.since 0).gap = true := by
  obtain ⟨start, made⟩ : ∃ start : Bus Unit, new 2 = some start := ⟨_, rfl⟩
  obtain ⟨events, gap⟩ := since_exact 2 start made [lap, lap, lap] 0
  cases made
  refine ⟨_, rfl, ?_, (gap le_rfl).mpr ?_⟩
  · exact_mod_cast events
  · decide

/-- A bus without room still has its last envelope, and a cursor below zero has a gap where nothing
is lost. -/
theorem room_for_one_and_gap_below_zero :
    (∃ start : Bus Unit, new 0 = some start ∧
      ((start.run [lap]).1.since 0).events ≠
        (((start.run [lap]).2.drop ((start.run [lap]).2.length - 0)).filter fun e => 0 < e.seq).map
          some) ∧
    ∃ start : Bus Unit, new 1 = some start ∧ ((start.run [lap]).1.since (-1)).gap = true ∧
      ¬ ∃ e ∈ (start.run [lap]).2.take ((start.run [lap]).2.length - 1), (-1 : Int) < e.seq := by
  refine ⟨⟨_, rfl, ?_⟩, _, rfl, ?_, ?_⟩
  · decide
  · decide
  · decide

end Bus

end Opensquid.EventBus
