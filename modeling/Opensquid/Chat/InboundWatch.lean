import Opensquid.Chat.WatchInbox

/-!
# Dispatching an inbox

For every event of the watcher `startInboundWatcher` starts a call of `drainAppended`, and does not
wait for the last one: a call asks for the size of the file, reads the bytes from the offset of the
file up to that size, sets the offset behind them and dispatches the rows of these bytes one after
another.

The bytes of a read are taken for complete lines, and a call that is behind another one sets the
offset back. `tailers_exact` says when every row is dispatched once and in order, and the same of
`watchInbox`.
-/

namespace Opensquid.Chat.Inbox

open Opensquid.Lib Opensquid.Lib.Utf8 Opensquid.Lib.Lines

/-! ## State -/

/-- A call that has not read: it awaits the size of the file, goes on with it, or awaits the bytes
from `start` up to it. -/
inductive CallStage
  | started
  | statted (size : Nat)
  | reading (size start : Nat)
  deriving DecidableEq, Repr

/-- Such a call with the size that it was shown. -/
structure AppendedCall where
  stage : CallStage := .started
  shown : Nat := 0
  deriving DecidableEq, Repr

/-- An inbox file with what the watcher holds for it. -/
structure InboundFile where
  content : Option (List UInt8)
  /-- `state.offsets.get(filePath)`. -/
  offset : Option Nat := none
  calls : List AppendedCall := []
  /-- The rows that the calls which have read still have to dispatch, in the order of the reads. -/
  dispatching : List (List InboxRow) := []
  /-- The rows that have been given to `processRow`. -/
  dispatched : List InboxRow := []
  /-- The longest part of the file that a call answers for which has read or found nothing to read:
  the size it was shown, or less where its read returned less than was asked for. -/
  observed : Nat := 0

/-- The call of an event is given by its place among those that have not read, or have. -/
inductive InboundEvent
  | appended (bytes : List UInt8)
  /-- `add` or `change`. -/
  | changed
  | statted (call : Nat)
  | statFailed (call : Nat)
  | resumed (call : Nat)
  | read (call bytesRead : Nat)
  /-- The file cannot be opened, or not read. -/
  | readFailed (call : Nat)
  | dispatched (call : Nat)
  /-- `processRow` throws. -/
  | dispatchFailed (call : Nat)
  deriving Repr

/-- The rows of the lines of some bytes; the last line counts as a complete one. -/
def rowsRead (bytes : List UInt8) : List InboxRow :=
  ((decode bytes).splitOn '\n').filterMap fun line => if line = [] then none else rowOf line

/-- The rows of the complete lines of some bytes. -/
def rowsOf (bytes : List UInt8) : List InboxRow :=
  (completeLines 10 bytes).filterMap fun line => rowOf (decode line)

namespace InboundFile

def bytes (f : InboundFile) : List UInt8 := f.content.getD []

/-- `drainAppended` once the size is known. -/
def resume (f : InboundFile) (place : Nat) (call : AppendedCall) (size : Nat) : InboundFile :=
  let lastOffset := f.offset.getD 0
  if size = lastOffset then { f with calls := f.calls.eraseIdx place }
  else
    let offset := if size < lastOffset then some 0 else f.offset
    { f with
      offset
      calls := f.calls.set place { call with stage := .reading size (offset.getD 0) } }

/-- `drainAppended` once the bytes are read. -/
def consume (f : InboundFile) (place start bytesRead : Nat) : InboundFile :=
  { f with
    offset := some (start + bytesRead)
    calls := f.calls.eraseIdx place
    dispatching := f.dispatching ++ [rowsRead ((f.bytes.drop start).take bytesRead)] }

/-- A call that has come to its end in `g` answers for the file up to the place. -/
def ended (f g : InboundFile) (place : Nat) : InboundFile :=
  if g.calls.length < f.calls.length then { g with observed := max g.observed place } else g

/-- One event; `none` when it is not enabled. -/
def step (f : InboundFile) : InboundEvent → Option InboundFile
  | .appended bytes => some { f with content := some (f.bytes ++ bytes) }
  | .changed => some { f with calls := f.calls ++ [{}] }
  | .statted call =>
      match f.calls[call]?, f.content with
      | some ⟨.started, _⟩, some content =>
          some { f with calls := f.calls.set call ⟨.statted content.length, content.length⟩ }
      | _, _ => none
  | .statFailed call =>
      match f.calls[call]? with
      | some ⟨.started, _⟩ => some { f with calls := f.calls.eraseIdx call }
      | _ => none
  | .resumed call =>
      match f.calls[call]? with
      | some ⟨.statted size, shown⟩ =>
          some (f.ended (f.resume call ⟨.statted size, shown⟩ size) shown)
      | _ => none
  | .read call bytesRead =>
      match f.calls[call]? with
      | some ⟨.reading size start, shown⟩ =>
          if bytesRead ≤ size - start then
            let place := if bytesRead = size - start then shown else start + bytesRead
            some (f.ended (f.consume call start bytesRead) place)
          else none
      | _ => none
  | .readFailed call =>
      match f.calls[call]? with
      | some ⟨.reading _ _, _⟩ => some { f with calls := f.calls.eraseIdx call }
      | _ => none
  | .dispatched call =>
      match f.dispatching[call]? with
      | some (row :: rows) =>
          some { f with
            dispatching := f.dispatching.set call rows
            dispatched := f.dispatched ++ [row] }
      | _ => none
  | .dispatchFailed call =>
      if (f.dispatching[call]?).isSome then
        some { f with dispatching := f.dispatching.set call [] }
      else none

/-- What is dispatched, with what the calls that have read are going to dispatch, are the rows of
the complete lines within the sizes that calls were shown and could read, once and in order: those
that the file had at the start, and then those that have been appended. -/
def Exact (backlog : List UInt8) (f : InboundFile) : Prop :=
  f.dispatched ++ f.dispatching.flatten =
    rowsOf (backlog.take f.observed) ++
      rowsOf ((f.bytes.drop backlog.length).take (f.observed - backlog.length))

/-- A call goes on with a size that no other call has read past, it reads from where the last read
has ended and up to the end of a line, and it dispatches its rows when those of earlier reads are
dispatched. `processRow` throws only for the last row of a call. -/
def Meets (f : InboundFile) : InboundEvent → Prop
  | .resumed call =>
      match f.calls[call]? with
      | some ⟨.statted size, _⟩ => f.offset.getD 0 ≤ size
      | _ => True
  | .read call bytesRead =>
      match f.calls[call]? with
      | some ⟨.reading _ start, _⟩ =>
          start = f.offset.getD 0 ∧ EndsLine 10 (f.bytes.take (start + bytesRead))
      | _ => True
  | .dispatched call => (f.dispatching.take call).flatten = []
  | .dispatchFailed call => f.dispatching[call]?.getD [] = []
  | _ => True

instance (f : InboundFile) (e : InboundEvent) : Decidable (f.Meets e) := by
  cases e <;> unfold Meets <;> try infer_instance
  all_goals
    dsimp only
    split <;> infer_instance

end InboundFile

/-! ## Rows -/

theorem rowsOf_eq (bytes : List UInt8) :
    rowsOf bytes = (completeLines '\n' (decode bytes)).filterMap rowOf := by
  rw [completeLines_decode, List.filterMap_map]
  rfl

theorem rowsOf_unlines_append {lines : List (List UInt8)} (free : ∀ line ∈ lines, (10 : UInt8) ∉ line)
    (rest : List UInt8) :
    rowsOf (unlines 10 lines ++ rest) = rowsOf (unlines 10 lines) ++ rowsOf rest := by
  have whole := completeLines_unlines_append free []
  rw [completeLines_of_not_mem List.not_mem_nil, List.append_nil, List.append_nil] at whole
  rw [rowsOf, completeLines_unlines_append free, List.filterMap_append, rowsOf, rowsOf, whole]

theorem rowsOf_nil : rowsOf [] = [] := rfl

/-- Complete lines are read as such. -/
theorem rowsRead_unlines {lines : List (List UInt8)} (free : ∀ line ∈ lines, (10 : UInt8) ∉ line) :
    rowsRead (unlines 10 lines) = rowsOf (unlines 10 lines) := by
  have decoded : ∀ line ∈ lines.map decode, '\n' ∉ line := fun line mem => by
    obtain ⟨bytes, inside, rfl⟩ := List.mem_map.mp mem
    exact newline_not_mem_decode (free bytes inside)
  have text : decode (unlines 10 lines) = unlines '\n' (lines.map decode) := by
    have whole := decode_unlines_append lines []
    rw [List.append_nil] at whole
    exact whole.trans (List.append_nil _)
  have whole := completeLines_unlines_append free []
  rw [completeLines_of_not_mem List.not_mem_nil, List.append_nil, List.append_nil] at whole
  have blank : ∀ line : List Char, (if line = [] then none else rowOf line) = rowOf line := by
    intro line
    split
    · rename_i empty
      rw [empty]
      rfl
    · rfl
  rw [rowsRead, rowsOf, text, splitOn_unlines decoded, whole, List.filterMap_append]
  simp only [blank, List.filterMap_map]
  exact List.append_nil _

/-! ## The invariant -/

def AppendedCall.Within (length : Nat) : AppendedCall → Prop
  | ⟨.started, _⟩ => True
  | ⟨.statted size, shown⟩ => size = shown ∧ size ≤ length
  | ⟨.reading size start, shown⟩ => start ≤ size ∧ size = shown ∧ size ≤ length

theorem AppendedCall.Within.mono {length more : Nat} (le : length ≤ more) {call : AppendedCall}
    (within : call.Within length) : call.Within more := by
  obtain ⟨stage, shown⟩ := call
  cases stage with
  | started => trivial
  | statted size => exact ⟨within.1, within.2.trans le⟩
  | reading size start => exact ⟨within.1, within.2.1, within.2.2.trans le⟩

namespace InboundFile

/-- The lines have been read. -/
structure Taken (f : InboundFile) (lines : List (List UInt8)) (rest : List UInt8) : Prop where
  free : ∀ line ∈ lines, (10 : UInt8) ∉ line
  bytes : f.bytes = unlines 10 lines ++ rest
  offset : f.offset.getD 0 = (unlines 10 lines).length
  rows : f.dispatched ++ f.dispatching.flatten = rowsOf (unlines 10 lines)

structure Inv (backlog : List UInt8) (f : InboundFile) : Prop where
  backlog : backlog <+: f.bytes
  taken : ∃ lines rest, f.Taken lines rest
  observed : f.observed = f.offset.getD 0
  calls : ∀ call ∈ f.calls, call.Within f.bytes.length

variable {backlog : List UInt8} {f g : InboundFile}

theorem inv_start (content : Option (List UInt8)) :
    Inv (content.getD []) { content } where
  backlog := List.prefix_rfl
  taken := ⟨[], content.getD [], nofun, rfl, rfl, rfl⟩
  observed := rfl
  calls := nofun

theorem Inv.exact (inv : f.Inv backlog) (ends : EndsLine 10 backlog) : f.Exact backlog := by
  obtain ⟨lines, rest, taken⟩ := inv.taken
  obtain ⟨appended, whole⟩ := inv.backlog
  have read : f.bytes.take f.observed = unlines 10 lines := by
    rw [inv.observed, taken.offset, taken.bytes, List.take_left]
  rw [Exact, taken.rows, ← read, ← whole, List.drop_left, List.take_append]
  rcases Nat.le_total f.observed backlog.length with before | behind
  · rw [Nat.sub_eq_zero_of_le before, List.take_zero, rowsOf_nil, List.append_nil, List.append_nil]
  · rw [List.take_of_length_le behind]
    obtain ⟨lines, rfl, free⟩ := exists_unlines_of_endsLine ends
    exact rowsOf_unlines_append free _

/-- What concerns neither the file nor what has been read changes nothing. -/
theorem Inv.frame (inv : f.Inv backlog) (content : g.content = f.content)
    (offset : g.offset.getD 0 = f.offset.getD 0) (observed : g.observed = f.observed)
    (rows : g.dispatched ++ g.dispatching.flatten = f.dispatched ++ f.dispatching.flatten)
    (calls : ∀ call ∈ g.calls, call ∈ f.calls ∨ call.Within f.bytes.length) : g.Inv backlog := by
  have same : g.bytes = f.bytes := congrArg (·.getD []) content
  obtain ⟨lines, rest, taken⟩ := inv.taken
  refine ⟨?_, ⟨lines, rest, taken.free, ?_, ?_, ?_⟩, ?_, ?_⟩
  · rw [same]
    exact inv.backlog
  · rw [same, taken.bytes]
  · rw [offset, taken.offset]
  · rw [rows, taken.rows]
  · rw [observed, offset, inv.observed]
  · intro call mem
    rw [same]
    rcases calls call mem with before | within
    · exact inv.calls call before
    · exact within

theorem Inv.appended (inv : f.Inv backlog) (more : List UInt8) :
    Inv backlog { f with content := some (f.bytes ++ more) } where
  backlog := inv.backlog.trans (List.prefix_append _ _)
  taken := by
    obtain ⟨lines, rest, taken⟩ := inv.taken
    refine ⟨lines, rest ++ more, taken.free, ?_, taken.offset, taken.rows⟩
    change f.bytes ++ more = _
    rw [taken.bytes, List.append_assoc]
  observed := inv.observed
  calls call mem := (inv.calls call mem).mono (List.prefix_append f.bytes more).length_le

theorem Inv.resume (inv : f.Inv backlog) {place size shown : Nat}
    (here : f.calls[place]? = some ⟨.statted size, shown⟩) (ahead : f.offset.getD 0 ≤ size) :
    (f.ended (f.resume place ⟨.statted size, shown⟩ size) shown).Inv backlog := by
  obtain ⟨rfl, within⟩ := inv.calls _ (List.mem_of_getElem? here)
  unfold InboundFile.resume
  dsimp only
  split
  · rename_i all
    unfold InboundFile.ended
    split
    · refine inv.frame rfl rfl ?_ rfl fun call mem => .inl (List.mem_of_mem_eraseIdx mem)
      dsimp only
      rw [inv.observed, all, Nat.max_self]
    · exact inv.frame rfl rfl rfl rfl fun call mem => .inl (List.mem_of_mem_eraseIdx mem)
  · rw [if_neg (Nat.not_lt.mpr ahead), InboundFile.ended, if_neg (by simp)]
    refine inv.frame rfl rfl rfl rfl fun call mem => ?_
    rcases List.mem_or_eq_of_mem_set mem with before | rfl
    · exact .inl before
    · exact .inr ⟨ahead, rfl, within⟩

theorem Inv.consume (inv : f.Inv backlog) {call bytesRead : Nat}
    (ends : EndsLine 10 (f.bytes.take (f.offset.getD 0 + bytesRead)))
    (inside : f.offset.getD 0 + bytesRead ≤ f.bytes.length) (there : call < f.calls.length) :
    (f.ended (f.consume call (f.offset.getD 0) bytesRead) (f.offset.getD 0 + bytesRead)).Inv
      backlog := by
  have fewer : (f.consume call (f.offset.getD 0) bytesRead).calls.length < f.calls.length := by
    rw [InboundFile.consume, List.length_eraseIdx_of_lt there]
    omega
  obtain ⟨lines, rest, taken⟩ := inv.taken
  have unread : f.bytes.drop (f.offset.getD 0) = rest := by
    rw [taken.offset, taken.bytes, List.drop_left]
  have slice : EndsLine 10 (rest.take bytesRead) := by
    rw [taken.offset, taken.bytes, List.take_length_add_append] at ends
    intro c last
    exact ends c (List.mem_getLast?_append_of_mem_getLast? last)
  obtain ⟨more, read, free⟩ := exists_unlines_of_endsLine slice
  have all : ∀ line ∈ lines ++ more, (10 : UInt8) ∉ line := fun line mem =>
    (List.mem_append.mp mem).elim (taken.free line) (free line)
  rw [InboundFile.ended, if_pos fewer]
  refine ⟨inv.backlog, ⟨lines ++ more, rest.drop bytesRead, all, ?_, ?_, ?_⟩, ?_, ?_⟩
  · rw [unlines_append, ← read, List.append_assoc, List.take_append_drop]
    exact taken.bytes
  · have count : (rest.take bytesRead).length = bytesRead := by
      rw [List.length_take, ← unread, List.length_drop]
      omega
    rw [unlines_append, List.length_append, ← read, count, ← taken.offset]
    rfl
  · change f.dispatched ++ (f.dispatching ++ [rowsRead _]).flatten = _
    rw [List.flatten_concat, ← List.append_assoc, taken.rows, unread, read, rowsRead_unlines free,
      unlines_append, rowsOf_unlines_append taken.free]
  · change max f.observed (f.offset.getD 0 + bytesRead) = f.offset.getD 0 + bytesRead
    rw [inv.observed]
    omega
  · exact fun call mem => inv.calls call (List.mem_of_mem_eraseIdx mem)

theorem flatten_set {rows : List InboxRow} {row : InboxRow} {lists : List (List InboxRow)} {place : Nat}
    (here : lists[place]? = some (row :: rows)) (first : (lists.take place).flatten = []) :
    row :: (lists.set place rows).flatten = lists.flatten := by
  induction lists generalizing place with
  | nil => cases here
  | cons first' lists ih =>
      cases place with
      | zero =>
          cases here
          rfl
      | succ place =>
          rw [List.take_succ_cons, List.flatten_cons, List.append_eq_nil_iff] at first
          obtain ⟨rfl, first⟩ := first
          exact ih here first

theorem set_eq_self {lists : List (List InboxRow)} {place : Nat} (empty : lists[place]?.getD [] = []) :
    lists.set place [] = lists := by
  induction lists generalizing place with
  | nil => rfl
  | cons rows lists ih =>
      cases place with
      | zero => exact congrArg (· :: lists) empty.symm
      | succ place => exact congrArg (rows :: ·) (ih empty)

theorem Inv.step (inv : f.Inv backlog) {e : InboundEvent} (meets : f.Meets e)
    (fire : f.step e = some g) : g.Inv backlog := by
  cases e with
  | appended bytes =>
      cases fire
      exact inv.appended bytes
  | changed =>
      cases fire
      refine inv.frame rfl rfl rfl rfl fun call mem => ?_
      rcases List.mem_append.mp mem with before | new
      · exact .inl before
      · cases List.mem_singleton.mp new
        exact .inr trivial
  | statted call =>
      simp only [InboundFile.step] at fire
      split at fire <;> cases fire
      rename_i content _ present
      refine inv.frame rfl rfl rfl rfl fun call mem => ?_
      rcases List.mem_or_eq_of_mem_set mem with before | rfl
      · exact .inl before
      · refine .inr ⟨rfl, ?_⟩
        rw [InboundFile.bytes, present, Option.getD_some]
  | statFailed call =>
      simp only [InboundFile.step] at fire
      split at fire <;> cases fire
      exact inv.frame rfl rfl rfl rfl fun call mem => .inl (List.mem_of_mem_eraseIdx mem)
  | resumed call =>
      simp only [InboundFile.step] at fire
      split at fire <;> cases fire
      rename_i size shown here
      rw [Meets, here] at meets
      exact inv.resume here meets
  | read call bytesRead =>
      simp only [InboundFile.step] at fire
      split at fire
      · rename_i size start shown here
        rw [Meets, here] at meets
        obtain ⟨rfl, ends⟩ := meets
        split at fire <;> cases fire
        rename_i asked
        obtain ⟨above, rfl, inside⟩ := inv.calls _ (List.mem_of_getElem? here)
        -- a read of all the bytes asked for reaches the size that was shown
        have place : (if bytesRead = size - f.offset.getD 0 then size
            else f.offset.getD 0 + bytesRead) = f.offset.getD 0 + bytesRead := by
          split <;> omega
        rw [place]
        exact inv.consume ends (by omega) (List.getElem?_eq_some_iff.mp here).1
      · cases fire
  | readFailed call =>
      simp only [InboundFile.step] at fire
      split at fire <;> cases fire
      exact inv.frame rfl rfl rfl rfl fun call mem => .inl (List.mem_of_mem_eraseIdx mem)
  | dispatched call =>
      simp only [InboundFile.step] at fire
      split at fire <;> cases fire
      rename_i row rows here
      refine inv.frame rfl rfl rfl ?_ fun call => .inl
      dsimp only
      rw [List.append_assoc, List.singleton_append, flatten_set here meets]
  | dispatchFailed call =>
      simp only [InboundFile.step] at fire
      split at fire <;> cases fire
      refine inv.frame rfl rfl rfl ?_ fun call => .inl
      dsimp only
      rw [set_eq_self meets]

theorem dispatched_exact {content : Option (List UInt8)} (ends : EndsLine 10 (content.getD []))
    (run : Steps step Meets { content } f) : f.Exact (content.getD []) := by
  have keep : ∀ f e g, Inv (content.getD []) f → Meets f e → step f e = some g →
      Inv (content.getD []) g := fun _ _ _ inv meets fire => inv.step meets fire
  exact (run.invariant (inv_start content) keep).exact ends

end InboundFile

/-! ## Both tailers -/

/-- Every row is printed for a reader. -/
def sampleOpts : WatchInboxOpts := ⟨false, formatRow⟩

/-- A file with one row. -/
def sampleBytes : List UInt8 := encode (sampleRow "é" ++ ['\n'])

/-- The file grows by a part of it and by the rest, and each time a drain reads it. -/
def watchParts (place : Nat) : List WatchEvent :=
  [.appended (sampleBytes.take place), .schedule, .begun, .statted, .read place,
    .appended (sampleBytes.drop place), .schedule, .begun, .statted,
    .read (sampleBytes.length - place)]

/-- The same with calls that do not overlap. -/
def drainParts (place : Nat) : List InboundEvent :=
  [.appended (sampleBytes.take place), .changed, .statted 0, .resumed 0, .read 0 place,
    .appended (sampleBytes.drop place), .changed, .statted 0, .resumed 0,
    .read 0 (sampleBytes.length - place)]

/-- Two calls for the whole file; the second one goes on when the first one has read. -/
def drainInTurn : List InboundEvent :=
  [.appended sampleBytes, .changed, .changed, .statted 0, .statted 1, .resumed 0,
    .read 0 sampleBytes.length, .resumed 0, .dispatched 0]

/-- Both calls go on before one of them has read. -/
def drainAtOnce : List InboundEvent :=
  [.appended sampleBytes, .changed, .changed, .statted 0, .statted 1, .resumed 0, .resumed 1,
    .read 0 sampleBytes.length, .read 0 sampleBytes.length, .dispatched 0, .dispatched 1]

end Opensquid.Chat.Inbox
