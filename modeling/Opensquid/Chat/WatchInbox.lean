import Opensquid.Chat.InboxRow
import Opensquid.Lib.Steps
import Opensquid.Lib.Utf8Stream
import Opensquid.Lib.Whitespace

/-!
# Watching an inbox

`watchInbox` begins at the end of the inbox file. An event of the watcher chains a drain, and the
drains run one after another: a drain asks for the size of the file, reads the bytes from its cursor
up to that size, decodes them behind the text that the last one has left over, prints the complete
lines and keeps the rest.

The bytes of a read are decoded alone, so a character that a read has cut becomes replacement
characters. `out_exact` says that, where every read begins between two characters, the lines are
printed once and in order.
-/

namespace Opensquid.Chat.Inbox

open Opensquid.Lib Opensquid.Lib.Utf8 Opensquid.Lib.Lines
open Opensquid.Lib.Json (field truthy)

/-! ## Lines -/

mutual

/-- `String(value)`, of a number as it is written. A key `toString` hides the method. -/
def stringOf : Json → Option String
  | .null => some "null"
  | .bool b => some (if b then "true" else "false")
  | .num text => some text
  | .str text => some text
  | .arr items => (joined items).map (",".intercalate ·)
  | .obj fields => if (field fields "toString").isSome then none else some "[object Object]"

/-- The parts of `items.join()`, of which `null` has none. -/
def joined : List Json → Option (List String)
  | [] => some []
  | .null :: items => (joined items).map ("" :: ·)
  | item :: items => do return (← stringOf item) :: (← joined items)

end

def textOf (value : Option Json) : Option String := (value.map stringOf).getD (some "undefined")

/-- `a ?? b`. -/
def orElse : Option Json → Option Json → Option Json
  | none, other | some .null, other => other
  | some value, _ => some value

/-- What the value holds under a name; `null` cannot be asked. -/
def member (row : Json) (name : String) : Option (Option Json) :=
  match row with
  | .null => none
  | .obj fields => some (field fields name)
  | _ => some none

/-- `[platform where] sender: text`. -/
def formatRow (row : Json) : Option String := do
  let platform ← match ← member row "platform" with
    | some (.str "telegram") => some "tg"
    | named => textOf named
  let place ← textOf (orElse (orElse (← member row "thread_id") (← member row "channel"))
    (some (.str "dm")))
  let sender ← textOf (← member row "sender")
  let text ← textOf (← member row "text")
  return "[" ++ platform ++ " " ++ place ++ "] " ++ sender ++ ": " ++ text

/-- `format` may throw on a value. -/
structure WatchInboxOpts where
  mentionsOnly : Bool
  format : Json → Option String

/-- What a drain does with a line. -/
inductive LineResult
  | skip
  | out (line : String)
  | throws
  deriving DecidableEq

def LineResult.printed : LineResult → Option String
  | out line => some line
  | _ => none

/-- `row.mentions_bot` as a condition. -/
def mentionsBot (row : Json) : Option Bool := (member row "mentions_bot").map (·.any truthy)

namespace WatchInboxOpts

variable (opts : WatchInboxOpts)

def print (row : Json) : LineResult :=
  match opts.format row with
  | some line => .out line
  | none => .throws

/-- A blank line and one that is no JSON are skipped. -/
def line (part : List Char) : LineResult :=
  if trim part = [] then .skip
  else
    match Json.parse part with
    | none => .skip
    | some row =>
        if opts.mentionsOnly then
          match mentionsBot row with
          | none => .throws
          | some false => .skip
          | some true => opts.print row
        else opts.print row

/-- The loop over the complete lines; an exception ends it. -/
def emit : List (List Char) → List String
  | [] => []
  | part :: parts =>
      match opts.line part with
      | .skip => emit parts
      | .out line => line :: emit parts
      | .throws => []

/-- What the complete lines of some bytes print. -/
def outputs (bytes : List UInt8) : List String :=
  (completeLines 10 bytes).filterMap fun line => (opts.line (decode line)).printed

/-- The format does not throw on the lines. -/
def Prints (bytes : List UInt8) : Prop :=
  ∀ line ∈ completeLines 10 bytes, opts.line (decode line) ≠ .throws

instance (bytes : List UInt8) : Decidable (opts.Prints bytes) := by
  unfold Prints
  infer_instance

end WatchInboxOpts

/-! ## State -/

/-- A drain that awaits the size of the file, or its bytes up to that size. -/
inductive Drain
  | started
  | reading (size : Nat)
  deriving DecidableEq, Repr

/-- The inbox file with the state of `watchInbox`. -/
structure Watch where
  content : Option (List UInt8)
  cursor : Nat
  leftover : List Char := []
  /-- Chained drains that have not begun. -/
  scheduled : Nat := 0
  active : Option Drain := none
  out : List String := []
  /-- The size that the last drain was shown. -/
  shown : Nat := 0
  /-- The largest size that a drain was shown which has ended without an error. -/
  observed : Nat

namespace Watch

def bytes (w : Watch) : List UInt8 := w.content.getD []

/-- `watchInbox` on a file with these bytes, or without a file. -/
def start (content : Option (List UInt8)) : Watch :=
  { content, cursor := (content.getD []).length, observed := (content.getD []).length }

end Watch

inductive WatchEvent
  | appended (bytes : List UInt8)
  /-- `add` or `change`. -/
  | schedule
  | begun
  | statted
  | statFailed
  /-- The file is open and the read returns that many bytes. -/
  | read (bytesRead : Nat)
  | readFailed
  deriving Repr

namespace Watch

/-- A file that has become shorter is read from its beginning. -/
def rewind (w : Watch) (size : Nat) : Watch :=
  if size < w.cursor then { w with cursor := 0, leftover := [] } else w

/-- `drain` once the size is known. -/
def stat (w : Watch) : Watch :=
  match w.content with
  | none => { w with active := none }
  | some content =>
      let size := content.length
      let w := w.rewind size
      if size = w.cursor then { w with active := none }
      else { w with active := some (.reading size) }

section

variable (opts : WatchInboxOpts)

/-- `drain` once the bytes are read; the buffer is as long as was asked for. -/
def drain (w : Watch) (size bytesRead : Nat) : Watch :=
  let asked := size - w.cursor
  let buf := (w.bytes.drop w.cursor).take bytesRead ++ List.replicate (asked - bytesRead) 0
  let text := w.leftover ++ decode buf
  { w with
    active := none
    cursor := size
    leftover := lastLine text
    out := w.out ++ opts.emit (completeLines '\n' text) }

/-- A drain that has ended answers for the size that it was shown. -/
def ended (w : Watch) : Watch :=
  if w.active = none then { w with observed := max w.observed w.shown } else w

/-- One event; `none` when it is not enabled. -/
def step (w : Watch) : WatchEvent → Option Watch
  | .appended bytes => some { w with content := some (w.bytes ++ bytes) }
  | .schedule => some { w with scheduled := w.scheduled + 1 }
  | .begun =>
      if 0 < w.scheduled ∧ w.active = none then
        some { w with scheduled := w.scheduled - 1, active := some .started }
      else none
  | .statted =>
      if w.active = some .started then some (Watch.ended { w.stat with shown := w.bytes.length })
      else none
  | .statFailed => if w.active = some .started then some { w with active := none } else none
  | .read bytesRead =>
      match w.active with
      | some (.reading size) =>
          if bytesRead ≤ size - w.cursor then some (w.drain opts size bytesRead).ended else none
      | _ => none
  | .readFailed =>
      match w.active with
      | some (.reading _) => some { w with active := none }
      | _ => none

variable (backlog : List UInt8)

/-- The bytes that have been appended, up to a place of the file. -/
def appendedTo (w : Watch) (place : Nat) : List UInt8 :=
  (w.bytes.drop backlog.length).take (place - backlog.length)

/-- The complete lines within the sizes that ended drains were shown are printed, once and in
order. -/
def Exact (w : Watch) : Prop := w.out = opts.outputs (w.appendedTo backlog w.observed)

/-- The lines that are appended are ones that the format prints, a read returns all the bytes it
asks for, and it does not begin inside a character. -/
def Meets (w : Watch) : WatchEvent → Prop
  | .appended bytes => opts.Prints ((w.bytes ++ bytes).drop backlog.length)
  | .read bytesRead =>
      match w.active with
      | some (.reading size) => bytesRead = size - w.cursor ∧
          encode (decode (w.appendedTo backlog w.cursor)) = w.appendedTo backlog w.cursor
      | _ => True
  | _ => True

instance (w : Watch) (e : WatchEvent) : Decidable (w.Meets opts backlog e) := by
  cases e <;> unfold Meets <;> try infer_instance
  dsimp only
  split <;> infer_instance

end

end Watch

/-! ## The invariant -/

section

variable {opts : WatchInboxOpts} {backlog : List UInt8} {w w' : Watch}

theorem WatchInboxOpts.emit_eq {parts : List (List Char)}
    (prints : ∀ part ∈ parts, opts.line part ≠ .throws) :
    opts.emit parts = parts.filterMap fun part => (opts.line part).printed := by
  induction parts with
  | nil => rfl
  | cons part parts ih =>
      obtain ⟨here, others⟩ := List.forall_mem_cons.mp prints
      rw [emit, List.filterMap_cons, ih others]
      cases result : opts.line part with
      | skip => rfl
      | out line => rfl
      | throws => exact absurd result here

theorem WatchInboxOpts.Prints.of_prefix {bytes more : List UInt8} (start : bytes <+: more)
    (prints : opts.Prints more) : opts.Prints bytes :=
  fun line mem => prints line ((completeLines_mono start).subset mem)

theorem outputs_eq (bytes : List UInt8) : opts.outputs bytes =
    (completeLines '\n' (decode bytes)).filterMap fun part => (opts.line part).printed := by
  rw [completeLines_decode, List.filterMap_map]
  rfl

/-- Bytes that are read behind whole characters. -/
theorem outputs_append {taken chunk : List UInt8}
    (text : decode (taken ++ chunk) = decode taken ++ decode chunk)
    (prints : opts.Prints (taken ++ chunk)) :
    opts.outputs (taken ++ chunk) = opts.outputs taken ++
      opts.emit (completeLines '\n' (lastLine (decode taken) ++ decode chunk)) := by
  have split := completeLines_decode (taken ++ chunk)
  rw [text, Framer.completeLines_append] at split
  have printed : ∀ part ∈ completeLines '\n' (lastLine (decode taken) ++ decode chunk),
      opts.line part ≠ .throws := by
    intro part mem
    have inside := List.mem_append_right (completeLines '\n' (decode taken)) mem
    rw [split] at inside
    obtain ⟨line, there, rfl⟩ := List.mem_map.mp inside
    exact prints line there
  rw [outputs_eq, outputs_eq, text, Framer.completeLines_append, List.filterMap_append,
    WatchInboxOpts.emit_eq printed]

namespace Watch

/-- `taken` has been read. -/
structure Taken (opts : WatchInboxOpts) (backlog : List UInt8) (w : Watch)
    (taken rest : List UInt8) : Prop where
  bytes : w.bytes = backlog ++ (taken ++ rest)
  cursor : w.cursor = backlog.length + taken.length
  leftover : w.leftover = lastLine (decode taken)
  out : w.out = opts.outputs taken

structure Inv (opts : WatchInboxOpts) (backlog : List UInt8) (w : Watch) : Prop where
  taken : ∃ taken rest, w.Taken opts backlog taken rest
  prints : opts.Prints (w.bytes.drop backlog.length)
  observed : w.observed = w.cursor
  reading : ∀ size, w.active = some (.reading size) →
    w.cursor ≤ size ∧ size = w.shown ∧ size ≤ w.bytes.length

theorem Taken.appendedTo {taken rest : List UInt8} (has : w.Taken opts backlog taken rest) :
    w.appendedTo backlog w.cursor = taken := by
  rw [Watch.appendedTo, has.bytes, has.cursor, List.drop_left, Nat.add_sub_cancel_left, List.take_left]

theorem Inv.exact (inv : w.Inv opts backlog) : w.Exact opts backlog := by
  obtain ⟨taken, rest, has⟩ := inv.taken
  rw [Exact, inv.observed, has.appendedTo, has.out]

theorem Inv.cursor_le (inv : w.Inv opts backlog) : w.cursor ≤ w.bytes.length := by
  obtain ⟨taken, rest, has⟩ := inv.taken
  rw [has.cursor, has.bytes, List.length_append, List.length_append]
  omega

theorem inv_start (content : Option (List UInt8)) :
    (start content).Inv opts (content.getD []) where
  taken := ⟨[], [], (List.append_nil _).symm, rfl, rfl, rfl⟩
  prints := by
    change opts.Prints ((content.getD []).drop (content.getD []).length)
    rw [List.drop_length]
    exact nofun
  observed := rfl
  reading := nofun

/-- What concerns neither the file nor what has been read changes nothing, when no read is begun. -/
theorem Inv.frame (inv : w.Inv opts backlog) (content : w'.content = w.content)
    (cursor : w'.cursor = w.cursor) (leftover : w'.leftover = w.leftover) (out : w'.out = w.out)
    (observed : w'.observed = w.observed)
    (active : ∀ size, w'.active = some (.reading size) →
      w.active = some (.reading size) ∧ w'.shown = w.shown ∨
        w.cursor ≤ size ∧ size = w'.shown ∧ size ≤ w.bytes.length) :
    w'.Inv opts backlog := by
  have same : w'.bytes = w.bytes := congrArg (·.getD []) content
  obtain ⟨taken, rest, has⟩ := inv.taken
  refine ⟨⟨taken, rest, ?_, ?_, ?_, ?_⟩, ?_, ?_, ?_⟩
  · rw [same, has.bytes]
  · rw [cursor, has.cursor]
  · rw [leftover, has.leftover]
  · rw [out, has.out]
  · rw [same]
    exact inv.prints
  · rw [observed, cursor, inv.observed]
  · intro size reading
    rw [same, cursor]
    rcases active size reading with ⟨before, shown⟩ | inside
    · rw [shown]
      exact inv.reading size before
    · exact inside

theorem Inv.appended (inv : w.Inv opts backlog) {more : List UInt8}
    (prints : opts.Prints ((w.bytes ++ more).drop backlog.length)) :
    Inv opts backlog { w with content := some (w.bytes ++ more) } where
  taken := by
    obtain ⟨taken, rest, has⟩ := inv.taken
    refine ⟨taken, rest ++ more, ?_, has.cursor, has.leftover, has.out⟩
    change w.bytes ++ more = _
    rw [has.bytes, List.append_assoc, List.append_assoc]
  prints := prints
  observed := inv.observed
  reading size reading := by
    obtain ⟨above, shown, inside⟩ := inv.reading size reading
    change _ ∧ _ ∧ size ≤ (w.bytes ++ more).length
    rw [List.length_append]
    exact ⟨above, shown, by omega⟩

/-- A drain can end where all that it was shown has been read. -/
theorem Inv.ended (inv : w.Inv opts backlog)
    (covered : w.active = none → max w.observed w.shown = w.observed) :
    w.ended.Inv opts backlog := by
  unfold Watch.ended
  split
  · rename_i done
    exact inv.frame rfl rfl rfl rfl (covered done) fun size reading => absurd done (by
      change w.active = _ at reading
      rw [reading]
      nofun)
  · exact inv

theorem Inv.stat (inv : w.Inv opts backlog) :
    (Watch.ended { w.stat with shown := w.bytes.length }).Inv opts backlog := by
  have inside := inv.cursor_le
  unfold Watch.stat
  split
  · rename_i missing
    have none : w.bytes.length = 0 := by rw [bytes, missing, Option.getD_none, List.length_nil]
    have idle : Inv opts backlog { w with active := .none, shown := w.bytes.length } :=
      inv.frame rfl rfl rfl rfl rfl nofun
    refine idle.ended fun _ => ?_
    change max w.observed w.bytes.length = w.observed
    rw [none, Nat.max_zero]
  · rename_i content present
    have whole : w.bytes = content := by rw [bytes, present, Option.getD_some]
    have grown : w.rewind w.bytes.length = w := if_neg (Nat.not_lt.mpr inside)
    simp only [← whole, grown]
    split
    · rename_i all
      have idle : Inv opts backlog { w with active := .none, shown := w.bytes.length } :=
        inv.frame rfl rfl rfl rfl rfl nofun
      refine idle.ended fun _ => ?_
      change max w.observed w.bytes.length = w.observed
      rw [inv.observed, all, Nat.max_self]
    · refine Inv.ended ?_ nofun
      refine inv.frame rfl rfl rfl rfl rfl fun size reading => .inr ?_
      cases reading
      exact ⟨inside, rfl, le_rfl⟩

/-- A read of whole characters goes on with the text. -/
theorem Inv.drain (inv : w.Inv opts backlog) {size : Nat}
    (reading : w.active = some (.reading size))
    (boundary : encode (decode (w.appendedTo backlog w.cursor)) = w.appendedTo backlog w.cursor) :
    (w.drain opts size (size - w.cursor)).ended.Inv opts backlog := by
  obtain ⟨above, shown, inside⟩ := inv.reading size reading
  obtain ⟨taken, rest, has⟩ := inv.taken
  rw [has.appendedTo] at boundary
  have unread : w.bytes.drop w.cursor = rest := by
    rw [has.bytes, has.cursor, ← List.append_assoc, ← List.length_append, List.drop_left]
  have chunk : ∃ chunk more, rest = chunk ++ more ∧ rest.take (size - w.cursor) = chunk ∧
      chunk.length = size - w.cursor := by
    refine ⟨_, _, (List.take_append_drop (size - w.cursor) rest).symm, rfl, ?_⟩
    rw [List.length_take, ← unread, List.length_drop]
    omega
  obtain ⟨chunk, more, rfl, read, count⟩ := chunk
  have text : decode (taken ++ chunk) = decode taken ++ decode chunk := by
    rw [← boundary, decode_chars_append, boundary]
  have prints : opts.Prints (taken ++ (chunk ++ more)) := by
    have prints := inv.prints
    rw [has.bytes, List.drop_left] at prints
    exact prints
  have lines : opts.outputs (taken ++ chunk) = opts.outputs taken ++
      opts.emit (completeLines '\n' (lastLine (decode taken) ++ decode chunk)) :=
    outputs_append text (prints.of_prefix ⟨more, by rw [List.append_assoc]⟩)
  have buffer : (w.bytes.drop w.cursor).take (size - w.cursor) ++
      List.replicate (size - w.cursor - (size - w.cursor)) 0 = chunk := by
    rw [unread, read, Nat.sub_self, List.replicate_zero, List.append_nil]
  simp only [Watch.drain, Watch.ended, buffer, if_true]
  refine ⟨⟨taken ++ chunk, more, ?_, ?_, ?_, ?_⟩, inv.prints, ?_, nofun⟩
  · rw [List.append_assoc]
    exact has.bytes
  · have length := has.cursor
    rw [List.length_append, count]
    dsimp only
    omega
  · rw [text, has.leftover]
    exact (Framer.lastLine_append _ _).symm
  · rw [lines, has.out, has.leftover]
  · rw [inv.observed, ← shown]
    exact Nat.max_eq_right above

theorem Inv.step (inv : w.Inv opts backlog) {e : WatchEvent} (meets : w.Meets opts backlog e)
    (fire : w.step opts e = some w') : w'.Inv opts backlog := by
  cases e with
  | appended bytes =>
      cases fire
      exact inv.appended meets
  | schedule =>
      cases fire
      exact inv.frame rfl rfl rfl rfl rfl fun _ reading => .inl ⟨reading, rfl⟩
  | begun =>
      simp only [Watch.step] at fire
      split at fire <;> cases fire
      exact inv.frame rfl rfl rfl rfl rfl nofun
  | statted =>
      simp only [Watch.step] at fire
      split at fire <;> cases fire
      exact inv.stat
  | statFailed =>
      simp only [Watch.step] at fire
      split at fire <;> cases fire
      exact inv.frame rfl rfl rfl rfl rfl nofun
  | read bytesRead =>
      simp only [Watch.step] at fire
      split at fire
      · rename_i size reading
        rw [Meets, reading] at meets
        obtain ⟨rfl, boundary⟩ := meets
        split at fire <;> cases fire
        exact inv.drain reading boundary
      · cases fire
  | readFailed =>
      simp only [Watch.step] at fire
      split at fire <;> cases fire
      exact inv.frame rfl rfl rfl rfl rfl nofun

/-- In every run that meets the condition, what drains were shown is printed. -/
theorem out_exact {content : Option (List UInt8)}
    (run : Steps (step opts) (Meets opts (content.getD [])) (start content) w) :
    w.Exact opts (content.getD []) := by
  have keep : ∀ w e w', Inv opts (content.getD []) w → Meets opts (content.getD []) w e →
      step opts w e = some w' → Inv opts (content.getD []) w' :=
    fun _ _ _ inv meets fire => inv.step meets fire
  exact (run.invariant (inv_start content) keep).exact

end Watch

end

end Opensquid.Chat.Inbox
