import Mathlib
import Opensquid.Lib.Lines
import Opensquid.Lib.PathText
import Opensquid.Lib.Steps
import Opensquid.Lib.Utf8
import Opensquid.Lib.Whitespace

/-!
# The inbox bridge

An inbox file grows by appended bytes. A watcher event or a rescan chains a
`consumeTail` of the file; the calls of one file run one after another. A call
asks for the file's size, reads from its cursor up to that size, decodes the
bytes, passes the complete lines to `emitRow` and advances the cursor by their
encoded length.

`emitted_exact` says that every complete line is passed once and in order and that
none is missed by a call that was shown a size which covers it, whatever the appends
cut through and however the calls are scheduled.
-/

namespace Opensquid.AgentBridge

open Opensquid.Lib Opensquid.Lib.Utf8 Opensquid.Lib.Lines

/-! ## Lines of a slice -/

/-- `slice.indexOf('\n')`, as the line before it and what follows it. -/
def nextLine : List Char → Option (List Char × List Char)
  | [] => none
  | c :: rest =>
      if c = '\n' then some ([], rest)
      else (nextLine rest).map fun (line, after) => (c :: line, after)

/-- The row of a line; a blank line has none. -/
def trimmedRow (line : List Char) : Option String :=
  let trimmed := trim line
  if trimmed = [] then none else some (String.ofList trimmed)

/-- The loop of `consumeTail`: the bytes consumed and the rows passed to `emitRow`.
`n` bounds the number of lines. -/
def consumeLines : Nat → List Char → Nat × List String
  | n + 1, slice =>
      match nextLine slice with
      | none => (0, [])
      | some (line, after) =>
          let (consumedBytes, rows) := consumeLines n after
          ((encode line).length + 1 + consumedBytes, (trimmedRow line).toList ++ rows)
  | 0, _ => (0, [])

/-! ## State -/

/-- A `consumeTail` that awaits the file's size, or the bytes from its cursor up to
that size. -/
inductive Consume
  | started
  | reading (size cursor : Nat)
  deriving DecidableEq, Repr

/-- An inbox file with the bridge's state for it and the rows passed to `emitRow`. -/
structure InboxFile where
  content : Option (List UInt8) := none
  cursor : Option Nat := none
  /-- Chained calls that have not begun. -/
  scheduled : Nat := 0
  active : Option Consume := none
  emitted : List String := []
  /-- The size that the last call was shown. -/
  shown : Nat := 0
  /-- The longest part of the file that the end of a call answers for: the size it was
  shown, or less where its read returned less than was asked for. -/
  observed : Nat := 0

/-- The bytes of the file; a file that does not exist has none. -/
def InboxFile.bytes (f : InboxFile) : List UInt8 := f.content.getD []

/-- The bridge's files by name. -/
abbrev Bridge := String → InboxFile

def Bridge.init : Bridge := fun _ => {}

/-! ## File names -/

/-- The text is matched by `.*` and the part, for every part in turn. -/
def matchesParts : List (List Char) → List Char → Bool
  | [], text => text = []
  | part :: parts, text =>
      (List.range (text.length + 1)).any fun k =>
        (text.take k).all (!isLineTerminator ·) && part.isPrefixOf (text.drop k) &&
          matchesParts parts ((text.drop k).drop part.length)

def matchesFileGlob (fileGlob name : String) : Bool :=
  match (PathText.segs '*' fileGlob).map String.toList with
  | [] | [_] => name = fileGlob
  | first :: parts =>
      first.isPrefixOf name.toList && matchesParts parts (name.toList.drop first.length)

/-! ## Events -/

inductive BridgeEvent
  | appended (name : String) (bytes : List UInt8)
  /-- `add` or `change`, for a reason or not. -/
  | watched (name : String)
  /-- The rescan finds the name in the inbox directory. -/
  | rescanned (name : String)
  | begun (name : String)
  | statted (name : String)
  | statFailed (name : String)
  /-- The read returns that many bytes. -/
  | read (name : String) (bytesRead : Nat)
  | readFailed (name : String)
  deriving Repr

def BridgeEvent.name : BridgeEvent → String
  | .appended name _ => name
  | .watched name => name
  | .rescanned name => name
  | .begun name => name
  | .statted name => name
  | .statFailed name => name
  | .read name _ => name
  | .readFailed name => name

namespace InboxFile

/-- `consumeTail` once the size is known. -/
def stat (f : InboxFile) : InboxFile :=
  match f.content with
  | none => { f with active := none, cursor := none }
  | some content =>
      let size := content.length
      let cursor := f.cursor.getD 0
      let cursor := if size < cursor then 0 else cursor
      if size = cursor then { f with active := none }
      else { f with active := some (.reading size cursor) }

/-- `consumeTail` once the bytes are read; none at all end the call. -/
def consume (f : InboxFile) (cursor bytesRead : Nat) : InboxFile :=
  if bytesRead = 0 then { f with active := none }
  else
    let slice := decode ((f.bytes.drop cursor).take bytesRead)
    let (consumedBytes, rows) := consumeLines slice.length slice
    { f with
      active := none
      cursor := some (cursor + consumedBytes)
      emitted := f.emitted ++ rows }

/-- A call that has ended answers for the file up to the place. -/
def ended (f : InboxFile) (place : Nat) : InboxFile :=
  if f.active = none then { f with observed := max f.observed place } else f

/-- One event of a file; `none` when it is not enabled. A read returns at most the
bytes asked for. -/
def step (fileGlob : String) (f : InboxFile) : BridgeEvent → Option InboxFile
  | .appended _ bytes => some { f with content := some (f.bytes ++ bytes) }
  | .watched _ => some { f with scheduled := f.scheduled + 1 }
  | .rescanned name =>
      if matchesFileGlob fileGlob name then some { f with scheduled := f.scheduled + 1 } else none
  | .begun _ =>
      if 0 < f.scheduled ∧ f.active = none then
        some { f with scheduled := f.scheduled - 1, active := some .started }
      else none
  | .statted _ =>
      if f.active = some .started then
        some (InboxFile.ended { f.stat with shown := f.bytes.length } f.bytes.length)
      else none
  | .statFailed _ => if f.active = some .started then some { f with active := none } else none
  | .read _ bytesRead =>
      match f.active with
      | some (.reading size cursor) =>
          if size - cursor < bytesRead then none
          else
            let place := if bytesRead = size - cursor then f.shown else cursor + bytesRead
            some ((f.consume cursor bytesRead).ended place)
      | _ => none
  | .readFailed _ =>
      match f.active with
      | some (.reading _ _) => some { f with active := none }
      | _ => none

end InboxFile

def Bridge.step (fileGlob : String) : Bridge → BridgeEvent → Option Bridge :=
  onComponent BridgeEvent.name (InboxFile.step fileGlob)

/-! ## What is promised -/

/-- The rows of the complete lines of a file. -/
def completeRows (bytes : List UInt8) : List String :=
  (completeLines 10 bytes).filterMap fun line => trimmedRow (decode line)

/-- The bytes of the complete lines, line feeds included. -/
def completeBytes (bytes : List UInt8) : Nat :=
  ((completeLines 10 bytes).map fun line => line.length + 1).sum

namespace InboxFile

/-- The rows passed to `emitRow` are the first ones of the file, they contain every
row that is complete in what a call that has ended was shown and could read, and the
cursor is not past the complete lines. -/
structure Exact (f : InboxFile) : Prop where
  inOrder : f.emitted <+: completeRows f.bytes
  covered : completeRows (f.bytes.take f.observed) <+: f.emitted
  cursor : f.cursor.getD 0 ≤ completeBytes f.bytes

/-- What is appended goes on with the file's text, which may be cut off anywhere. -/
def AppendsText (f : InboxFile) : BridgeEvent → Prop
  | .appended _ bytes => IsTextPrefix (f.bytes ++ bytes)
  | _ => True

end InboxFile

/-! ## Lines in bytes and in characters -/

theorem nextLine_eq_none {last : List Char} (free : '\n' ∉ last) : nextLine last = none := by
  induction last with
  | nil => rfl
  | cons c last ih =>
      rw [List.mem_cons, not_or] at free
      rw [nextLine, if_neg fun same => free.1 same.symm, ih free.2, Option.map_none]

theorem nextLine_append {line after : List Char} (free : '\n' ∉ line) :
    nextLine (line ++ '\n' :: after) = some (line, after) := by
  induction line with
  | nil => rfl
  | cons c line ih =>
      rw [List.mem_cons, not_or] at free
      rw [List.cons_append, nextLine, if_neg fun same => free.1 same.symm, ih free.2,
        Option.map_some]

/-- The lines in bytes. -/
theorem encode_unlines (lines : List (List Char)) :
    encode (unlines '\n' lines) = unlines 10 (lines.map encode) := by
  induction lines with
  | nil => rfl
  | cons line lines ih =>
      rw [unlines_cons, encode_append, encode_cons, encode_newline, ih, List.map_cons,
        unlines_cons, List.singleton_append]

theorem consumeLines_unlines_append {n : Nat} {lines : List (List Char)} {last : List Char}
    (free : ∀ line ∈ lines, '\n' ∉ line) (lastFree : '\n' ∉ last) (enough : lines.length ≤ n) :
    consumeLines n (unlines '\n' lines ++ last) =
      ((encode (unlines '\n' lines)).length, lines.filterMap trimmedRow) := by
  induction lines generalizing n with
  | nil =>
      cases n with
      | zero => rfl
      | succ n => rw [unlines, List.flatMap_nil, List.nil_append, consumeLines,
          nextLine_eq_none lastFree]; rfl
  | cons line lines ih =>
      obtain ⟨n, rfl⟩ : ∃ m, n = m + 1 := ⟨n - 1, by rw [List.length_cons] at enough; omega⟩
      rw [List.length_cons] at enough
      have tail : consumeLines n (unlines '\n' lines ++ last) = _ :=
        ih (fun l member => free l (List.mem_cons_of_mem _ member)) (Nat.le_of_succ_le_succ enough)
      rw [unlines_cons, List.append_assoc, List.cons_append, consumeLines,
        nextLine_append (free line List.mem_cons_self)]
      simp only [tail, encode_append, encode_cons, encode_newline, List.length_append,
        List.length_singleton, List.filterMap_cons, Prod.mk.injEq]
      refine ⟨by omega, ?_⟩
      cases trimmedRow line <;> rfl

/-- Complete lines in front of anything are read as they were written. -/
theorem completeLines_encode_append {lines : List (List Char)}
    (free : ∀ line ∈ lines, '\n' ∉ line) (rest : List UInt8) :
    completeLines 10 (encode (unlines '\n' lines) ++ rest) =
      lines.map encode ++ completeLines 10 rest := by
  rw [encode_unlines, completeLines_unlines_append]
  intro line member newline
  obtain ⟨chars, inside, rfl⟩ := List.mem_map.mp member
  exact free chars inside (newline_of_mem_encode newline)

theorem completeRows_encode_append {lines : List (List Char)}
    (free : ∀ line ∈ lines, '\n' ∉ line) (rest : List UInt8) :
    completeRows (encode (unlines '\n' lines) ++ rest) =
      lines.filterMap trimmedRow ++ completeRows rest := by
  rw [completeRows, completeLines_encode_append free, List.filterMap_append, List.filterMap_map,
    completeRows]
  refine congrArg (· ++ _) (List.filterMap_congr fun line _ => ?_)
  rw [Function.comp_apply, decode_encode]

theorem length_le_completeBytes {lines : List (List Char)}
    (free : ∀ line ∈ lines, '\n' ∉ line) (rest : List UInt8) :
    (encode (unlines '\n' lines)).length ≤
      completeBytes (encode (unlines '\n' lines) ++ rest) := by
  rw [completeBytes, completeLines_encode_append free, List.map_append, List.sum_append]
  refine le_trans (le_of_eq ?_) (Nat.le_add_right _ _)
  rw [encode_unlines]
  induction lines with
  | nil => rfl
  | cons line lines ih =>
      rw [List.map_cons, unlines_cons, List.map_cons, List.sum_cons, List.length_append,
        List.length_cons, ih fun l member => free l (List.mem_cons_of_mem _ member)]
      omega

theorem completeRows_of_not_mem {rest : List UInt8} (free : (10 : UInt8) ∉ rest) :
    completeRows rest = [] := by
  rw [completeRows, completeLines_of_not_mem free, List.filterMap_nil]

end Opensquid.AgentBridge
