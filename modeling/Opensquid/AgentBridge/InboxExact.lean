import Opensquid.AgentBridge.TransportBridge

/-!
# Every inbox row once and in order

The bytes below the cursor are complete lines, decoded exactly and all of them
emitted; what follows is again the beginning of a text. A read takes some of it:
whole characters and a rest without a line feed, so the lines it completes are
lines of the file and their encoded length is the number of bytes they take.
-/

namespace Opensquid.AgentBridge

open Opensquid.Lib Opensquid.Lib.Utf8 Opensquid.Lib.Lines

namespace InboxFile

/-- The bytes of the file are the consumed lines and a rest. -/
structure Consumed (f : InboxFile) (lines : List (List Char)) (rest : List UInt8) : Prop where
  free : ∀ line ∈ lines, '\n' ∉ line
  split : f.bytes = encode (unlines '\n' lines) ++ rest
  cursor : f.cursor.getD 0 = (encode (unlines '\n' lines)).length
  emitted : f.emitted = lines.filterMap trimmedRow

structure Inv (f : InboxFile) : Prop where
  text : IsTextPrefix f.bytes
  consumed : ∃ lines rest, f.Consumed lines rest
  covered : completeRows (f.bytes.take f.observed) <+: f.emitted
  seen : f.observed ≤ f.bytes.length
  reading : ∀ size cursor, f.active = some (.reading size cursor) →
    cursor = f.cursor.getD 0 ∧ cursor < size ∧ size = f.shown ∧ size ≤ f.bytes.length

theorem Inv.init : ({} : InboxFile).Inv where
  text := ⟨[], List.nil_prefix⟩
  consumed := ⟨[], [], nofun, rfl, rfl, rfl⟩
  covered := List.nil_prefix
  seen := le_rfl
  reading := nofun

variable {f : InboxFile}

theorem Inv.exact (inv : f.Inv) : f.Exact := by
  obtain ⟨lines, rest, consumed⟩ := inv.consumed
  refine ⟨?_, inv.covered, ?_⟩
  · rw [consumed.emitted, consumed.split, completeRows_encode_append consumed.free]
    exact List.prefix_append _ _
  · rw [consumed.cursor, consumed.split]
    exact length_le_completeBytes consumed.free rest

/-- The cursor stays within the file. -/
theorem Inv.cursor_le (inv : f.Inv) : f.cursor.getD 0 ≤ f.bytes.length := by
  obtain ⟨lines, rest, consumed⟩ := inv.consumed
  rw [consumed.cursor, consumed.split, List.length_append]
  exact Nat.le_add_right _ _

theorem Inv.appended (inv : f.Inv) {more : List UInt8} (text : IsTextPrefix (f.bytes ++ more)) :
    Inv { f with content := some (f.bytes ++ more) } where
  text := text
  consumed := by
    obtain ⟨lines, rest, consumed⟩ := inv.consumed
    refine ⟨lines, rest ++ more, consumed.free, ?_, consumed.cursor, consumed.emitted⟩
    rw [bytes, Option.getD_some, consumed.split, List.append_assoc]
  covered := by
    have within : (f.bytes ++ more).take f.observed = f.bytes.take f.observed :=
      List.take_append_of_le_length inv.seen
    simp only [bytes, Option.getD_some] at within ⊢
    rw [within]
    exact inv.covered
  seen := by
    simp only [bytes, Option.getD_some, List.length_append]
    exact inv.seen.trans (Nat.le_add_right _ _)
  reading size cursor active := by
    obtain ⟨same, unread, shown, small⟩ := inv.reading size cursor active
    simp only [bytes, Option.getD_some, List.length_append]
    exact ⟨same, unread, shown, small.trans (Nat.le_add_right _ _)⟩

/-- What concerns neither the file nor the cursor changes nothing, when no read is
begun. -/
theorem Inv.frame {g : InboxFile} (inv : f.Inv) (content : g.content = f.content)
    (cursor : g.cursor = f.cursor) (emitted : g.emitted = f.emitted)
    (observed : g.observed = f.observed) (active : g.active = f.active ∧ g.shown = f.shown ∨
      ∀ size cursor, g.active ≠ some (.reading size cursor)) : g.Inv := by
  have bytes : g.bytes = f.bytes := congrArg (·.getD []) content
  obtain ⟨lines, rest, consumed⟩ := inv.consumed
  refine ⟨bytes ▸ inv.text, ⟨lines, rest, consumed.free, ?_, ?_, ?_⟩, ?_, ?_, ?_⟩
  · rw [bytes, consumed.split]
  · rw [cursor, consumed.cursor]
  · rw [emitted, consumed.emitted]
  · rw [bytes, emitted, observed]
    exact inv.covered
  · rw [bytes, observed]
    exact inv.seen
  · intro size begun same
    rcases active with ⟨unchanged, shown⟩ | unread
    · rw [bytes, cursor, shown]
      exact inv.reading size begun (unchanged ▸ same)
    · exact absurd same (unread size begun)

/-- A call can end where the rows of the file have been emitted. -/
theorem Inv.ended (inv : f.Inv) {place : Nat} (inside : place ≤ f.bytes.length)
    (covered : f.active = none → completeRows (f.bytes.take place) <+: f.emitted) :
    (f.ended place).Inv := by
  unfold InboxFile.ended
  split
  · rename_i done
    obtain ⟨lines, rest, consumed⟩ := inv.consumed
    refine { inv with
      consumed := ⟨lines, rest, consumed.free, consumed.split, consumed.cursor, consumed.emitted⟩
      covered := ?_
      seen := Nat.max_le.mpr ⟨inv.seen, inside⟩ }
    change completeRows (f.bytes.take (max f.observed place)) <+: f.emitted
    rcases Nat.le_total f.observed place with further | behind
    · rw [Nat.max_eq_right further]
      exact covered done
    · rw [Nat.max_eq_left behind]
      exact inv.covered
  · exact inv

/-- The rows below the cursor have been emitted. -/
theorem Inv.covered_cursor (inv : f.Inv) :
    completeRows (f.bytes.take (f.cursor.getD 0)) <+: f.emitted := by
  obtain ⟨lines, rest, consumed⟩ := inv.consumed
  have rows := completeRows_encode_append consumed.free []
  rw [List.append_nil, completeRows_of_not_mem List.not_mem_nil, List.append_nil] at rows
  rw [consumed.cursor, consumed.split, List.take_left, rows, consumed.emitted]

theorem Inv.stat (inv : f.Inv) :
    (InboxFile.ended { f.stat with shown := f.bytes.length } f.bytes.length).Inv := by
  have inside := inv.cursor_le
  obtain ⟨lines, rest, consumed⟩ := inv.consumed
  simp only [InboxFile.stat]
  split
  · rename_i missing
    have empty : f.bytes = [] := by rw [bytes, missing, Option.getD_none]
    have zero : f.cursor.getD 0 = 0 := by
      rw [empty] at inside
      exact Nat.le_zero.mp inside
    have gone : Inv { f with active := none, cursor := none, shown := f.bytes.length } :=
      { inv with
        consumed := ⟨lines, rest, consumed.free, consumed.split, by
          rw [← consumed.cursor, zero]
          rfl, consumed.emitted⟩
        reading := nofun }
    refine gone.ended le_rfl fun _ => ?_
    change completeRows (f.bytes.take f.bytes.length) <+: f.emitted
    rw [empty]
    exact List.nil_prefix
  · rename_i content present
    have whole : f.bytes = content := by rw [bytes, present, Option.getD_some]
    rw [← whole, if_neg (Nat.not_lt.mpr inside)]
    split
    · rename_i all
      have idle : Inv { f with active := none, shown := f.bytes.length } :=
        inv.frame rfl rfl rfl rfl (.inr nofun)
      refine idle.ended le_rfl fun _ => ?_
      -- the whole file lies below the cursor, so all its rows have been emitted
      change completeRows (f.bytes.take f.bytes.length) <+: f.emitted
      rw [all]
      exact inv.covered_cursor
    · rename_i more
      have begun : Inv { f with
          active := some (.reading f.bytes.length (f.cursor.getD 0)), shown := f.bytes.length } := {
        text := inv.text
        consumed := ⟨lines, rest, consumed.free, consumed.split, consumed.cursor, consumed.emitted⟩
        covered := inv.covered
        seen := inv.seen
        reading := fun size cursor same => by
          cases same
          exact ⟨rfl, by omega, rfl, le_rfl⟩ }
      exact begun.ended le_rfl nofun

/-- The bytes of a read, in whole lines and a rest without a line feed. -/
theorem exists_lines_of_slice {rest : List UInt8} (text : IsTextPrefix rest) (count : Nat) :
    ∃ more tail, rest.take count = encode (unlines '\n' more) ++ tail ∧
      (∀ line ∈ more, '\n' ∉ line) ∧ (10 : UInt8) ∉ tail ∧
      consumeLines (decode (rest.take count)).length (decode (rest.take count)) =
        ((encode (unlines '\n' more)).length, more.filterMap trimmedRow) := by
  obtain ⟨chars, cut, slice, cutFree⟩ := (text.of_prefix (List.take_prefix count rest)).split
  obtain ⟨decoded, same, decodedFree⟩ := decode_encode_append chars cutFree
  obtain ⟨more, last, rfl, free, lastFree⟩ := @exists_unlines_append _ _ '\n' chars
  refine ⟨more, encode last ++ cut, ?_, free, ?_, ?_⟩
  · rw [slice, encode_append, List.append_assoc]
  · intro newline
    rcases List.mem_append.mp newline with early | late
    · exact lastFree (newline_of_mem_encode early)
    · exact cutFree late
  · rw [slice, same, List.append_assoc]
    refine consumeLines_unlines_append free ?_ ?_
    · intro newline
      rcases List.mem_append.mp newline with early | late
      · exact lastFree early
      · exact decodedFree late
    · rw [List.length_append]
      exact (length_le_length_unlines more).trans (Nat.le_add_right _ _)

/-- A read goes on with the lines, and emits the rows of what it has taken. -/
theorem Inv.consume (inv : f.Inv) {size cursor bytesRead : Nat}
    (active : f.active = some (.reading size cursor)) (within : bytesRead ≤ size - cursor) :
    (f.consume cursor bytesRead).Inv ∧
      completeRows (f.bytes.take (cursor + bytesRead)) <+: (f.consume cursor bytesRead).emitted := by
  obtain ⟨rfl, unread, _, small⟩ := inv.reading size cursor active
  obtain ⟨lines, rest, consumed⟩ := inv.consumed
  unfold InboxFile.consume
  split
  · rename_i none
    rw [none, Nat.add_zero]
    exact ⟨inv.frame rfl rfl rfl rfl (.inr nofun), inv.covered_cursor⟩
  · have start : f.bytes.drop (f.cursor.getD 0) = rest := by
      rw [consumed.cursor, consumed.split, List.drop_left]
    have text : IsTextPrefix rest := (consumed.split ▸ inv.text).cancel
    obtain ⟨more, tail, slice, free, tailFree, loop⟩ := exists_lines_of_slice text bytesRead
    have allFree : ∀ line ∈ lines ++ more, '\n' ∉ line := fun line member =>
      (List.mem_append.mp member).elim (consumed.free line) (free line)
    have rows : (lines ++ more).filterMap trimmedRow = f.emitted ++ more.filterMap trimmedRow := by
      rw [List.filterMap_append, ← consumed.emitted]
    simp only [start, loop]
    refine ⟨{ inv with consumed := ?_, covered := ?_, reading := nofun }, ?_⟩
    · refine ⟨lines ++ more, tail ++ rest.drop bytesRead, allFree, ?_, ?_, rows.symm⟩
      · have whole := List.take_append_drop bytesRead rest
        rw [slice] at whole
        change f.bytes = _
        rw [consumed.split, unlines_append, encode_append, List.append_assoc,
          ← List.append_assoc _ tail, whole]
      · rw [Option.getD_some, consumed.cursor, unlines_append, encode_append, List.length_append]
    · exact inv.covered.trans (List.prefix_append _ _)
    · have seen : f.bytes.take (f.cursor.getD 0 + bytesRead) =
          encode (unlines '\n' (lines ++ more)) ++ tail := by
        rw [List.take_add, start, slice, consumed.cursor, consumed.split, List.take_left,
          unlines_append, encode_append, List.append_assoc]
      rw [seen, completeRows_encode_append allFree, completeRows_of_not_mem tailFree,
        List.append_nil, rows]

theorem bytes_consume (f : InboxFile) (cursor bytesRead : Nat) :
    (f.consume cursor bytesRead).bytes = f.bytes := by
  unfold InboxFile.consume
  split <;> rfl

theorem Inv.step {fileGlob : String} {g : InboxFile} {e : BridgeEvent} (inv : f.Inv)
    (text : f.AppendsText e) (fire : f.step fileGlob e = some g) : g.Inv := by
  cases e with
  | appended name bytes =>
      cases fire
      exact inv.appended text
  | watched name =>
      cases fire
      exact inv.frame rfl rfl rfl rfl (.inl ⟨rfl, rfl⟩)
  | rescanned name =>
      simp only [InboxFile.step] at fire
      split at fire <;> cases fire
      exact inv.frame rfl rfl rfl rfl (.inl ⟨rfl, rfl⟩)
  | begun name =>
      simp only [InboxFile.step] at fire
      split at fire <;> cases fire
      exact inv.frame rfl rfl rfl rfl (.inr nofun)
  | statted name =>
      simp only [InboxFile.step] at fire
      split at fire <;> cases fire
      exact inv.stat
  | statFailed name =>
      simp only [InboxFile.step] at fire
      split at fire <;> cases fire
      exact inv.frame rfl rfl rfl rfl (.inr nofun)
  | read name bytesRead =>
      simp only [InboxFile.step] at fire
      split at fire
      · rename_i size cursor active
        split at fire <;> cases fire
        rename_i fits
        obtain ⟨_, unread, shown, small⟩ := inv.reading size cursor active
        obtain ⟨next, covered⟩ := inv.consume active (Nat.le_of_not_lt fits)
        -- a read of all the bytes asked for reaches the size that was shown
        have place : (if bytesRead = size - cursor then f.shown else cursor + bytesRead) =
            cursor + bytesRead := by
          split <;> omega
        rw [place]
        refine next.ended ?_ fun _ => ?_
        · rw [bytes_consume]
          omega
        · rw [bytes_consume]
          exact covered
      · cases fire
  | readFailed name =>
      simp only [InboxFile.step] at fire
      split at fire <;> cases fire
      exact inv.frame rfl rfl rfl rfl (.inr nofun)

end InboxFile

/-! ## Every run -/

/-- What an event appends goes on with the text of its file. -/
def AppendsText (s : Bridge) (e : BridgeEvent) : Prop := (s e.name).AppendsText e

/-- A row and the beginning of the next one are appended in two pieces that cut a
character; a watcher event comes too early, a rescan finds the rest. -/
def tornRow : List BridgeEvent :=
  [.appended "telegram.jsonl" [0x68, 0xe2], .watched "telegram.jsonl",
    .begun "telegram.jsonl", .statted "telegram.jsonl", .read "telegram.jsonl" 2,
    .appended "telegram.jsonl" [0x82, 0xac, 0x0a, 0x20], .rescanned "telegram.jsonl",
    .begun "telegram.jsonl", .statted "telegram.jsonl", .read "telegram.jsonl" 6]

/-- Files grow to this row and the beginning of the next one. -/
def growsToRow (s : Bridge) : BridgeEvent → Bool
  | .appended name bytes => ((s name).bytes ++ bytes).isPrefixOf (encode "h€\n ".toList)
  | _ => true

end Opensquid.AgentBridge
