import Opensquid.AgentBridge.Dispatcher
import Opensquid.Lib.JsonFields
import Opensquid.Lib.JsonParse
import Opensquid.Lib.Lines
import Opensquid.Lib.Whitespace

/-!
# The history file of a session

One file for each session, one row for each entry of its history. Entries are appended as JSON
without their `cacheMark`; `loadHistory` reads the rows that are JSON and fit the schema.
`historyOf_payload` says that what is appended is what is read. Whether a text is a date with its
time and offset is a parameter.
-/

namespace Opensquid.AgentBridge

open Opensquid.Lib
open Opensquid.Lib.Json (field asString stringField nonempty)

/-! ## File names -/

/-- `[A-Za-z0-9_-]`. -/
def isSafe (c : Char) : Bool := c.isAlphanum || c = '_' || c = '-'

/-- A colon becomes two underscores, every other code unit outside of the class one. -/
def encodeChar (c : Char) : List Char :=
  if c = ':' then ['_', '_'] else if isSafe c then [c]
  else if c.val < 0x10000 then ['_'] else ['_', '_']

def encodeSessionSlug (slug : String) : String := String.ofList (slug.toList.flatMap encodeChar)

/-- The file below the root. -/
def pathFor (slug : String) : String := encodeSessionSlug slug ++ ".jsonl"

def SessionKey.path (key : SessionKey) : String := pathFor (sessionKeyString key)

/-! ## Entries -/

inductive ChatRole
  | user
  | assistant
  deriving DecidableEq, Repr

def ChatRole.text : ChatRole → String
  | user => "user"
  | assistant => "assistant"

inductive ContentBlock
  | text (text : String)
  | toolUse (id name : String) (input : Option Json)
  | toolResult (toolUseId content : String)

structure ChatHistoryEntry where
  role : ChatRole
  content : List ContentBlock
  timestamp : String
  cacheMark : Option Bool := none

def stripCacheMark (entry : ChatHistoryEntry) : ChatHistoryEntry := { entry with cacheMark := none }

def ContentBlock.toJson : ContentBlock → Json
  | .text value => .obj [("type", .str "text"), ("text", .str value)]
  | .toolUse id name none => .obj [("type", .str "tool_use"), ("id", .str id), ("name", .str name)]
  | .toolUse id name (some input) =>
      .obj [("type", .str "tool_use"), ("id", .str id), ("name", .str name), ("input", input)]
  | .toolResult toolUseId content =>
      .obj [("type", .str "tool_result"), ("tool_use_id", .str toolUseId), ("content", .str content)]

/-- What is written of an entry. -/
def ChatHistoryEntry.toJson (entry : ChatHistoryEntry) : Json :=
  .obj [("role", .str entry.role.text), ("content", .arr (entry.content.map (·.toJson))),
    ("timestamp", .str entry.timestamp)]

/-! ## The schema -/

def chatHistoryContentBlockSchema : Json → Option ContentBlock
  | .obj fields => do
      let type ← stringField fields "type"
      if type = "text" then return .text (← stringField fields "text")
      else if type = "tool_use" then
        return .toolUse (← nonempty fields "id") (← nonempty fields "name") (field fields "input")
      else if type = "tool_result" then
        return .toolResult (← nonempty fields "tool_use_id") (← stringField fields "content")
      else none
  | _ => none

def roleSchema (text : String) : Option ChatRole :=
  if text = "user" then some .user else if text = "assistant" then some .assistant else none

def contentSchema : Json → Option (List ContentBlock)
  | .arr items => items.mapM chatHistoryContentBlockSchema
  | _ => none

def cacheMarkSchema : Option Json → Option (Option Bool)
  | none => some none
  | some (.bool mark) => some (some mark)
  | some _ => none

section

variable (isDatetime : String → Bool)

def chatHistoryEntrySchema : Json → Option ChatHistoryEntry
  | .obj fields => do
      let role ← (stringField fields "role").bind roleSchema
      let content ← (field fields "content").bind contentSchema
      let timestamp ← (stringField fields "timestamp").filter isDatetime
      let cacheMark ← cacheMarkSchema (field fields "cacheMark")
      return { role, content, timestamp, cacheMark }
  | _ => none

/-- A row of the file; a blank one and one that does not fit are skipped. -/
def readRow (rawLine : List Char) : Option ChatHistoryEntry :=
  let line := trim rawLine
  if line = [] then none else (Json.parse line).bind (chatHistoryEntrySchema isDatetime)

/-- `loadHistory` on the text of the file; a file that does not exist has none. -/
def historyOf : Option (List Char) → List ChatHistoryEntry
  | none => []
  | some raw => (raw.splitOn '\n').filterMap (readRow isDatetime)

end

/-- What `appendEntries` appends for some entries. -/
def payload (entries : List ChatHistoryEntry) : List Char :=
  ['\n'].intercalate (entries.map (·.toJson.stringify)) ++ ['\n']

/-! ## What is appended is read -/

def ContentBlock.Valid : ContentBlock → Prop
  | .text _ => True
  | .toolUse id name input => id ≠ "" ∧ name ≠ "" ∧ ∀ j ∈ input, j.Valid
  | .toolResult toolUseId _ => toolUseId ≠ ""

/-- The schema accepts the entry. -/
structure ChatHistoryEntry.Valid (isDatetime : String → Bool) (entry : ChatHistoryEntry) : Prop where
  content : ∀ block ∈ entry.content, block.Valid
  timestamp : isDatetime entry.timestamp = true

section

variable {isDatetime : String → Bool} {entry : ChatHistoryEntry} {entries : List ChatHistoryEntry}

theorem ContentBlock.schema_toJson {block : ContentBlock} (valid : block.Valid) :
    chatHistoryContentBlockSchema block.toJson = some block := by
  cases block with
  | text value => rfl
  | toolUse id name input =>
      obtain ⟨some_id, some_name, -⟩ := valid
      cases input with
      | none => simp [toJson, chatHistoryContentBlockSchema, nonempty, stringField, field, asString,
          List.lookup_cons, Option.filter, some_id, some_name]
      | some input => simp [toJson, chatHistoryContentBlockSchema, nonempty, stringField, field,
          asString, List.lookup_cons, Option.filter, some_id, some_name]
  | toolResult toolUseId content =>
      have some_id : toolUseId ≠ "" := valid
      simp [toJson, chatHistoryContentBlockSchema, nonempty, stringField, field, asString,
        List.lookup_cons, Option.filter, some_id]

theorem contentSchema_toJson {blocks : List ContentBlock} (valid : ∀ block ∈ blocks, block.Valid) :
    contentSchema (.arr (blocks.map (·.toJson))) = some blocks := by
  change (blocks.map (·.toJson)).mapM chatHistoryContentBlockSchema = some blocks
  induction blocks with
  | nil => rfl
  | cons block blocks ih =>
      obtain ⟨here, others⟩ := List.forall_mem_cons.mp valid
      rw [List.map_cons, List.mapM_cons, ContentBlock.schema_toJson here]
      dsimp only [bind, Option.bind]
      rw [ih others]
      rfl

theorem ChatHistoryEntry.schema_toJson (valid : entry.Valid isDatetime) :
    chatHistoryEntrySchema isDatetime entry.toJson = some (stripCacheMark entry) := by
  have role : roleSchema entry.role.text = some entry.role := by cases entry.role <;> rfl
  have content := contentSchema_toJson valid.content
  simp [toJson, chatHistoryEntrySchema, stringField, field, asString, List.lookup_cons, role, content,
    Option.filter, valid.timestamp, cacheMarkSchema, stripCacheMark]

theorem ContentBlock.toJson_valid {block : ContentBlock} (valid : block.Valid) :
    block.toJson.Valid := by
  cases block with
  | text value => exact ⟨trivial, trivial, trivial⟩
  | toolUse id name input =>
      cases input with
      | none => exact ⟨trivial, trivial, trivial, trivial⟩
      | some input => exact ⟨trivial, trivial, trivial, valid.2.2 input rfl, trivial⟩
  | toolResult toolUseId content => exact ⟨trivial, trivial, trivial, trivial⟩

theorem ChatHistoryEntry.toJson_valid (valid : entry.Valid isDatetime) : entry.toJson.Valid := by
  have items : ∀ blocks : List ContentBlock, (∀ block ∈ blocks, block.Valid) →
      Json.ValidItems (blocks.map (·.toJson)) := fun blocks valid => by
    induction blocks with
    | nil => trivial
    | cons block blocks ih =>
        obtain ⟨here, others⟩ := List.forall_mem_cons.mp valid
        exact ⟨ContentBlock.toJson_valid here, ih others⟩
  exact ⟨trivial, items _ valid.content, trivial, trivial⟩

theorem newline_not_mem_row (valid : entry.Valid isDatetime) : '\n' ∉ entry.toJson.stringify :=
  Json.newline_not_mem_stringify _ (ChatHistoryEntry.toJson_valid valid).wf

theorem getLast?_moreFields (front : List Char) (fields : List (String × Json)) :
    (front ++ Json.moreFields fields).getLast? = some '\x7d' := by
  induction fields generalizing front with
  | nil => exact List.getLast?_concat
  | cons field fields ih =>
      obtain ⟨key, j⟩ := field
      rw [Json.moreFields, ← List.cons_append, ← List.cons_append, ← List.append_assoc,
        ← List.append_assoc]
      exact ih _

/-- A row has no white space around it. -/
theorem trim_row : trim entry.toJson.stringify = entry.toJson.stringify := by
  have last : entry.toJson.stringify.getLast? = some '\x7d' := by
    rw [ChatHistoryEntry.toJson, Json.stringify, ← List.cons_append, ← List.cons_append,
      ← List.append_assoc]
    exact getLast?_moreFields _ _
  refine trim_eq_self ?_ ?_
  · rintro _ ⟨⟩
    rfl
  · rw [last]
    rintro _ ⟨⟩
    rfl

theorem readRow_row (valid : entry.Valid isDatetime) :
    readRow isDatetime entry.toJson.stringify = some (stripCacheMark entry) := by
  have some_char : entry.toJson.stringify ≠ [] := List.cons_ne_nil _ _
  rw [readRow, trim_row]
  rw [if_neg some_char, Json.parse_stringify (ChatHistoryEntry.toJson_valid valid), Option.bind_some,
    ChatHistoryEntry.schema_toJson valid]

/-- The rows of some entries. -/
def fileText (entries : List ChatHistoryEntry) : List Char :=
  Lines.unlines '\n' (entries.map (·.toJson.stringify))

theorem fileText_append (entries more : List ChatHistoryEntry) :
    fileText (entries ++ more) = fileText entries ++ fileText more := by
  rw [fileText, List.map_append, Lines.unlines_append, ← fileText, ← fileText]

theorem payload_eq (some_entry : entries ≠ []) : payload entries = fileText entries := by
  rw [payload, fileText]
  induction entries with
  | nil => exact absurd rfl some_entry
  | cons entry entries ih =>
      rw [List.map_cons, Lines.unlines_cons]
      cases entries with
      | nil => simp [Lines.unlines]
      | cons next entries =>
          rw [← ih (List.cons_ne_nil _ _), List.map_cons, List.intercalate_cons_cons]
          simp

/-- What is appended is what is read, up to `cacheMark`. -/
theorem historyOf_fileText (valid : ∀ entry ∈ entries, entry.Valid isDatetime) :
    historyOf isDatetime (some (fileText entries)) = entries.map stripCacheMark := by
  have free : ∀ line ∈ entries.map (·.toJson.stringify), '\n' ∉ line := by
    intro line mem
    obtain ⟨entry, here, rfl⟩ := List.mem_map.mp mem
    exact newline_not_mem_row (valid entry here)
  rw [historyOf, fileText, Lines.splitOn_unlines free, List.filterMap_append]
  have blank : [[]].filterMap (readRow isDatetime) = [] := rfl
  rw [blank, List.append_nil, List.filterMap_map]
  refine (List.filterMap_congr fun entry mem => readRow_row (valid entry mem)).trans ?_
  exact congrFun List.filterMap_eq_map entries

end

end Opensquid.AgentBridge
