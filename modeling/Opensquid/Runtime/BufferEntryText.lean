import Mathlib.Data.List.DropRight
import Mathlib.Logic.Function.Basic
import Opensquid.Lib.FrontMatter
import Opensquid.Lib.PathText
import Opensquid.Lib.Scan

/-!
# The text of a buffer entry

An entry is a file with front matter: five fields, the last one a block of indented lines, and the
body. Both free texts may contain anything; `parseEntry` looks for the closing fence from the left
and cannot take a line of the block for it. What is written is read back (`parseEntry_entryText`).
-/

namespace Opensquid.AutomationBuffer

open Opensquid.Lib Opensquid.Lib.FrontMatter Opensquid.Lib.Lines

inductive BufferCategory
  | potentialLessons
  | keepAsContext
  | preferences
  | newRagPointers
  deriving DecidableEq, Repr

def BufferCategory.text : BufferCategory → String
  | .potentialLessons => "potential-lessons"
  | .keepAsContext => "keep-as-context"
  | .preferences => "preferences"
  | .newRagPointers => "new-rag-pointers"

/-- The order of the walk. -/
def CATEGORY_ORDER : List BufferCategory :=
  [.potentialLessons, .keepAsContext, .preferences, .newRagPointers]

structure Frontmatter (ν : Type) where
  timestamp : String
  proposedCategory : String
  sourceContext : String
  confidence : ν

structure BufferEntry (ν : Type) where
  id : String
  category : BufferCategory
  body : String
  frontmatter : Frontmatter ν

/-! ## Lines -/

def emptySentinel : List Char := ['\x27', '\x27']

def blockSentinel : List Char := ['|', '-']

/-- A text that a field holds as it is: one line, without white space around it, no sentinel. -/
structure Plain (text : List Char) : Prop where
  oneLine : text.any isLineTerminator = false
  first : text.head?.any isSpace = false
  last : text.getLast?.any isSpace = false
  notEmptySentinel : text ≠ emptySentinel
  notBlockSentinel : text ≠ blockSentinel

theorem plain_iff {text : List Char} : Plain text ↔ text.any isLineTerminator = false ∧
    text.head?.any isSpace = false ∧ text.getLast?.any isSpace = false ∧
      text ≠ emptySentinel ∧ text ≠ blockSentinel :=
  ⟨fun ⟨a, b, c, d, e⟩ => ⟨a, b, c, d, e⟩, fun ⟨a, b, c, d, e⟩ => ⟨a, b, c, d, e⟩⟩

instance (text : List Char) : Decidable (Plain text) := decidable_of_iff _ plain_iff.symm

/-- How the engine prints a number and reads one. -/
structure Numbers (ν : Type) where
  print : ν → List Char
  read : List Char → ν
  zero : ν
  Finite : ν → Prop
  plain : ∀ n, Finite n → Plain (print n)
  read_print : ∀ n, Finite n → read (print n) = n

/-- `lines.join('\n')`. -/
def joinLines (lines : List (List Char)) : List Char := ['\n'].intercalate lines

/-- `key: text`. -/
def fieldLine (key : String) (text : List Char) : List Char := key.toList ++ ':' :: ' ' :: text

def indent (line : List Char) : List Char := ' ' :: ' ' :: line

def ctxBlock (sourceContext : List Char) : List Char :=
  if sourceContext = [] then emptySentinel
  else blockSentinel ++ '\n' :: joinLines ((sourceContext.splitOn '\n').map indent)

section

variable {ν : Type} (numbers : Numbers ν)

/-- What `appendBufferEntry` writes. -/
def entryText (entry : BufferEntry ν) : List Char :=
  joinLines [fenceLine,
    fieldLine "id" entry.id.toList,
    fieldLine "timestamp" entry.frontmatter.timestamp.toList,
    fieldLine "proposedCategory" entry.frontmatter.proposedCategory.toList,
    fieldLine "confidence" (numbers.print entry.frontmatter.confidence),
    fieldLine "sourceContext" (ctxBlock entry.frontmatter.sourceContext.toList),
    fenceLine, [], entry.body.toList, []]

/-! ## Reading -/

/-- `/^(\w+):\s*(.*)$/`: the key and the value of a line. -/
def keyValue (line : List Char) : Option (List Char × List Char) :=
  match line.takeWhile isWordChar, line.dropWhile isWordChar with
  | c :: key, ':' :: rest =>
      let value := rest.dropWhile isSpace
      if value.any isLineTerminator then none else some (c :: key, value)
  | _, _ => none

/-- A line that the block goes on with. -/
def inBlock (line : List Char) : Bool := [' ', ' '].isPrefixOf line || line.isEmpty

/-- The text of a block; its last lines are not empty. -/
def blockText (lines : List (List Char)) : List Char :=
  joinLines ((lines.map fun line => line.drop 2).rdropWhile List.isEmpty)

abbrev Fields := String → Option (List Char)

/-- The loop over the lines of the header. The lines of a block are read at its key and passed over
then; `skip` are left. -/
def readFields : Nat → Fields → List (List Char) → Fields
  | _, fm, [] => fm
  | skip + 1, fm, _ :: rest => readFields skip fm rest
  | 0, fm, line :: rest =>
      match keyValue line with
      | none => readFields 0 fm rest
      | some (key, value) =>
          let rawVal := trim value
          if rawVal = emptySentinel then
            readFields 0 (Function.update fm (String.ofList key) (some [])) rest
          else if rawVal = blockSentinel then
            let block := rest.takeWhile inBlock
            readFields block.length
              (Function.update fm (String.ofList key) (some (blockText block))) rest
          else readFields 0 (Function.update fm (String.ofList key) (some rawVal)) rest

/-- `/^---\n([\s\S]*?)\n---\n\n?([\s\S]*)$/`: the lines of the header and the body. -/
def matchEntry (raw : List Char) : Option (List Char × List Char) :=
  (unfence raw).map fun (header, rest) =>
    (header.dropLast, if rest.head? = some '\n' then rest.tail else rest)

def parseEntry (raw : List Char) (category : BufferCategory) : BufferEntry ν :=
  let (fmText, rest) := (matchEntry raw).getD ([], [])
  let fm := readFields 0 (fun _ => none) (fmText.splitOn '\n')
  { id := String.ofList ((fm "id").getD "unknown".toList)
    category
    body := String.ofList (rest.rdropWhile (· = '\n'))
    frontmatter :=
      { timestamp := String.ofList ((fm "timestamp").getD [])
        proposedCategory := String.ofList ((fm "proposedCategory").getD category.text.toList)
        sourceContext := String.ofList ((fm "sourceContext").getD [])
        confidence := ((fm "confidence").map numbers.read).getD numbers.zero } }

/-! ## Lines that are read back -/

theorem solid_of_any {first : Option Char} (none : first.any isSpace = false) :
    ∀ c ∈ first, isSpace c = false := by
  intro c mem
  rw [Option.mem_def.mp mem] at none
  exact none

theorem keyValue_fieldLine {key : String} {text : List Char} (word : key.toList.all isWordChar = true)
    (nonempty : key.toList ≠ []) (oneLine : text.any isLineTerminator = false)
    (first : text.head?.any isSpace = false) :
    keyValue (fieldLine key text) = some (key.toList, text) := by
  obtain ⟨c, more, split⟩ := List.exists_cons_of_ne_nil nonempty
  have word := List.all_eq_true.mp word
  have colon : isWordChar ':' = false := by decide
  have blank : isSpace ' ' = true := by decide
  have front : (fieldLine key text).takeWhile isWordChar = c :: more := by
    rw [fieldLine, List.takeWhile_append_of_pos word, List.takeWhile_cons_of_neg (by simp [colon]),
      List.append_nil, split]
  have back : (fieldLine key text).dropWhile isWordChar = ':' :: ' ' :: text := by
    rw [fieldLine, List.dropWhile_append_of_pos word, List.dropWhile_cons_of_neg (by simp [colon])]
  have value : (' ' :: text).dropWhile isSpace = text := by
    rw [List.dropWhile_cons_of_pos blank, dropWhile_isSpace_eq_self (solid_of_any first)]
  unfold keyValue
  rw [front, back, split]
  simp [value, oneLine]

/-- A plain text is the value of its field. -/
theorem readFields_plain {key : String} {text : List Char} {fm : Fields} {rest : List (List Char)}
    (word : key.toList.all isWordChar = true) (nonempty : key.toList ≠ []) (plain : Plain text) :
    readFields 0 fm (fieldLine key text :: rest) =
      readFields 0 (Function.update fm key (some text)) rest := by
  rw [readFields, keyValue_fieldLine word nonempty plain.oneLine plain.first]
  simp [trim_eq_self (solid_of_any plain.first) (solid_of_any plain.last), plain.notEmptySentinel,
    plain.notBlockSentinel]

theorem readFields_empty {key : String} {fm : Fields} {rest : List (List Char)}
    (word : key.toList.all isWordChar = true) (nonempty : key.toList ≠ []) :
    readFields 0 fm (fieldLine key emptySentinel :: rest) =
      readFields 0 (Function.update fm key (some [])) rest := by
  rw [readFields, keyValue_fieldLine word nonempty (by decide) (by decide)]
  have same : trim emptySentinel = emptySentinel := by decide
  simp [same]

theorem readFields_skip (fm : Fields) (lines rest : List (List Char)) :
    readFields lines.length fm (lines ++ rest) = readFields 0 fm rest := by
  induction lines with
  | nil => rfl
  | cons line lines ih => rw [List.length_cons, List.cons_append, readFields, ih]

/-- A block at the end of the header is the value of its field. -/
theorem readFields_block {key : String} {fm : Fields} {lines : List (List Char)}
    (word : key.toList.all isWordChar = true) (nonempty : key.toList ≠ [])
    (block : ∀ line ∈ lines, inBlock line = true) :
    readFields 0 fm (fieldLine key blockSentinel :: lines) =
      Function.update fm key (some (blockText lines)) := by
  have same : trim blockSentinel = blockSentinel := by decide
  have other : blockSentinel ≠ emptySentinel := by decide
  have all : lines.takeWhile inBlock = lines := List.takeWhile_eq_self_iff.mpr block
  rw [readFields, keyValue_fieldLine word nonempty (by decide) (by decide)]
  have skipped := readFields_skip (Function.update fm key (some (blockText lines))) lines []
  rw [List.append_nil] at skipped
  simp [same, other, all, skipped, readFields]

theorem inBlock_indent (line : List Char) : inBlock (indent line) = true := by
  simp [inBlock, indent]

/-- The lines of a text that does not end with a line feed come back out of the block. -/
theorem blockText_indent {text : List Char} (some : text ≠ []) (last : text.getLast? ≠ .some '\n') :
    blockText ((text.splitOn '\n').map indent) = text := by
  have lines : (text.splitOn '\n').map (fun line => (indent line).drop 2) = text.splitOn '\n' :=
    List.map_id' _
  have closed : (text.splitOn '\n').rdropWhile List.isEmpty = text.splitOn '\n' := by
    obtain ⟨front, back, same, free, backFree⟩ := @exists_unlines_append _ _ '\n' text
    have backSome : back ≠ [] := by
      intro none
      rw [none, List.append_nil] at same
      have frontSome : front ≠ [] := by
        intro none
        exact some (by rw [same, none]; rfl)
      exact last (by rw [same, unlines_eq_intercalate frontSome, List.getLast?_concat])
    rw [same, splitOn_unlines_append free backFree]
    exact List.rdropWhile_concat_neg _ _ _ (by simpa using backSome)
  rw [blockText, List.map_map, Function.comp_def, lines, closed, joinLines, List.intercalate_splitOn]

/-! ## Entries that are read back -/

/-- The lines of the field that holds the context. -/
def ctxLines (sourceContext : List Char) : List (List Char) :=
  if sourceContext = [] then [fieldLine "sourceContext" emptySentinel]
  else fieldLine "sourceContext" blockSentinel :: (sourceContext.splitOn '\n').map indent

def headerLines (entry : BufferEntry ν) : List (List Char) :=
  fieldLine "id" entry.id.toList ::
    fieldLine "timestamp" entry.frontmatter.timestamp.toList ::
    fieldLine "proposedCategory" entry.frontmatter.proposedCategory.toList ::
    fieldLine "confidence" (numbers.print entry.frontmatter.confidence) ::
    ctxLines entry.frontmatter.sourceContext.toList

theorem joinLines_ctxLines (sourceContext : List Char) :
    joinLines (ctxLines sourceContext) = fieldLine "sourceContext" (ctxBlock sourceContext) := by
  unfold ctxLines ctxBlock
  split
  · simp [joinLines]
  · obtain ⟨line, lines, split⟩ := List.exists_cons_of_ne_nil (List.splitOn_ne_nil '\n' sourceContext)
    simp [split, joinLines, fieldLine, List.intercalate_cons_cons]

theorem entryText_eq (entry : BufferEntry ν) :
    entryText numbers entry = fence (unlines '\n' (headerLines numbers entry))
      ('\n' :: (entry.body.toList ++ ['\n'])) := by
  have some : ctxLines entry.frontmatter.sourceContext.toList ≠ [] := by
    unfold ctxLines
    split <;> simp
  have joined := joinLines_ctxLines entry.frontmatter.sourceContext.toList
  rw [joinLines] at joined
  simp only [headerLines, unlines_cons, unlines_eq_intercalate some, joined]
  simp [entryText, joinLines, fence, List.intercalate_cons_cons]

/-- What an entry holds that comes back. -/
structure Storable (entry : BufferEntry ν) : Prop where
  id : Plain entry.id.toList
  timestamp : Plain entry.frontmatter.timestamp.toList
  proposedCategory : Plain entry.frontmatter.proposedCategory.toList
  confidence : numbers.Finite entry.frontmatter.confidence
  sourceContext : entry.frontmatter.sourceContext.toList.getLast? ≠ some '\n'
  body : entry.body.toList.getLast? ≠ some '\n'

variable {numbers} {entry : BufferEntry ν}

theorem not_newline_of_plain {text : List Char} (plain : Plain text) : '\n' ∉ text := by
  intro mem
  have ends := List.any_eq_false.mp plain.oneLine '\n' mem
  exact ends (by decide)

theorem newline_not_mem_fieldLine {key : String} {text : List Char} (word : '\n' ∉ key.toList)
    (free : '\n' ∉ text) : '\n' ∉ fieldLine key text := by
  simp [fieldLine, word, free]

theorem headerLines_ne_nil : headerLines numbers entry ≠ [] := List.cons_ne_nil _ _

/-- The lines of the header are lines, and no fences. -/
theorem free_of_mem_headerLines (storable : Storable numbers entry) :
    ∀ line ∈ headerLines numbers entry, '\n' ∉ line ∧ line ≠ fenceLine := by
  have field : ∀ {key : String} {text : List Char}, '\n' ∉ key.toList → key.toList.head? ≠ some '-' →
      key.toList ≠ [] → '\n' ∉ text → '\n' ∉ fieldLine key text ∧ fieldLine key text ≠ fenceLine := by
    intro key text word other nonempty free
    refine ⟨newline_not_mem_fieldLine word free, fun same => other ?_⟩
    have first := congrArg List.head? same
    rwa [fieldLine, List.head?_append_of_ne_nil _ nonempty] at first
  have context : ∀ line ∈ ctxLines entry.frontmatter.sourceContext.toList,
      '\n' ∉ line ∧ line ≠ fenceLine := by
    intro line mem
    unfold ctxLines at mem
    split at mem
    · rw [List.mem_singleton.mp mem]
      exact field (by decide) (by decide) (by decide) (by decide)
    · rcases List.mem_cons.mp mem with rfl | inside
      · exact field (by decide) (by decide) (by decide) (by decide)
      · obtain ⟨piece, member, rfl⟩ := List.mem_map.mp inside
        have free := PathText.not_mem_of_mem_splitOn member
        refine ⟨?_, by simp [indent, fenceLine]⟩
        simp [indent, free]
  intro line mem
  simp only [headerLines, List.mem_cons] at mem
  rcases mem with rfl | rfl | rfl | rfl | inside
  · exact field (by decide) (by decide) (by decide) (not_newline_of_plain storable.id)
  · exact field (by decide) (by decide) (by decide) (not_newline_of_plain storable.timestamp)
  · exact field (by decide) (by decide) (by decide) (not_newline_of_plain storable.proposedCategory)
  · exact field (by decide) (by decide) (by decide)
      (not_newline_of_plain (numbers.plain _ storable.confidence))
  · exact context line inside

theorem readFields_ctxLines {fm : Fields} {sourceContext : List Char}
    (last : sourceContext.getLast? ≠ some '\n') :
    readFields 0 fm (ctxLines sourceContext) =
      Function.update fm "sourceContext" (some sourceContext) := by
  unfold ctxLines
  split
  · rename_i empty
    rw [readFields_empty (by decide) (by decide), empty]
    rfl
  · rename_i nonempty
    rw [readFields_block (by decide) (by decide), blockText_indent nonempty last]
    intro line mem
    obtain ⟨piece, -, rfl⟩ := List.mem_map.mp mem
    exact inBlock_indent piece

theorem matchEntry_entryText (storable : Storable numbers entry) :
    matchEntry (entryText numbers entry) =
      some (joinLines (headerLines numbers entry), entry.body.toList ++ ['\n']) := by
  have header : IsHeader (unlines '\n' (headerLines numbers entry)) :=
    ⟨_, headerLines_ne_nil, rfl, free_of_mem_headerLines storable⟩
  rw [matchEntry, entryText_eq, unfence_fence header, unlines_eq_intercalate headerLines_ne_nil]
  simp [joinLines]

/-- Whatever the two free texts hold, an entry is read back as it was written, in the category of
the directory that it is found in. -/
theorem parseEntry_entryText (storable : Storable numbers entry) (category : BufferCategory) :
    parseEntry numbers (entryText numbers entry) category = { entry with category } := by
  have split : (joinLines (headerLines numbers entry)).splitOn '\n' = headerLines numbers entry :=
    List.splitOn_intercalate '\n' (fun line mem => (free_of_mem_headerLines storable line mem).1)
      headerLines_ne_nil
  have body : (entry.body.toList ++ ['\n']).rdropWhile (· = '\n') = entry.body.toList := by
    rw [List.rdropWhile_concat_pos _ _ _ (by simp), List.rdropWhile_eq_self_iff]
    intro nonempty same
    have last := List.getLast?_eq_some_getLast nonempty
    rw [of_decide_eq_true same] at last
    exact storable.body last
  have fields : readFields 0 (fun _ => none) (headerLines numbers entry) =
      Function.update (Function.update (Function.update (Function.update (Function.update
        (fun _ => none) "id" (some entry.id.toList))
        "timestamp" (some entry.frontmatter.timestamp.toList))
        "proposedCategory" (some entry.frontmatter.proposedCategory.toList))
        "confidence" (some (numbers.print entry.frontmatter.confidence)))
        "sourceContext" (some entry.frontmatter.sourceContext.toList) := by
    rw [headerLines, readFields_plain (by decide) (by decide) storable.id,
      readFields_plain (by decide) (by decide) storable.timestamp,
      readFields_plain (by decide) (by decide) storable.proposedCategory,
      readFields_plain (by decide) (by decide) (numbers.plain _ storable.confidence),
      readFields_ctxLines storable.sourceContext]
  unfold parseEntry
  rw [matchEntry_entryText storable, Option.getD_some]
  simp only [split, fields, body]
  simp [Function.update, numbers.read_print _ storable.confidence]

end

end Opensquid.AutomationBuffer
