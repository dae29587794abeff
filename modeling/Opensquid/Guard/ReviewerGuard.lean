import Opensquid.Lib.JsonText
import Opensquid.Lib.PathText
import Opensquid.Lib.Scan

/-!
# The reviewer's guard

A reviewer only reads, which is decided from the tool's name and its arguments. A regular
expression of the source is a scan of the text here. `toLowerCase` matters for
comparisons with ASCII words only.
-/

namespace Opensquid.Guard

open Opensquid.Lib

/-! ## Calls -/

/-- `Record<string, unknown>`. -/
abbrev Args := List (String × Json)

def Args.get (args : Args) (key : String) : Option Json := (args.find? (·.1 = key)).map (·.2)

/-- `args[key]` when it is a string. -/
def Args.text (args : Args) (key : String) : Option String :=
  match args.get key with
  | some (.str s) => some s
  | _ => none

def policyToolAliases (tool : String) : List String :=
  if tool = "MultiEdit" then ["MultiEdit", "Edit"] else [tool]

/-- Some alias is one of the names. -/
def toolMatches (tool : String) (names : List String) : Bool :=
  (policyToolAliases tool).any (· ∈ names)

def toLowerCase (text : String) : List Char :=
  text.toList.map fun c => if c = '\u212a' then 'k' else c.toLower

/-! ## Shell commands -/

def readOnlyVerbs : List String :=
  ["grep", "rg", "cat", "sed", "awk", "find", "head", "tail", "ls", "wc", "sort", "uniq", "cut",
    "tr", "jq", "stat", "file", "echo", "pwd"]

def segmentMutates (argv : List String) : Bool :=
  (argv.head? = some "sed" && argv.any fun a => PathText.startsWith a "-i") ||
    (argv.head? = some "find" && argv.any fun a =>
      a ∈ ["-delete", "-exec", "-execdir"] || PathText.startsWith a "-fprint")

/-- `split(/\|\||&&|;|\|/)`; `piece` is the segment so far. -/
def splitSegments (piece : List Char) : List Char → List (List Char)
  | '|' :: '|' :: rest => piece :: splitSegments [] rest
  | '&' :: '&' :: rest => piece :: splitSegments [] rest
  | ';' :: rest => piece :: splitSegments [] rest
  | '|' :: rest => piece :: splitSegments [] rest
  | c :: rest => splitSegments (piece ++ [c]) rest
  | [] => [piece]

/-- `split(/\s+/)` of a trimmed text. -/
def splitWords (segment : List Char) : List String :=
  ((segment.splitBy fun c d => isSpace c = isSpace d).filter fun run =>
    !run.head?.any isSpace).map String.ofList

def isReadOnlyBash (command : String) : Bool :=
  let trimmed := trim command.toList
  let segments := ((splitSegments [] trimmed).map trim).filter (· ≠ [])
  trimmed ≠ [] && '>' ∉ trimmed && segments ≠ [] && segments.all fun segment =>
    let argv := splitWords segment
    argv.head?.any (· ∈ readOnlyVerbs) && !segmentMutates argv

/-! ## The reviewer -/

def reviewerDenyMessage : String :=
  "🦑 [reviewer guard] Reviewers are bounded read-only processes and cannot invoke mutating or unknown tools."

def reviewerReadTools : List String :=
  ["read", "grep", "glob", "webfetch", "web_fetch", "recall", "read_state", "workgraph_get",
    "read_procedure", "read_rubric", "stage_inject"]

/-- The message of a denial. -/
def checkReviewerReadOnly (tool : String) (args : Args) : Option String :=
  let normalized := String.ofList (toLowerCase tool)
  if normalized = "bash" then
    if (args.text "command").any isReadOnlyBash then none else some reviewerDenyMessage
  else if normalized ∈ reviewerReadTools then none
  else some reviewerDenyMessage

end Opensquid.Guard
