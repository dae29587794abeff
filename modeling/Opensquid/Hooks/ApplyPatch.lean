import Opensquid.Lib.PathText

/-!
# The envelope of `apply_patch`

The files that a patch names, each with the content a synthesized `Write` of it shows: the
final content of an added file, the labelled hunks of another.
-/

namespace Opensquid.Hooks

open Opensquid.Lib

inductive PatchKind
  | add
  | update
  | delete
  deriving DecidableEq, Repr

def PatchKind.label : PatchKind → String
  | .add => "add"
  | .update => "update"
  | .delete => "delete"

structure PatchedFile where
  path : String
  kind : PatchKind
  content : String
  deriving DecidableEq, Repr

/-- A section, with its lines so far. -/
structure Section where
  path : String
  kind : PatchKind
  lines : List String

/-- What `.` does not match. -/
def isLineEnd (c : Char) : Bool := c ∈ ['\n', '\r', '\u2028', '\u2029']

/-- What follows the start of the line. -/
def afterPrefix (start line : String) : Option String :=
  if PathText.startsWith line start then some (String.ofList (line.toList.drop start.toList.length))
  else none

/-- `/^\*\*\* (Add|Update|Delete) File: (.+)$/`, with the kind and the path. -/
def marker (line : String) : Option (PatchKind × String) :=
  let named (kind : PatchKind) (start : String) : Option (PatchKind × String) :=
    ((afterPrefix start line).filter fun path => path ≠ "" ∧ path.toList.all (!isLineEnd ·)).map
      (kind, ·)
  (named .add "*** Add File: ").orElse fun _ =>
    (named .update "*** Update File: ").orElse fun _ => named .delete "*** Delete File: "

def Section.file (cur : Section) : PatchedFile where
  path := cur.path
  kind := cur.kind
  content :=
    match cur.kind with
    | .add => "\n".intercalate (cur.lines.filterMap (afterPrefix "+"))
    | kind => "<apply_patch " ++ kind.label ++
        " — content below is the hunk diff, not the final artifact>\n" ++ "\n".intercalate cur.lines

/-- The sections of the lines, with the one that is open. -/
def patchSections (cur : Option Section) : List String → List Section
  | [] => cur.toList
  | line :: rest =>
      match marker line with
      | some (kind, path) => cur.toList ++ patchSections (some ⟨path, kind, []⟩) rest
      | none =>
          patchSections (cur.map fun c =>
            if PathText.startsWith line "*** End Patch" then c
            else { c with lines := c.lines ++ [line] }) rest

def parseApplyPatch (command : String) : List PatchedFile :=
  ((patchSections none (PathText.segs '\n' command)).map Section.file).filter (·.path ≠ "")

end Opensquid.Hooks
