import Opensquid.Guard.ReviewerGuard

/-!
# The coordinator's write guard

A coordinator writes documents only, a reviewer nothing. What a call writes is decided from the
tool's name and its arguments. A tool that is neither a file editor nor the shell is taken to write
nothing (`isMutatingCall_of_other`), whatever its arguments are.
-/

namespace Opensquid.Guard

open Opensquid.Lib

/-! ## Mutating calls -/

/-- `\s[^|;&]*-i\b`. -/
def inPlaceFlag : List Char → Bool
  | [] => false
  | c :: rest =>
      isSpace c && (rest.takeWhile fun d => d ∉ ['|', ';', '&']).tails.any fun flag =>
        ['-', 'i'].isPrefixOf flag && wordEnds (flag.drop 2)

/-- `\s*&`. -/
def ampersandNext (text : List Char) : Bool := (text.dropWhile isSpace).head? = some '&'

/-- `(?<![0-9&])>>?(?!\s*&)`; `free` is about the character before. -/
def hasRedirect : Bool → List Char → Bool
  | _, [] => false
  | free, c :: rest =>
      (free && c = '>' && (!ampersandNext rest ||
        (rest.head? = some '>' && !ampersandNext rest.tail))) ||
        hasRedirect (!(c.isDigit || c = '&')) rest

def isMutatingBash (command : String) : Bool :=
  let text := command.toList
  scanWord ['s', 'e', 'd'] inPlaceFlag false text || hasRedirect true text || hasWord "tee" text ||
    hasWord "cp" text || hasWord "mv" text

def isAlwaysMutatingTool (tool : String) : Bool :=
  toolMatches tool ["Write", "Edit", "NotebookEdit"]

def isMutatingCall (tool : String) (args : Args) : Bool :=
  isAlwaysMutatingTool tool || (tool = "Bash" && (args.text "command").any isMutatingBash)

def isDocumentPath (path : String) : Bool :=
  let p := String.ofList (toLowerCase path)
  endsWith p ".md" || endsWith p ".mdx" || PathText.startsWith p "docs/" || includes p "/docs/"

/-- The path of a file editor's call. -/
def targetPath (args : Args) : Option String :=
  (args.text "file_path").orElse fun _ => args.text "notebook_path"

def isCodeFileMutation (tool : String) (args : Args) : Bool :=
  if !isMutatingCall tool args then false
  else if isAlwaysMutatingTool tool then !(targetPath args).any isDocumentPath
  else true

/-! ## The guard -/

inductive GuardActor
  | coordinator
  | stageProcess
  | reviewer
  deriving DecidableEq, Repr

def denyMessage : String :=
  "🦑 [coordinator guard] In this project the interactive coordinator may write DOCUMENTS only " ++
  "(docs/, *.md). Writing a coding file requires explicit permission — run `/code-write` to " ++
  "flip `allow_code_write` in this project’s orchestrator.json. Automated implementation " ++
  "belongs to the pack-authorized StageProcess."

/-- The message of a denial. -/
def checkOrchestratorGuard (tool : String) (args : Args) (actor : GuardActor)
    (codeWritePermitted : Bool) : Option String :=
  match actor with
  | .stageProcess => none
  | .reviewer => checkReviewerReadOnly tool args
  | .coordinator =>
      if !isCodeFileMutation tool args then none
      else if codeWritePermitted then none
      else some denyMessage

theorem isMutatingCall_of_other {tool : String} (args : Args)
    (editor : isAlwaysMutatingTool tool = false) (shell : tool ≠ "Bash") :
    isMutatingCall tool args = false := by
  rw [isMutatingCall, editor, decide_eq_false shell]
  rfl

/-- The guard lets a coordinator call any other tool. -/
theorem checkOrchestratorGuard_of_other {tool : String} (args : Args) (permitted : Bool)
    (editor : isAlwaysMutatingTool tool = false) (shell : tool ≠ "Bash") :
    checkOrchestratorGuard tool args .coordinator permitted = none := by
  have none : isCodeFileMutation tool args = false := by
    rw [isCodeFileMutation, isMutatingCall_of_other args editor shell]
    rfl
  rw [checkOrchestratorGuard, none]
  rfl

end Opensquid.Guard
