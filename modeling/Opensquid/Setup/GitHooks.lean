import Mathlib.Data.List.TakeWhile
import Opensquid.Lib.Occurrence
import Opensquid.Lib.PathText
import Opensquid.Lib.Scan

/-!
# The managed git hooks

A hook that the user may have is composed anew: the shebang, the gate, the user's body. Lines of the
gate are taken out wherever they stand, so installing also repairs.

`install_settles`: after an installation every hook consists of shebang, marker, gate and the user's
lines (`hookLines`), so that the gate stands before anything that could end the script; every hook is
found installed; and another installation changes nothing. `hookParts_compose` is why: shebang and
body are read back from a composed hook as they were.
-/

namespace Opensquid.Setup.GitHooks

open Opensquid.Lib

/-! ## Composition -/

def OPENSQUID_HOOK_MARKER : List Char := "@opensquid managed hook".toList

inductive HookBoundary
  | commit
  | push
  | attest
  | commitMsg
  deriving DecidableEq, Repr

def HookBoundary.text : HookBoundary → List Char
  | commit => "commit".toList
  | push => "push".toList
  | attest => "attest".toList
  | commitMsg => "commit-msg".toList

def HOOKS : List (String × HookBoundary) :=
  [("pre-commit", .commit), ("commit-msg", .commitMsg), ("pre-push", .push),
    ("post-commit", .attest)]

/-- `opensquid gate ${boundary}`. -/
def gateCall (boundary : HookBoundary) : List Char := "opensquid gate ".toList ++ boundary.text

def gateLine (boundary : HookBoundary) : List Char :=
  if boundary = .commitMsg then "opensquid gate commit-msg \"$1\" || exit $?".toList
  else gateCall boundary ++ " || exit $?".toList

def markerLine : List Char := "# ".toList ++ OPENSQUID_HOOK_MARKER

def managedBlock (boundary : HookBoundary) : List Char :=
  markerLine ++ '\n' :: gateLine boundary

def SHEBANG : List Char := "#!/bin/sh".toList

def isManaged (boundary : HookBoundary) (line : List Char) : Bool :=
  OPENSQUID_HOOK_MARKER <:+: line || gateCall boundary <:+: line

/-- `text.replace(/^\n+/, '').replace(/\n*$/, '\n')`. -/
def oneNewline (text : List Char) : List Char :=
  ((text.dropWhile (· == '\n')).reverse.dropWhile (· == '\n')).reverse ++ ['\n']

/-- The shebang of a script and the lines behind it. -/
def takeShebang : List (List Char) → List Char × List (List Char)
  | [] => (SHEBANG, [])
  | line :: rest =>
      if ['#', '!'] <+: line then (line, rest) else (SHEBANG, line :: rest)

/-- What of a hook is the user's: the shebang and the body, which may be empty. -/
def hookParts (boundary : HookBoundary) : Option (List Char) → List Char × List Char
  | none => (SHEBANG, [])
  | some existing =>
      if trim existing = [] then (SHEBANG, [])
      else
        let lines := (existing.splitOn '\n').filter fun line => !isManaged boundary line
        let body := oneNewline (['\n'].intercalate (takeShebang lines).2)
        ((takeShebang lines).1, if trim body = [] then [] else body)

def composeHook (existing : Option (List Char)) (boundary : HookBoundary) : List Char :=
  (hookParts boundary existing).1 ++ '\n' :: managedBlock boundary ++
    '\n' :: (hookParts boundary existing).2

/-! ## Installing and checking -/

/-- `/^\s*(exec\s|exit\b)/`. -/
def isTerminalLine (line : List Char) : Bool :=
  let start := line.dropWhile isSpace
  ("exec".toList.isPrefixOf start && (start.drop 4).head?.any isSpace) ||
    ("exit".toList.isPrefixOf start && wordEnds (start.drop 4))

def isMarkerUnreachable (content : List Char) : Bool :=
  let lines := content.splitOn '\n'
  match lines.findIdx? fun line => OPENSQUID_HOOK_MARKER <:+: line with
  | none => false
  | some marker => (lines.take marker).any isTerminalLine

inductive GitHookState
  | installed
  | missing
  | foreign
  | unreachable
  deriving DecidableEq, Repr

/-- The directory of the hooks. -/
abbrev HooksDir := String → Option (List Char)

def HooksDir.write (dir : HooksDir) (name : String) (text : List Char) : HooksDir :=
  fun other => if other = name then some text else dir other

/-- One hook; `none` is one that is not there or cannot be read. -/
def installHook (dir : HooksDir) (hook : String × HookBoundary) :
    (String × GitHookState) × HooksDir :=
  let next := composeHook (dir hook.1) hook.2
  ((hook.1, if next = composeHook none hook.2 then .installed else .foreign),
    dir.write hook.1 next)

def installHooks : HooksDir → List (String × HookBoundary) →
    List (String × GitHookState) × HooksDir
  | dir, [] => ([], dir)
  | dir, hook :: rest =>
      let (status, dir) := installHook dir hook
      let (statuses, dir) := installHooks dir rest
      (status :: statuses, dir)

def installGitHooks (dir : HooksDir) : List (String × GitHookState) × HooksDir :=
  installHooks dir HOOKS

def checkHook (dir : HooksDir) (name : String) : GitHookState :=
  match dir name with
  | none => .missing
  | some existing =>
      if ¬ OPENSQUID_HOOK_MARKER <:+: existing then .foreign
      else if isMarkerUnreachable existing then .unreachable else .installed

def checkGitHooks (dir : HooksDir) : List (String × GitHookState) :=
  HOOKS.map fun hook => (hook.1, checkHook dir hook.1)

/-! ## What the hooks are to be -/

/-- A hook, the call that makes a line of it the gate's, and the line that calls the gate. -/
structure ManagedHook where
  name : String
  call : String
  line : String

def managedHooks : List ManagedHook :=
  [⟨"pre-commit", "opensquid gate commit", "opensquid gate commit || exit $?"⟩,
    ⟨"commit-msg", "opensquid gate commit-msg", "opensquid gate commit-msg \"$1\" || exit $?"⟩,
    ⟨"pre-push", "opensquid gate push", "opensquid gate push || exit $?"⟩,
    ⟨"post-commit", "opensquid gate attest", "opensquid gate attest || exit $?"⟩]

/-- The lines that are not the gate's. -/
def userLines (hook : ManagedHook) (existing : Option (List Char)) : List (List Char) :=
  ((existing.getD []).splitOn '\n').filter fun line =>
    !("@opensquid managed hook".toList <:+: line || hook.call.toList <:+: line)

/-- Without the empty lines at either end, and without anything if all lines are blank. -/
def bodyLines (lines : List (List Char)) : List (List Char) :=
  if lines.all (·.all isSpace) then []
  else (lines.dropWhile List.isEmpty).rdropWhile List.isEmpty

/-- A shebang, the user's or the default one; the marker; the gate; the user's lines. -/
def hookLines (hook : ManagedHook) (existing : Option (List Char)) : List (List Char) :=
  let lines := userLines hook existing
  let script := if lines.head?.any (['#', '!'] <+: ·) then lines else "#!/bin/sh".toList :: lines
  script.take 1 ++ ["# @opensquid managed hook".toList, hook.line.toList] ++
    bodyLines (script.drop 1) ++ [[]]

/-! ## What is read back -/

section

variable {boundary : HookBoundary} {existing : Option (List Char)} {text : List Char}

theorem newline_not_marker : '\n' ∉ OPENSQUID_HOOK_MARKER := by decide

theorem newline_not_gate (boundary : HookBoundary) : '\n' ∉ gateCall boundary := by
  cases boundary <;> decide

/-- No line of the gate. -/
def Unmanaged (boundary : HookBoundary) (text : List Char) : Prop :=
  ¬ OPENSQUID_HOOK_MARKER <:+: text ∧ ¬ gateCall boundary <:+: text

theorem unmanaged_iff {lines : List (List Char)} (solid : lines ≠ []) :
    Unmanaged boundary (['\n'].intercalate lines) ↔
      ∀ line ∈ lines, isManaged boundary line = false := by
  unfold Unmanaged
  rw [infix_intercalate newline_not_marker solid,
    infix_intercalate (newline_not_gate boundary) solid]
  simp only [isManaged, Bool.or_eq_false_iff, decide_eq_false_iff_not]
  grind

theorem unmanaged_of_lines {lines : List (List Char)}
    (free : ∀ line ∈ lines, isManaged boundary line = false) :
    Unmanaged boundary (['\n'].intercalate lines) := by
  cases lines with
  | nil => cases boundary <;> exact ⟨by decide, by decide⟩
  | cons line rest => exact (unmanaged_iff (List.cons_ne_nil _ _)).mpr free

theorem Unmanaged.part {part : List Char} (free : Unmanaged boundary text)
    (inside : part <:+: text) : Unmanaged boundary part :=
  ⟨fun held => free.1 (held.trans inside), fun held => free.2 (held.trans inside)⟩

theorem Unmanaged.append_newline (free : Unmanaged boundary text) :
    Unmanaged boundary (text ++ ['\n']) := by
  unfold Unmanaged
  rw [infix_append_cons newline_not_marker, infix_append_cons (newline_not_gate boundary),
    not_or, not_or]
  cases boundary <;> exact ⟨⟨free.1, by decide⟩, free.2, by decide⟩

theorem head?_dropWhile_newline (text : List Char) :
    ∀ c ∈ (text.dropWhile (· == '\n')).head?, c ≠ '\n' := by
  intro c first
  have other := List.head?_dropWhile_not (· == '\n') text
  rw [Option.mem_def.mp first] at other
  exact beq_eq_false_iff_ne.mp other

theorem oneNewline_infix (text : List Char) : ∃ part, oneNewline text = part ++ ['\n'] ∧
    part <:+: text ∧ (∀ c ∈ part.head?, c ≠ '\n') ∧ ∀ c ∈ part.getLast?, c ≠ '\n' := by
  have back : ((text.dropWhile (· == '\n')).reverse.dropWhile (· == '\n')).reverse <+:
      text.dropWhile (· == '\n') := by
    rw [← List.reverse_suffix, List.reverse_reverse]
    exact List.dropWhile_suffix _
  refine ⟨_, rfl, back.isInfix.trans (List.dropWhile_suffix _).isInfix, fun c first => ?_, ?_⟩
  · refine head?_dropWhile_newline text c ?_
    obtain ⟨rest, whole⟩ := back
    rw [← whole, List.head?_append, Option.mem_def.mp first]
    rfl
  · rw [List.getLast?_reverse]
    exact head?_dropWhile_newline _

theorem dropWhile_newline {text : List Char} (first : ∀ c ∈ text.head?, c ≠ '\n') :
    text.dropWhile (· == '\n') = text := by
  cases text with
  | nil => rfl
  | cons c text =>
      exact List.dropWhile_cons_of_neg fun same => first c rfl (beq_iff_eq.mp same)

theorem oneNewline_eq {part : List Char} (first : ∀ c ∈ part.head?, c ≠ '\n')
    (last : ∀ c ∈ part.getLast?, c ≠ '\n') : oneNewline (part ++ ['\n']) = part ++ ['\n'] := by
  have back : (part.reverse).dropWhile (· == '\n') = part.reverse :=
    dropWhile_newline (by rwa [List.head?_reverse])
  cases part with
  | nil => rfl
  | cons c part =>
      have front : (c :: part ++ ['\n']).dropWhile (· == '\n') = c :: part ++ ['\n'] :=
        dropWhile_newline first
      rw [oneNewline, front, List.reverse_append, List.reverse_singleton, List.singleton_append,
        List.dropWhile_cons_of_pos (by decide), back, List.reverse_reverse]

/-- What the parts of a hook are. -/
structure UserParts (boundary : HookBoundary) (parts : List Char × List Char) : Prop where
  shebang : ['#', '!'] <+: parts.1
  line : '\n' ∉ parts.1
  unmanaged : Unmanaged boundary parts.1
  body : parts.2 = [] ∨
    trim parts.2 ≠ [] ∧ Unmanaged boundary parts.2 ∧ oneNewline parts.2 = parts.2

/-- A line of the user's. -/
def UserLine (boundary : HookBoundary) (line : List Char) : Prop :=
  '\n' ∉ line ∧ isManaged boundary line = false

theorem UserLine.unmanaged {line : List Char} (user : UserLine boundary line) :
    Unmanaged boundary line := by
  have free := (@unmanaged_iff boundary [line] (List.cons_ne_nil _ _)).mpr
    (List.forall_mem_singleton.mpr user.2)
  rwa [List.intercalate_singleton] at free

theorem userLine_shebang (boundary : HookBoundary) : UserLine boundary SHEBANG := by
  cases boundary <;> exact ⟨by decide, by decide⟩

theorem takeShebang_spec {lines : List (List Char)}
    (user : ∀ line ∈ lines, UserLine boundary line) :
    ['#', '!'] <+: (takeShebang lines).1 ∧ UserLine boundary (takeShebang lines).1 ∧
      ∀ line ∈ (takeShebang lines).2, UserLine boundary line := by
  cases lines with
  | nil => exact ⟨by decide, userLine_shebang boundary, List.forall_mem_nil _⟩
  | cons line rest =>
      rw [takeShebang]
      split
      next shebang =>
        rw [List.forall_mem_cons] at user
        exact ⟨shebang, user.1, user.2⟩
      next =>
        exact ⟨show ['#', '!'] <+: SHEBANG by decide, userLine_shebang boundary, user⟩

theorem hookParts_spec (boundary : HookBoundary) (existing : Option (List Char)) :
    UserParts boundary (hookParts boundary existing) := by
  have fresh : UserParts boundary (SHEBANG, []) :=
    ⟨by decide, by decide, by cases boundary <;> exact ⟨by decide, by decide⟩, .inl rfl⟩
  cases existing with
  | none => exact fresh
  | some existing =>
      unfold hookParts
      dsimp only
      split
      · exact fresh
      · have user : ∀ line ∈ (existing.splitOn '\n').filter fun line => !isManaged boundary line,
            UserLine boundary line := by
          intro line held
          obtain ⟨member, free⟩ := List.mem_filter.mp held
          exact ⟨PathText.not_mem_of_mem_splitOn member, Bool.not_eq_true' _ ▸ free⟩
        obtain ⟨shebang, line, rest⟩ := takeShebang_spec user
        refine ⟨shebang, line.1, line.unmanaged, ?_⟩
        dsimp only
        split
        · exact .inl rfl
        next solid =>
          obtain ⟨part, same, inside, first, last⟩ := oneNewline_infix
            (['\n'].intercalate (takeShebang ((existing.splitOn '\n').filter
              fun line => !isManaged boundary line)).2)
          rw [same] at solid ⊢
          exact .inr ⟨solid, ((unmanaged_of_lines fun line held => (rest line held).2).part
            inside).append_newline, oneNewline_eq first last⟩

theorem newline_not_gateLine (boundary : HookBoundary) : '\n' ∉ gateLine boundary := by
  cases boundary <;> decide

theorem splitOn_composeHook (boundary : HookBoundary) (existing : Option (List Char)) :
    (composeHook existing boundary).splitOn '\n' =
      (hookParts boundary existing).1 :: markerLine :: gateLine boundary ::
        (hookParts boundary existing).2.splitOn '\n' := by
  have whole : composeHook existing boundary = (hookParts boundary existing).1 ++ '\n' ::
      (markerLine ++ '\n' :: (gateLine boundary ++ '\n' :: (hookParts boundary existing).2)) := by
    simp [composeHook, managedBlock]
  rw [whole, List.splitOn_append_cons_self_of_not_mem (hookParts_spec boundary existing).line,
    List.splitOn_append_cons_self_of_not_mem (by decide),
    List.splitOn_append_cons_self_of_not_mem (newline_not_gateLine boundary)]

theorem Unmanaged.userLine {line : List Char} (free : Unmanaged boundary line) :
    isManaged boundary line = false := by
  have single : Unmanaged boundary (['\n'].intercalate [line]) := by
    rwa [List.intercalate_singleton]
  exact (unmanaged_iff (List.cons_ne_nil _ _)).mp single line List.mem_cons_self

theorem isManaged_block (boundary : HookBoundary) :
    isManaged boundary markerLine = true ∧ isManaged boundary (gateLine boundary) = true := by
  cases boundary <;> exact ⟨by decide, by decide⟩

theorem filter_lines {first rest : List Char} (line : Unmanaged boundary first)
    (body : Unmanaged boundary rest) :
    (first :: markerLine :: gateLine boundary :: rest.splitOn '\n').filter
        (fun line => !isManaged boundary line) = first :: rest.splitOn '\n' := by
  have all : ∀ line ∈ rest.splitOn '\n', (!isManaged boundary line) = true := by
    have whole : ['\n'].intercalate (rest.splitOn '\n') = rest := List.intercalate_splitOn '\n'
    rw [← whole, unmanaged_iff (List.splitOn_ne_nil _ _)] at body
    intro line held
    rw [body line held]
    rfl
  obtain ⟨marker, gate⟩ := isManaged_block boundary
  rw [List.filter_cons_of_pos (by rw [line.userLine]; rfl),
    List.filter_cons_of_neg (by simp [marker]), List.filter_cons_of_neg (by simp [gate]),
    List.filter_eq_self.mpr all]

/-- Shebang and body of a composed hook are those it was composed of. -/
theorem hookParts_compose (boundary : HookBoundary) (existing : Option (List Char)) :
    hookParts boundary (some (composeHook existing boundary)) = hookParts boundary existing := by
  obtain ⟨shebang, line, unmanaged, body⟩ := hookParts_spec boundary existing
  have lines := splitOn_composeHook boundary existing
  have solid : trim (composeHook existing boundary) ≠ [] := by
    refine @trim_ne_nil _ '#' ?_ (by decide)
    exact List.mem_append_left _ (List.mem_append_left _
      (shebang.subset List.mem_cons_self))
  generalize composeHook existing boundary = text at lines solid ⊢
  generalize hookParts boundary existing = parts at *
  obtain ⟨first, rest⟩ := parts
  have free : Unmanaged boundary rest := by
    rcases body with empty | ⟨-, free, -⟩
    · cases empty
      cases boundary <;> exact ⟨by decide, by decide⟩
    · exact free
  unfold hookParts
  dsimp only
  rw [if_neg solid, lines, filter_lines unmanaged free, takeShebang, if_pos shebang,
    List.intercalate_splitOn]
  rcases body with empty | ⟨some_body, -, whole⟩
  · cases empty
    rfl
  · dsimp only at whole some_body
    rw [whole, if_neg some_body]

theorem composeHook_compose (boundary : HookBoundary) (existing : Option (List Char)) :
    composeHook (some (composeHook existing boundary)) boundary =
      composeHook existing boundary := by
  rw [composeHook, hookParts_compose]
  rfl

theorem composeHook_reachable (boundary : HookBoundary) (existing : Option (List Char)) :
    isMarkerUnreachable (composeHook existing boundary) = false := by
  obtain ⟨shebang, -, unmanaged, -⟩ := hookParts_spec boundary existing
  unfold isMarkerUnreachable
  rw [splitOn_composeHook]
  generalize (hookParts boundary existing).1 = first at shebang unmanaged
  have marker : OPENSQUID_HOOK_MARKER <:+: markerLine := by decide
  dsimp only
  rw [List.findIdx?_cons, if_neg (by simp [unmanaged.1]), List.findIdx?_cons,
    if_pos (by simp [marker])]
  obtain ⟨rest, rfl⟩ := shebang
  rfl

/-! ## Installations -/

def installState (boundary : HookBoundary) (existing : Option (List Char)) : GitHookState :=
  if composeHook existing boundary = composeHook none boundary then .installed else .foreign

theorem installHooks_spec (dir : HooksDir) {hooks : List (String × HookBoundary)}
    (distinct : (hooks.map Prod.fst).Nodup) :
    (installHooks dir hooks).1 =
        hooks.map (fun hook => (hook.1, installState hook.2 (dir hook.1))) ∧
      (∀ hook ∈ hooks, (installHooks dir hooks).2 hook.1 =
        some (composeHook (dir hook.1) hook.2)) ∧
      ∀ name ∉ hooks.map Prod.fst, (installHooks dir hooks).2 name = dir name := by
  induction hooks generalizing dir with
  | nil => exact ⟨rfl, List.forall_mem_nil _, fun _ _ => rfl⟩
  | cons hook rest ih =>
      rw [List.map_cons, List.nodup_cons] at distinct
      obtain ⟨statuses, written, others⟩ := ih (installHook dir hook).2 distinct.2
      have kept : ∀ other ∈ rest, (installHook dir hook).2 other.1 = dir other.1 := by
        intro other held
        exact if_neg fun same : other.1 = hook.1 =>
          distinct.1 (same ▸ List.mem_map_of_mem held)
      refine ⟨?_, ?_, ?_⟩
      · show (installHook dir hook).1 :: (installHooks (installHook dir hook).2 rest).1 = _
        rw [statuses, List.map_cons]
        refine congrArg₂ _ rfl (List.map_congr_left fun other held => ?_)
        rw [kept other held]
      · rw [List.forall_mem_cons]
        refine ⟨(others hook.1 distinct.1).trans (if_pos rfl), fun other held => ?_⟩
        rw [← kept other held]
        exact written other held
      · intro name absent
        rw [List.map_cons, List.mem_cons, not_or] at absent
        exact (others name absent.2).trans (if_neg absent.1)

theorem checkHook_composed {dir : HooksDir} {name : String}
    (written : dir name = some (composeHook existing boundary)) :
    checkHook dir name = .installed := by
  have marked : OPENSQUID_HOOK_MARKER <:+: composeHook existing boundary := by
    have lines := splitOn_composeHook boundary existing
    have whole : ['\n'].intercalate ((composeHook existing boundary).splitOn '\n') =
        composeHook existing boundary := List.intercalate_splitOn '\n'
    rw [← whole, infix_intercalate newline_not_marker (List.splitOn_ne_nil _ _), lines]
    exact ⟨markerLine, List.mem_cons_of_mem _ List.mem_cons_self, by decide⟩
  rw [checkHook, written]
  dsimp only
  rw [if_neg (not_not.mpr marked), composeHook_reachable]
  rfl

/-! ## The lines of a composed hook -/

theorem mem_dropWhile_newline {c : Char} (other : c ≠ '\n') :
    c ∈ text.dropWhile (· == '\n') ↔ c ∈ text := by
  conv_rhs => rw [← List.takeWhile_append_dropWhile (p := (· == '\n')) (l := text)]
  rw [List.mem_append]
  refine ⟨.inr, fun held => held.resolve_left fun held => other ?_⟩
  exact beq_iff_eq.mp (@List.mem_takeWhile_imp _ (· == '\n') _ _ held)

theorem mem_oneNewline {c : Char} (other : c ≠ '\n') : c ∈ oneNewline text ↔ c ∈ text := by
  rw [oneNewline, List.mem_append, List.mem_singleton, or_iff_left other, List.mem_reverse,
    mem_dropWhile_newline other, List.mem_reverse, mem_dropWhile_newline other]

theorem mem_intercalate_newline {c : Char} (other : c ≠ '\n') {lines : List (List Char)} :
    c ∈ ['\n'].intercalate lines ↔ ∃ line ∈ lines, c ∈ line := by
  cases lines with
  | nil => simp
  | cons line rest =>
      have single : '\n' ∉ [c] := by simpa using other.symm
      have parts := @infix_intercalate _ _ _ single (line :: rest) (List.cons_ne_nil _ _)
      simpa [List.singleton_infix_iff] using parts

/-- The body of the new hook has a text if some line is not blank. -/
theorem trim_oneNewline {lines : List (List Char)} :
    trim (oneNewline (['\n'].intercalate lines)) = [] ↔
      ∀ line ∈ lines, ∀ c ∈ line, isSpace c = true := by
  rw [trim_eq_nil]
  have newline : isSpace '\n' = true := by decide
  constructor
  · intro all line held c inside
    by_cases same : c = '\n'
    · rw [same, newline]
    · exact all c ((mem_oneNewline same).mpr ((mem_intercalate_newline same).mpr ⟨line, held, inside⟩))
  · intro all c held
    by_cases same : c = '\n'
    · rw [same, newline]
    · obtain ⟨line, held, inside⟩ := (mem_intercalate_newline same).mp ((mem_oneNewline same).mp held)
      exact all line held c inside

theorem oneNewline_intercalate {lines : List (List Char)} (plain : ∀ line ∈ lines, '\n' ∉ line) :
    oneNewline (['\n'].intercalate lines) =
      ['\n'].intercalate ((lines.dropWhile List.isEmpty).rdropWhile List.isEmpty) ++ ['\n'] := by
  have inner : ∀ line ∈ lines.dropWhile List.isEmpty, '\n' ∉ line := fun line held =>
    plain line ((List.dropWhile_sublist List.isEmpty).subset held)
  rw [← rdropWhile_intercalate inner, ← dropWhile_intercalate plain]
  rfl

theorem rdropWhile_ne_nil {lines : List (List Char)} {line : List Char} (held : line ∈ lines)
    (solid : line ≠ []) : (lines.dropWhile List.isEmpty).rdropWhile List.isEmpty ≠ [] := by
  rw [Ne, List.rdropWhile_eq_nil_iff]
  intro all
  have all' : ∀ line ∈ lines, line.isEmpty = true := by
    intro line held
    rw [← List.takeWhile_append_dropWhile (p := List.isEmpty) (l := lines)] at held
    rcases List.mem_append.mp held with held | held
    · exact List.mem_takeWhile_imp held
    · exact all line held
  exact solid (List.isEmpty_iff.mp (all' line held))

theorem all_blank_iff {lines : List (List Char)} :
    lines.all (·.all isSpace) = true ↔ ∀ line ∈ lines, ∀ c ∈ line, isSpace c = true := by
  simp only [List.all_eq_true]

theorem splitOn_body {lines : List (List Char)} (plain : ∀ line ∈ lines, '\n' ∉ line) :
    (if trim (oneNewline (['\n'].intercalate lines)) = [] then []
      else oneNewline (['\n'].intercalate lines)).splitOn '\n' = bodyLines lines ++ [[]] := by
  rw [bodyLines]
  by_cases all : ∀ line ∈ lines, ∀ c ∈ line, isSpace c = true
  · rw [if_pos (trim_oneNewline.mpr all), if_pos (all_blank_iff.mpr all)]
    rfl
  · rw [if_neg (mt trim_oneNewline.mp all), if_neg (mt all_blank_iff.mp all),
      oneNewline_intercalate plain]
    simp only [not_forall] at all
    obtain ⟨line, held, c, inside, -⟩ := all
    have solid := rdropWhile_ne_nil held (List.ne_nil_of_mem inside)
    have inner : ∀ line ∈ (lines.dropWhile List.isEmpty).rdropWhile List.isEmpty, '\n' ∉ line :=
      fun line held => plain line ((List.dropWhile_sublist List.isEmpty).subset
        ((List.rdropWhile_prefix List.isEmpty _).subset held))
    rw [List.splitOn_append_cons_self, List.splitOn_intercalate '\n' inner solid]
    rfl

/-- The hook's texts are those of the boundary. -/
structure ManagedHook.Is (hook : ManagedHook) (boundary : HookBoundary) : Prop where
  call : hook.call.toList = gateCall boundary
  line : hook.line.toList = gateLine boundary

theorem userLines_eq {hook : ManagedHook} (same : hook.Is boundary)
    (existing : Option (List Char)) : userLines hook existing =
      ((existing.getD []).splitOn '\n').filter fun line => !isManaged boundary line := by
  rw [userLines, same.call]
  rfl

theorem hookLines_eq {hook : ManagedHook} (same : hook.Is boundary)
    (existing : Option (List Char)) : hookLines hook existing =
      (takeShebang (userLines hook existing)).1 :: markerLine :: gateLine boundary ::
        (bodyLines (takeShebang (userLines hook existing)).2 ++ [[]]) := by
  rw [hookLines, same.line]
  cases userLines hook existing with
  | nil => rfl
  | cons line rest =>
      rw [takeShebang]
      by_cases shebang : ['#', '!'] <+: line
      · simp only [List.head?_cons, Option.any_some, shebang, decide_true, if_true]
        rfl
      · simp only [List.head?_cons, Option.any_some, shebang, decide_false, Bool.false_eq_true,
          if_false]
        rfl

theorem takeShebang_blank {lines : List (List Char)}
    (blank : ∀ line ∈ lines, ∀ c ∈ line, isSpace c = true) :
    takeShebang lines = (SHEBANG, lines) := by
  cases lines with
  | nil => rfl
  | cons line rest =>
      refine if_neg fun shebang => ?_
      have first := blank line List.mem_cons_self '#' (shebang.subset List.mem_cons_self)
      revert first
      decide

theorem hookParts_lines {hook : ManagedHook} (same : hook.Is boundary)
    (existing : Option (List Char)) :
    (hookParts boundary existing).1 = (takeShebang (userLines hook existing)).1 ∧
      (hookParts boundary existing).2.splitOn '\n' =
        bodyLines (takeShebang (userLines hook existing)).2 ++ [[]] := by
  have empty : ∀ text, trim text = [] → existing.getD [] = text →
      takeShebang (userLines hook existing) = (SHEBANG, userLines hook existing) ∧
        bodyLines (userLines hook existing) = [] := by
    intro text blank whole
    have all : ∀ line ∈ userLines hook existing, ∀ c ∈ line, isSpace c = true := by
      intro line held c inside
      rw [userLines_eq same, whole] at held
      refine trim_eq_nil.mp blank c ?_
      have lines : ['\n'].intercalate (text.splitOn '\n') = text := List.intercalate_splitOn '\n'
      by_cases newline : c = '\n'
      · exact absurd (newline ▸ inside)
          (PathText.not_mem_of_mem_splitOn (List.mem_of_mem_filter held))
      · rw [← lines]
        exact (mem_intercalate_newline newline).mpr ⟨line, List.mem_of_mem_filter held, inside⟩
    exact ⟨takeShebang_blank all, if_pos (all_blank_iff.mpr all)⟩
  cases existing with
  | none =>
      obtain ⟨shebang, body⟩ := empty [] rfl rfl
      rw [shebang, body]
      exact ⟨rfl, rfl⟩
  | some text =>
      rw [hookParts]
      by_cases blank : trim text = []
      · obtain ⟨shebang, body⟩ := empty text blank rfl
        rw [if_pos blank, shebang, body]
        exact ⟨rfl, rfl⟩
      · have lines : userLines hook (some text) =
            (text.splitOn '\n').filter fun line => !isManaged boundary line :=
          userLines_eq same _
        have user : ∀ line ∈ userLines hook (some text), UserLine boundary line := by
          intro line held
          rw [lines] at held
          obtain ⟨member, free⟩ := List.mem_filter.mp held
          exact ⟨PathText.not_mem_of_mem_splitOn member, (Bool.not_eq_true' _).mp free⟩
        obtain ⟨-, -, rest⟩ := takeShebang_spec user
        rw [if_neg blank, ← lines]
        exact ⟨rfl, splitOn_body fun line held => (rest line held).1⟩

theorem splitOn_compose {hook : ManagedHook} (same : hook.Is boundary)
    (existing : Option (List Char)) :
    (composeHook existing boundary).splitOn '\n' = hookLines hook existing := by
  obtain ⟨shebang, body⟩ := hookParts_lines same existing
  rw [splitOn_composeHook, hookLines_eq same, shebang, body]

/-- The hook is a row of the source's table. -/
def IsRow (row : String × HookBoundary) (hook : ManagedHook) : Prop :=
  hook.name = row.1 ∧ hook.Is row.2

theorem rows_of_HOOKS : List.Forall₂ IsRow HOOKS managedHooks := by
  refine .cons ?_ (.cons ?_ (.cons ?_ (.cons ?_ .nil)))
  all_goals exact ⟨rfl, by decide, by decide⟩

theorem exists_row {rows : List (String × HookBoundary)} {hooks : List ManagedHook}
    (table : List.Forall₂ IsRow rows hooks) {hook : ManagedHook} (held : hook ∈ hooks) :
    ∃ row ∈ rows, IsRow row hook := by
  induction table with
  | nil => cases held
  | cons first _ ih =>
      rcases List.mem_cons.mp held with rfl | held
      · exact ⟨_, List.mem_cons_self, first⟩
      · obtain ⟨row, inside, same⟩ := ih held
        exact ⟨row, List.mem_cons_of_mem _ inside, same⟩

theorem map_rows {α : Type} {rows : List (String × HookBoundary)} {hooks : List ManagedHook}
    (table : List.Forall₂ IsRow rows hooks) {f : String × HookBoundary → α} {g : ManagedHook → α}
    (same : ∀ row hook, IsRow row hook → f row = g hook) : rows.map f = hooks.map g := by
  induction table with
  | nil => rfl
  | cons first _ ih => rw [List.map_cons, List.map_cons, same _ _ first, ih]

theorem installState_eq {hook : ManagedHook} (same : hook.Is boundary)
    (existing : Option (List Char)) : installState boundary existing =
      if hookLines hook existing = hookLines hook none then .installed else .foreign := by
  rw [installState, ← splitOn_compose same, ← splitOn_compose same]
  refine if_congr ⟨fun whole => by rw [whole], fun lines => ?_⟩ rfl rfl
  rw [← @List.intercalate_splitOn _ (composeHook existing boundary) _ _ '\n', lines,
    List.intercalate_splitOn]

theorem reinstall_eq (dir : HooksDir) :
    installGitHooks (installGitHooks dir).2 = installGitHooks dir := by
  have distinct : (HOOKS.map Prod.fst).Nodup := by decide
  obtain ⟨statuses, written, others⟩ := installHooks_spec dir distinct
  obtain ⟨statuses', written', others'⟩ := installHooks_spec (installGitHooks dir).2 distinct
  refine Prod.ext ?_ (funext fun name => ?_)
  · show (installHooks (installGitHooks dir).2 HOOKS).1 = (installHooks dir HOOKS).1
    rw [statuses', statuses]
    refine List.map_congr_left fun hook held => ?_
    rw [installState, installGitHooks, written hook held, composeHook_compose]
    rfl
  · show (installHooks (installGitHooks dir).2 HOOKS).2 name = (installHooks dir HOOKS).2 name
    by_cases listed : name ∈ HOOKS.map Prod.fst
    · obtain ⟨hook, held, rfl⟩ := List.mem_map.mp listed
      rw [written' hook held, written hook held, installGitHooks, written hook held,
        composeHook_compose]
    · rw [others' name listed]
      rfl

/-- Whatever hooks there were: each consists, line by line, of shebang, marker, gate and the lines
of the user's; all are found installed; and to install again changes nothing. -/
theorem install_settles (dir : HooksDir) :
    (∀ hook ∈ managedHooks, ((installGitHooks dir).2 hook.name).map (List.splitOn '\n') =
      some (hookLines hook (dir hook.name))) ∧
    (∀ name ∉ managedHooks.map ManagedHook.name, (installGitHooks dir).2 name = dir name) ∧
    (installGitHooks dir).1 = managedHooks.map (fun hook => (hook.name,
      if hookLines hook (dir hook.name) = hookLines hook none then .installed else .foreign)) ∧
    checkGitHooks (installGitHooks dir).2 =
      managedHooks.map (fun hook => (hook.name, .installed)) ∧
    installGitHooks (installGitHooks dir).2 = installGitHooks dir := by
  have distinct : (HOOKS.map Prod.fst).Nodup := by decide
  obtain ⟨statuses, written, others⟩ := installHooks_spec dir distinct
  have names : HOOKS.map Prod.fst = managedHooks.map ManagedHook.name :=
    map_rows rows_of_HOOKS fun row hook same => same.1.symm
  refine ⟨fun hook held => ?_, fun name absent => others name (names ▸ absent), ?_, ?_,
    reinstall_eq dir⟩
  · obtain ⟨row, inside, name, same⟩ := exists_row rows_of_HOOKS held
    rw [name, installGitHooks, written row inside, Option.map_some, splitOn_compose same]
  · rw [installGitHooks, statuses]
    refine map_rows rows_of_HOOKS fun row hook same => ?_
    rw [same.1, installState_eq same.2]
  · have found : checkGitHooks (installGitHooks dir).2 =
        HOOKS.map fun row => (row.1, .installed) :=
      List.map_congr_left fun row held => congrArg _ (checkHook_composed (written row held))
    rw [found]
    exact map_rows rows_of_HOOKS fun row hook same => by rw [same.1]

end

end Opensquid.Setup.GitHooks
