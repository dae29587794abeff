import Opensquid.Lib.Lines
import Opensquid.Lib.Lists
import Opensquid.Lib.PathText
import Opensquid.Lib.Scan
import Opensquid.Packs.PersonalRevision

/-!
# The three-way merge of a pack

The files of the installed pack and of a new one are compared path by path. A path that changed goes
to the first lesson that refers to it and is no sidecar; the two texts are written to the sidecar of
that lesson, in front of its own text. The version file is written last. `merge_records`: each path
gets one disposition, the sidecars are there when the version is, and a call that fails before that
leaves the version as it was.
-/

namespace Opensquid.Versioning

open Opensquid.Lib FileCalls Json

/-! ## The files of a pack -/

/-- What is found under a name of a directory. A directory that cannot be listed is an empty one. -/
inductive PackEntry
  /-- `stat` fails. -/
  | lost
  /-- None: reading it fails. -/
  | file (text : Option (List Char))
  | dir (entries : List (String × PackEntry))

structure PackFile where
  path : String
  text : List Char
  deriving DecidableEq

abbrev PackFiles := Table PackFile.path

def SKIP_DIRS : List String := ["node_modules", ".git", ".opensquid", "personal_revision"]

/-- `/\.(yaml|yml|md)$/i`. -/
def isPackText (name : String) : Bool :=
  [".yaml", ".yml", ".md"].any fun ext => ext.toList.isSuffixOf (name.toList.map Char.toLower)

mutual

def walkEntry (rel name : String) : PackEntry → PackFiles → Option PackFiles
  | .lost, out => some out
  | .dir entries, out => walk (rel ++ "/") entries out
  | .file text, out =>
      if !isPackText name || PathText.startsWith rel ".." then some out
      else text.map fun raw => out.put ⟨rel, raw⟩

/-- The entries of a directory, whose path from the root is the text in front. -/
def walk (front : String) : List (String × PackEntry) → PackFiles → Option PackFiles
  | [], out => some out
  | (name, entry) :: rest, out =>
      if name ∈ SKIP_DIRS then walk front rest out
      else (walkEntry (front ++ name) name entry out).bind fun out => walk front rest out

end

def readPackTextFiles (dir : List (String × PackEntry)) : Option PackFiles := walk "" dir Table.empty

def textAt (files : PackFiles) (path : String) : Option (List Char) :=
  (files.get path).map PackFile.text

/-- The keys of both, those of the first in front. -/
def allSkillPaths (baseFiles vanillaFiles : PackFiles) : List String :=
  (baseFiles.rows.map PackFile.path ++ vanillaFiles.rows.map PackFile.path).eraseDups

/-! ## The merge -/

inductive FileDisposition
  | unchanged (path : String)
  | autoMergedPersonal (path : List String)
  | autoMergedVanilla (path : String)
  | conflict (path : String) (conflictSidecarPath : List String)
  deriving DecidableEq

structure MergeResult (ν : Type) where
  packId : String
  baseVersion : String
  vanillaVersion : String
  personalRevisionId : ν
  dispositions : List FileDisposition
  conflictCount : Nat
  ok : Bool
  noop : Bool

structure ThreeWayMergeInput where
  packId : String
  baseDir : List (String × PackEntry)
  personalStateDir : List String
  vanillaDir : List (String × PackEntry)
  vanillaVersion : String

/-- None: there is no field to read. -/
def lessonReferencesSkill (body : Json) (skillPath : String) : Option Bool :=
  match body with
  | .null => none
  | .obj fields =>
      some (decide ((field fields "skill").bind asString = some skillPath) ||
        decide (skillPath.toList <:+: stringify body))
  | _ => some (decide (skillPath.toList <:+: stringify body))

/-- `path.replace(/\.yaml$/, '.conflict.yaml')`. -/
def sidecarPath (path : List String) : List String :=
  let name := path.getLast?.getD ""
  if endsWith name ".yaml" then
    path.dropLast ++ [String.ofList (name.toList.take (name.toList.length - 5)) ++ ".conflict.yaml"]
  else path

def commented (text : List Char) : List (List Char) := (text.splitOn '\n').map ("# ".toList ++ ·)

def HEADER_LINES : List (List Char) :=
  ["# CONFLICT: vanilla bump overlaps with personal_revision edit.".toList,
   "# Resolve by removing marker lines + keeping desired content,".toList,
   "# then rename this file back to lesson_<n>.yaml.".toList,
   "#".toList,
   "# <<<<<<< base".toList]

/-- The two texts as comments between markers. -/
def conflictHeader (baseContent vanillaContent : List Char) (vanillaVersion : String) : List Char :=
  ['\n'].intercalate (HEADER_LINES ++ commented baseContent ++ ["# =======".toList] ++
    commented vanillaContent ++ [("# >>>>>>> vanilla " ++ vanillaVersion).toList] ++ [[]])

/-- The absolute path as a text. -/
def pathText (path : List String) : String :=
  String.ofList (path.flatMap fun name => '/' :: name.toList)

section

variable {ν : Type} (numbers : Numbers ν) (pid : Nat) (parseYaml : List Char → Option Json)

def emitConflictSidecar (lesson : LessonFile ν) (baseContent vanillaContent : List Char)
    (vanillaVersion : String) : FileProgram (List String) :=
  (readText lesson.path).bind fun originalBody =>
    (await (.mkdir (sidecarPath lesson.path).dropLast)).attempt.bind fun _ =>
      (replace pid (sidecarPath lesson.path)
        (conflictHeader baseContent vanillaContent vanillaVersion ++ originalBody)).bind fun _ =>
          .ret (sidecarPath lesson.path)

/-- The numbers of `major.minor.patch`. -/
def parsePart (version : List Char) : List ν :=
  (((version.splitOn '-').headD []).splitOn '.').map numbers.parseInt

/-- The first difference of the two lists counts, among three; a missing number is 0. -/
def isOlder (a b : List ν) : Nat → Bool
  | 0 => false
  | n + 1 =>
      match numbers.difference (a.headD (numbers.parseInt ['0'])) (b.headD (numbers.parseInt ['0'])) with
      | some .eq => isOlder a.tail b.tail n
      | sign => sign = some .lt

/-- `semverCompare(a, b) < 0`. -/
def semverOlder (a b : String) : Bool :=
  isOlder numbers (parsePart numbers a.toList) (parsePart numbers b.toList) 3

/-- The first lesson that refers to the path and is no sidecar. -/
def personalTouch (path : String) : List (LessonFile ν) → Option (Option (LessonFile ν))
  | [] => some none
  | lesson :: rest =>
      if lesson.hasConflict then personalTouch path rest
      else (lessonReferencesSkill lesson.body path).bind fun refers =>
        if refers then some (some lesson) else personalTouch path rest

/-- One round of the loop over the paths. -/
def mergePath (baseFiles vanillaFiles : PackFiles) (personalLessons : List (LessonFile ν))
    (vanillaVersion : String) (dispositions : List FileDisposition) (path : String) :
    FileProgram (List FileDisposition) :=
  if textAt baseFiles path = textAt vanillaFiles path then .ret (dispositions ++ [.unchanged path])
  else match personalTouch path personalLessons with
    | none => .throw
    | some none => .ret (dispositions ++ [.autoMergedVanilla path])
    | some (some lesson) =>
        (emitConflictSidecar pid lesson ((textAt baseFiles path).getD [])
          ((textAt vanillaFiles path).getD []) vanillaVersion).bind fun conflictSidecar =>
            .ret (dispositions ++ [.conflict path conflictSidecar])

/-- Some conflict has a sidecar with the number of the lesson in its path. -/
def alreadyDisposed (dispositions : List FileDisposition) (lesson : LessonFile ν) : Bool :=
  dispositions.any fun d => match d with
    | .conflict _ conflictSidecarPath =>
        includes (pathText conflictSidecarPath) ("lesson_" ++ numbers.print lesson.id ++ ".")
    | _ => false

/-- The lessons that are reported as kept. -/
def personalOnly (dispositions : List FileDisposition) (personalLessons : List (LessonFile ν)) :
    List FileDisposition :=
  (personalLessons.filter fun lesson =>
    !lesson.hasConflict && !alreadyDisposed numbers dispositions lesson).map fun lesson =>
      .autoMergedPersonal lesson.path

def isConflict : FileDisposition → Bool
  | .conflict _ _ => true
  | _ => false

def mergeResult (input : ThreeWayMergeInput) (current : PersonalRevision ν)
    (dispositions : List FileDisposition) (noop : Bool) : MergeResult ν where
  packId := input.packId
  baseVersion := current.baseVersion
  vanillaVersion := input.vanillaVersion
  personalRevisionId := current.personalRevisionId
  dispositions := dispositions
  conflictCount := dispositions.countP isConflict
  ok := true
  noop := noop

/-- The merge of two packs that have been read. -/
def mergeFiles (input : ThreeWayMergeInput) (current : PersonalRevision ν)
    (baseFiles vanillaFiles : PackFiles) : FileProgram (MergeResult ν) :=
  (readLessonFiles numbers parseYaml input.personalStateDir).bind fun personalLessons =>
    (Program.foldEach (mergePath pid baseFiles vanillaFiles personalLessons input.vanillaVersion) []
      (allSkillPaths baseFiles vanillaFiles)).bind fun disposed =>
        let dispositions := disposed ++ personalOnly numbers disposed personalLessons
        (writeVersionJson numbers pid input.personalStateDir
          { current with lastMergedVanilla := some input.vanillaVersion }).bind fun _ =>
            .ret (mergeResult input current dispositions false)

def runThreeWayMerge (input : ThreeWayMergeInput) : FileProgram (MergeResult ν) :=
  (readVersionJson numbers input.personalStateDir).bind fun
    | none => .throw
    | some current =>
        if semverOlder numbers input.vanillaVersion current.baseVersion then .throw
        else if current.lastMergedVanilla = some input.vanillaVersion then
          .ret (mergeResult input current [] true)
        else match readPackTextFiles input.baseDir, readPackTextFiles input.vanillaDir with
          | some baseFiles, some vanillaFiles =>
              mergeFiles numbers pid parseYaml input current baseFiles vanillaFiles
          | _, _ => .throw

end

/-! ## What is claimed -/

section

variable {ν : Type}

def Changed (baseFiles vanillaFiles : PackFiles) (path : String) : Prop :=
  textAt baseFiles path ≠ textAt vanillaFiles path

/-- The lesson refers to the path and is no sidecar. -/
def touches (path : String) (lesson : LessonFile ν) : Bool :=
  !lesson.hasConflict && lessonReferencesSkill lesson.body path = some true

/-- The first lesson that refers to the path. -/
def TakesUp (lessons : List (LessonFile ν)) (path : String) (lesson : LessonFile ν) : Prop :=
  lessons.find? (touches path) = some lesson

/-- The path of a pack that a disposition is about. -/
def skillPath : FileDisposition → Option String
  | .unchanged path | .autoMergedVanilla path | .conflict path _ => some path
  | .autoMergedPersonal _ => none

/-- Each path of a pack has one disposition. -/
structure Disposed (numbers : Numbers ν) (baseFiles vanillaFiles : PackFiles)
    (lessons : List (LessonFile ν)) (dispositions : List FileDisposition) : Prop where
  once : ∀ path, path ∈ allSkillPaths baseFiles vanillaFiles →
    (dispositions.filter fun d => skillPath d = some path).length = 1
  unchanged : ∀ path, path ∈ allSkillPaths baseFiles vanillaFiles →
    (.unchanged path ∈ dispositions ↔ ¬ Changed baseFiles vanillaFiles path)
  vanilla : ∀ path, path ∈ allSkillPaths baseFiles vanillaFiles →
    (.autoMergedVanilla path ∈ dispositions ↔
      Changed baseFiles vanillaFiles path ∧ ∀ lesson ∈ lessons, touches path lesson = false)
  conflict : ∀ path, path ∈ allSkillPaths baseFiles vanillaFiles →
    ((∃ sidecar, .conflict path sidecar ∈ dispositions) ↔
      Changed baseFiles vanillaFiles path ∧ ∃ lesson ∈ lessons, touches path lesson = true)
  sidecar : ∀ path sidecar, .conflict path sidecar ∈ dispositions →
    ∃ lesson, TakesUp lessons path lesson ∧ sidecar = sidecarPath lesson.path
  personal : ∀ path, .autoMergedPersonal path ∈ dispositions ↔ ∃ lesson ∈ lessons,
    lesson.hasConflict = false ∧ lesson.path = path ∧ alreadyDisposed numbers dispositions lesson = false

/-- What is left of the conflicts: a lesson that takes up a changed path has a sidecar, which says its
body and, if there is no other such path, the two texts. -/
structure Sidecars (numbers : Numbers ν) (parseYaml : List Char → Option Json)
    (baseFiles vanillaFiles : PackFiles) (lessons : List (LessonFile ν)) (vanillaVersion : String)
    (dispositions : List FileDisposition) (t u : FileTree) : Prop where
  taken : ∀ path lesson, Changed baseFiles vanillaFiles path → TakesUp lessons path lesson →
    ∃ text, u.files.get (sidecarPath lesson.path) = some ⟨sidecarPath lesson.path, text⟩ ∧
      (isBaseVersion vanillaVersion = true → parseYaml text = some lesson.body) ∧
      ((∀ other, Changed baseFiles vanillaFiles other → TakesUp lessons other lesson → other = path) →
        conflictHeader ((textAt baseFiles path).getD []) ((textAt vanillaFiles path).getD [])
          vanillaVersion <+: text)
  reported : ∀ path lesson, Changed baseFiles vanillaFiles path → TakesUp lessons path lesson →
    lesson.path.getLast? = some ("lesson_" ++ numbers.print lesson.id ++ ".yaml") →
      .autoMergedPersonal lesson.path ∉ dispositions
  untaken : ∀ lesson ∈ lessons, lesson.hasConflict = false →
    (∀ path, Changed baseFiles vanillaFiles path → ¬ TakesUp lessons path lesson) →
      u.files.get (sidecarPath lesson.path) = t.files.get (sidecarPath lesson.path)

end

/-! ## Dispositions -/

section

variable {ν : Type} {numbers : Numbers ν} {baseFiles vanillaFiles : PackFiles}
  {lessons : List (LessonFile ν)} {path : String}

theorem mem_allSkillPaths : path ∈ allSkillPaths baseFiles vanillaFiles ↔
    (textAt baseFiles path).isSome = true ∨ (textAt vanillaFiles path).isSome = true := by
  have known : ∀ files : PackFiles, path ∈ files.rows.map PackFile.path ↔
      (textAt files path).isSome = true := by
    intro files
    rw [textAt, Option.isSome_map, Option.isSome_iff_exists, List.mem_map]
    constructor
    · intro ⟨f, mem, same⟩
      exact ⟨f, Table.get_eq_some_iff.mpr ⟨mem, same⟩⟩
    · intro ⟨f, found⟩
      exact ⟨f, Table.get_eq_some_iff.mp found⟩
  rw [allSkillPaths, List.mem_eraseDups, List.mem_append, known, known]

theorem mem_of_changed (changed : Changed baseFiles vanillaFiles path) :
    path ∈ allSkillPaths baseFiles vanillaFiles := by
  by_contra outside
  rw [mem_allSkillPaths, not_or, Option.not_isSome_iff_eq_none, Option.not_isSome_iff_eq_none]
    at outside
  apply changed
  rw [outside.1, outside.2]

variable (baseFiles vanillaFiles lessons) in
def dispositionOf (path : String) : FileDisposition :=
  if textAt baseFiles path = textAt vanillaFiles path then .unchanged path
  else match lessons.find? (touches path) with
    | none => .autoMergedVanilla path
    | some lesson => .conflict path (sidecarPath lesson.path)

variable (baseFiles vanillaFiles lessons path) in
theorem dispositionOf_cases :
    ¬ Changed baseFiles vanillaFiles path ∧
        dispositionOf baseFiles vanillaFiles lessons path = .unchanged path ∨
      Changed baseFiles vanillaFiles path ∧ (∀ lesson ∈ lessons, touches path lesson = false) ∧
        dispositionOf baseFiles vanillaFiles lessons path = .autoMergedVanilla path ∨
      ∃ lesson, Changed baseFiles vanillaFiles path ∧ TakesUp lessons path lesson ∧
        dispositionOf baseFiles vanillaFiles lessons path =
          .conflict path (sidecarPath lesson.path) := by
  unfold dispositionOf
  split
  · rename_i same
    exact Or.inl ⟨not_not.mpr same, rfl⟩
  · rename_i changed
    cases found : lessons.find? (touches path) with
    | none =>
        refine Or.inr (Or.inl ⟨changed, fun lesson mem => ?_, rfl⟩)
        exact Bool.eq_false_iff.mpr (List.find?_eq_none.mp found lesson mem)
    | some lesson => exact Or.inr (Or.inr ⟨lesson, changed, found, rfl⟩)

theorem TakesUp.mem {lesson : LessonFile ν} (takes : TakesUp lessons path lesson) :
    lesson ∈ lessons := List.mem_of_find?_eq_some takes

theorem TakesUp.touches {lesson : LessonFile ν} (takes : TakesUp lessons path lesson) :
    touches path lesson = true := List.find?_some takes

theorem skillPath_dispositionOf :
    skillPath (dispositionOf baseFiles vanillaFiles lessons path) = some path := by
  unfold dispositionOf
  split
  · rfl
  · split <;> rfl

variable (numbers baseFiles vanillaFiles lessons) in
/-- What the merge reports. -/
def allDispositions : List FileDisposition :=
  let disposed := (allSkillPaths baseFiles vanillaFiles).map
    (dispositionOf baseFiles vanillaFiles lessons)
  disposed ++ personalOnly numbers disposed lessons

theorem mem_personalOnly {disposed : List FileDisposition} {d : FileDisposition} :
    d ∈ personalOnly numbers disposed lessons ↔ ∃ lesson ∈ lessons, lesson.hasConflict = false ∧
      alreadyDisposed numbers disposed lesson = false ∧ .autoMergedPersonal lesson.path = d := by
  simp [personalOnly, and_assoc]

/-- A disposition about a path is the one that the path has. -/
theorem mem_allDispositions {d : FileDisposition} (about : skillPath d = some path) :
    d ∈ allDispositions numbers baseFiles vanillaFiles lessons ↔
      path ∈ allSkillPaths baseFiles vanillaFiles ∧
        d = dispositionOf baseFiles vanillaFiles lessons path := by
  rw [allDispositions, List.mem_append, List.mem_map]
  constructor
  · intro mem
    rcases mem with ⟨p, mem, same⟩ | mem
    · rw [← same, skillPath_dispositionOf] at about
      cases about
      exact ⟨mem, same.symm⟩
    · obtain ⟨lesson, -, -, -, same⟩ := mem_personalOnly.mp mem
      rw [← same] at about
      cases about
  · intro ⟨mem, same⟩
    exact Or.inl ⟨path, mem, same.symm⟩

theorem alreadyDisposed_allDispositions {lesson : LessonFile ν} :
    alreadyDisposed numbers (allDispositions numbers baseFiles vanillaFiles lessons) lesson =
      alreadyDisposed numbers ((allSkillPaths baseFiles vanillaFiles).map
        (dispositionOf baseFiles vanillaFiles lessons)) lesson := by
  have none : ∀ disposed, alreadyDisposed numbers (personalOnly numbers disposed lessons) lesson =
      false := by
    intro disposed
    apply List.any_eq_false.mpr
    intro d mem
    obtain ⟨other, -, -, -, same⟩ := mem_personalOnly.mp mem
    rw [← same]
    exact Bool.false_ne_true
  have apart := none ((allSkillPaths baseFiles vanillaFiles).map
    (dispositionOf baseFiles vanillaFiles lessons))
  unfold alreadyDisposed at apart ⊢
  rw [allDispositions, List.any_append, apart, Bool.or_false]

theorem length_about (mem : path ∈ allSkillPaths baseFiles vanillaFiles) :
    ((allDispositions numbers baseFiles vanillaFiles lessons).filter
      fun d => skillPath d = some path).length = 1 := by
  have personal : ∀ disposed, (personalOnly numbers disposed lessons).filter
      (fun d => skillPath d = some path) = [] := by
    intro disposed
    apply List.filter_eq_nil_iff.mpr
    intro d mem
    obtain ⟨other, -, -, -, same⟩ := mem_personalOnly.mp mem
    rw [← same]
    simp [skillPath]
  have distinct : (allSkillPaths baseFiles vanillaFiles).Nodup := nodup_eraseDups _
  rw [allDispositions, List.filter_append, personal, List.append_nil, List.filter_map,
    List.length_map, ← List.countP_eq_length_filter]
  have same : ((fun d => decide (skillPath d = some path)) ∘
      dispositionOf baseFiles vanillaFiles lessons) = (· == path) := by
    funext p
    simp only [Function.comp_apply, skillPath_dispositionOf, Option.some.injEq, beq_eq_decide]
  rw [same]
  exact List.count_eq_one_of_mem distinct mem

theorem disposed_allDispositions : Disposed numbers baseFiles vanillaFiles lessons
    (allDispositions numbers baseFiles vanillaFiles lessons) where
  once path mem := length_about mem
  unchanged path mem := by
    rw [@mem_allDispositions _ _ _ _ _ path _ rfl]
    rcases dispositionOf_cases baseFiles vanillaFiles lessons path with
      ⟨same, eq⟩ | ⟨changed, -, eq⟩ | ⟨lesson, changed, -, eq⟩
    · simp [eq, mem, same]
    · simp [eq, changed]
    · simp [eq, changed]
  vanilla path mem := by
    rw [@mem_allDispositions _ _ _ _ _ path _ rfl]
    rcases dispositionOf_cases baseFiles vanillaFiles lessons path with
      ⟨same, eq⟩ | ⟨changed, untouched, eq⟩ | ⟨lesson, changed, takes, eq⟩
    · simp [eq, same]
    · rw [eq]
      exact iff_of_true ⟨mem, rfl⟩ ⟨changed, untouched⟩
    · rw [eq]
      apply iff_of_false
      · exact fun mem => nomatch mem.2
      · intro ⟨_, untouched⟩
        have no := untouched lesson takes.mem
        rw [takes.touches] at no
        cases no
  conflict path mem := by
    have about : ∀ sidecar, .conflict path sidecar ∈
        allDispositions numbers baseFiles vanillaFiles lessons ↔
          .conflict path sidecar = dispositionOf baseFiles vanillaFiles lessons path := by
      intro sidecar
      rw [@mem_allDispositions _ _ _ _ _ path _ rfl, and_iff_right mem]
    simp only [about]
    rcases dispositionOf_cases baseFiles vanillaFiles lessons path with
      ⟨same, eq⟩ | ⟨changed, untouched, eq⟩ | ⟨lesson, changed, takes, eq⟩
    · simp [eq, same]
    · rw [eq]
      apply iff_of_false
      · exact fun ⟨_, same⟩ => nomatch same
      · intro ⟨_, lesson, known, touched⟩
        rw [untouched lesson known] at touched
        cases touched
    · rw [eq]
      exact iff_of_true ⟨_, rfl⟩ ⟨changed, lesson, takes.mem, takes.touches⟩
  sidecar path sidecar mem := by
    obtain ⟨-, same⟩ := (@mem_allDispositions _ _ _ _ _ path _ rfl).mp mem
    rcases dispositionOf_cases baseFiles vanillaFiles lessons path with
      ⟨-, eq⟩ | ⟨-, -, eq⟩ | ⟨lesson, -, takes, eq⟩
    · rw [eq] at same
      cases same
    · rw [eq] at same
      cases same
    · rw [eq] at same
      cases same
      exact ⟨lesson, takes, rfl⟩
  personal path := by
    simp only [alreadyDisposed_allDispositions]
    rw [allDispositions, List.mem_append, mem_personalOnly]
    constructor
    · intro mem
      rcases mem with mem | ⟨lesson, mem, fresh, free, same⟩
      · obtain ⟨p, -, same⟩ := List.mem_map.mp mem
        have about := @skillPath_dispositionOf _ baseFiles vanillaFiles lessons p
        rw [same] at about
        cases about
      · cases same
        exact ⟨lesson, mem, fresh, rfl, free⟩
    · intro ⟨lesson, mem, fresh, same, free⟩
      exact Or.inr ⟨lesson, mem, fresh, free, congrArg _ same⟩

end

/-! ## Paths of sidecars -/

section

variable {ν : Type} {numbers : Numbers ν} {parseYaml : List Char → Option Json}
  {packStateDir : List String} {t : FileTree} {lesson other : LessonFile ν}
  {digits raw : List Char}

theorem getLast?_lessonFileName (digits : List Char) (hasConflict : Bool) :
    (lessonFileName digits hasConflict).toList.getLast? = some 'l' := by
  rw [toList_lessonFileName, List.getLast?_append, List.getLast?_append]
  cases hasConflict <;> rfl

theorem endsInDigit_lessonFile (dir : List String) (digits : List Char) (hasConflict : Bool) :
    endsInDigit (dir ++ [lessonFileName digits hasConflict]) = false := by
  rw [endsInDigit, List.getLast?_concat, Option.any_some, getLast?_lessonFileName]
  rfl

theorem endsInDigit_versionPath : endsInDigit (versionPath packStateDir) = false := by
  rw [endsInDigit, versionPath, List.getLast?_concat]
  decide

theorem lessonFile_ne_versionPath (digits : List Char) (hasConflict : Bool) :
    revisionDir packStateDir ++ [lessonFileName digits hasConflict] ≠ versionPath packStateDir := by
  intro same
  have name := List.singleton_inj.mp (List.append_cancel_left same)
  have last := getLast?_lessonFileName digits hasConflict
  rw [name] at last
  revert last
  decide

theorem sidecarPath_lessonFile (dir : List String) (digits : List Char) :
    sidecarPath (dir ++ [lessonFileName digits false]) = dir ++ [lessonFileName digits true] := by
  have ends : endsWith (lessonFileName digits false) ".yaml" = true := by
    rw [endsWith, toList_lessonFileName, List.isSuffixOf_iff_suffix, ← List.append_assoc]
    exact List.suffix_append _ _
  have front : (lessonFileName digits false).toList.take
      ((lessonFileName digits false).toList.length - 5) = "lesson_".toList ++ digits := by
    rw [toList_lessonFileName, ← List.append_assoc]
    apply List.take_left'
    simp
  rw [sidecarPath, List.getLast?_concat, Option.getD_some, List.dropLast_concat, if_pos ends, front]
  apply congrArg
  apply congrArg (· :: [])
  apply String.toList_inj.mp
  rw [toList_lessonFileName]
  simp

theorem LessonFile.Read.sidecarPath_eq (read : lesson.Read numbers parseYaml packStateDir t digits raw)
    (fresh : lesson.hasConflict = false) :
    sidecarPath lesson.path = revisionDir packStateDir ++ [lessonFileName digits true] := by
  rw [read.path, fresh, sidecarPath_lessonFile]

/-- A lesson is known by its file. -/
theorem LessonFile.Read.eq_of_digits {raw' : List Char}
    (read : lesson.Read numbers parseYaml packStateDir t digits raw)
    (read' : other.Read numbers parseYaml packStateDir t digits raw')
    (fresh : lesson.hasConflict = false) (fresh' : other.hasConflict = false) : lesson = other := by
  have path : lesson.path = other.path := by rw [read.path, read'.path, fresh, fresh']
  have text := read.text
  rw [path, read'.text] at text
  have same : raw' = raw := congrArg TextFile.text (Option.some.inj text)
  have body := read.body
  rw [← same, read'.body] at body
  have id := read.id.trans read'.id.symm
  cases lesson
  cases other
  cases path
  cases id
  cases body
  cases fresh
  cases fresh'
  rfl

theorem eq_of_sidecarPath {lessons : List (LessonFile ν)}
    (found : lessonsIn numbers parseYaml packStateDir t = some lessons) (mem : lesson ∈ lessons)
    (mem' : other ∈ lessons) (fresh : lesson.hasConflict = false)
    (fresh' : other.hasConflict = false)
    (same : sidecarPath lesson.path = sidecarPath other.path) : lesson = other := by
  obtain ⟨digits, raw, read⟩ := exists_read found lesson mem
  obtain ⟨digits', raw', read'⟩ := exists_read found other mem'
  rw [read.sidecarPath_eq fresh, read'.sidecarPath_eq fresh'] at same
  have name := congrArg lessonName (List.singleton_inj.mp (List.append_cancel_left same))
  rw [lessonName_lessonFileName read.digital, lessonName_lessonFileName read'.digital] at name
  cases name
  exact read.eq_of_digits read' fresh fresh'

end

/-! ## One path -/

section

variable {ν : Type} {numbers : Numbers ν} {pid : Nat} {parseYaml : List Char → Option Json}
  {packStateDir : List String} {baseFiles vanillaFiles : PackFiles}
  {lessons : List (LessonFile ν)} {vanillaVersion path : String} {takes : String → Bool}
  {strict : Prop} {t s : FileTree} {lesson : LessonFile ν}

theorem find?_of_personalTouch {found : Option (LessonFile ν)}
    (touched : personalTouch path lessons = some found) : lessons.find? (touches path) = found := by
  induction lessons with
  | nil =>
      cases touched
      rfl
  | cons lesson rest ih =>
      rw [personalTouch] at touched
      split at touched
      · rename_i sidecar
        rw [List.find?_cons_of_neg (by simp [touches, sidecar])]
        exact ih touched
      · rename_i fresh
        obtain ⟨refers, known, touched⟩ := Option.bind_eq_some_iff.mp touched
        split at touched
        · rename_i yes
          cases touched
          exact List.find?_cons_of_pos (by simp [touches, fresh, known, yes])
        · rename_i no
          rw [List.find?_cons_of_neg (by simp [touches, known, no])]
          exact ih touched

theorem null_of_personalTouch (failed : personalTouch path lessons = none) :
    ∃ lesson ∈ lessons, lesson.body = .null := by
  induction lessons with
  | nil => cases failed
  | cons lesson rest ih =>
      have later : personalTouch path rest = none → ∃ l ∈ lesson :: rest, l.body = .null := by
        intro failed
        obtain ⟨l, mem, null⟩ := ih failed
        exact ⟨l, List.mem_cons_of_mem _ mem, null⟩
      rw [personalTouch] at failed
      split at failed
      · exact later failed
      · cases refers : lessonReferencesSkill lesson.body path with
        | none =>
            refine ⟨lesson, List.mem_cons_self, ?_⟩
            unfold lessonReferencesSkill at refers
            split at refers
            · assumption
            · cases refers
            · cases refers
        | some yes =>
            rw [refers, Option.bind_some] at failed
            split at failed
            · cases failed
            · exact later failed

variable (baseFiles vanillaFiles vanillaVersion) in
/-- The comment on a path in a sidecar. -/
def headerOf (path : String) : List Char :=
  conflictHeader ((textAt baseFiles path).getD []) ((textAt vanillaFiles path).getD []) vanillaVersion

variable (baseFiles vanillaFiles lessons) in
/-- The path changed, and its texts go to the sidecar of the lesson. -/
def Emits (path : String) (lesson : LessonFile ν) : Prop :=
  Changed baseFiles vanillaFiles path ∧ TakesUp lessons path lesson

theorem Emits.fresh (emits : Emits baseFiles vanillaFiles lessons path lesson) :
    lesson.hasConflict = false := by
  have touched := emits.2.touches
  simp only [touches, Bool.and_eq_true, Bool.not_eq_true'] at touched
  exact touched.1

variable (parseYaml baseFiles vanillaFiles lessons vanillaVersion) in
/-- After the paths that are done: a sidecar has the texts of one of them in front of the text of
the lesson, and the other files are as they were. -/
structure Filed (t : FileTree) (done : List String) (s : FileTree) : Prop where
  kept : ∀ p, endsInDigit p = false →
    (∀ path ∈ done, ∀ lesson, Emits baseFiles vanillaFiles lessons path lesson →
      sidecarPath lesson.path ≠ p) → s.files.get p = t.files.get p
  sidecar : ∀ path ∈ done, ∀ lesson, Emits baseFiles vanillaFiles lessons path lesson →
    ∃ other ∈ done, Emits baseFiles vanillaFiles lessons other lesson ∧
      ∃ raw, parseYaml raw = some lesson.body ∧ s.files.get (sidecarPath lesson.path) =
        some ⟨sidecarPath lesson.path, headerOf baseFiles vanillaFiles vanillaVersion other ++ raw⟩

theorem Filed.start : Filed parseYaml baseFiles vanillaFiles lessons vanillaVersion t [] t :=
  ⟨fun _ _ _ => rfl, List.forall_mem_nil _⟩

theorem Filed.version (found : lessonsIn numbers parseYaml packStateDir t = some lessons)
    {done : List String} (filed : Filed parseYaml baseFiles vanillaFiles lessons vanillaVersion t done s) :
    s.files.get (versionPath packStateDir) = t.files.get (versionPath packStateDir) := by
  apply filed.kept _ endsInDigit_versionPath
  intro path _ lesson emits
  obtain ⟨digits, raw, read⟩ := exists_read found lesson emits.2.mem
  rw [read.sidecarPath_eq emits.fresh]
  exact lessonFile_ne_versionPath digits true

/-- The file of a lesson is no sidecar of another. -/
theorem Filed.lessonText (found : lessonsIn numbers parseYaml packStateDir t = some lessons)
    {done : List String} (filed : Filed parseYaml baseFiles vanillaFiles lessons vanillaVersion t done s)
    (mem : lesson ∈ lessons) (fresh : lesson.hasConflict = false) :
    s.files.get lesson.path = t.files.get lesson.path := by
  obtain ⟨digits, raw, read⟩ := exists_read found lesson mem
  rw [read.path, fresh]
  apply filed.kept _ (endsInDigit_lessonFile _ _ _)
  intro path _ other emits same
  obtain ⟨digits', raw', read'⟩ := exists_read found other emits.2.mem
  rw [read'.sidecarPath_eq emits.fresh] at same
  have name := congrArg lessonName (List.singleton_inj.mp (List.append_cancel_left same))
  rw [lessonName_lessonFileName read.digital, lessonName_lessonFileName read'.digital] at name
  cases name

/-- A path without a lesson changes no file. -/
theorem Filed.skip {done : List String}
    (filed : Filed parseYaml baseFiles vanillaFiles lessons vanillaVersion t done s)
    (none : ∀ lesson, ¬ Emits baseFiles vanillaFiles lessons path lesson) :
    Filed parseYaml baseFiles vanillaFiles lessons vanillaVersion t (done ++ [path]) s where
  kept p plain apart := by
    apply filed.kept p plain
    intro q mem
    exact apart q (List.mem_append_left _ mem)
  sidecar q mem lesson emits := by
    rcases List.mem_append.mp mem with mem | mem
    · obtain ⟨other, known, rest⟩ := filed.sidecar q mem lesson emits
      exact ⟨other, List.mem_append_left _ known, rest⟩
    · cases List.mem_singleton.mp mem
      exact absurd emits (none lesson)

/-- A sidecar is written, over one that may be there. -/
theorem Filed.emit {u : FileTree} {raw : List Char}
    (found : lessonsIn numbers parseYaml packStateDir t = some lessons) {done : List String}
    (filed : Filed parseYaml baseFiles vanillaFiles lessons vanillaVersion t done s)
    (emits : Emits baseFiles vanillaFiles lessons path lesson) (body : parseYaml raw = some lesson.body)
    (written : ∀ p, endsInDigit p = false → u.files.get p =
      if p = sidecarPath lesson.path then
        some ⟨sidecarPath lesson.path, headerOf baseFiles vanillaFiles vanillaVersion path ++ raw⟩
      else s.files.get p) :
    Filed parseYaml baseFiles vanillaFiles lessons vanillaVersion t (done ++ [path]) u where
  kept p plain apart := by
    have other : p ≠ sidecarPath lesson.path := (apart path (by simp) lesson emits).symm
    rw [written p plain, if_neg other]
    apply filed.kept p plain
    intro q mem
    exact apart q (List.mem_append_left _ mem)
  sidecar q mem other emits' := by
    obtain ⟨digits, raw', read⟩ := exists_read found other emits'.2.mem
    have plain : endsInDigit (sidecarPath other.path) = false := by
      rw [read.sidecarPath_eq emits'.fresh, endsInDigit_lessonFile]
    by_cases same : sidecarPath other.path = sidecarPath lesson.path
    · cases eq_of_sidecarPath found emits'.2.mem emits.2.mem emits'.fresh emits.fresh same
      exact ⟨path, by simp, emits, raw, body, by rw [written _ plain, if_pos rfl]⟩
    · rcases List.mem_append.mp mem with mem | mem
      · obtain ⟨first, known, takes, raw, parsed, file⟩ := filed.sidecar q mem other emits'
        exact ⟨first, List.mem_append_left _ known, takes, raw, parsed,
          by rw [written _ plain, if_neg same, file]⟩
      · cases List.mem_singleton.mp mem
        have one := emits.2.symm.trans emits'.2
        cases one
        exact absurd rfl same

theorem always_emitConflictSidecar {raw baseContent vanillaContent : List Char}
    {post : Option (List String) → FileTree → Prop}
    (text : s.files.get lesson.path = some ⟨lesson.path, raw⟩)
    (emitted : ∀ u : FileTree, (∀ p, endsInDigit p = false → u.files.get p =
      if p = sidecarPath lesson.path then some ⟨sidecarPath lesson.path,
        conflictHeader baseContent vanillaContent vanillaVersion ++ raw⟩ else s.files.get p) →
      post (some (sidecarPath lesson.path)) u)
    (failed : ¬ strict → ∀ u : FileTree,
      (∀ p, endsInDigit p = false → u.files.get p = s.files.get p) → post none u) :
    (emitConflictSidecar pid lesson baseContent vanillaContent vanillaVersion).Always
      (calls takes strict) (fun _ _ => True) post s := by
  have write : ∀ made : FileTree, made.files = s.files →
      ((replace pid (sidecarPath lesson.path)
        (conflictHeader baseContent vanillaContent vanillaVersion ++ raw)).bind fun _ =>
          .ret (sidecarPath lesson.path)).Always (calls takes strict) (fun _ _ => True) post made := by
    intro made same
    apply Program.Always.bind
    apply always_replace
    · rw [same]
      exact emitted
    · rw [same]
      exact failed
  apply Program.Always.bind
  apply always_readText
  · intro f found
    cases text.symm.trans found
    apply Program.Always.bind
    apply Program.Always.attempt
    apply always_mkdir trivial
    · exact write
    · intro _
      exact write s rfl
  · intro lost
    apply failed
    · intro never
      rw [lost never] at text
      cases text
    · exact fun _ _ => rfl

theorem always_mergePath (found : lessonsIn numbers parseYaml packStateDir t = some lessons)
    {done : List String} {dispositions : List FileDisposition}
    (filed : Filed parseYaml baseFiles vanillaFiles lessons vanillaVersion t done s)
    {post : Option (List FileDisposition) → FileTree → Prop}
    (returns : ∀ u, Filed parseYaml baseFiles vanillaFiles lessons vanillaVersion t (done ++ [path]) u →
      post (some (dispositions ++ [dispositionOf baseFiles vanillaFiles lessons path])) u)
    (throws : (strict → ∃ lesson ∈ lessons, lesson.body = .null) → ∀ u : FileTree,
      u.files.get (versionPath packStateDir) = t.files.get (versionPath packStateDir) → post none u) :
    (mergePath pid baseFiles vanillaFiles lessons vanillaVersion dispositions path).Always
      (calls takes strict) (fun _ _ => True) post s := by
  unfold mergePath
  split
  · rename_i same
    have unchanged : ¬ Changed baseFiles vanillaFiles path := not_not.mpr same
    have disposed : dispositionOf baseFiles vanillaFiles lessons path = .unchanged path := if_pos same
    rw [disposed] at returns
    exact returns s (filed.skip fun lesson emits => unchanged emits.1)
  · rename_i changed
    split
    · rename_i failed
      exact throws (fun _ => null_of_personalTouch failed) s (filed.version found)
    · rename_i touched
      have untouched := find?_of_personalTouch touched
      have disposed : dispositionOf baseFiles vanillaFiles lessons path = .autoMergedVanilla path := by
        rw [dispositionOf, if_neg changed, untouched]
      rw [disposed] at returns
      apply returns s
      apply filed.skip
      intro lesson emits
      cases untouched.symm.trans emits.2
    · rename_i lesson touched
      have taken : TakesUp lessons path lesson := find?_of_personalTouch touched
      have emits : Emits baseFiles vanillaFiles lessons path lesson := ⟨changed, taken⟩
      have disposed : dispositionOf baseFiles vanillaFiles lessons path =
          .conflict path (sidecarPath lesson.path) := by
        rw [dispositionOf, if_neg changed, taken]
      rw [disposed] at returns
      obtain ⟨digits, raw, read⟩ := exists_read found lesson taken.mem
      have text := filed.lessonText found taken.mem emits.fresh
      rw [read.text] at text
      apply Program.Always.bind
      apply always_emitConflictSidecar text
      · intro u written
        exact returns u (filed.emit found emits read.body written)
      · intro lax u kept
        apply throws fun never => absurd never lax
        rw [kept _ endsInDigit_versionPath]
        exact filed.version found

/-- The loop over the paths. -/
theorem always_mergePaths (found : lessonsIn numbers parseYaml packStateDir t = some lessons)
    {paths : List String} {post : Option (List FileDisposition) → FileTree → Prop}
    (returns : ∀ u, Filed parseYaml baseFiles vanillaFiles lessons vanillaVersion t paths u →
      post (some (paths.map (dispositionOf baseFiles vanillaFiles lessons))) u)
    (throws : (strict → ∃ lesson ∈ lessons, lesson.body = .null) → ∀ u : FileTree,
      u.files.get (versionPath packStateDir) = t.files.get (versionPath packStateDir) → post none u) :
    (Program.foldEach (mergePath pid baseFiles vanillaFiles lessons vanillaVersion) [] paths).Always
      (calls takes strict) (fun _ _ => True) post t := by
  apply Program.Always.foldEach fun dispositions rest s => ∃ done, paths = done ++ rest ∧
    dispositions = done.map (dispositionOf baseFiles vanillaFiles lessons) ∧
      Filed parseYaml baseFiles vanillaFiles lessons vanillaVersion t done s
  · intro dispositions path rest s ⟨done, split, same, filed⟩
    apply always_mergePath found filed
    · intro u next
      refine ⟨done ++ [path], ?_, ?_, next⟩
      · rw [split, List.append_assoc, List.singleton_append]
      · rw [same, List.map_append, List.map_singleton]
    · exact throws
  · intro dispositions s ⟨done, split, same, filed⟩
    rw [List.append_nil] at split
    rw [same, ← split]
    apply returns
    rw [split]
    exact filed
  · exact ⟨[], rfl, rfl, Filed.start⟩

end

/-! ## Comments -/

section

variable {parseYaml : List Char → Option Json}

theorem parse_unlines_append
    (comments : ∀ line text, '\n' ∉ line → parseYaml ('#' :: line ++ '\n' :: text) = parseYaml text)
    {lines : List (List Char)} (all : ∀ line ∈ lines, '\n' ∉ line ∧ line.head? = some '#')
    (raw : List Char) : parseYaml (Lines.unlines '\n' lines ++ raw) = parseYaml raw := by
  induction lines with
  | nil => rfl
  | cons line lines ih =>
      obtain ⟨⟨free, hash⟩, rest⟩ := List.forall_mem_cons.mp all
      obtain ⟨more, same⟩ := List.head?_eq_some_iff.mp hash
      rw [same] at free ⊢
      have step := comments more (Lines.unlines '\n' lines ++ raw)
        fun mem => free (List.mem_cons_of_mem _ mem)
      rw [ih rest] at step
      rw [Lines.unlines_cons, List.append_assoc]
      exact step

theorem commented_comment (text : List Char) :
    ∀ line ∈ commented text, '\n' ∉ line ∧ line.head? = some '#' := by
  intro line mem
  obtain ⟨piece, inside, same⟩ := List.mem_map.mp mem
  have free := PathText.not_mem_of_mem_splitOn inside
  rw [← same]
  constructor
  · simp [free]
  · rfl

/-- The header is made of comments. -/
theorem parse_conflictHeader_append
    (comments : ∀ line text, '\n' ∉ line → parseYaml ('#' :: line ++ '\n' :: text) = parseYaml text)
    {vanillaVersion : String} (valid : isBaseVersion vanillaVersion = true)
    (baseContent vanillaContent raw : List Char) :
    parseYaml (conflictHeader baseContent vanillaContent vanillaVersion ++ raw) = parseYaml raw := by
  have free := newline_not_mem_of_isBaseVersion valid
  have front : ∀ line ∈ HEADER_LINES, '\n' ∉ line ∧ line.head? = some '#' := by decide
  rw [conflictHeader, Lines.intercalate_concat_nil]
  apply parse_unlines_append comments
  intro line mem
  simp only [List.mem_append, List.mem_singleton] at mem
  rcases mem with (((mem | mem) | mem) | mem) | mem
  · exact front line mem
  · exact commented_comment baseContent line mem
  · rw [mem]
    decide
  · exact commented_comment vanillaContent line mem
  · rw [mem, String.toList_append]
    constructor
    · simp [free]
    · rfl

end

/-! ## The whole merge -/

section

variable {ν : Type} {numbers : Numbers ν} {pid : Nat} {parseYaml : List Char → Option Json}
  {input : ThreeWayMergeInput} {baseFiles vanillaFiles : PackFiles}
  {lessons : List (LessonFile ν)} {takes : String → Bool} {strict : Prop} {t u : FileTree}
  {current : PersonalRevision ν} {r : MergeResult ν}

variable (numbers parseYaml input) in
/-- Nothing but a failing call keeps the merge from returning. -/
def Mergeable (t : FileTree) : Prop :=
  ∃ current baseFiles vanillaFiles lessons,
    versionIn numbers input.personalStateDir t = some (some current) ∧
    semverOlder numbers input.vanillaVersion current.baseVersion = false ∧
    readPackTextFiles input.baseDir = some baseFiles ∧
    readPackTextFiles input.vanillaDir = some vanillaFiles ∧
    lessonsIn numbers parseYaml input.personalStateDir t = some lessons ∧
    ∀ lesson ∈ lessons, lesson.body ≠ .null

variable (numbers parseYaml input) in
/-- What a merge that is done has left. -/
structure Merged (t u : FileTree) (r : MergeResult ν) (current : PersonalRevision ν)
    (baseFiles vanillaFiles : PackFiles) (lessons : List (LessonFile ν)) : Prop where
  version : versionIn numbers input.personalStateDir t = some (some current)
  notOlder : semverOlder numbers input.vanillaVersion current.baseVersion = false
  base : readPackTextFiles input.baseDir = some baseFiles
  vanilla : readPackTextFiles input.vanillaDir = some vanillaFiles
  found : lessonsIn numbers parseYaml input.personalStateDir t = some lessons
  result : r = mergeResult input current (allDispositions numbers baseFiles vanillaFiles lessons) false
  filed : ∃ s, Filed parseYaml baseFiles vanillaFiles lessons input.vanillaVersion t
      (allSkillPaths baseFiles vanillaFiles) s ∧ ∀ p, endsInDigit p = false → u.files.get p =
        if p = versionPath input.personalStateDir then some ⟨versionPath input.personalStateDir,
          pretty (PersonalRevision.fields numbers
            { current with lastMergedVanilla := some input.vanillaVersion })⟩
        else s.files.get p

theorem always_mergeFiles {post : Option (MergeResult ν) → FileTree → Prop}
    (returns : ∀ u lessons s, lessonsIn numbers parseYaml input.personalStateDir t = some lessons →
      Filed parseYaml baseFiles vanillaFiles lessons input.vanillaVersion t
        (allSkillPaths baseFiles vanillaFiles) s →
      (∀ p, endsInDigit p = false → u.files.get p =
        if p = versionPath input.personalStateDir then some ⟨versionPath input.personalStateDir,
          pretty (PersonalRevision.fields numbers
            { current with lastMergedVanilla := some input.vanillaVersion })⟩
        else s.files.get p) →
      post (some (mergeResult input current (allDispositions numbers baseFiles vanillaFiles lessons)
        false)) u)
    (throws : ∀ u : FileTree, u.files.get (versionPath input.personalStateDir) =
        t.files.get (versionPath input.personalStateDir) →
      (strict → ∀ lessons, lessonsIn numbers parseYaml input.personalStateDir t = some lessons →
        ∃ lesson ∈ lessons, lesson.body = .null) → post none u) :
    (mergeFiles numbers pid parseYaml input current baseFiles vanillaFiles).Always
      (calls takes strict) (fun _ _ => True) post t := by
  apply Program.Always.bind
  apply always_readLessonFiles
  · intro lessons found
    apply Program.Always.bind
    apply always_mergePaths found
    · intro s filed
      apply Program.Always.bind
      apply always_writeVersionJson
      · intro u written
        exact returns u lessons s found filed written
      · intro lax u kept
        apply throws
        · rw [kept _ endsInDigit_versionPath, filed.version found]
        · exact fun never => absurd never lax
    · intro null u kept
      apply throws u kept
      intro never others same
      cases found.symm.trans same
      exact null never
  · intro lost
    apply throws t rfl
    intro never lessons found
    rw [lost never] at found
    cases found

variable (numbers pid parseYaml input t) in
/-- How a merge ends. -/
theorem always_runThreeWayMerge :
    (runThreeWayMerge numbers pid parseYaml input).Always (calls takes strict) (fun _ _ => True)
      (fun o u => match o with
        | none => u.files.get (versionPath input.personalStateDir) =
            t.files.get (versionPath input.personalStateDir) ∧
          (strict → ¬ Mergeable numbers parseYaml input t)
        | some r => (∃ current, u = t ∧ r = mergeResult input current [] true) ∨
            ∃ current baseFiles vanillaFiles lessons,
              Merged numbers parseYaml input t u r current baseFiles vanillaFiles lessons) t := by
  apply Program.Always.bind
  apply always_readVersionJson
  · intro state found
    cases state with
    | none =>
        refine ⟨rfl, fun _ mergeable => ?_⟩
        obtain ⟨current, _, _, _, version, _⟩ := mergeable
        rw [found] at version
        cases version
    | some current =>
        dsimp only
        split
        · rename_i older
          refine ⟨rfl, fun _ mergeable => ?_⟩
          obtain ⟨other, _, _, _, version, notOlder, _⟩ := mergeable
          cases found.symm.trans version
          rw [older] at notOlder
          cases notOlder
        · rename_i notOlder
          split
          · exact Or.inl ⟨current, rfl, rfl⟩
          · split
            · rename_i baseFiles vanillaFiles base vanilla
              apply always_mergeFiles
              · intro u lessons s known filed written
                refine Or.inr ⟨current, baseFiles, vanillaFiles, lessons, found,
                  Bool.eq_false_iff.mpr notOlder, base, vanilla, known, rfl, s, filed, written⟩
              · intro u kept null
                refine ⟨kept, fun never mergeable => ?_⟩
                obtain ⟨_, _, _, lessons, _, _, _, _, known, sound⟩ := mergeable
                obtain ⟨lesson, mem, same⟩ := null never lessons known
                exact sound lesson mem same
            · rename_i unreadable
              refine ⟨rfl, fun _ mergeable => ?_⟩
              obtain ⟨_, baseFiles, vanillaFiles, _, _, _, base, vanilla, _⟩ := mergeable
              exact unreadable baseFiles vanillaFiles base vanilla
  · intro lost
    refine ⟨rfl, fun never mergeable => ?_⟩
    obtain ⟨current, _, _, _, version, _⟩ := mergeable
    rw [lost never] at version
    cases version

/-! ## What the merge has recorded -/

variable {path : String} {lesson : LessonFile ν}

theorem Merged.disposed
    (merged : Merged numbers parseYaml input t u r current baseFiles vanillaFiles lessons) :
    Disposed numbers baseFiles vanillaFiles lessons r.dispositions := by
  rw [merged.result]
  exact disposed_allDispositions

/-- A sidecar is in the end as it is after the last path. -/
theorem Merged.get_sidecar
    (merged : Merged numbers parseYaml input t u r current baseFiles vanillaFiles lessons) :
    ∃ s, Filed parseYaml baseFiles vanillaFiles lessons input.vanillaVersion t
        (allSkillPaths baseFiles vanillaFiles) s ∧
      ∀ lesson ∈ lessons, lesson.hasConflict = false →
        endsInDigit (sidecarPath lesson.path) = false ∧
          u.files.get (sidecarPath lesson.path) = s.files.get (sidecarPath lesson.path) := by
  obtain ⟨s, filed, written⟩ := merged.filed
  refine ⟨s, filed, fun lesson mem fresh => ?_⟩
  obtain ⟨digits, raw, read⟩ := exists_read merged.found lesson mem
  rw [read.sidecarPath_eq fresh]
  have plain := endsInDigit_lessonFile (revisionDir input.personalStateDir) digits true
  exact ⟨plain, by rw [written _ plain, if_neg (lessonFile_ne_versionPath digits true)]⟩

/-- The conflict of a path names the number of the lesson. -/
theorem Merged.alreadyDisposed
    (merged : Merged numbers parseYaml input t u r current baseFiles vanillaFiles lessons)
    (emits : Emits baseFiles vanillaFiles lessons path lesson)
    (canonical : lesson.path.getLast? = some ("lesson_" ++ numbers.print lesson.id ++ ".yaml")) :
    alreadyDisposed numbers r.dispositions lesson = true := by
  obtain ⟨digits, raw, read⟩ := exists_read merged.found lesson emits.2.mem
  rw [read.path, emits.fresh, List.getLast?_concat] at canonical
  have name := congrArg String.toList (Option.some.inj canonical)
  rw [toList_lessonFileName, String.toList_append, String.toList_append, List.append_assoc] at name
  have printed : digits = (numbers.print lesson.id).toList :=
    (List.append_inj' (List.append_cancel_left name) rfl).1
  have disposition : .conflict path (sidecarPath lesson.path) ∈ r.dispositions := by
    rw [merged.result]
    apply (@mem_allDispositions _ _ _ _ _ path _ rfl).mpr
    refine ⟨mem_of_changed emits.1, ?_⟩
    rw [dispositionOf, if_neg emits.1, emits.2]
  apply List.any_eq_true.mpr
  refine ⟨_, disposition, ?_⟩
  apply decide_eq_true
  rw [read.sidecarPath_eq emits.fresh, pathText, List.flatMap_append, List.flatMap_singleton,
    String.toList_ofList, toList_lessonFileName, printed]
  refine ⟨(revisionDir input.personalStateDir).flatMap (fun name => '/' :: name.toList) ++ ['/'],
    "conflict.yaml".toList, ?_⟩
  simp

theorem Merged.sidecars
    (merged : Merged numbers parseYaml input t u r current baseFiles vanillaFiles lessons)
    (comments : ∀ line text, '\n' ∉ line → parseYaml ('#' :: line ++ '\n' :: text) = parseYaml text) :
    Sidecars numbers parseYaml baseFiles vanillaFiles lessons input.vanillaVersion r.dispositions
      t u := by
  obtain ⟨s, filed, same⟩ := merged.get_sidecar
  constructor
  · intro path lesson changed taken
    have emits : Emits baseFiles vanillaFiles lessons path lesson := ⟨changed, taken⟩
    obtain ⟨other, -, emits', raw, body, file⟩ :=
      filed.sidecar path (mem_of_changed changed) lesson emits
    rw [(same lesson taken.mem emits.fresh).2]
    refine ⟨_, file, fun valid => ?_, fun alone => ?_⟩
    · rw [headerOf, parse_conflictHeader_append comments valid, body]
    · rw [alone other emits'.1 emits'.2]
      exact List.prefix_append _ _
  · intro path lesson changed taken canonical
    have emits : Emits baseFiles vanillaFiles lessons path lesson := ⟨changed, taken⟩
    rw [merged.disposed.personal]
    intro ⟨other, mem, fresh, here, free⟩
    have one := eq_of_sidecarPath merged.found mem taken.mem fresh emits.fresh
      (congrArg sidecarPath here)
    rw [one, merged.alreadyDisposed emits canonical] at free
    cases free
  · intro lesson mem fresh idle
    obtain ⟨plain, here⟩ := same lesson mem fresh
    rw [here]
    apply filed.kept _ plain
    intro path _ other emits apart
    have one := eq_of_sidecarPath merged.found emits.2.mem mem emits.fresh fresh apart
    rw [one] at emits
    exact idle path emits.1 emits.2

/-- Reading the version file of a pack that has one. -/
theorem play_readVersionJson {α : Type} {choose : FileTree → FileOp.Turn} {f : TextFile}
    (works : (choose t).fails = false)
    (file : t.files.get (versionPath input.personalStateDir) = some f)
    (parsed : (Json.parse f.text).bind (PersonalRevision.parse numbers) = some current)
    (next : Option (PersonalRevision ν) → FileProgram α) :
    Program.play (exec takes) choose
        ((readVersionJson numbers input.personalStateDir).bind next) t =
      Program.play (exec takes) choose (next (some current)) t := by
  have reply : reading (versionPath input.personalStateDir) t = some (some f.text) := by
    rw [reading, file]
  rw [readVersionJson]
  dsimp only [await, Program.await, Program.bind, Program.play]
  rw [exec, works, if_neg Bool.false_ne_true, reply, Option.bind_some]
  dsimp only [Program.bind]
  rw [parsed]
  rfl

/-- The same merge again finds its version. -/
theorem Merged.rerun
    (merged : Merged numbers parseYaml input t u r current baseFiles vanillaFiles lessons)
    (valid : isBaseVersion input.vanillaVersion = true) {choose : FileTree → FileOp.Turn}
    (works : ∀ s, (choose s).fails = false) :
    ∃ again : MergeResult ν, Program.play (exec takes) choose
        (runThreeWayMerge numbers pid parseYaml input) u = some (u, some again) ∧
      again.noop = true ∧ again.dispositions = [] := by
  obtain ⟨s, -, written⟩ := merged.filed
  have file := written (versionPath input.personalStateDir) endsInDigit_versionPath
  rw [if_pos rfl] at file
  have sound : current.Valid numbers := by
    have version := merged.version
    unfold versionIn at version
    split at version
    · cases version
    · obtain ⟨state, parsed, same⟩ := Option.map_eq_some_iff.mp version
      cases same
      obtain ⟨j, -, read⟩ := Option.bind_eq_some_iff.mp parsed
      exact PersonalRevision.valid_of_parse read
  have next : PersonalRevision.Valid numbers
      { current with lastMergedVanilla := some input.vanillaVersion } := by
    refine ⟨sound.baseVersion, sound.personalRevisionId, fun version mem => ?_⟩
    cases mem
    exact valid
  obtain ⟨id, read⟩ := PersonalRevision.parse_fields next
  refine ⟨mergeResult input ⟨current.baseVersion, id, some input.vanillaVersion⟩ [] true, ?_, rfl, rfl⟩
  rw [runThreeWayMerge, play_readVersionJson (works u) file
    (by rw [parse_pretty (PersonalRevision.validFields next), Option.bind_some, read])]
  dsimp only
  rw [merged.notOlder, if_neg Bool.false_ne_true, if_pos rfl]
  rfl

end

/-! ## Two lessons and two paths -/

/-- Without the comments in front. -/
def dropComments : Bool → List Char → List Char
  | _, [] => []
  | true, c :: rest => dropComments (c ≠ '\n') rest
  | false, c :: rest => if c = '#' then dropComments true rest else c :: rest

/-- Texts in flow style. -/
def flowYaml (text : List Char) : Option Json := Json.parse (dropComments false text)

theorem flowYaml_comment (line text : List Char) (free : '\n' ∉ line) :
    flowYaml ('#' :: line ++ '\n' :: text) = flowYaml text := by
  have skipped : dropComments true (line ++ '\n' :: text) = dropComments false text := by
    induction line with
    | nil => rfl
    | cons c line ih =>
        have other : c ≠ '\n' := fun same => free (same ▸ List.mem_cons_self)
        rw [List.cons_append, dropComments, decide_eq_true other]
        exact ih fun mem => free (List.mem_cons_of_mem _ mem)
  exact congrArg Json.parse skipped

/-- Numbers of one digit. -/
def smallNumbers : Numbers Nat where
  parseInt := naturalOf
  difference a b := some (compare a b)
  print n := if n < 10 then String.singleton (Char.ofNat (48 + n)) else "0"
  natural text := if isNumber text.toList then some (naturalOf text.toList) else none
  natural_print n _ := by
    have digit : ∀ n < 10, isNumber (String.singleton (Char.ofNat (48 + n))).toList = true := by
      decide
    have number : isNumber
        (if n < 10 then String.singleton (Char.ofNat (48 + n)) else "0").toList = true := by
      split
      · exact digit n ‹_›
      · decide
    exact ⟨number, by rw [if_pos number, Option.isSome_some]⟩

def twoPaths : ThreeWayMergeInput where
  packId := "pack"
  baseDir := [("a.yaml", .file (some "v: 1".toList)), ("b.yaml", .file (some "w: 1".toList))]
  personalStateDir := ["s"]
  vanillaDir := [("a.yaml", .file (some "v: 2".toList)), ("b.yaml", .file (some "w: 2".toList))]
  vanillaVersion := "1.1.0"

/-- The first lesson refers to both paths, the second one to one of them. -/
def twoLessons : FileTree where
  dirs := [["s"], ["s", "personal_revision"]]
  files := ⟨[⟨["s", "personal_revision", "version.json"],
      "\x7b\"base_version\": \"1.0.0\"\x7d".toList⟩,
    ⟨["s", "personal_revision", "lesson_1.yaml"],
      "\x7b\"skill\": \"a.yaml\", \"note\": \"b.yaml\"\x7d".toList⟩,
    ⟨["s", "personal_revision", "lesson_2.yaml"], "\x7b\"skill\": \"b.yaml\"\x7d".toList⟩],
    by decide⟩

def mergeOfTwo : Option (FileTree × Option (MergeResult Nat)) :=
  Program.play (exec fun _ => true) (fun _ => ⟨false, none, 0⟩)
    (runThreeWayMerge smallNumbers 1 flowYaml twoPaths) twoLessons

end Opensquid.Versioning
