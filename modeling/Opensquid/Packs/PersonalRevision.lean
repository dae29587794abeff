import Mathlib.Data.List.Sort
import Opensquid.Lib.FileCalls
import Opensquid.Lib.JsonFields
import Opensquid.Lib.JsonPretty

/-!
# The personal revision of a pack

`version.json` and the lesson files of the directory `personal_revision`. The version file is
replaced in one call; what is written there is read again if its versions have the form that the
schema asks for. The name of a lesson file says its number and if it is the sidecar of a conflict.
-/

namespace Opensquid.Versioning

open Opensquid.Lib FileCalls Json

/-- Numbers as they are read, subtracted and printed. -/
structure Numbers (ν : Type) where
  /-- `Number.parseInt(text, 10)`. -/
  parseInt : List Char → ν
  /-- The sign of a difference; none if it is not a number. -/
  difference : ν → ν → Option Ordering
  /-- `String(n)`. -/
  print : ν → String
  /-- The number of a JSON text, if it is an integer and not negative. -/
  natural : String → Option ν
  natural_print : ∀ n, n = parseInt ['0'] ∨ (∃ text, natural text = some n) →
    isNumber (print n).toList = true ∧ (natural (print n)).isSome = true

/-! ## Versions -/

def digitsThen (text : List Char) : Option (List Char) :=
  if text.head?.any Char.isDigit then some (text.dropWhile Char.isDigit) else none

/-- Three numbers and dots between them. -/
def afterNumbers (text : List Char) : Option (List Char) := do
  let rest ← digitsThen text
  let rest ← dropLiteral ['.'] rest
  let rest ← digitsThen rest
  let rest ← dropLiteral ['.'] rest
  digitsThen rest

def isTagChar (c : Char) : Bool := c.isAlphanum || c = '.' || c = '-'

/-- What may stand behind the numbers. -/
def isTag : List Char → Bool
  | [] => true
  | '-' :: tag => tag ≠ [] && tag.all isTagChar
  | _ => false

/-- The pattern of `BaseVersion`. -/
def isBaseVersion (version : String) : Bool := (afterNumbers version.toList).any isTag

structure PersonalRevision (ν : Type) where
  baseVersion : String
  personalRevisionId : ν
  lastMergedVanilla : Option String

/-- The name of a lesson file: the digits of its number, and if it is a sidecar. -/
def lessonName (entry : String) : Option (List Char × Bool) := do
  let rest ← dropLiteral "lesson_".toList entry.toList
  let digits := rest.takeWhile Char.isDigit
  if digits = [] then none
  else if rest.dropWhile Char.isDigit = ".yaml".toList then some (digits, false)
  else if rest.dropWhile Char.isDigit = ".conflict.yaml".toList then some (digits, true)
  else none

structure LessonFile (ν : Type) where
  id : ν
  path : List String
  body : Json
  hasConflict : Bool

section

variable {ν : Type} (numbers : Numbers ν) (pid : Nat) (parseYaml : List Char → Option Json)
  (packStateDir : List String)

/-- `z.number().int().nonnegative().default(0)`. -/
def revisionId (fields : List (String × Json)) : Option ν :=
  match field fields "personal_revision_id" with
  | none => some (numbers.parseInt ['0'])
  | some (.num text) => numbers.natural text
  | some _ => none

/-- `BaseVersion.nullable().default(null)`. -/
def mergedVersion (fields : List (String × Json)) : Option (Option String) :=
  match field fields "last_merged_vanilla" with
  | none | some .null => some none
  | some (.str version) => if isBaseVersion version then some (some version) else none
  | some _ => none

def PersonalRevision.parse : Json → Option (PersonalRevision ν)
  | .obj fields =>
      if strict ["base_version", "personal_revision_id", "last_merged_vanilla"] fields then do
        let baseVersion ← (stringField fields "base_version").filter isBaseVersion
        let personalRevisionId ← revisionId numbers fields
        let lastMergedVanilla ← mergedVersion fields
        return ⟨baseVersion, personalRevisionId, lastMergedVanilla⟩
      else none
  | _ => none

def PersonalRevision.fields (state : PersonalRevision ν) : List (String × Json) :=
  [("base_version", .str state.baseVersion),
   ("personal_revision_id", .num (numbers.print state.personalRevisionId)),
   ("last_merged_vanilla", state.lastMergedVanilla.elim .null .str)]

def revisionDir : List String := packStateDir ++ ["personal_revision"]

def versionPath : List String := revisionDir packStateDir ++ ["version.json"]

def readVersionJson : FileProgram (Option (PersonalRevision ν)) :=
  (await (.readFile (versionPath packStateDir))).bind fun
    | none => .ret none
    | some raw =>
        match (Json.parse raw).bind (PersonalRevision.parse numbers) with
        | some state => .ret (some state)
        | none => .throw

def writeVersionJson (state : PersonalRevision ν) : FileProgram Unit :=
  (await (.mkdir (revisionDir packStateDir))).bind fun _ =>
    replace pid (versionPath packStateDir) (pretty (state.fields numbers))

/-- A file that has to be there. -/
def readText (path : List String) : FileProgram (List Char) :=
  (await (.readFile path)).bind fun
    | some raw => .ret raw
    | none => .throw

/-- The lesson in a file. -/
def lessonOf (path : List String) (digits : List Char) (hasConflict : Bool) (raw : List Char) :
    Option (LessonFile ν) :=
  (parseYaml raw).map fun body => ⟨numbers.parseInt digits, path, body, hasConflict⟩

/-- One round of the loop over the names. -/
def readLesson (matched : List (LessonFile ν)) (entry : String) :
    FileProgram (List (LessonFile ν)) :=
  match lessonName entry with
  | none => .ret matched
  | some (digits, hasConflict) =>
      let path := revisionDir packStateDir ++ [entry]
      (readText path).bind fun raw =>
        match lessonOf numbers parseYaml path digits hasConflict raw with
        | some lesson => .ret (matched ++ [lesson])
        | none => .throw

/-- In the order of the numbers; a stable sort. -/
def sortById (matched : List (LessonFile ν)) : List (LessonFile ν) :=
  matched.insertionSort fun a b => numbers.difference a.id b.id ≠ some .gt

def readLessonFiles : FileProgram (List (LessonFile ν)) :=
  (await (.readdir (revisionDir packStateDir))).bind fun
    | none => .ret []
    | some entries =>
        (Program.foldEach (readLesson numbers parseYaml packStateDir) [] entries).bind fun matched =>
          .ret (sortById numbers matched)

end

/-! ## Versions have one line -/

theorem digitsThen_eq_some {text rest : List Char} (read : digitsThen text = some rest) :
    ∃ digits, (∀ c ∈ digits, c.isDigit = true) ∧ text = digits ++ rest := by
  unfold digitsThen at read
  split at read
  · cases read
    refine ⟨text.takeWhile Char.isDigit, fun c mem => ?_, List.takeWhile_append_dropWhile.symm⟩
    exact List.mem_takeWhile_imp mem
  · cases read

theorem dropLiteral_eq_some {literal text rest : List Char}
    (read : dropLiteral literal text = some rest) : text = literal ++ rest := by
  unfold dropLiteral at read
  split at read
  · rename_i start
    cases read
    exact (List.prefix_iff_eq_append.mp start).symm
  · cases read

theorem newline_not_mem_of_isTag {text : List Char} (tag : isTag text = true) : '\n' ∉ text := by
  unfold isTag at tag
  split at tag
  · exact List.not_mem_nil
  · have tagged := List.all_eq_true.mp (Bool.and_eq_true_iff.mp tag).2
    intro mem
    rcases List.mem_cons.mp mem with dash | mem
    · exact absurd dash (by decide)
    · exact absurd (tagged _ mem) (by decide)
  · cases tag

theorem newline_not_mem_of_isBaseVersion {version : String} (valid : isBaseVersion version = true) :
    '\n' ∉ version.toList := by
  have plain : ∀ digits : List Char, (∀ c ∈ digits, c.isDigit = true) → '\n' ∉ digits :=
    fun digits all mem => absurd (all _ mem) (by decide)
  obtain ⟨text, read, tag⟩ := (Option.any_eq_true _ _).mp valid
  obtain ⟨afterMajor, major, read⟩ := Option.bind_eq_some_iff.mp read
  obtain ⟨atMinor, dot, read⟩ := Option.bind_eq_some_iff.mp read
  obtain ⟨afterMinor, minor, read⟩ := Option.bind_eq_some_iff.mp read
  obtain ⟨atPatch, dot', patch⟩ := Option.bind_eq_some_iff.mp read
  obtain ⟨a, digitsA, same⟩ := digitsThen_eq_some major
  obtain ⟨b, digitsB, sameB⟩ := digitsThen_eq_some minor
  obtain ⟨c, digitsC, sameC⟩ := digitsThen_eq_some patch
  rw [same, dropLiteral_eq_some dot, sameB, dropLiteral_eq_some dot', sameC]
  simp [plain a digitsA, plain b digitsB, plain c digitsC, newline_not_mem_of_isTag tag]

/-! ## Names of lesson files -/

def lessonFileName (digits : List Char) (hasConflict : Bool) : String :=
  "lesson_" ++ String.ofList digits ++ if hasConflict then ".conflict.yaml" else ".yaml"

/-- The digits of a number. -/
structure Digits (digits : List Char) : Prop where
  nonempty : digits ≠ []
  all : ∀ c ∈ digits, c.isDigit = true

theorem toList_lessonFileName (digits : List Char) (hasConflict : Bool) :
    (lessonFileName digits hasConflict).toList = "lesson_".toList ++
      (digits ++ if hasConflict then ".conflict.yaml".toList else ".yaml".toList) := by
  cases hasConflict <;> simp [lessonFileName]

theorem lessonName_eq_some {entry : String} {digits : List Char} {hasConflict : Bool}
    (read : lessonName entry = some (digits, hasConflict)) :
    Digits digits ∧ entry = lessonFileName digits hasConflict := by
  obtain ⟨rest, start, read⟩ := Option.bind_eq_some_iff.mp read
  have whole := dropLiteral_eq_some start
  have split : rest.takeWhile Char.isDigit ++ rest.dropWhile Char.isDigit = rest :=
    List.takeWhile_append_dropWhile
  dsimp only at read
  split at read
  · cases read
  · rename_i nonempty
    have digital : Digits (rest.takeWhile Char.isDigit) :=
      ⟨nonempty, fun c mem => List.mem_takeWhile_imp mem⟩
    split at read
    · rename_i ends
      cases read
      refine ⟨digital, String.toList_inj.mp ?_⟩
      rw [ends] at split
      rw [toList_lessonFileName, whole]
      exact congrArg _ split.symm
    · split at read
      · rename_i ends
        cases read
        refine ⟨digital, String.toList_inj.mp ?_⟩
        rw [ends] at split
        rw [toList_lessonFileName, whole]
        exact congrArg _ split.symm
      · cases read

theorem lessonName_lessonFileName {digits : List Char} (digital : Digits digits)
    (hasConflict : Bool) : lessonName (lessonFileName digits hasConflict) =
      some (digits, hasConflict) := by
  have tail : ∃ more, (if hasConflict then ".conflict.yaml".toList else ".yaml".toList) =
      '.' :: more := by
    cases hasConflict
    · exact ⟨"yaml".toList, rfl⟩
    · exact ⟨"conflict.yaml".toList, rfl⟩
  obtain ⟨more, dot⟩ := tail
  have taken : (digits ++ '.' :: more).takeWhile Char.isDigit = digits := by
    rw [List.takeWhile_append_of_pos digital.all]
    simp
  have dropped : (digits ++ '.' :: more).dropWhile Char.isDigit = '.' :: more := by
    rw [List.dropWhile_append_of_pos digital.all]
    simp
  rw [lessonName, toList_lessonFileName, dropLiteral_append]
  dsimp only [bind, Option.bind]
  rw [dot, taken, dropped, if_neg digital.nonempty, ← dot]
  cases hasConflict <;> rfl

/-! ## What is written is read -/

section

variable {ν : Type} {numbers : Numbers ν} {pid : Nat} {parseYaml : List Char → Option Json}
  {packStateDir : List String} {state : PersonalRevision ν}

/-- A state that the schema accepts. -/
structure PersonalRevision.Valid (numbers : Numbers ν) (state : PersonalRevision ν) : Prop where
  baseVersion : isBaseVersion state.baseVersion = true
  personalRevisionId : state.personalRevisionId = numbers.parseInt ['0'] ∨
    ∃ text, numbers.natural text = some state.personalRevisionId
  lastMergedVanilla : ∀ version ∈ state.lastMergedVanilla, isBaseVersion version = true

theorem natural_of_revisionId {fields : List (String × Json)} {id : ν}
    (read : revisionId numbers fields = some id) :
    id = numbers.parseInt ['0'] ∨ ∃ text, numbers.natural text = some id := by
  unfold revisionId at read
  split at read
  · cases read
    exact .inl rfl
  · exact .inr ⟨_, read⟩
  · cases read

theorem isBaseVersion_of_mergedVersion {fields : List (String × Json)} {last : Option String}
    (read : mergedVersion fields = some last) : ∀ version ∈ last, isBaseVersion version = true := by
  unfold mergedVersion at read
  split at read
  · cases read
    exact fun _ mem => nomatch mem
  · cases read
    exact fun _ mem => nomatch mem
  · split at read
    · rename_i valid
      cases read
      intro v mem
      cases mem
      exact valid
    · cases read
  · cases read

theorem PersonalRevision.valid_of_parse {j : Json} (read : parse numbers j = some state) :
    state.Valid numbers := by
  unfold parse at read
  split at read
  · split at read
    · obtain ⟨base, found, read⟩ := Option.bind_eq_some_iff.mp read
      obtain ⟨id, natural, read⟩ := Option.bind_eq_some_iff.mp read
      obtain ⟨last, merged, same⟩ := Option.bind_eq_some_iff.mp read
      cases same
      exact ⟨(Option.filter_eq_some_iff.mp found).2, natural_of_revisionId natural,
        isBaseVersion_of_mergedVersion merged⟩
    · cases read
  · cases read

/-- Only the number may be read as another one, which prints the same. -/
theorem PersonalRevision.parse_fields (valid : state.Valid numbers) :
    ∃ id, parse numbers (.obj (state.fields numbers)) =
      some { state with personalRevisionId := id } := by
  obtain ⟨base, number, last⟩ := valid
  obtain ⟨id, read⟩ := Option.isSome_iff_exists.mp (numbers.natural_print _ number).2
  obtain ⟨baseVersion, personalRevisionId, lastMergedVanilla⟩ := state
  dsimp only at base last read
  have kept : (some baseVersion).filter isBaseVersion = some baseVersion :=
    Option.filter_some_pos base
  refine ⟨id, ?_⟩
  cases lastMergedVanilla with
  | none =>
      simp [parse, fields, strict, stringField, revisionId, mergedVersion, field, asString,
        List.lookup_cons, kept, read]
  | some version =>
      simp [parse, fields, strict, stringField, revisionId, mergedVersion, field, asString,
        List.lookup_cons, kept, read, last version rfl]

theorem PersonalRevision.validFields (valid : state.Valid numbers) :
    ValidFields (state.fields numbers) := by
  refine ⟨trivial, (numbers.natural_print _ valid.personalRevisionId).1, ?_, trivial⟩
  cases state.lastMergedVanilla <;> trivial

/-! ## What the calls do -/

variable {takes : String → Bool} {strict : Prop} {t u : FileTree}

variable (numbers packStateDir) in
/-- The state that a reader finds. -/
def versionIn (t : FileTree) : Option (Option (PersonalRevision ν)) :=
  match t.files.get (versionPath packStateDir) with
  | none => some none
  | some f => ((Json.parse f.text).bind (PersonalRevision.parse numbers)).map some

variable (numbers parseYaml packStateDir) in
def lessonStep (t : FileTree) (matched : List (LessonFile ν)) (entry : String) :
    Option (List (LessonFile ν)) :=
  match lessonName entry with
  | none => some matched
  | some (digits, hasConflict) =>
      (t.files.get (revisionDir packStateDir ++ [entry])).bind fun f =>
        (lessonOf numbers parseYaml (revisionDir packStateDir ++ [entry]) digits hasConflict
          f.text).map fun lesson => matched ++ [lesson]

variable (numbers parseYaml packStateDir) in
/-- The lessons that a reader finds. -/
def lessonsIn (t : FileTree) : Option (List (LessonFile ν)) :=
  match t.readdir (revisionDir packStateDir) with
  | .ok entries =>
      (entries.foldlM (lessonStep numbers parseYaml packStateDir t) []).map (sortById numbers)
  | .error .ENOENT => some []
  | .error .ENOTDIR => none

/-- The lesson was read from a file with this text. -/
structure LessonFile.Read (numbers : Numbers ν) (parseYaml : List Char → Option Json)
    (packStateDir : List String) (t : FileTree) (lesson : LessonFile ν) (digits raw : List Char) :
    Prop where
  digital : Digits digits
  path : lesson.path = revisionDir packStateDir ++ [lessonFileName digits lesson.hasConflict]
  id : lesson.id = numbers.parseInt digits
  text : t.files.get lesson.path = some ⟨lesson.path, raw⟩
  body : parseYaml raw = some lesson.body

theorem exists_read_of_foldlM {entries : List String} {matched lessons : List (LessonFile ν)}
    (done : entries.foldlM (lessonStep numbers parseYaml packStateDir t) matched = some lessons)
    (start : ∀ lesson ∈ matched, ∃ digits raw, lesson.Read numbers parseYaml packStateDir t digits raw) :
    ∀ lesson ∈ lessons, ∃ digits raw, lesson.Read numbers parseYaml packStateDir t digits raw := by
  induction entries generalizing matched with
  | nil =>
      cases done
      exact start
  | cons entry entries ih =>
      rw [List.foldlM_cons] at done
      obtain ⟨next, step, rest⟩ := Option.bind_eq_some_iff.mp done
      apply ih rest
      unfold lessonStep at step
      split at step
      · cases step
        exact start
      · rename_i digits hasConflict name
        obtain ⟨digital, same⟩ := lessonName_eq_some name
        obtain ⟨f, found, step⟩ := Option.bind_eq_some_iff.mp step
        obtain ⟨lesson, made, same'⟩ := Option.map_eq_some_iff.mp step
        obtain ⟨body, parsed, same''⟩ := Option.map_eq_some_iff.mp made
        obtain ⟨row, path⟩ := Table.get_eq_some_iff.mp found
        cases same'
        cases same''
        intro l mem
        rcases List.mem_append.mp mem with old | new
        · exact start l old
        · cases List.mem_singleton.mp new
          refine ⟨digits, f.text, digital, by rw [same], rfl, ?_, parsed⟩
          dsimp only
          rw [found, ← path]

/-- Every lesson was read from a file. -/
theorem exists_read {lessons : List (LessonFile ν)}
    (found : lessonsIn numbers parseYaml packStateDir t = some lessons) :
    ∀ lesson ∈ lessons, ∃ digits raw, lesson.Read numbers parseYaml packStateDir t digits raw := by
  unfold lessonsIn at found
  split at found
  · obtain ⟨matched, done, same⟩ := Option.map_eq_some_iff.mp found
    intro lesson mem
    rw [← same, sortById, List.mem_insertionSort] at mem
    exact exists_read_of_foldlM done (List.forall_mem_nil _) lesson mem
  · cases found
    exact List.forall_mem_nil _
  · cases found

theorem always_readVersionJson {post : Option (Option (PersonalRevision ν)) → FileTree → Prop}
    (returns : ∀ found, versionIn numbers packStateDir t = some found → post (some found) t)
    (throws : (strict → versionIn numbers packStateDir t = none) → post none t) :
    (readVersionJson numbers packStateDir).Always (calls takes strict) (fun _ _ => True) post t := by
  apply Program.Always.bind
  apply always_readFile trivial
  · intro f found
    have reads : versionIn numbers packStateDir t =
        ((Json.parse f.text).bind (PersonalRevision.parse numbers)).map some := by
      rw [versionIn, found]
    dsimp only
    cases parsed : (Json.parse f.text).bind (PersonalRevision.parse numbers) with
    | none => exact throws fun _ => by rw [reads, parsed, Option.map_none]
    | some state => exact returns _ (by rw [reads, parsed, Option.map_some])
  · intro missing
    exact returns none (by rw [versionIn, missing])
  · intro lax
    exact throws fun never => absurd never lax

theorem always_writeVersionJson {post : Option Unit → FileTree → Prop}
    (written : ∀ u : FileTree, (∀ p, endsInDigit p = false →
      u.files.get p = if p = versionPath packStateDir then
        some ⟨versionPath packStateDir, pretty (state.fields numbers)⟩ else t.files.get p) →
      post (some ()) u)
    (failed : ¬ strict → ∀ u : FileTree,
      (∀ p, endsInDigit p = false → u.files.get p = t.files.get p) → post none u) :
    (writeVersionJson numbers pid packStateDir state).Always (calls takes strict) (fun _ _ => True)
      post t := by
  apply Program.Always.bind
  apply always_mkdir trivial
  · intro made same
    apply always_replace
    · rw [same]
      exact written
    · rw [same]
      exact failed
  · intro lax
    exact failed lax t fun _ _ => rfl

theorem always_readText {path : List String} {post : Option (List Char) → FileTree → Prop}
    (found : ∀ f, t.files.get path = some f → post (some f.text) t)
    (throws : (strict → t.files.get path = none) → post none t) :
    (readText path).Always (calls takes strict) (fun _ _ => True) post t := by
  apply Program.Always.bind
  apply always_readFile trivial
  · exact found
  · intro missing
    exact throws fun _ => missing
  · intro lax
    exact throws fun never => absurd never lax

theorem always_readLesson {matched : List (LessonFile ν)} {entry : String}
    {post : Option (List (LessonFile ν)) → FileTree → Prop}
    (returns : ∀ next, lessonStep numbers parseYaml packStateDir t matched entry = some next →
      post (some next) t)
    (throws : (strict → lessonStep numbers parseYaml packStateDir t matched entry = none) →
      post none t) :
    (readLesson numbers parseYaml packStateDir matched entry).Always (calls takes strict)
      (fun _ _ => True) post t := by
  unfold readLesson
  unfold lessonStep at returns throws
  cases name : lessonName entry with
  | none =>
      rw [name] at returns
      exact returns matched rfl
  | some lesson =>
      obtain ⟨digits, hasConflict⟩ := lesson
      rw [name] at returns throws
      dsimp only at returns throws ⊢
      apply Program.Always.bind
      apply always_readText
      · intro f found
        rw [found, Option.bind_some] at returns throws
        dsimp only
        cases parsed : lessonOf numbers parseYaml (revisionDir packStateDir ++ [entry]) digits
            hasConflict f.text with
        | none =>
            apply throws
            rw [parsed]
            exact fun _ => rfl
        | some lesson =>
            apply returns
            rw [parsed]
            rfl
      · intro lost
        apply throws
        intro never
        rw [lost never]
        rfl

theorem always_readLessonFiles {post : Option (List (LessonFile ν)) → FileTree → Prop}
    (returns : ∀ lessons, lessonsIn numbers parseYaml packStateDir t = some lessons →
      post (some lessons) t)
    (throws : (strict → lessonsIn numbers parseYaml packStateDir t = none) → post none t) :
    (readLessonFiles numbers parseYaml packStateDir).Always (calls takes strict) (fun _ _ => True)
      post t := by
  apply Program.Always.bind
  apply always_readdir trivial
  · intro entries listed
    have reads : lessonsIn numbers parseYaml packStateDir t =
        (entries.foldlM (lessonStep numbers parseYaml packStateDir t) []).map (sortById numbers) := by
      rw [lessonsIn, listed]
    dsimp only
    apply Program.Always.bind
    apply Program.Always.foldEach fun matched rest s => s = t ∧
      rest.foldlM (lessonStep numbers parseYaml packStateDir t) matched =
        entries.foldlM (lessonStep numbers parseYaml packStateDir t) []
    · intro matched entry rest s ⟨here, same⟩
      rw [here]
      rw [List.foldlM_cons] at same
      apply always_readLesson
      · intro next step
        rw [step] at same
        exact ⟨rfl, same⟩
      · intro lost
        apply throws
        intro never
        rw [lost never] at same
        rw [reads, ← same]
        rfl
    · intro matched s ⟨here, same⟩
      rw [here]
      apply returns
      rw [reads, ← same]
      rfl
    · exact ⟨rfl, rfl⟩
  · intro missing
    exact returns [] (by rw [lessonsIn, missing])
  · intro lax
    exact throws fun never => absurd never lax

end

end Opensquid.Versioning
