import Opensquid.Durable.CanonicalJson
import Opensquid.Lib.FileTree
import Opensquid.Lib.Lists
import Opensquid.Runtime.BufferEntryText

/-!
# The automation buffer

An entry is written to a file of the directory of its category, named after the timestamp and the
id, and the walk reads the directories back. `survives_iff`: every entry is read back exactly once
if and only if each file name stays in its directory and no two entries share a file.
-/

namespace Opensquid.AutomationBuffer

open Opensquid.Lib FileTree

/-- ISO timestamp with `:` → `-`. -/
def safeTimestamp (iso : String) : String :=
  String.ofList (iso.toList.map fun c => if c = ':' then '-' else c)

/-- The order of `sort()`. -/
def nameLe (a b : String) : Bool := ¬ Durable.codeUnits b < Durable.codeUnits a

section

variable {ν : Type} (numbers : Numbers ν) (takes : String → Bool) (bufferDir : List String)

def categoryDir (category : BufferCategory) : List String := join bufferDir category.text

def indexPath : List String := join bufferDir "BUFFER.md"

def fileName (entry : BufferEntry ν) : String :=
  safeTimestamp entry.frontmatter.timestamp ++ ("_" ++ entry.id ++ ".md")

@[irreducible] def entryPath (entry : BufferEntry ν) : List String :=
  join (categoryDir bufferDir entry.category) (fileName entry)

def indexLine (entry : BufferEntry ν) : List Char :=
  ("- [" ++ entry.category.text ++ "/" ++ entry.id ++ "](" ++ entry.category.text ++ "/" ++
    fileName entry ++ ")\n").toList

/-- None: the call rejects. -/
def appendBufferEntry (entry : BufferEntry ν) (t : FileTree) : Option FileTree := do
  let t ← t.mkdir (categoryDir bufferDir entry.category)
  let path := entryPath bufferDir entry
  let tmp := extend path ".tmp"
  let t ← t.writeFile takes tmp (entryText numbers entry)
  let t ← t.rename takes tmp path
  t.appendFile takes (indexPath bufferDir) (indexLine entry)

/-- The entries of a category, in the order of the names of their files. -/
def walkCategory (t : FileTree) (cat : BufferCategory) : Option (List (BufferEntry ν)) :=
  let dir := categoryDir bufferDir cat
  match t.readdir dir with
  | .error .ENOENT => some []
  | .error .ENOTDIR => none
  | .ok entries =>
      ((entries.filter fun x => !endsWith x ".tmp").mergeSort nameLe).mapM fun f =>
        (t.readFile (dir ++ [f])).map fun raw => parseEntry numbers raw cat

def walkBuffer (t : FileTree) : Option (List (BufferEntry ν)) :=
  (CATEGORY_ORDER.mapM (walkCategory numbers bufferDir t)).map List.flatten

def appendAll (entries : List (BufferEntry ν)) (t : FileTree) : Option FileTree :=
  entries.foldlM (fun t entry => appendBufferEntry numbers takes bufferDir entry t) t

/-! ## What is claimed -/

/-- All calls resolve, and the walk returns each entry once. -/
def Survives (entries : List (BufferEntry ν)) (t : FileTree) : Prop :=
  ∃ u walked, appendAll numbers takes bufferDir entries t = some u ∧
    walkBuffer numbers bufferDir u = some walked ∧ walked.Perm entries

/-- Nothing lies in the buffer yet, and it can be made. -/
structure Fresh (t : FileTree) : Prop where
  passable : ∀ f ∈ t.files.rows, ¬ f.path <+: bufferDir
  noFile : ∀ f ∈ t.files.rows, ¬ bufferDir <+: f.path
  noDir : ∀ dir ∈ t.dirs, bufferDir <+: dir → dir = bufferDir
  index : takes "BUFFER.md" = true

/-- The file of the entry lies in the directory of its category. -/
structure Fits (entry : BufferEntry ν) : Prop where
  inside : (entryPath bufferDir entry).dropLast = categoryDir bufferDir entry.category
  taken : ∃ name ∈ (entryPath bufferDir entry).getLast?,
    takes name = true ∧ takes (name ++ ".tmp") = true

end

/-! ## Paths -/

section

variable {ν : Type} {numbers : Numbers ν} {takes : String → Bool} {bufferDir : List String}
  {entry : BufferEntry ν} {entries : List (BufferEntry ν)} {t u : FileTree} {cat : BufferCategory}

theorem join_of_plain {name : String} (free : '/' ∉ name.toList) (long : 2 < name.toList.length) :
    join bufferDir name = bufferDir ++ [name] := by
  have named : ∀ short : String, short.toList.length ≤ 2 → name ≠ short := by
    intro short small same
    rw [same] at long
    omega
  rw [join, PathText.segs_of_not_mem free, List.foldl_cons, List.foldl_nil, enter,
    if_neg (not_or.mpr ⟨named "" (by decide), named "." (by decide)⟩), if_neg (named ".." (by decide))]

theorem categoryDir_eq : categoryDir bufferDir cat = bufferDir ++ [cat.text] := by
  cases cat <;> exact join_of_plain (by decide) (by decide)

theorem indexPath_eq : indexPath bufferDir = bufferDir ++ ["BUFFER.md"] :=
  join_of_plain (by decide) (by decide)

theorem text_injective : Function.Injective BufferCategory.text := by
  intro a b same
  cases a <;> cases b <;> first | rfl | exact absurd same (by decide)

theorem categoryDir_injective : Function.Injective (categoryDir bufferDir) := by
  intro a b same
  rw [categoryDir_eq, categoryDir_eq] at same
  exact text_injective (List.singleton_inj.mp (List.append_cancel_left same))

/-- The name that the file of an entry has, wherever it is. -/
theorem exists_entryPath (safe : '/' ∉ entry.id.toList) :
    ∃ base name, entryPath bufferDir entry = base ++ [name ++ ("_" ++ entry.id ++ ".md")] := by
  rw [entryPath]
  apply join_append
  · simp [safe]
  · simp

/-- A timestamp without a slash keeps the file in the directory. -/
theorem entryPath_of_noSlash (noSlash : '/' ∉ entry.frontmatter.timestamp.toList)
    (safe : '/' ∉ entry.id.toList) :
    entryPath bufferDir entry = categoryDir bufferDir entry.category ++ [fileName entry] := by
  have kept : '/' ∉ (safeTimestamp entry.frontmatter.timestamp).toList := by
    rw [safeTimestamp, String.toList_ofList, List.mem_map]
    intro ⟨c, mem, same⟩
    split at same
    · exact absurd same (by decide)
    · exact noSlash (same ▸ mem)
  rw [entryPath]
  apply join_of_plain
  · simp [fileName, kept, safe]
  · simp only [fileName, String.toList_append, List.length_append]
    have ends : ".md".toList.length = 3 := by decide
    omega

/-! ## One call -/

/-- A call that resolves has made the directory, written the file aside and moved it. -/
theorem appendBufferEntry_eq_some
    (done : appendBufferEntry numbers takes bufferDir entry t = some u) :
    u.dirs = (categoryDir bufferDir entry.category).inits ∪ t.dirs ∧
      (∃ name ∈ (entryPath bufferDir entry).getLast?, takes name = true ∧
        takes (name ++ ".tmp") = true) ∧
      ∃ line, ∀ p, u.files.get p =
        if p = indexPath bufferDir then some ⟨p, line⟩
        else if p = entryPath bufferDir entry then
          some ⟨entryPath bufferDir entry, entryText numbers entry⟩
        else if p = extend (entryPath bufferDir entry) ".tmp" then none
        else t.files.get p := by
  obtain ⟨made, mkdir, done⟩ := Option.bind_eq_some_iff.mp done
  obtain ⟨aside, written, done⟩ := Option.bind_eq_some_iff.mp done
  obtain ⟨moved, renamed, done⟩ := Option.bind_eq_some_iff.mp done
  obtain ⟨dirs, gets⟩ := get_replaced written renamed
  obtain ⟨⟨-, -, tmpName, tmpLast, tmpTaken⟩, -⟩ := writeFile_eq_some written
  obtain ⟨⟨-, -, name, last, taken⟩, -⟩ := rename_eq_some renamed
  obtain ⟨-, rfl⟩ := writeFile_eq_some done
  refine ⟨?_, ⟨name, last, taken, ?_⟩,
    (moved.readFile (indexPath bufferDir)).getD [] ++ indexLine entry, fun p => ?_⟩
  · rw [mkdir_eq_some mkdir] at dirs
    exact dirs
  · rw [extend, Option.mem_def.mp last, List.getLast?_concat] at tmpLast
    cases tmpLast
    exact tmpTaken
  · rw [get_put, gets, mkdir_eq_some mkdir]
    split
    · rename_i same
      rw [same]
    · rfl

theorem length_of_inside {p : List String} (inside : p.dropLast = categoryDir bufferDir cat) :
    p.length = bufferDir.length + 2 := by
  have length := congrArg List.length inside
  rw [categoryDir_eq, List.length_dropLast, List.length_append, List.length_singleton] at length
  omega

theorem ne_index_of_inside {p : List String} (inside : p.dropLast = categoryDir bufferDir cat) :
    p ≠ indexPath bufferDir := by
  intro same
  have length := length_of_inside inside
  rw [same, indexPath_eq, List.length_append, List.length_singleton] at length
  omega

/-! ## What is read back was written -/

variable (numbers bufferDir entries) in
/-- Every file in the directory of a category was written for one of the entries. -/
def Written (t : FileTree) : Prop :=
  ∀ f ∈ t.files.rows, ∀ cat, f.path.dropLast = categoryDir bufferDir cat →
    ∃ entry ∈ entries, f = ⟨entryPath bufferDir entry, entryText numbers entry⟩

theorem Written.append (written : Written numbers bufferDir entries t)
    (done : appendBufferEntry numbers takes bufferDir entry t = some u) :
    Written numbers bufferDir (entries ++ [entry]) u := by
  obtain ⟨-, -, line, gets⟩ := appendBufferEntry_eq_some done
  intro f mem cat inside
  have found := Table.mem_rows_iff.mp mem
  rw [gets, if_neg (ne_index_of_inside inside)] at found
  split at found
  · cases found
    exact ⟨entry, by simp, rfl⟩
  · split at found
    · cases found
    · obtain ⟨old, member, same⟩ := written f (Table.mem_of_get found) cat inside
      exact ⟨old, List.mem_append_left _ member, same⟩

theorem written_of_appendAll {more : List (BufferEntry ν)}
    (written : Written numbers bufferDir entries t)
    (done : appendAll numbers takes bufferDir more t = some u) :
    Written numbers bufferDir (entries ++ more) u := by
  induction more generalizing entries t with
  | nil =>
      cases done
      rw [List.append_nil]
      exact written
  | cons entry more ih =>
      obtain ⟨v, here, later⟩ := Option.bind_eq_some_iff.mp done
      have next := ih (written.append here) later
      rw [List.append_assoc] at next
      exact next

/-- An entry that the walk returns has been read from a file of its category. -/
theorem exists_file_of_walked {walked : List (BufferEntry ν)}
    (done : walkBuffer numbers bufferDir t = some walked) (mem : entry ∈ walked) :
    ∃ cat, ∃ f ∈ t.files.rows, f.path.dropLast = categoryDir bufferDir cat ∧
      entry = parseEntry numbers f.text cat := by
  obtain ⟨parts, read, rfl⟩ := Option.map_eq_some_iff.mp done
  obtain ⟨part, member, inside⟩ := List.mem_flatten.mp mem
  obtain ⟨cat, -, walked⟩ := exists_of_mapM read member
  unfold walkCategory at walked
  dsimp only at walked
  split at walked
  · cases walked
    cases inside
  · cases walked
  · obtain ⟨name, -, found⟩ := exists_of_mapM walked inside
    obtain ⟨raw, file, rfl⟩ := Option.map_eq_some_iff.mp found
    obtain ⟨f, present, rfl⟩ := Option.map_eq_some_iff.mp file
    obtain ⟨row, path⟩ := Table.get_eq_some_iff.mp present
    exact ⟨cat, f, row, by rw [path, List.dropLast_concat], rfl⟩

theorem eq_of_same_id (distinct : (entries.map BufferEntry.id).Nodup) {other : BufferEntry ν}
    (mem : entry ∈ entries) (mem' : other ∈ entries) (same : entry.id = other.id) : entry = other :=
  List.inj_on_of_nodup_map distinct mem mem' same

/-- An entry that is read back lies where it was written, in the directory of its category. -/
theorem file_of_walked (written : Written numbers bufferDir entries t)
    (storable : ∀ entry ∈ entries, Storable numbers entry)
    (distinct : (entries.map BufferEntry.id).Nodup) {walked : List (BufferEntry ν)}
    (done : walkBuffer numbers bufferDir t = some walked) (mem : entry ∈ entries)
    (returned : entry ∈ walked) :
    (entryPath bufferDir entry).dropLast = categoryDir bufferDir entry.category ∧
      ⟨entryPath bufferDir entry, entryText numbers entry⟩ ∈ t.files.rows := by
  obtain ⟨cat, f, row, inside, read⟩ := exists_file_of_walked done returned
  obtain ⟨writer, mem', same⟩ := written f row cat inside
  rw [same, parseEntry_entryText (storable writer mem')] at read
  have one : entry = writer := eq_of_same_id distinct mem mem' (by rw [read])
  have category : entry.category = cat := by rw [read]
  rw [same, ← one] at inside row
  rw [category]
  exact ⟨inside, row⟩

theorem distinct_of_survives (fresh : Fresh takes bufferDir t)
    (storable : ∀ entry ∈ entries, Storable numbers entry)
    (distinct : (entries.map BufferEntry.id).Nodup)
    (survives : Survives numbers takes bufferDir entries t) :
    (∀ entry ∈ entries, (entryPath bufferDir entry).dropLast = categoryDir bufferDir entry.category) ∧
      (entries.map (entryPath bufferDir)).Nodup := by
  obtain ⟨u, walked, done, read, perm⟩ := survives
  have start : Written numbers bufferDir [] t := by
    intro f mem cat inside
    apply absurd _ (fresh.noFile f mem)
    have below := List.dropLast_prefix f.path
    rw [inside, categoryDir_eq] at below
    exact (List.prefix_append _ _).trans below
  have written := written_of_appendAll start done
  have files : ∀ entry ∈ entries,
      (entryPath bufferDir entry).dropLast = categoryDir bufferDir entry.category ∧
        ⟨entryPath bufferDir entry, entryText numbers entry⟩ ∈ u.files.rows := fun entry mem =>
    file_of_walked written storable distinct read mem (perm.mem_iff.mpr mem)
  refine ⟨fun entry mem => (files entry mem).1, ?_⟩
  apply List.Nodup.map_on _ distinct.of_map
  intro entry mem other mem' same
  have row := Table.mem_rows_iff.mp (files entry mem).2
  have row' := Table.mem_rows_iff.mp (files other mem').2
  dsimp only at row row'
  rw [same, row'] at row
  have text : entryText numbers other = entryText numbers entry :=
    congrArg TextFile.text (Option.some.inj row)
  have parsed := parseEntry_entryText (storable entry mem) entry.category
  rw [← text, parseEntry_entryText (storable other mem')] at parsed
  exact eq_of_same_id distinct mem mem' (congrArg BufferEntry.id parsed).symm

theorem taken_of_appendAll {more : List (BufferEntry ν)}
    (done : appendAll numbers takes bufferDir more t = some u) :
    ∀ entry ∈ more, ∃ name ∈ (entryPath bufferDir entry).getLast?,
      takes name = true ∧ takes (name ++ ".tmp") = true := by
  induction more generalizing t with
  | nil => exact List.forall_mem_nil _
  | cons entry more ih =>
      obtain ⟨v, here, later⟩ := Option.bind_eq_some_iff.mp done
      obtain ⟨-, taken, -⟩ := appendBufferEntry_eq_some here
      exact List.forall_mem_cons.mpr ⟨taken, ih later⟩

/-! ## What was written is read back -/

variable (numbers bufferDir entries) in
/-- The directories of the categories hold the files of the entries, and nothing else. -/
structure Filed (t : FileTree) : Prop where
  passable : ∀ f ∈ t.files.rows, ∀ cat, ¬ f.path <+: categoryDir bufferDir cat
  dirs : ∀ dir ∈ t.dirs, bufferDir <+: dir → dir = bufferDir ∨ ∃ cat, dir = categoryDir bufferDir cat
  made : ∀ entry ∈ entries, categoryDir bufferDir entry.category ∈ t.dirs
  files : ∀ (cat : BufferCategory) (f : TextFile), f.path.dropLast = categoryDir bufferDir cat →
    (f ∈ t.files.rows ↔ ∃ entry ∈ entries, f = ⟨entryPath bufferDir entry, entryText numbers entry⟩)

theorem prefix_categoryDir {p : List String} (above : p <+: categoryDir bufferDir cat) :
    p <+: bufferDir ∨ p = categoryDir bufferDir cat := by
  rw [categoryDir_eq] at above ⊢
  rcases List.prefix_concat_iff.mp above with same | shorter
  · exact Or.inr same
  · exact Or.inl shorter

theorem filed_of_fresh (fresh : Fresh takes bufferDir t) : Filed numbers bufferDir [] t where
  passable f mem cat above := by
    rcases prefix_categoryDir above with shorter | same
    · exact fresh.passable f mem shorter
    · apply fresh.noFile f mem
      rw [same, categoryDir_eq]
      exact List.prefix_append _ _
  dirs dir mem below := Or.inl (fresh.noDir dir mem below)
  made := List.forall_mem_nil _
  files cat f inside := by
    constructor
    · intro mem
      apply absurd _ (fresh.noFile f mem)
      have below := List.dropLast_prefix f.path
      rw [inside, categoryDir_eq] at below
      exact (List.prefix_append _ _).trans below
    · intro ⟨_, mem, _⟩
      cases mem

theorem not_dir_of_inside (filed : Filed numbers bufferDir entries t) {p : List String}
    (inside : p.dropLast = categoryDir bufferDir cat) : p ∉ t.dirs := by
  intro mem
  have length := length_of_inside inside
  have below : bufferDir <+: p := by
    have above := List.dropLast_prefix p
    rw [inside, categoryDir_eq] at above
    exact (List.prefix_append _ _).trans above
  rcases filed.dirs p mem below with rfl | ⟨other, rfl⟩
  · omega
  · rw [categoryDir_eq, List.length_append, List.length_singleton] at length
    omega

theorem extend_of_last {p : List String} {name : String} (last : name ∈ p.getLast?) (more : String) :
    extend p more = p.dropLast ++ [name ++ more] := by
  rw [extend, Option.mem_def.mp last, Option.getD_some]

theorem index_not_above : ¬ indexPath bufferDir <+: categoryDir bufferDir cat := by
  intro above
  rcases prefix_categoryDir above with shorter | same
  · have long := shorter.length_le
    rw [indexPath_eq, List.length_append, List.length_singleton] at long
    omega
  · rw [indexPath_eq, categoryDir_eq] at same
    have names := List.singleton_inj.mp (List.append_cancel_left same)
    cases cat <;> exact absurd names (by decide)

/-- Making the directory of a category leaves the buffer filed. -/
theorem Filed.mkdir (filed : Filed numbers bufferDir entries t) (cat : BufferCategory) :
    ∃ u, t.mkdir (categoryDir bufferDir cat) = some u ∧ Filed numbers bufferDir entries u ∧
      u.files = t.files ∧ categoryDir bufferDir cat ∈ u.dirs ∧ bufferDir ∈ u.dirs := by
  have open_ : ¬ t.files.rows.any (fun f => f.path.isPrefixOf (categoryDir bufferDir cat)) = true := by
    intro blocked
    obtain ⟨f, mem, above⟩ := List.any_eq_true.mp blocked
    exact filed.passable f mem cat (List.isPrefixOf_iff_prefix.mp above)
  refine ⟨{ t with dirs := (categoryDir bufferDir cat).inits ∪ t.dirs }, if_neg open_, ?_, rfl, ?_, ?_⟩
  · refine ⟨filed.passable, ?_, ?_, filed.files⟩
    · intro dir mem below
      rcases List.mem_union_iff.mp mem with new | old
      · rcases prefix_categoryDir ((List.mem_inits _ _).mp new) with above | same
        · exact Or.inl (above.eq_of_length (Nat.le_antisymm above.length_le below.length_le))
        · exact Or.inr ⟨cat, same⟩
      · exact filed.dirs dir old below
    · intro entry mem
      exact List.mem_union_iff.mpr (Or.inr (filed.made entry mem))
  · simp
  · simp [categoryDir_eq]

/-- In a buffer that holds what was written, a call for an entry that fits resolves. -/
theorem Filed.appends (filed : Filed numbers bufferDir entries t) (index : takes "BUFFER.md" = true)
    (fits : Fits takes bufferDir entry) :
    ∃ u, appendBufferEntry numbers takes bufferDir entry t = some u := by
  obtain ⟨inside, name, last, taken, tmpTaken⟩ := fits
  obtain ⟨made, mkdir, filedMade, -, dir, parent⟩ := filed.mkdir entry.category
  have tmpInside : (extend (entryPath bufferDir entry) ".tmp").dropLast =
      categoryDir bufferDir entry.category := by
    rw [extend, List.dropLast_concat, inside]
  have aside : Writable takes (extend (entryPath bufferDir entry) ".tmp") made := by
    refine ⟨tmpInside ▸ dir, not_dir_of_inside filedMade tmpInside, name ++ ".tmp", ?_, tmpTaken⟩
    rw [extend_of_last last, List.getLast?_concat]
    rfl
  have writable : Writable takes (entryPath bufferDir entry) made :=
    ⟨inside ▸ dir, not_dir_of_inside filedMade inside, name, last, taken⟩
  obtain ⟨w, v, written, renamed⟩ := exists_replaced aside writable (entryText numbers entry)
  have indexWritable : Writable takes (indexPath bufferDir) v := by
    obtain ⟨dirs, -⟩ := get_replaced written renamed
    refine ⟨?_, ?_, "BUFFER.md", ?_, index⟩
    · rw [indexPath_eq, List.dropLast_concat, dirs]
      exact parent
    · rw [dirs]
      intro mem
      have below : bufferDir <+: indexPath bufferDir := by
        rw [indexPath_eq]
        exact List.prefix_append _ _
      rcases filedMade.dirs _ mem below with same | ⟨cat, same⟩
      · rw [indexPath_eq] at same
        exact absurd same (by simp)
      · apply @index_not_above bufferDir cat
        rw [same]
    · rw [indexPath_eq, List.getLast?_concat]
      rfl
  unfold appendBufferEntry
  simp only [mkdir, written, renamed, Option.bind_eq_bind, Option.bind_some]
  exact ⟨_, if_pos indexWritable⟩

/-- No file of an entry is a file that is written aside. -/
theorem entryPath_ne_extend (safe : '/' ∉ entry.id.toList) (p : List String) :
    entryPath bufferDir entry ≠ extend p ".tmp" := by
  obtain ⟨base, name, path⟩ := @exists_entryPath _ bufferDir _ safe
  intro same
  rw [path, extend] at same
  have names := List.singleton_inj.mp (List.append_inj' same rfl).2
  have ends := congrArg (fun text => text.toList.getLast?) names
  simp [List.getLast?_cons] at ends

theorem Filed.append (filed : Filed numbers bufferDir entries t)
    (safe : ∀ old ∈ entries, '/' ∉ old.id.toList) (fits : Fits takes bufferDir entry)
    (unshared : ∀ old ∈ entries, entryPath bufferDir old ≠ entryPath bufferDir entry)
    (done : appendBufferEntry numbers takes bufferDir entry t = some u) :
    Filed numbers bufferDir (entries ++ [entry]) u := by
  obtain ⟨dirs, -, line, gets⟩ := appendBufferEntry_eq_some done
  obtain ⟨made, mkdir, filedMade, -, dir, -⟩ := filed.mkdir entry.category
  rw [mkdir_eq_some mkdir] at filedMade dir
  refine ⟨?_, ?_, ?_, ?_⟩
  · intro f mem cat above
    have found := Table.mem_rows_iff.mp mem
    rw [gets] at found
    split at found
    · rename_i same
      exact index_not_above (same ▸ above)
    · split at found
      · rename_i same
        have long := above.length_le
        rw [same, length_of_inside fits.inside, categoryDir_eq, List.length_append,
          List.length_singleton] at long
        omega
      · split at found
        · cases found
        · exact filed.passable f (Table.mem_of_get found) cat above
  · rw [dirs]
    exact filedMade.dirs
  · rw [dirs]
    intro other mem
    rcases List.mem_append.mp mem with old | new
    · exact filedMade.made other old
    · rw [List.mem_singleton.mp new]
      exact dir
  · intro cat f inside
    rw [Table.mem_rows_iff, gets, if_neg (ne_index_of_inside inside)]
    constructor
    · intro found
      split at found
      · exact ⟨entry, by simp, (Option.some.inj found).symm⟩
      · split at found
        · cases found
        · obtain ⟨old, mem, same⟩ := (filed.files cat f inside).mp (Table.mem_of_get found)
          exact ⟨old, List.mem_append_left _ mem, same⟩
    · intro written
      obtain ⟨other, mem, same⟩ := written
      rcases List.mem_append.mp mem with old | new
      · have path : f.path = entryPath bufferDir other := congrArg TextFile.path same
        have apart : f.path ≠ entryPath bufferDir entry := by
          rw [path]
          exact unshared other old
        have aside : f.path ≠ extend (entryPath bufferDir entry) ".tmp" := by
          rw [path]
          exact entryPath_ne_extend (safe other old) _
        rw [if_neg apart, if_neg aside]
        exact Table.mem_rows_iff.mp ((filed.files cat f inside).mpr ⟨other, old, same⟩)
      · rw [List.mem_singleton.mp new] at same
        rw [same, if_pos rfl]

theorem exists_appendAll {more : List (BufferEntry ν)} (filed : Filed numbers bufferDir entries t)
    (index : takes "BUFFER.md" = true) (safe : ∀ entry ∈ entries ++ more, '/' ∉ entry.id.toList)
    (fits : ∀ entry ∈ more, Fits takes bufferDir entry)
    (unshared : ((entries ++ more).map (entryPath bufferDir)).Nodup) :
    ∃ u, appendAll numbers takes bufferDir more t = some u ∧
      Filed numbers bufferDir (entries ++ more) u := by
  induction more generalizing entries t with
  | nil => exact ⟨t, rfl, by rw [List.append_nil]; exact filed⟩
  | cons entry more ih =>
      obtain ⟨here, others⟩ := List.forall_mem_cons.mp fits
      obtain ⟨u, done⟩ := filed.appends index here
      have apart : ∀ old ∈ entries, entryPath bufferDir old ≠ entryPath bufferDir entry := by
        intro old mem
        rw [List.map_append, List.nodup_append] at unshared
        exact unshared.2.2 _ (List.mem_map_of_mem mem) _ (List.mem_map_of_mem List.mem_cons_self)
      have next := filed.append (fun old mem => safe old (List.mem_append_left _ mem)) here apart done
      rw [List.append_cons] at safe unshared
      obtain ⟨v, later, filed'⟩ := ih next safe others unshared
      refine ⟨v, ?_, ?_⟩
      · rw [appendAll, List.foldlM_cons, done]
        exact later
      · rw [List.append_cons]
        exact filed'

/-! ### The walk -/

variable (bufferDir) in
/-- The name of the file of an entry. -/
def lastName (entry : BufferEntry ν) : String := (entryPath bufferDir entry).getLast?.getD ""

/-- The walk does not pass over the file. -/
theorem entryPath_of_inside (safe : '/' ∉ entry.id.toList)
    (inside : (entryPath bufferDir entry).dropLast = categoryDir bufferDir entry.category) :
    entryPath bufferDir entry = categoryDir bufferDir entry.category ++ [lastName bufferDir entry] ∧
      endsWith (lastName bufferDir entry) ".tmp" = false := by
  obtain ⟨base, name, path⟩ := @exists_entryPath _ bufferDir _ safe
  have last : lastName bufferDir entry = name ++ ("_" ++ entry.id ++ ".md") := by
    rw [lastName, path, List.getLast?_concat, Option.getD_some]
  constructor
  · rw [last, ← inside, path, List.dropLast_concat]
  · rw [last, endsWith, ← Bool.not_eq_true, List.isSuffixOf_iff_suffix]
    intro ⟨front, same⟩
    have ends := congrArg List.getLast? same
    simp [List.getLast?_cons] at ends

/-- The entries of a category. -/
def inCategory (entries : List (BufferEntry ν)) (cat : BufferCategory) : List (BufferEntry ν) :=
  entries.filter fun entry => entry.category = cat

variable (bufferDir entries) in
/-- Each entry has a file of its own in the directory of its category. -/
structure Placed : Prop where
  safe : ∀ entry ∈ entries, '/' ∉ entry.id.toList
  inside : ∀ entry ∈ entries,
    (entryPath bufferDir entry).dropLast = categoryDir bufferDir entry.category
  unshared : (entries.map (entryPath bufferDir)).Nodup

theorem Placed.path (placed : Placed bufferDir entries) (mem : entry ∈ inCategory entries cat) :
    entry ∈ entries ∧ entry.category = cat ∧
      entryPath bufferDir entry = categoryDir bufferDir cat ++ [lastName bufferDir entry] := by
  obtain ⟨member, same⟩ := List.mem_filter.mp mem
  have category := of_decide_eq_true same
  refine ⟨member, category, ?_⟩
  rw [← category]
  exact (entryPath_of_inside (placed.safe entry member) (placed.inside entry member)).1

theorem Placed.nodup_names (placed : Placed bufferDir entries) (cat : BufferCategory) :
    ((inCategory entries cat).map (lastName bufferDir)).Nodup := by
  have paths : (inCategory entries cat).map (entryPath bufferDir) =
      ((inCategory entries cat).map (lastName bufferDir)).map (categoryDir bufferDir cat ++ [·]) := by
    rw [List.map_map]
    exact List.map_congr_left fun entry mem => (placed.path mem).2.2
  have sub : ((inCategory entries cat).map (entryPath bufferDir)).Nodup :=
    placed.unshared.sublist (List.filter_sublist.map _)
  rw [paths] at sub
  exact sub.of_map

theorem Filed.row (filed : Filed numbers bufferDir entries t) (placed : Placed bufferDir entries)
    (mem : entry ∈ inCategory entries cat) :
    ⟨categoryDir bufferDir cat ++ [lastName bufferDir entry], entryText numbers entry⟩ ∈
      t.files.rows := by
  obtain ⟨member, -, path⟩ := placed.path mem
  have here : (categoryDir bufferDir cat ++ [lastName bufferDir entry]).dropLast =
      categoryDir bufferDir cat := List.dropLast_concat
  exact (filed.files cat ⟨_, _⟩ here).mpr ⟨entry, member, by rw [path]⟩

/-- What the directory of a category lists. -/
theorem Filed.listing_perm (filed : Filed numbers bufferDir entries t)
    (placed : Placed bufferDir entries) {names : List String}
    (listed : t.readdir (categoryDir bufferDir cat) = .ok names) :
    (names.filter fun x => !endsWith x ".tmp").Perm
      ((inCategory entries cat).map (lastName bufferDir)) := by
  have flat : ∀ name, categoryDir bufferDir cat ++ [name] ∉ t.dirs := fun name =>
    @not_dir_of_inside _ _ _ _ _ cat filed _ List.dropLast_concat
  apply (List.perm_ext_iff_of_nodup ((nodup_readdir listed flat).filter _) (placed.nodup_names cat)).mpr
  intro name
  rw [List.mem_filter, mem_readdir listed, or_iff_right (flat name), List.mem_map]
  constructor
  · intro ⟨⟨f, row, path⟩, _⟩
    have here : f.path.dropLast = categoryDir bufferDir cat := by
      rw [path, List.dropLast_concat]
    obtain ⟨entry, member, rfl⟩ := (filed.files cat f here).mp row
    have category := categoryDir_injective ((placed.inside entry member).symm.trans here)
    refine ⟨entry, List.mem_filter.mpr ⟨member, decide_eq_true category⟩, ?_⟩
    have last : lastName bufferDir entry = ((categoryDir bufferDir cat ++ [name]).getLast?).getD "" :=
      congrArg (·.getLast?.getD "") path
    rw [last, List.getLast?_concat, Option.getD_some]
  · intro ⟨entry, mem, same⟩
    obtain ⟨member, -, -⟩ := placed.path mem
    rw [← same, (entryPath_of_inside (placed.safe entry member) (placed.inside entry member)).2]
    exact ⟨⟨_, filed.row placed mem, rfl⟩, rfl⟩

theorem Filed.walkCategory (filed : Filed numbers bufferDir entries t)
    (placed : Placed bufferDir entries) (storable : ∀ entry ∈ entries, Storable numbers entry)
    (cat : BufferCategory) :
    ∃ found, AutomationBuffer.walkCategory numbers bufferDir t cat = some found ∧
      found.Perm (inCategory entries cat) := by
  unfold AutomationBuffer.walkCategory
  dsimp only
  cases listed : t.readdir (categoryDir bufferDir cat) with
  | error e =>
      obtain ⟨missing, reason⟩ := readdir_eq_error listed
      rcases reason with rfl | ⟨f, mem, above⟩
      · have none : inCategory entries cat = [] := by
          apply List.filter_eq_nil_iff.mpr
          intro entry mem same
          apply missing
          rw [← of_decide_eq_true same]
          exact filed.made entry mem
        exact ⟨[], rfl, by rw [none]⟩
      · exact absurd above (filed.passable f mem cat)
  | ok names =>
      let read := fun name =>
        parseEntry numbers ((t.readFile (categoryDir bufferDir cat ++ [name])).getD []) cat
      have perm := (List.mergeSort_perm (names.filter fun x => !endsWith x ".tmp") nameLe).trans
        (filed.listing_perm placed listed)
      have file : ∀ entry ∈ inCategory entries cat,
          t.readFile (categoryDir bufferDir cat ++ [lastName bufferDir entry]) =
            some (entryText numbers entry) := fun entry mem => by
        rw [readFile, Table.mem_rows_iff.mp (filed.row placed mem)]
        rfl
      have back : ∀ entry ∈ inCategory entries cat, read (lastName bufferDir entry) = entry := by
        intro entry mem
        obtain ⟨member, category, -⟩ := placed.path mem
        have parsed := parseEntry_entryText (storable entry member) cat
        rw [← category] at parsed
        dsimp only [read]
        rw [file entry mem, Option.getD_some, ← category, parsed]
      refine ⟨_, mapM_of_forall (g := read) ?_, (perm.map read).trans ?_⟩
      · intro name mem
        obtain ⟨entry, member, rfl⟩ := List.mem_map.mp (perm.mem_iff.mp mem)
        dsimp only [read]
        rw [file entry member, Option.map_some, Option.getD_some]
      · have whole : ((inCategory entries cat).map (lastName bufferDir)).map read =
            inCategory entries cat := by
          rw [List.map_map, Function.comp_def, List.map_congr_left back, List.map_id']
        rw [whole]

/-- For every sequence of calls into a fresh buffer: all of them resolve and each entry is read back
once, as it was appended, if and only if every entry's file lies in the directory of its category,
under a name that the system takes, and no two entries have one file. -/
theorem survives_iff (fresh : Fresh takes bufferDir t)
    (distinct : (entries.map BufferEntry.id).Nodup) (safe : ∀ entry ∈ entries, '/' ∉ entry.id.toList)
    (storable : ∀ entry ∈ entries, Storable numbers entry) :
    Survives numbers takes bufferDir entries t ↔
      (∀ entry ∈ entries, Fits takes bufferDir entry) ∧
        (entries.map (entryPath bufferDir)).Nodup := by
  constructor
  · intro survives
    obtain ⟨inside, unshared⟩ := distinct_of_survives fresh storable distinct survives
    obtain ⟨u, walked, done, -⟩ := survives
    refine ⟨fun entry mem => ?_, unshared⟩
    exact ⟨inside entry mem, taken_of_appendAll done entry mem⟩
  · intro ⟨fits, unshared⟩
    obtain ⟨u, done, filed⟩ := exists_appendAll (filed_of_fresh fresh) fresh.index safe fits unshared
    have placed : Placed bufferDir entries := ⟨safe, fun entry mem => (fits entry mem).inside, unshared⟩
    obtain ⟨parts, read, perm⟩ := exists_mapM_flatten_perm fun cat (_ : cat ∈ CATEGORY_ORDER) =>
      filed.walkCategory placed storable cat
    refine ⟨u, parts.flatten, done, ?_, perm.trans ?_⟩
    · rw [walkBuffer, read]
      rfl
    · apply flatMap_filter_perm (by decide) BufferEntry.category
      intro entry _
      cases entry.category <;> decide

end

/-! ## Two buffers -/

/-- The numbers 0 and 1. -/
def bitNumbers : Numbers Bool where
  print n := if n then ['1'] else ['0']
  read text := text = ['1']
  zero := false
  Finite _ := True
  plain := by decide
  read_print := by decide

def emptyTree : FileTree := ⟨[], .empty⟩

theorem fresh_emptyTree : Fresh (fun _ => true) ["pending-lessons"] emptyTree where
  passable := List.forall_mem_nil _
  noFile := List.forall_mem_nil _
  noDir := List.forall_mem_nil _
  index := rfl

def delimitersInContext : String := "\n  |-\n---\nid: x"

def delimitersInBody : String := "---\nid: other\n---\n\n\nbody"

/-- Both free texts look like the format that they are written in. -/
def sampleEntry (timestamp id : String) : BufferEntry Bool where
  id
  category := .preferences
  body := delimitersInBody
  frontmatter :=
    { timestamp, proposedCategory := "preferences", sourceContext := delimitersInContext
      confidence := true }

theorem storable_sampleEntry {timestamp id : String} (plain : Plain timestamp.toList)
    (plain' : Plain id.toList) : Storable bitNumbers (sampleEntry timestamp id) where
  id := plain'
  timestamp := plain
  proposedCategory := (by decide : Plain "preferences".toList)
  confidence := trivial
  sourceContext := (by decide : delimitersInContext.toList.getLast? ≠ some '\n')
  body := (by decide : delimitersInBody.toList.getLast? ≠ some '\n')

theorem fits_sampleEntry {timestamp id : String} (noSlash : '/' ∉ timestamp.toList)
    (safe : '/' ∉ id.toList) : Fits (fun _ => true) ["pending-lessons"] (sampleEntry timestamp id) := by
  have path := @entryPath_of_noSlash _ ["pending-lessons"] (sampleEntry timestamp id) noSlash safe
  refine ⟨?_, fileName (sampleEntry timestamp id), ?_, rfl, rfl⟩
  · rw [path, List.dropLast_concat]
  · rw [path, List.getLast?_concat]
    rfl

theorem survives_two_timestamps :
    Survives bitNumbers (fun _ => true) ["pending-lessons"]
      [sampleEntry "2026-01-01T00:00:00Z" "a", sampleEntry "2026-01-01T00:00:01Z" "b"]
      emptyTree := by
  apply (survives_iff fresh_emptyTree (by decide) (by decide) ?_).mpr
  · refine ⟨List.forall_mem_cons.mpr ⟨fits_sampleEntry (by decide) (by decide),
      List.forall_mem_singleton.mpr (fits_sampleEntry (by decide) (by decide))⟩, ?_⟩
    have apart : fileName (sampleEntry "2026-01-01T00:00:00Z" "a") ≠
        fileName (sampleEntry "2026-01-01T00:00:01Z" "b") := by decide
    rw [List.map_cons, List.map_singleton, entryPath_of_noSlash (by decide) (by decide),
      entryPath_of_noSlash (by decide) (by decide)]
    simpa using fun _ => apart
  · exact List.forall_mem_cons.mpr ⟨storable_sampleEntry (by decide) (by decide),
      List.forall_mem_singleton.mpr (storable_sampleEntry (by decide) (by decide))⟩

/-- The timestamp and the id of two entries run together to one file name: the second call replaces
the file of the first entry. -/
theorem second_entry_replaces_first :
    let entries := [sampleEntry "a" "b_c", sampleEntry "a_b" "c"]
    (entries.map BufferEntry.id).Nodup ∧ (∀ entry ∈ entries, '/' ∉ entry.id.toList) ∧
      (∀ entry ∈ entries, Storable bitNumbers entry) ∧
      entries.map (entryPath ["pending-lessons"]) =
        List.replicate 2 ["pending-lessons", "preferences", "a_b_c.md"] ∧
      ¬ Survives bitNumbers (fun _ => true) ["pending-lessons"] entries emptyTree := by
  have storable : ∀ entry ∈ [sampleEntry "a" "b_c", sampleEntry "a_b" "c"],
      Storable bitNumbers entry :=
    List.forall_mem_cons.mpr ⟨storable_sampleEntry (by decide) (by decide),
      List.forall_mem_singleton.mpr (storable_sampleEntry (by decide) (by decide))⟩
  have paths : [sampleEntry "a" "b_c", sampleEntry "a_b" "c"].map (entryPath ["pending-lessons"]) =
      List.replicate 2 ["pending-lessons", "preferences", "a_b_c.md"] := by
    rw [List.map_cons, List.map_singleton, entryPath_of_noSlash (by decide) (by decide),
      entryPath_of_noSlash (by decide) (by decide), categoryDir_eq, categoryDir_eq]
    rfl
  refine ⟨by decide, by decide, storable, paths, fun survives => ?_⟩
  have unshared := (distinct_of_survives fresh_emptyTree storable (by decide) survives).2
  rw [paths] at unshared
  exact absurd unshared (by simp)

end Opensquid.AutomationBuffer
