import Mathlib.Data.List.Infix
import Opensquid.Lib.PathText
import Opensquid.Lib.Table

/-!
# Directories and files

A tree of directories with text files in it. A path is the list of its names. Each call fails or
gives the tree afterwards, and a lemma says what a lookup finds there.
-/

namespace Opensquid.Lib

structure TextFile where
  path : List String
  text : List Char

structure FileTree where
  dirs : List (List String)
  files : Table TextFile.path

namespace FileTree

/-- One name further on a path. -/
def enter (dir : List String) (name : String) : List String :=
  if name = "" ∨ name = "." then dir else if name = ".." then dir.dropLast else dir ++ [name]

/-- `join(dir, text)`, with what is `.` and `..` in the text taken away. -/
def join (dir : List String) (text : String) : List String := (PathText.segs '/' text).foldl enter dir

/-- The path with more text behind its last name. -/
def extend (path : List String) (more : String) : List String :=
  path.dropLast ++ [path.getLast?.getD "" ++ more]

inductive Errno
  | ENOENT
  | ENOTDIR
  deriving DecidableEq, Repr

instance (path : List String) (t : FileTree) : Decidable (path ∈ t.dirs) := inferInstance

section

variable (takes : String → Bool)

/-- `mkdir(path, { recursive: true })`. -/
def mkdir (path : List String) (t : FileTree) : Option FileTree :=
  if t.files.rows.any fun f => f.path.isPrefixOf path then none
  else some { t with dirs := path.inits ∪ t.dirs }

/-- A file can be written here: the directory exists, no directory is in its place, and the system
takes its name. -/
def Writable (path : List String) (t : FileTree) : Prop :=
  path.dropLast ∈ t.dirs ∧ path ∉ t.dirs ∧ ∃ name ∈ path.getLast?, takes name = true

instance (path : List String) (t : FileTree) : Decidable (Writable takes path t) := by
  unfold Writable
  infer_instance

def writeFile (path : List String) (text : List Char) (t : FileTree) : Option FileTree :=
  if Writable takes path t then some { t with files := t.files.put ⟨path, text⟩ } else none

/-- The file at the new path is replaced. -/
def rename (source target : List String) (t : FileTree) : Option FileTree := do
  let f ← t.files.get source
  if Writable takes target t then
    some { t with files := (t.files.delete source).put ⟨target, f.text⟩ }
  else none

def readFile (path : List String) (t : FileTree) : Option (List Char) :=
  (t.files.get path).map TextFile.text

def appendFile (path : List String) (text : List Char) (t : FileTree) : Option FileTree :=
  t.writeFile takes path ((t.readFile path).getD [] ++ text)

/-- The name in the directory, if the path is in it. -/
def nameIn (dir path : List String) : Option String :=
  if path.dropLast = dir then path.getLast? else none

def readdir (dir : List String) (t : FileTree) : Except Errno (List String) :=
  if dir ∈ t.dirs then
    .ok (t.dirs.filterMap (nameIn dir) ++ (t.files.rows.map TextFile.path).filterMap (nameIn dir))
  else if t.files.rows.any fun f => f.path.isPrefixOf dir then .error .ENOTDIR
  else .error .ENOENT

end

/-! ## Paths -/

theorem nameIn_eq_some {dir path : List String} {name : String} :
    nameIn dir path = some name ↔ path = dir ++ [name] := by
  unfold nameIn
  constructor
  · intro same
    split at same
    · rename_i here
      rw [← here]
      exact (List.dropLast_append_getLast? name same).symm
    · cases same
  · intro same
    simp [same]

/-- A text whose end has no slash is joined with that end behind its last name. -/
theorem join_append (dir : List String) (text : String) {last : String} (free : '/' ∉ last.toList)
    (long : 2 < last.toList.length) : ∃ base name, join dir (text ++ last) = base ++ [name ++ last] := by
  have pieces : ∀ chars : List Char, ∃ front piece,
      (chars ++ last.toList).splitOn '/' = front ++ [piece ++ last.toList] := by
    intro chars
    induction chars with
    | nil => exact ⟨[], [], List.splitOn_eq_singleton free⟩
    | cons c chars ih =>
        obtain ⟨front, piece, same⟩ := ih
        rw [List.cons_append, List.splitOn_cons_eq_if_modifyHead, same]
        split
        · exact ⟨[] :: front, piece, rfl⟩
        · cases front with
          | nil => exact ⟨[], c :: piece, rfl⟩
          | cons head front => exact ⟨(c :: head) :: front, piece, rfl⟩
  obtain ⟨front, piece, same⟩ := pieces text.toList
  refine ⟨(front.map String.ofList).foldl enter dir, String.ofList piece, ?_⟩
  have whole : String.ofList (piece ++ last.toList) = String.ofList piece ++ last := by
    apply String.toList_inj.mp
    simp
  have size : 2 < (String.ofList (piece ++ last.toList)).toList.length := by
    simp
    omega
  have named : ∀ short : String, short.toList.length ≤ 2 →
      String.ofList (piece ++ last.toList) ≠ short := by
    intro short small equal
    rw [equal] at size
    omega
  rw [join, PathText.segs, String.toList_append, same, List.map_append, List.foldl_append,
    List.map_singleton, List.foldl_cons, List.foldl_nil, enter,
    if_neg (not_or.mpr ⟨named "" (by decide), named "." (by decide)⟩), if_neg (named ".." (by decide)),
    whole]

/-! ## Lookups -/

variable {takes : String → Bool} {t u : FileTree} {path source target p : List String}
  {text : List Char}

theorem mkdir_eq_some (done : t.mkdir path = some u) :
    u = { t with dirs := path.inits ∪ t.dirs } := by
  unfold mkdir at done
  split at done
  · cases done
  · exact (Option.some.inj done).symm

theorem writeFile_eq_some (done : t.writeFile takes path text = some u) :
    Writable takes path t ∧ u = { t with files := t.files.put ⟨path, text⟩ } := by
  unfold writeFile at done
  split at done
  · rename_i writable
    exact ⟨writable, (Option.some.inj done).symm⟩
  · cases done

theorem rename_eq_some (done : t.rename takes source target = some u) :
    Writable takes target t ∧ ∃ f, t.files.get source = some f ∧
      u = { t with files := (t.files.delete source).put ⟨target, f.text⟩ } := by
  obtain ⟨f, found, done⟩ := Option.bind_eq_some_iff.mp done
  split at done
  · rename_i writable
    exact ⟨writable, f, found, (Option.some.inj done).symm⟩
  · cases done

theorem get_put (files : Table TextFile.path) :
    (files.put ⟨path, text⟩).get p = if p = path then some ⟨path, text⟩ else files.get p := by
  split
  · rename_i same
    rw [same]
    exact Table.get_put_self
  · rename_i other
    exact Table.get_put_of_ne other

theorem get_delete (files : Table TextFile.path) :
    (files.delete source).get p = if p = source then none else files.get p := by
  split
  · rename_i same
    rw [same]
    exact Table.get_delete_self
  · rename_i other
    exact Table.get_delete_of_ne other

/-- Written aside and moved, a text is at its path and nowhere else. -/
theorem get_replaced {tmp : List String} {v : FileTree}
    (written : t.writeFile takes tmp text = some u) (moved : u.rename takes tmp path = some v) :
    v.dirs = t.dirs ∧ ∀ p, v.files.get p =
      if p = path then some ⟨path, text⟩ else if p = tmp then none else t.files.get p := by
  obtain ⟨-, rfl⟩ := writeFile_eq_some written
  obtain ⟨-, f, found, rfl⟩ := rename_eq_some moved
  have same : f.text = text := by
    rw [get_put, if_pos rfl] at found
    rw [← Option.some.inj found]
  refine ⟨rfl, fun p => ?_⟩
  rw [same, get_put, get_delete, get_put]
  split
  · rfl
  · split <;> rfl

/-- A file that can be written aside and moved is replaced. -/
theorem exists_replaced {tmp : List String} (aside : Writable takes tmp t)
    (writable : Writable takes path t) (text : List Char) :
    ∃ u v, t.writeFile takes tmp text = some u ∧ u.rename takes tmp path = some v := by
  have found : (t.files.put ⟨tmp, text⟩).get tmp = some ⟨tmp, text⟩ := Table.get_put_self
  refine ⟨{ t with files := t.files.put ⟨tmp, text⟩ },
    { t with files := ((t.files.put ⟨tmp, text⟩).delete tmp).put ⟨path, text⟩ }, if_pos aside, ?_⟩
  unfold rename
  rw [found]
  exact if_pos writable

theorem mem_readdir {dir names : List String} (listed : t.readdir dir = .ok names) {name : String} :
    name ∈ names ↔ dir ++ [name] ∈ t.dirs ∨ ∃ f ∈ t.files.rows, f.path = dir ++ [name] := by
  unfold readdir at listed
  split at listed
  · cases listed
    simp [nameIn_eq_some]
  · split at listed <;> cases listed

theorem readdir_eq_error {dir : List String} {e : Errno} (failed : t.readdir dir = .error e) :
    dir ∉ t.dirs ∧ (e = .ENOENT ∨ ∃ f ∈ t.files.rows, f.path <+: dir) := by
  unfold readdir at failed
  split at failed
  · cases failed
  · rename_i missing
    refine ⟨missing, ?_⟩
    split at failed
    · rename_i blocked
      obtain ⟨f, mem, above⟩ := List.any_eq_true.mp blocked
      exact Or.inr ⟨f, mem, List.isPrefixOf_iff_prefix.mp above⟩
    · cases failed
      exact Or.inl rfl

/-- Without directories in it, a directory lists each name once. -/
theorem nodup_readdir {dir names : List String} (listed : t.readdir dir = .ok names)
    (flat : ∀ name, dir ++ [name] ∉ t.dirs) : names.Nodup := by
  unfold readdir at listed
  split at listed
  · cases listed
    have none : t.dirs.filterMap (nameIn dir) = [] := by
      apply List.filterMap_eq_nil_iff.mpr
      intro d mem
      cases name : nameIn dir d with
      | none => rfl
      | some n => exact absurd (nameIn_eq_some.mp name ▸ mem) (flat n)
    rw [none, List.nil_append]
    apply t.files.distinct.filterMap
    intro path other name here there
    rw [nameIn_eq_some.mp here, nameIn_eq_some.mp there]
  · split at listed <;> cases listed

end FileTree

end Opensquid.Lib
