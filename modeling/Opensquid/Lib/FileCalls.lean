import Opensquid.Lib.FileTree
import Opensquid.Lib.Hex
import Opensquid.Lib.Program

/-!
# Calls on a file tree

Programs that read and write files. Every call may fail; a write that fails may leave any text at
its path. A lemma for each call says what is in the files afterwards. Under `strict` no call fails.
`replace` writes a text aside and moves it over a file: the file has the new text, or what it had.
-/

namespace Opensquid.Lib

inductive FileOp
  | readFile (path : List String)
  | readdir (path : List String)
  | mkdir (path : List String)
  | writeFile (path : List String) (text : List Char)
  | rename (source target : List String)
  | hrtime

namespace FileOp

/-- A read has no text, and a directory no names, if there is nothing at the path. -/
abbrev Reply : FileOp → Type
  | readFile _ => Option (List Char)
  | readdir _ => Option (List String)
  | mkdir _ | writeFile _ _ | rename _ _ => Unit
  | hrtime => Nat

/-- What the environment chooses for a call. -/
structure Turn where
  fails : Bool
  /-- The text that a failing write leaves. -/
  left : Option (List Char)
  now : Nat

end FileOp

open FileOp FileTree

abbrev FileProgram := Program FileOp Reply

namespace FileCalls

abbrev await (op : FileOp) : FileProgram op.Reply := Program.await op

section

variable (takes : String → Bool)

def reading (path : List String) (t : FileTree) : Option (Option (List Char)) :=
  match t.files.get path with
  | some f => some (some f.text)
  | none =>
      if path ∈ t.dirs ∨ t.files.rows.any (fun f => f.path.isPrefixOf path) then none else some none

def listing (path : List String) (t : FileTree) : Option (Option (List String)) :=
  match t.readdir path with
  | .ok names => some (some names)
  | .error .ENOENT => some none
  | .error .ENOTDIR => none

/-- A call that changes the tree, or fails and leaves it. -/
def change (t : FileTree) : Option FileTree → FileTree × Option Unit
  | some u => (u, some ())
  | none => (t, none)

/-- What a write leaves that fails. -/
def remains (path : List String) (left : Option (List Char)) (t : FileTree) : FileTree :=
  (left.bind fun text => t.writeFile takes path text).getD t

def exec : (op : FileOp) → Turn → FileTree → Option (FileTree × Option op.Reply)
  | .readFile path, turn, t => some (t, if turn.fails then none else reading path t)
  | .readdir path, turn, t => some (t, if turn.fails then none else listing path t)
  | .mkdir path, turn, t => some (if turn.fails then (t, none) else change t (t.mkdir path))
  | .writeFile path text, turn, t =>
      some (if turn.fails then (remains takes path turn.left t, none)
        else change t (t.writeFile takes path text))
  | .rename source target, turn, t =>
      some (if turn.fails then (t, none) else change t (t.rename takes source target))
  | .hrtime, turn, t => some (t, some turn.now)

/-- The call succeeds. -/
def Answered (op : FileOp) (turn : Turn) (t : FileTree) : Prop :=
  ∃ u reply, exec takes op turn t = some (u, some reply)

/-- The calls, none of which fails if `strict`. -/
noncomputable abbrev calls (strict : Prop) :=
  Program.guarded (exec takes) fun op turn t => strict → Answered takes op turn t

end

/-! ## What a call does -/

section

variable {takes : String → Bool} {strict : Prop} {cut : FileOp → FileTree → Prop} {t : FileTree}

theorem change_done {fails : Bool} {next : Option FileTree} {u : FileTree} {reply : Unit}
    (done : (if fails then (t, none) else change t next) = (u, some reply)) : next = some u := by
  split at done
  · cases done
  · cases next with
    | none => cases done
    | some v =>
        cases done
        rfl

theorem change_failed {fails : Bool} {next : Option FileTree} {u : FileTree}
    (failed : (if fails then (t, none) else change t next) = (u, none)) : u = t := by
  split at failed
  · exact (Prod.mk.inj failed).1.symm
  · cases next with
    | none => exact (Prod.mk.inj failed).1.symm
    | some v => cases failed

/-- A call that succeeds, or may fail. -/
theorem always_await {op : FileOp} {post : Option op.Reply → FileTree → Prop} (here : cut op t)
    (done : ∀ turn u reply, exec takes op turn t = some (u, some reply) → post (some reply) u)
    (failed : ¬ strict → ∀ turn u, exec takes op turn t = some (u, none) → post none u) :
    (await op).Always (calls takes strict) cut post t := by
  apply Program.Always.await_guarded here
  intro turn u reply sure same
  cases reply with
  | some reply => exact done turn u reply same
  | none =>
      refine failed (fun never => ?_) turn u same
      obtain ⟨v, known, answer⟩ := sure never
      rw [same] at answer
      cases answer

theorem always_readFile {path : List String} {post : Option (Option (List Char)) → FileTree → Prop}
    (here : cut (.readFile path) t)
    (found : ∀ f, t.files.get path = some f → post (some (some f.text)) t)
    (missing : t.files.get path = none → post (some none) t) (failed : ¬ strict → post none t) :
    (await (.readFile path)).Always (calls takes strict) cut post t := by
  apply always_await here
  · intro turn u reply same
    obtain ⟨rfl, answer⟩ := Prod.mk.inj (Option.some.inj same)
    split at answer
    · cases answer
    · unfold reading at answer
      split at answer
      · cases answer
        exact found _ ‹_›
      · split at answer <;> cases answer
        exact missing ‹_›
  · intro lax turn u same
    obtain ⟨rfl, -⟩ := Prod.mk.inj (Option.some.inj same)
    exact failed lax

theorem always_readdir {path : List String} {post : Option (Option (List String)) → FileTree → Prop}
    (here : cut (.readdir path) t)
    (listed : ∀ names, t.readdir path = .ok names → post (some (some names)) t)
    (missing : t.readdir path = .error .ENOENT → post (some none) t)
    (failed : ¬ strict → post none t) :
    (await (.readdir path)).Always (calls takes strict) cut post t := by
  apply always_await here
  · intro turn u reply same
    obtain ⟨rfl, answer⟩ := Prod.mk.inj (Option.some.inj same)
    split at answer
    · cases answer
    · unfold listing at answer
      split at answer <;> cases answer
      · exact listed _ ‹_›
      · exact missing ‹_›
  · intro lax turn u same
    obtain ⟨rfl, -⟩ := Prod.mk.inj (Option.some.inj same)
    exact failed lax

theorem always_mkdir {path : List String} {post : Option Unit → FileTree → Prop}
    (here : cut (.mkdir path) t) (made : ∀ u, u.files = t.files → post (some ()) u)
    (failed : ¬ strict → post none t) :
    (await (.mkdir path)).Always (calls takes strict) cut post t := by
  apply always_await here
  · intro turn u reply same
    have next := change_done (Option.some.inj same)
    apply made
    rw [mkdir_eq_some next]
  · intro lax turn u same
    rw [change_failed (Option.some.inj same)]
    exact failed lax

theorem always_writeFile {path : List String} {text : List Char}
    {post : Option Unit → FileTree → Prop} (here : cut (.writeFile path text) t)
    (written : ∀ u, t.writeFile takes path text = some u → post (some ()) u)
    (failed : ¬ strict → ∀ u : FileTree, (∀ p, p ≠ path → u.files.get p = t.files.get p) →
      post none u) :
    (await (.writeFile path text)).Always (calls takes strict) cut post t := by
  apply always_await here
  · intro turn u reply same
    replace same := Option.some.inj same
    split at same
    · cases same
    · exact written u (@change_done t false _ u _ same)
  · intro lax turn u same
    apply failed lax
    intro p other
    replace same := Option.some.inj same
    split at same
    · rw [← (Prod.mk.inj same).1, remains]
      cases left : turn.left.bind fun rest => t.writeFile takes path rest with
      | none => rfl
      | some v =>
          obtain ⟨rest, -, partly⟩ := Option.bind_eq_some_iff.mp left
          rw [Option.getD_some, (writeFile_eq_some partly).2, get_put, if_neg other]
    · rw [@change_failed t false _ u same]

theorem always_rename {source target : List String} {post : Option Unit → FileTree → Prop}
    (here : cut (.rename source target) t)
    (renamed : ∀ u, t.rename takes source target = some u → post (some ()) u)
    (failed : ¬ strict → post none t) :
    (await (.rename source target)).Always (calls takes strict) cut
      post t := by
  apply always_await here
  · intro turn u reply same
    exact renamed u (change_done (Option.some.inj same))
  · intro lax turn u same
    rw [change_failed (Option.some.inj same)]
    exact failed lax

theorem always_hrtime {post : Option Nat → FileTree → Prop} (here : cut .hrtime t)
    (read : ∀ now, post (some now) t) :
    (await .hrtime).Always (calls takes strict) cut post t := by
  apply always_await here
  · intro turn u reply same
    cases same
    exact read _
  · intro lax turn u same
    cases same

end

/-! ## Replacing a file -/

/-- Eight hexadecimal digits of the clock. -/
def randSuffix (now : Nat) : List Char :=
  (List.range 8).reverse.map fun i => Json.hexDigit (now / 16 ^ i % 16)

/-- The name of a file that a text is written to first. -/
def temporary (path : List String) (pid now : Nat) : List String :=
  extend path (".tmp." ++ toString pid ++ "." ++ String.ofList (randSuffix now))

/-- The name ends in a digit, as those of the files written first do. -/
def endsInDigit (path : List String) : Bool :=
  path.getLast?.any fun name => name.toList.getLast?.any Hex.isDigit

def replace (pid : Nat) (path : List String) (text : List Char) : FileProgram Unit :=
  (await .hrtime).bind fun now =>
    (await (.writeFile (temporary path pid now) text)).bind fun _ =>
      await (.rename (temporary path pid now) path)

theorem endsInDigit_temporary (path : List String) (pid now : Nat) :
    endsInDigit (temporary path pid now) = true := by
  have digit : ∀ n < 16, Hex.isDigit (Json.hexDigit n) = true := by decide
  have last : (randSuffix now).getLast? = some (Json.hexDigit (now % 16)) := by
    simp [randSuffix, List.range_succ]
  rw [endsInDigit, temporary, extend, List.getLast?_concat, Option.any_some, String.toList_append,
    String.toList_append, String.toList_ofList, ← List.append_assoc, List.getLast?_append, last]
  exact digit _ (Nat.mod_lt _ (by decide))

variable {takes : String → Bool} {strict : Prop} {t : FileTree} {pid : Nat} {path : List String}
  {text : List Char}

/-- The file has the new text, or what it had; no other file but one of those written first has
changed. -/
theorem always_replace {post : Option Unit → FileTree → Prop}
    (replaced : ∀ u : FileTree, (∀ p, endsInDigit p = false →
      u.files.get p = if p = path then some ⟨path, text⟩ else t.files.get p) → post (some ()) u)
    (failed : ¬ strict → ∀ u : FileTree,
      (∀ p, endsInDigit p = false → u.files.get p = t.files.get p) → post none u) :
    (replace pid path text).Always (calls takes strict) (fun _ _ => True) post t := by
  have aside : ∀ {p now}, endsInDigit p = false → p ≠ temporary path pid now := by
    intro p now plain same
    rw [same, endsInDigit_temporary] at plain
    cases plain
  apply Program.Always.bind
  apply always_hrtime trivial
  intro now
  apply Program.Always.bind
  apply always_writeFile trivial
  · intro u written
    apply always_rename trivial
    · intro v moved
      apply replaced
      intro p plain
      rw [(get_replaced written moved).2 p, if_neg (aside plain)]
    · intro lax
      apply failed lax
      intro p plain
      rw [(writeFile_eq_some written).2, get_put, if_neg (aside plain)]
  · intro lax u kept
    exact failed lax u fun p plain => kept p (aside plain)

end FileCalls

end Opensquid.Lib
