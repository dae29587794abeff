import Opensquid.Lib.IsoInstant
import Opensquid.Lib.Steps
import Opensquid.WorkGraph.Events

/-!
# The work-graph store as a concurrent system

Any number of processes share one database (and one op-file directory). A
process here is one caller with one call at a time; concurrent callers inside a
process, which `appendOp`'s write mutex runs one after the other, are processes
with the same actor id. A call is broken into the statements another process can
run between:

* `invoke`: the caller's reads before `appendOp` (`getIssue`, argument checks);
* `stamp`: the mutex is granted and `ts` is read from the clock;
* `selectMax`, `insertOp`: allocate a lamport, insert the op row, retrying on a
  duplicate op id (`busy`: on `SQLITE_BUSY`);
* `writeOpFile`, `foldOp`: write the op file, fold the op into the projection;
* `readBack`: `claimIssue` reads its issue again.

The remaining events are the steps of an op-log consumer: `readHighWater`,
`listOpsSince`, `advanceHighWater`. Every event is one atomic statement; the
order of events is arbitrary. The fields `folded`, `won`, `tokens` and
`returned` of `Sys` record the history and are read by no step, except that a
claim token drawn at random is one not drawn before.

`Sys.Step` inverts `step`: one constructor for each outcome of each event.
-/

namespace Opensquid.WorkGraph

open Opensquid.Lib Opensquid.Lib.Iso

/-! ## Calls -/

/-- A call of the store with its caller's arguments. `random` is what
`Math.random()` contributes to a claim token, `authorized` the first answer of
the ownership fence. -/
inductive Call
  | createIssue (title body : String)
  | updateIssue (id : String) (title body : Option String) (status : Option IssueStatus)
  | addEdge (fromId toId : String) (type : EdgeType)
  | archiveIssue (id : String) (reason : Option String)
  | unarchiveIssue (id : String)
  | wedgeMark (id reason : String)
  | clearWedge (id : String)
  | claimIssue (id : String) (audience : ClaimAudience) (ttlSec : Int) (random : String)
      (authorized : Bool)
  | renewClaim (id expectedToken : String) (ttlSec : Int)
  | releaseClaim (id : String) (expectedToken : Option String)

/-- `appendOp`'s first argument: an issue id, or a deriver of one from the
lamport. -/
inductive IssueIdArg
  | fixed (id : String)
  | derived (title body : String)
  deriving DecidableEq

/-- A pending `appendOp` call. `claimToken` is set for a `claimIssue`, which
reads its claim back afterwards. -/
structure Append where
  issueIdArg : IssueIdArg
  payload : WgPayload
  claimToken : Option String := none
  deriving DecidableEq

/-- The shared configuration: the hash, each process's actor id, and whether
op files are written. `resolveActorId` never returns an empty id; two processes
of one device have the same. -/
structure Env where
  digest : Digest
  actor : Nat → String
  actor_ne : ∀ p, actor p ≠ ""
  sourceDir : Bool

/-- The constant every op's `project` column is stamped with. -/
def LOCAL_PROJECT : String := "legacy-global"

/-- `MAX_APPEND_RETRIES`. -/
def MAX_APPEND_RETRIES : Nat := 8

def IssueIdArg.resolve (env : Env) (p lamport : Nat) : IssueIdArg → String
  | .fixed id => id
  | .derived title body => newIssueId env.digest title body lamport (env.actor p)

/-- The candidate op of one allocation attempt. -/
def Append.candidate (env : Env) (p : Nat) (req : Append) (ts : String) (lamport : Nat) : WgOp :=
  { id := makeOpId env.digest req.payload lamport (env.actor p)
    issueId := req.issueIdArg.resolve env p lamport
    lamport
    payload := req.payload
    ts
    project := LOCAL_PROJECT
    actorId := env.actor p }

/-- A claim token: unique for each attempt through `random`. -/
def claimTokenOf (digest : Digest) (id : String) (now : Int) (random : String) : String :=
  "clm-" ++ digest 16 (id ++ "\n" ++ toString now ++ "\n" ++ random)

/-- What a call hands to `appendOp` after its own checks; `none` when it throws
or returns without appending. -/
def Call.append (env : Env) (proj : Projection) (now : Int) : Call → Option Append
  | .createIssue title body =>
      some { issueIdArg := .derived title body, payload := .issueCreated title body }
  | .updateIssue id title body status =>
      (proj.issues id).map fun _ =>
        { issueIdArg := .fixed id, payload := .issueSet title body status }
  | .addEdge fromId toId type =>
      if fromId = toId then none
      else
        (proj.issues fromId).bind fun _ => (proj.issues toId).map fun _ =>
          { issueIdArg := .fixed fromId, payload := .depAdded fromId toId type }
  | .archiveIssue id reason =>
      (proj.issues id).map fun _ => { issueIdArg := .fixed id, payload := .issueArchived reason }
  | .unarchiveIssue id =>
      (proj.issues id).map fun _ => { issueIdArg := .fixed id, payload := .issueUnarchived }
  | .wedgeMark id reason =>
      (proj.issues id).map fun _ => { issueIdArg := .fixed id, payload := .wedgeMarked reason }
  | .clearWedge id =>
      (proj.issues id).map fun _ => { issueIdArg := .fixed id, payload := .wedgeCleared }
  | .claimIssue id audience ttlSec random authorized =>
      (proj.issues id).bind fun _ => (toISOString (now + ttlSec * 1000)).bind fun expiresAt =>
        let token := claimTokenOf env.digest id now random
        if authorized then
          some { issueIdArg := .fixed id, payload := .claimAcquired token audience expiresAt,
                 claimToken := some token }
        else none
  | .renewClaim id expectedToken ttlSec =>
      (proj.issues id).bind fun _ =>
        -- `Number.isSafeInteger(ttlSec)` and at least one second
        if expectedToken = "" ∨ ttlSec < 1 ∨ 9007199254740991 < ttlSec then none
        else (toISOString (now + ttlSec * 1000)).map fun expiresAt =>
          { issueIdArg := .fixed id, payload := .claimRenewed expectedToken expiresAt }
  | .releaseClaim id expectedToken =>
      (proj.issues id).map fun _ =>
        { issueIdArg := .fixed id, payload := .claimReleased expectedToken }

/-! ## The system -/

/-- Where a process stands in its current call. -/
inductive ProcState
  | idle
  | queued (req : Append)
  | selecting (req : Append) (ts : String) (attempt : Nat)
  | inserting (req : Append) (ts : String) (attempt lamport : Nat)
  | writing (op : WgOp) (claimToken : Option String)
  | folding (op : WgOp) (claimToken : Option String)
  | readingBack (id claimToken : String)
  deriving DecidableEq

/-- Where an op-log consumer stands in its pass. -/
inductive PassState
  | idle
  | cursorRead (cursor : Nat)
  | listed (ops : List WgOp)

structure Sys where
  clock : Int
  wgOps : List WgOp
  opFiles : List WgOp
  proj : Projection
  procs : Nat → ProcState
  highWater : Nat
  passes : Nat → PassState
  /-- The ops whose fold has run, in that order. -/
  folded : List WgOp
  /-- The `(issue, token)` of every `claimIssue` that returned `won: true`. -/
  won : List (String × String)
  /-- Every claim token drawn so far. -/
  tokens : List String
  /-- Every op returned by some `listOpsSince` call. -/
  returned : List WgOp

/-- A fresh database at clock reading `now`. -/
def Sys.init (now : Int) : Sys :=
  { clock := now, wgOps := [], opFiles := [], proj := .empty, procs := fun _ => .idle,
    highWater := 0, passes := fun _ => .idle, folded := [], won := [], tokens := [],
    returned := [] }

def Sys.setProc (s : Sys) (p : Nat) (st : ProcState) : Sys :=
  { s with procs := Function.update s.procs p st }

def Sys.setPass (s : Sys) (q : Nat) (st : PassState) : Sys :=
  { s with passes := Function.update s.passes q st }

/-- `SELECT COALESCE(MAX(lamport), 0) + 1 FROM wg_ops`. -/
def nextLamport (ops : List WgOp) : Nat :=
  (ops.map WgOp.lamport).foldr max 0 + 1

/-- `SELECT … FROM wg_ops WHERE lamport > cursor`. The order of the rows is left
out: the pass reads their set and their greatest lamport. -/
def listOpsSince (ops : List WgOp) (cursor : Nat) : List WgOp :=
  ops.filter fun op => cursor < op.lamport

def maxLamport (ops : List WgOp) : Nat :=
  (ops.map WgOp.lamport).foldr max 0

/-- One atomic statement of the system. -/
inductive Event
  | tick (ms : Nat)
  | invoke (p : Nat) (call : Call)
  | stamp (p : Nat)
  | selectMax (p : Nat)
  | insertOp (p : Nat)
  | busy (p : Nat)
  | writeOpFile (p : Nat)
  | foldOp (p : Nat)
  | readBack (p : Nat) (authorized : Bool)
  | readHighWater (q : Nat)
  | listOpsSince (q : Nat)
  | advanceHighWater (q : Nat)
  | passFails (q : Nat)

/-- Writing the file `<op.id>.json`. -/
def writeFile (files : List WgOp) (op : WgOp) : List WgOp :=
  files.filter (fun f => f.id ≠ op.id) ++ [op]

/-- Where a process goes when an allocation attempt fails: back to a fresh
lamport, or out of the call. -/
def afterFailure (req : Append) (ts : String) (attempt : Nat) : ProcState :=
  if attempt < MAX_APPEND_RETRIES then .selecting req ts (attempt + 1) else .idle

/-- Where a process goes once its op is folded. -/
def afterFold (op : WgOp) : Option String → ProcState
  | none => .idle
  | some token => .readingBack op.issueId token

/-- The claim token stored for an issue, as `getIssue` reads it. -/
def Projection.claimTokenAt (proj : Projection) (id : String) : Option String :=
  (proj.issues id).bind IssueRow.claimToken

def step (env : Env) (s : Sys) : Event → Option Sys
  | .tick ms => some { s with clock := s.clock + ms }
  | .invoke p call =>
      match s.procs p with
      | .idle =>
          match call.append env s.proj s.clock with
          | none => some s
          | some req =>
              -- a token drawn at random was not drawn before
              if req.claimToken.any (· ∈ s.tokens) then none
              else some { s.setProc p (.queued req) with tokens := req.claimToken.toList ++ s.tokens }
      | _ => none
  | .stamp p =>
      match s.procs p with
      | .queued req =>
          match toISOString s.clock with
          | some ts => some (s.setProc p (.selecting req ts 0))
          | none => some (s.setProc p .idle)
      | _ => none
  | .selectMax p =>
      match s.procs p with
      | .selecting req ts attempt =>
          some (s.setProc p (.inserting req ts attempt (nextLamport s.wgOps)))
      | _ => none
  | .insertOp p =>
      match s.procs p with
      | .inserting req ts attempt lamport =>
          let op := req.candidate env p ts lamport
          -- the primary key refuses a row with a known id
          if s.wgOps.any (·.id = op.id) then some (s.setProc p (afterFailure req ts attempt))
          else some { s.setProc p (.writing op req.claimToken) with wgOps := s.wgOps ++ [op] }
      | _ => none
  | .busy p =>
      match s.procs p with
      | .selecting req ts attempt => some (s.setProc p (afterFailure req ts attempt))
      | .inserting req ts attempt _ => some (s.setProc p (afterFailure req ts attempt))
      | _ => none
  | .writeOpFile p =>
      match s.procs p with
      | .writing op token =>
          some { s.setProc p (.folding op token) with
            opFiles := if env.sourceDir then writeFile s.opFiles op else s.opFiles }
      | _ => none
  | .foldOp p =>
      match s.procs p with
      | .folding op token =>
          some { s.setProc p (afterFold op token) with
            proj := applyOp env.digest s.proj op, folded := s.folded ++ [op] }
      | _ => none
  | .readBack p authorized =>
      match s.procs p with
      | .readingBack id token =>
          if s.proj.claimTokenAt id = some token then
            if authorized then some { s.setProc p .idle with won := s.won ++ [(id, token)] }
            else
              -- authority was lost after the compare-and-set: release our own token only
              some (s.setProc p (.queued
                { issueIdArg := .fixed id, payload := .claimReleased (some token) }))
          else some (s.setProc p .idle)
      | _ => none
  | .readHighWater q =>
      match s.passes q with
      | .idle => some (s.setPass q (.cursorRead s.highWater))
      | _ => none
  | .listOpsSince q =>
      match s.passes q with
      | .cursorRead cursor =>
          let ops := listOpsSince s.wgOps cursor
          some { s.setPass q (.listed ops) with returned := s.returned ++ ops }
      | _ => none
  | .advanceHighWater q =>
      match s.passes q with
      | .listed ops =>
          -- a pass that listed nothing does not advance
          some { s.setPass q .idle with
            highWater := if ops = [] then s.highWater else max s.highWater (maxLamport ops) }
      | _ => none
  | .passFails q => some (s.setPass q .idle)

/-- The statements of a call that nothing interrupts. -/
def callEvents (p : Nat) (call : Call) : List Event :=
  [.invoke p call, .stamp p, .selectMax p, .insertOp p, .writeOpFile p, .foldOp p]

/-- The processes of one device, with a stand-in for the hash that tells apart
whatever the runs below hash: they create a single issue. -/
def deviceEnv : Env where
  digest := fun digits text => if digits = 12 then "0" else text
  actor := fun _ => "device"
  actor_ne := fun _ => by decide
  sourceDir := true

/-- The issue those runs create. -/
def firstIssue : String := "wg-0"

/-! ## Inversion of one step -/

/-- The outcomes of one event. -/
inductive Sys.Step (env : Env) (s : Sys) : Event → Sys → Prop
  | tick (ms : Nat) : Sys.Step env s (.tick ms) { s with clock := s.clock + ms }
  | refused {p : Nat} {call : Call} :
      s.procs p = .idle → call.append env s.proj s.clock = none →
      Sys.Step env s (.invoke p call) s
  | invoked {p : Nat} {call : Call} {req : Append} :
      s.procs p = .idle → call.append env s.proj s.clock = some req →
      (∀ token ∈ req.claimToken, token ∉ s.tokens) →
      Sys.Step env s (.invoke p call)
        { s.setProc p (.queued req) with tokens := req.claimToken.toList ++ s.tokens }
  | stamped {p : Nat} {req : Append} {ts : String} :
      s.procs p = .queued req → toISOString s.clock = some ts →
      Sys.Step env s (.stamp p) (s.setProc p (.selecting req ts 0))
  | stampFailed {p : Nat} {req : Append} :
      s.procs p = .queued req → Sys.Step env s (.stamp p) (s.setProc p .idle)
  | selected {p : Nat} {req : Append} {ts : String} {attempt : Nat} :
      s.procs p = .selecting req ts attempt →
      Sys.Step env s (.selectMax p) (s.setProc p (.inserting req ts attempt (nextLamport s.wgOps)))
  | inserted {p : Nat} {req : Append} {ts : String} {attempt lamport : Nat} :
      s.procs p = .inserting req ts attempt lamport →
      (∀ o ∈ s.wgOps, o.id ≠ (req.candidate env p ts lamport).id) →
      Sys.Step env s (.insertOp p)
        { s.setProc p (.writing (req.candidate env p ts lamport) req.claimToken) with
          wgOps := s.wgOps ++ [req.candidate env p ts lamport] }
  | retried {p : Nat} {req : Append} {ts : String} {attempt lamport : Nat} :
      s.procs p = .inserting req ts attempt lamport →
      Sys.Step env s (.insertOp p) (s.setProc p (afterFailure req ts attempt))
  | wasBusy {p : Nat} {req : Append} {ts : String} {attempt : Nat} :
      (s.procs p = .selecting req ts attempt ∨
        ∃ lamport, s.procs p = .inserting req ts attempt lamport) →
      Sys.Step env s (.busy p) (s.setProc p (afterFailure req ts attempt))
  | fileWritten {p : Nat} {op : WgOp} {token : Option String} :
      s.procs p = .writing op token →
      Sys.Step env s (.writeOpFile p)
        { s.setProc p (.folding op token) with
          opFiles := if env.sourceDir then writeFile s.opFiles op else s.opFiles }
  | folded {p : Nat} {op : WgOp} {token : Option String} :
      s.procs p = .folding op token →
      Sys.Step env s (.foldOp p)
        { s.setProc p (afterFold op token) with
          proj := applyOp env.digest s.proj op, folded := s.folded ++ [op] }
  | claimWon {p : Nat} {id token : String} :
      s.procs p = .readingBack id token → s.proj.claimTokenAt id = some token →
      Sys.Step env s (.readBack p true) { s.setProc p .idle with won := s.won ++ [(id, token)] }
  | claimFenced {p : Nat} {id token : String} :
      s.procs p = .readingBack id token →
      Sys.Step env s (.readBack p false)
        (s.setProc p (.queued
          { issueIdArg := .fixed id, payload := .claimReleased (some token) }))
  | claimLost {p : Nat} {id token : String} {authorized : Bool} :
      s.procs p = .readingBack id token →
      Sys.Step env s (.readBack p authorized) (s.setProc p .idle)
  | cursorRead {q : Nat} :
      Sys.Step env s (.readHighWater q) (s.setPass q (.cursorRead s.highWater))
  | opsListed {q cursor : Nat} :
      s.passes q = .cursorRead cursor →
      Sys.Step env s (.listOpsSince q)
        { s.setPass q (.listed (WorkGraph.listOpsSince s.wgOps cursor)) with
          returned := s.returned ++ WorkGraph.listOpsSince s.wgOps cursor }
  | markAdvanced {q : Nat} {ops : List WgOp} :
      s.passes q = .listed ops →
      Sys.Step env s (.advanceHighWater q)
        { s.setPass q .idle with
          highWater := if ops = [] then s.highWater else max s.highWater (maxLamport ops) }
  | passFailed {q : Nat} : Sys.Step env s (.passFails q) (s.setPass q .idle)

theorem Sys.Step.of_step {env : Env} {s t : Sys} {e : Event} (fire : step env s e = some t) :
    Sys.Step env s e t := by
  cases e with
  | tick ms => cases fire; exact .tick ms
  | invoke p call =>
      simp only [step] at fire
      split at fire
      · rename_i idle
        split at fire
        · rename_i refused
          cases fire
          exact .refused idle refused
        · rename_i req appended
          split at fire
          · cases fire
          · rename_i fresh
            cases fire
            refine .invoked idle appended fun token drawn known => fresh ?_
            simp only [Option.mem_def] at drawn
            simp only [drawn, Option.any_some, known, decide_true]
      · cases fire
  | stamp p =>
      simp only [step] at fire
      split at fire
      · rename_i req queued
        split at fire
        · rename_i ts text
          cases fire
          exact .stamped queued text
        · cases fire
          exact .stampFailed queued
      · cases fire
  | selectMax p =>
      simp only [step] at fire
      split at fire
      · rename_i selecting
        cases fire
        exact .selected selecting
      · cases fire
  | insertOp p =>
      simp only [step] at fire
      split at fire
      · rename_i req ts attempt lamport inserting
        split at fire
        · cases fire
          exact .retried inserting
        · rename_i fresh
          cases fire
          refine .inserted inserting fun o member same => fresh ?_
          exact List.any_eq_true.mpr ⟨o, member, decide_eq_true same⟩
      · cases fire
  | busy p =>
      simp only [step] at fire
      split at fire
      · rename_i selecting
        cases fire
        exact .wasBusy (.inl selecting)
      · rename_i lamport inserting
        cases fire
        exact .wasBusy (.inr ⟨lamport, inserting⟩)
      · cases fire
  | writeOpFile p =>
      simp only [step] at fire
      split at fire
      · rename_i writing
        cases fire
        exact .fileWritten writing
      · cases fire
  | foldOp p =>
      simp only [step] at fire
      split at fire
      · rename_i folding
        cases fire
        exact .folded folding
      · cases fire
  | readBack p authorized =>
      simp only [step] at fire
      split at fire
      · rename_i id token reading
        split at fire
        · rename_i stored
          cases authorized with
          | true => cases fire; exact .claimWon reading stored
          | false => cases fire; exact .claimFenced reading
        · cases fire
          exact .claimLost reading
      · cases fire
  | readHighWater q =>
      simp only [step] at fire
      split at fire
      · cases fire
        exact .cursorRead
      · cases fire
  | listOpsSince q =>
      simp only [step] at fire
      split at fire
      · rename_i reading
        cases fire
        exact .opsListed reading
      · cases fire
  | advanceHighWater q =>
      simp only [step] at fire
      split at fire
      · rename_i listed
        cases fire
        exact .markAdvanced listed
      · cases fire
  | passFails q => cases fire; exact .passFailed

/-- What a process (or a pass) holds after one of them has moved. -/
theorem mem_update {α β : Type} {f : α → Option β} {table : Nat → α} {p q : Nat} {st : α} {x : β} :
    x ∈ f (Function.update table p st q) ↔ q = p ∧ x ∈ f st ∨ q ≠ p ∧ x ∈ f (table q) := by
  by_cases same : q = p
  · subst same
    simp only [Function.update_self, true_and, ne_eq, not_true_eq_false, false_and, or_false]
  · simp only [same, Function.update_of_ne same, false_and, ne_eq, not_false_eq_true, true_and,
      false_or]

/-! ## Rebuilding the projection -/

/-- The replay order: by lamport, ties by op id. -/
def WgOp.replayLe (a b : WgOp) : Prop :=
  a.lamport < b.lamport ∨ a.lamport = b.lamport ∧ a.id ≤ b.id

instance : DecidableRel WgOp.replayLe := fun a b =>
  inferInstanceAs (Decidable (a.lamport < b.lamport ∨ a.lamport = b.lamport ∧ a.id ≤ b.id))

/-- A legacy op file may lack its project or its actor id. -/
def WgOp.withDefaults (op : WgOp) : WgOp :=
  { op with
    project := if op.project = "" then LOCAL_PROJECT else op.project
    actorId := if op.actorId = "" then "legacy" else op.actorId }

/-- `rebuildWorkGraph`: replay every op file in replay order from empty tables.
`files` are the parsed files in the order `readdir` lists them. -/
def rebuildWorkGraph (digest : Digest) (files : List WgOp) : Projection :=
  ((files.map WgOp.withDefaults).insertionSort WgOp.replayLe).foldl (applyOp digest) .empty

end Opensquid.WorkGraph
