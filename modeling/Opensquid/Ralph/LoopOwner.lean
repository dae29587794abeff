import Opensquid.Lib.Program
import Opensquid.Lib.Scan
import Opensquid.Lib.Steps

/-!
# Owning the loop

The owner of a project's loop holds a write transaction on a lock database, listens at an endpoint,
and publishes who it is. `acquireLoopOwner` gets these one after the other: `approach` is what it does
up to the loop, with the transaction as its outcome, and `bindEndpoint` one turn of the loop.

A system of contenders takes their calls in any order. Every call may fail, servers and transactions
may end by themselves, processes may crash, and other programs may do what they like at the endpoint
and to the projection. At most one lease is active all the same, since a transaction excludes the
others. A call that throws or says that the loop is occupied keeps nothing, as long as no failure is
one that the code does not handle (`unhandled`): `owner_leaks_nothing`. Where the projection cannot
be published behind a server that listens already, server and transaction are left behind
(`unpublished_owner_leaks`).
-/

namespace Opensquid.Ralph.LoopOwner

open Opensquid.Lib

/-! ## Calls -/

/-- Its kind and version are constants. -/
structure LoopOwnerHandshake where
  pid : Nat
  processStartIdentity : String
  deriving DecidableEq, Repr

inductive LoopOwnerProbe
  | live (owner : LoopOwnerHandshake)
  | absent (refused : Bool)
  | compromised (error : String)
  deriving DecidableEq, Repr

inductive AcquireLoopOwnerResult
  | acquired (owner : LoopOwnerHandshake)
  | occupied (owner : Option LoopOwnerHandshake) (error : Option String)
  deriving DecidableEq, Repr

/-- An error that the code looks into. -/
structure Failure where
  code : Option String := none
  message : String := ""
  deriving DecidableEq, Repr

structure DirectoryInfo where
  isDirectory : Bool
  isSymbolicLink : Bool
  mode : Nat
  uid : Nat
  deriving DecidableEq, Repr

/-- What a contender does to the world and asks of it. An absent callback before listening
succeeds. -/
inductive Op
  | mkdir
  | lstatDirectory
  | probeEndpoint
  | publishProjection (owner : LoopOwnerHandshake)
  | createClient
  | execute (sql : String)
  | beginImmediate
  | closeClient
  | rollback
  | closeTransaction
  | readProcessIdentity (pid : Nat)
  | readProjectedOwner
  | beforeListen
  | listen
  | lstatEndpoint
  | renameEndpoint
  | unlinkQuarantine
  | closeServer
  deriving DecidableEq, Repr

/-- What a call resolves to; of a path, whether it is a socket. -/
@[reducible] def Op.Reply : Op → Type
  | .mkdir | .execute _ | .beginImmediate | .beforeListen | .listen | .renameEndpoint =>
      Except Failure Unit
  | .lstatDirectory => Except Failure DirectoryInfo
  | .lstatEndpoint => Except Failure Bool
  | .probeEndpoint => LoopOwnerProbe
  | .readProcessIdentity _ => String
  | .readProjectedOwner => Option LoopOwnerHandshake
  | .publishProjection _ | .createClient | .closeClient | .rollback | .closeTransaction
  | .unlinkQuarantine | .closeServer => Unit

/-- It may throw what nothing looks into. -/
def Op.mayThrow : Op → Bool
  | .publishProjection _ | .createClient | .closeClient | .rollback | .closeTransaction
  | .readProcessIdentity _ | .unlinkQuarantine => true
  | .mkdir | .execute _ | .beginImmediate | .beforeListen | .listen | .renameEndpoint
  | .lstatDirectory | .lstatEndpoint | .probeEndpoint | .readProjectedOwner | .closeServer => false

abbrev Async := Program Op Op.Reply

/-! ### `await …` -/

namespace Call

def mkdir : Async (Except Failure Unit) := Program.await Op.mkdir
def lstatDirectory : Async (Except Failure DirectoryInfo) := Program.await Op.lstatDirectory
def probeEndpoint : Async LoopOwnerProbe := Program.await Op.probeEndpoint
def publishProjection (owner : LoopOwnerHandshake) : Async Unit :=
  Program.await (Op.publishProjection owner)
def createClient : Async Unit := Program.await Op.createClient
def execute (sql : String) : Async (Except Failure Unit) := Program.await (Op.execute sql)
def beginImmediate : Async (Except Failure Unit) := Program.await Op.beginImmediate
def closeClient : Async Unit := Program.await Op.closeClient
def rollback : Async Unit := Program.await Op.rollback
def closeTransaction : Async Unit := Program.await Op.closeTransaction
def readProcessIdentity (pid : Nat) : Async String := Program.await (Op.readProcessIdentity pid)
def readProjectedOwner : Async (Option LoopOwnerHandshake) := Program.await Op.readProjectedOwner
def beforeListen : Async (Except Failure Unit) := Program.await Op.beforeListen
def listen : Async (Except Failure Unit) := Program.await Op.listen
def lstatEndpoint : Async (Except Failure Bool) := Program.await Op.lstatEndpoint
def renameEndpoint : Async (Except Failure Unit) := Program.await Op.renameEndpoint
def unlinkQuarantine : Async Unit := Program.await Op.unlinkQuarantine
def closeServer : Async Unit := Program.await Op.closeServer

end Call

/-! ## The code -/

/-- What the process runs on, and the endpoint of the project. -/
structure Host where
  windows : Bool := false
  uid : Option Nat := none
  endpoint : String := ""
  deriving DecidableEq, Repr

inductive Readiness
  | ready
  | absent
  deriving DecidableEq, Repr

/-- The directory is real, private and one's own. -/
def DirectoryInfo.trusted (info : DirectoryInfo) (uid : Option Nat) : Prop :=
  info.isDirectory = true ∧ info.isSymbolicLink = false ∧ info.mode &&& 0o077 = 0 ∧
    ∀ own ∈ uid, info.uid = own

instance (info : DirectoryInfo) (uid : Option Nat) : Decidable (info.trusted uid) :=
  inferInstanceAs (Decidable (_ ∧ _ ∧ _ ∧ ∀ own ∈ uid, info.uid = own))

def makeDirectory : Async Unit := do
  match ← Call.mkdir with
  | .ok _ => return ()
  | .error failure => Program.ensure (failure.code = some "EEXIST")

def inspectDirectory (host : Host) (create : Bool) : Async Readiness := do
  match ← Call.lstatDirectory with
  | .error failure => do
      Program.ensure (create = false ∧ failure.code = some "ENOENT")
      return .absent
  | .ok info => do
      Program.ensure (info.trusted host.uid)
      return .ready

def verifyEndpointDirectory (host : Host) (create : Bool) : Async Readiness :=
  if host.windows then return .ready
  else if create then do
    makeDirectory
    inspectDirectory host create
  else inspectDirectory host create

def validateHandshake (owner : LoopOwnerHandshake) : Async Bool := do
  let identity ← (Call.readProcessIdentity owner.pid).attempt
  return identity = some owner.processStartIdentity

def Failure.busy (failure : Failure) : Bool :=
  failure.code = some "SQLITE_BUSY" ||
    ["sqlite_busy", "database is locked"].any fun words =>
      words.toList <:+: failure.message.toList.map foldCase

/-- The statements up to the transaction. -/
def openTransaction : Async (Except Failure Unit) := do
  match ← Call.execute "PRAGMA busy_timeout=100" with
  | .error failure => return .error failure
  | .ok _ =>
    match ← Call.execute
        "CREATE TABLE IF NOT EXISTS loop_owner_lock (id INTEGER PRIMARY KEY CHECK (id=1))" with
    | .error failure => return .error failure
    | .ok _ => Call.beginImmediate

/-- False where another one has the lock. -/
def acquireKernelAdmissionLock : Async Bool := do
  Call.createClient
  match ← openTransaction with
  | .ok _ => return true
  | .error failure => do
      Call.closeClient
      Program.ensure (failure.busy = true)
      return false

/-- `admissionLock.close()`; a transaction that is closed is not rolled back again. -/
def closeLock : Async Unit := do
  let _ ← Call.rollback.attempt
  Call.closeTransaction
  Call.closeClient

inductive Quarantine
  | retry
  | gone
  | notSocket
  deriving DecidableEq, Repr

def quarantineRefusedSocket : Async Quarantine := do
  match ← Call.lstatEndpoint with
  | .error failure => do
      Program.ensure (failure.code = some "ENOENT")
      return .gone
  | .ok false => return .notSocket
  | .ok true =>
    match ← Call.renameEndpoint with
    | .error failure => do
        Program.ensure (failure.code = some "ENOENT")
        return .gone
    | .ok _ => do
        let _ ← Call.unlinkQuarantine.attempt
        return .retry

/-- A part of `acquireLoopOwner` has returned, or the loop takes a turn for the owner. -/
inductive Turn
  | returned (result : AcquireLoopOwnerResult)
  | binds (owner : LoopOwnerHandshake)
  deriving DecidableEq, Repr

/-- `return { status: 'occupied', … }`. -/
def occupied (owner : Option LoopOwnerHandshake) (error : Option String) : Async Turn :=
  return .returned (.occupied owner error)

/-- The owner that answers has the loop. -/
def occupiedBy (owner : LoopOwnerHandshake) : Async Turn := do
  Call.publishProjection owner
  occupied (some owner) none

/-- Another one has the lock. -/
def lockedOut : Async Turn := do
  match ← Call.probeEndpoint with
  | .live owner => occupiedBy owner
  | .compromised error => occupied none (some error)
  | .absent _ =>
    let error := "loop-owner lifetime lock is held while the owner endpoint starts or drains"
    occupied none (some error)

/-- The projected owner is another process and alive. -/
def draining (pid : Nat) : Option LoopOwnerHandshake → Async Bool
  | none => return false
  | some previousOwner =>
      if previousOwner.pid = pid then return false else validateHandshake previousOwner

/-- The last steps before the loop. -/
def prepare (owner : LoopOwnerHandshake) : Async Turn := do
  let previousOwner ← Call.readProjectedOwner
  match ← draining owner.pid previousOwner with
  | true => do
      closeLock
      occupied none (some ("previous loop process " ++
        toString ((previousOwner.map LoopOwnerHandshake.pid).getD 0) ++ " is still draining"))
  | false =>
    match ← Call.beforeListen with
    | .error failure => do
        closeLock
        occupied none (some failure.message)
    | .ok _ => return .binds owner

/-- With the lock. -/
def lockedIn (pid : Nat) : Async Turn := do
  match ← (Call.readProcessIdentity pid).attempt with
  | none => do
      closeLock
      Program.throw
  | some processStartIdentity => prepare { pid, processStartIdentity }

/-- `acquireLoopOwner` up to its loop. -/
def approach (host : Host) (pid : Nat) : Async Turn := do
  let _ ← verifyEndpointDirectory host true
  match ← Call.probeEndpoint with
  | .live owner => occupiedBy owner
  | .compromised error => occupied none (some error)
  | .absent _ =>
    match ← acquireKernelAdmissionLock with
    | false => lockedOut
    | true => lockedIn pid

/-- The endpoint is in use. -/
def contend (host : Host) (owner : LoopOwnerHandshake) : Async Turn := do
  match ← Call.probeEndpoint with
  | .live other => do
      Call.publishProjection other
      closeLock
      occupied (some other) none
  | .compromised error => do
      closeLock
      occupied none (some error)
  | .absent refused =>
    if host.windows = false ∧ refused = true then do
      match ← quarantineRefusedSocket with
      | .notSocket => do
          closeLock
          occupied none (some ("loop-owner endpoint is not a socket: " ++ host.endpoint))
      | .retry | .gone => return .binds owner
    else do
      closeLock
      occupied none (some "loop-owner endpoint is unavailable")

/-- One turn of the loop. A server that could not listen is not listening, and need not be
closed. -/
def bindEndpoint (host : Host) (owner : LoopOwnerHandshake) : Async Turn := do
  match ← Call.listen with
  | .error failure =>
    if failure.code = some "EADDRINUSE" then contend host owner
    else do
      closeLock
      Program.throw
  | .ok _ => do
      Call.publishProjection owner
      return .returned (.acquired owner)

/-- `lease.close()`. -/
def closeLease : Async Unit := do
  Call.closeServer
  closeLock

/-! ## What a contender holds -/

structure Holdings where
  transaction : Bool := false
  listening : Bool := false
  deriving DecidableEq, Repr

/-- Whether the call has opened or closed the transaction. -/
def lockChange : (op : Op) → Option op.Reply → Option Bool
  | .beginImmediate, some (.ok _) => some true
  | .rollback, some _ | .closeTransaction, some _ => some false
  | _, _ => none

/-- Whether the call has opened or closed the server. -/
def serverChange : (op : Op) → Option op.Reply → Option Bool
  | .listen, some (.ok _) => some true
  | .closeServer, some _ => some false
  | _, _ => none

/-- What it holds after a call. -/
def Holdings.after (op : Op) (reply : Option op.Reply) (g : Holdings) : Holdings :=
  { transaction := (lockChange op reply).getD g.transaction
    listening := (serverChange op reply).getD g.listening }

def holdings : Protocol Op Op.Reply Holdings :=
  ⟨fun _ _ => True, fun op reply g => g.after op (some reply)⟩

/-! ## The system -/

section

variable {κ : Type} [DecidableEq κ]

/-- Where a contender is: in `acquireLoopOwner`, before its loop or in it, or in
`lease.close()`. -/
inductive Stage
  | idle
  | acquiring (inLoop : Bool) (left : Async Turn)
  | closing (left : Async Unit)
  | crashed

/-- `active` is the lease's own flag. -/
structure Contender where
  stage : Stage := .idle
  holds : Holdings := {}
  active : Bool := false

/-- The holder of the lock, whether anything is at the endpoint, the projection as it is read, and
the contenders. -/
structure Sys (κ : Type) where
  lock : Option κ := none
  inUse : Bool := false
  projection : Option LoopOwnerHandshake := none
  contender : κ → Contender := fun _ => {}

/-- The answers that the environment has for the calls; none is a failure that nothing looks
into. -/
abbrev Answers := (op : Op) → Option op.Reply

/-- The world admits the answer. -/
def Sys.admits (s : Sys κ) (me : κ) : (op : Op) → Option op.Reply → Bool
  | .beginImmediate, some (.ok _) => s.lock.isNone
  | .listen, some (.ok _) => !s.inUse
  | .renameEndpoint, some (.ok _) => s.inUse
  | .readProjectedOwner, some owner => owner = none ∨ owner = s.projection
  | .closeTransaction, none => (s.contender me).holds.transaction
  | op, none => op.mayThrow
  | _, some _ => true

/-- The lock of a transaction that is no more. -/
def Sys.unlocked (s : Sys κ) (me : κ) : Option κ := if s.lock = some me then none else s.lock

def Sys.lockAfter (s : Sys κ) (me : κ) (op : Op) (reply : Option op.Reply) : Option κ :=
  match lockChange op reply with
  | some true => some me
  | some false => s.unlocked me
  | none => s.lock

def Sys.inUseAfter (s : Sys κ) : (op : Op) → Option op.Reply → Bool
  | .listen, some (.ok _) => true
  | .renameEndpoint, some (.ok _) | .closeServer, some _ => false
  | _, _ => s.inUse

def Sys.projectionAfter (s : Sys κ) : (op : Op) → Option op.Reply → Option LoopOwnerHandshake
  | .publishProjection owner, some _ => some owner
  | _, _ => s.projection

/-- A lease is active from the time that its server listens. -/
def Contender.after (c : Contender) (op : Op) (reply : Option op.Reply) : Contender :=
  { c with
    holds := c.holds.after op reply
    active := serverChange op reply = some true || c.active }

def Sys.sets (s : Sys κ) (me : κ) (c : Contender) : Sys κ :=
  { s with contender := Function.update s.contender me c }

def Sys.moves (s : Sys κ) (me : κ) (stage : Stage) : Sys κ :=
  s.sets me { s.contender me with stage }

/-- One call takes effect. -/
def Sys.exec (me : κ) (op : Op) (answers : Answers) (s : Sys κ) :
    Option (Sys κ × Option op.Reply) :=
  if s.admits me op (answers op) then
    some ({ s.sets me ((s.contender me).after op (answers op)) with
      lock := s.lockAfter me op (answers op)
      inUse := s.inUseAfter op (answers op)
      projection := s.projectionAfter op (answers op) }, answers op)
  else none

/-- A contender starts, makes its next call, goes into the loop or takes another turn of it, or
closes its lease; its server fails or closes, or its transaction ends; a process crashes; others
change what is at the endpoint and the projection. -/
inductive Event (κ : Type)
  | starts (me : κ)
  | calls (me : κ) (answers : Answers)
  | turns (me : κ)
  | closes (me : κ)
  | serverFails (me : κ)
  | serverCloses (me : κ)
  | transactionEnds (me : κ)
  | crashes (pid : Nat)
  | others (inUse : Bool) (projection : Option LoopOwnerHandshake)

variable (host : Host) (pid : κ → Nat)

/-- The lease that the contender has. -/
def Contender.lease (c : Contender) : Option LoopOwnerHandshake :=
  match c.stage with
  | .acquiring _ (.ret (.returned (.acquired owner))) => some owner
  | _ => none

def step (s : Sys κ) : Event κ → Option (Sys κ)
  | .starts me =>
      match (s.contender me).stage with
      | .idle => some (s.moves me (.acquiring false (approach host (pid me))))
      | _ => none
  | .calls me answers =>
      match (s.contender me).stage with
      | .acquiring inLoop left => (left.step (Sys.exec me) answers s).map fun (t, left) =>
          t.moves me (.acquiring inLoop left)
      | .closing left => (left.step (Sys.exec me) answers s).map fun (t, left) =>
          t.moves me (.closing left)
      | .idle | .crashed => none
  | .turns me =>
      match (s.contender me).stage with
      | .acquiring _ (.ret (.binds owner)) =>
          some (s.moves me (.acquiring true (bindEndpoint host owner)))
      | _ => none
  | .closes me =>
      if (s.contender me).lease.isSome then
        some (s.sets me { s.contender me with stage := .closing closeLease, active := false })
      else none
  | .serverFails me => some (s.sets me { s.contender me with active := false })
  | .serverCloses me =>
      let holds := { (s.contender me).holds with listening := false }
      some (s.sets me { s.contender me with holds, active := false })
  | .transactionEnds me =>
      let holds := { (s.contender me).holds with transaction := false }
      some { s.sets me { s.contender me with holds } with lock := s.unlocked me }
  | .crashes dead => some { s with
      lock := s.lock.filter fun k => pid k ≠ dead
      contender := fun k => if pid k = dead then { stage := .crashed } else s.contender k }
  | .others inUse projection => some { s with inUse, projection }

/-! ### The leases and what is left behind -/

/-- `lease.isActive()`, of a lease that has been returned. -/
def Contender.Owns (c : Contender) : Prop :=
  c.lease.isSome ∧ c.active = true ∧ c.holds.listening = true ∧ c.holds.transaction = true

/-- `acquireLoopOwner` has thrown, or says that the loop is occupied. -/
def Contender.Refused (c : Contender) : Prop :=
  match c.stage with
  | .acquiring _ .throw | .acquiring _ (.ret (.returned (.occupied _ _))) => True
  | _ => False

/-- A failure that the code does not handle: with the lock, the projection cannot be published, or
the endpoint cannot be inspected or moved away; or the transaction cannot be closed. -/
def unhandled (inLoop : Bool) : (op : Op) → Option op.Reply → Bool
  | .publishProjection _, none => inLoop
  | .lstatEndpoint, some (.error failure) | .renameEndpoint, some (.error failure) =>
      failure.code ≠ some "ENOENT"
  | .closeTransaction, none => true
  | _, _ => false

/-- A call of `acquireLoopOwner` fails so. -/
def Sys.mishandles (s : Sys κ) : Event κ → Bool
  | .calls me answers =>
      match (s.contender me).stage with
      | .acquiring inLoop (.call op _) => unhandled inLoop op (answers op)
      | _ => false
  | _ => false

def Handled (s : Sys κ) (e : Event κ) : Prop := s.mishandles e = false

/-! ## One lease at a time -/

variable {s t : Sys κ} {me k : κ} {op : Op} {answers : Answers} {reply : Option op.Reply}

/-- An open transaction has the lock. -/
def Locked (s : Sys κ) : Prop :=
  ∀ k, (s.contender k).holds.transaction = true → s.lock = some k

theorem Sys.sets_self (c : Contender) : (s.sets me c).contender me = c := Function.update_self ..

theorem Sys.sets_of_ne (other : k ≠ me) (c : Contender) :
    (s.sets me c).contender k = s.contender k :=
  Function.update_of_ne other ..

/-- A contender that holds no more than before. -/
theorem Locked.sets (locked : Locked s) {c : Contender}
    (fewer : c.holds.transaction = true → (s.contender me).holds.transaction = true) :
    Locked (s.sets me c) := by
  intro k held
  by_cases same : k = me
  · subst same
    rw [Sys.sets_self] at held
    exact locked k (fewer held)
  · rw [Sys.sets_of_ne same] at held
    exact locked k held

theorem Sys.unlocked_of_ne (other : k ≠ me) (held : s.lock = some k) : s.unlocked me = some k := by
  rw [Sys.unlocked, if_neg fun mine => other (Option.some.inj (held.symm.trans mine)), held]

omit [DecidableEq κ] in
theorem lock_free_of_opened (opened : lockChange op reply = some true)
    (admitted : s.admits me op reply = true) : s.lock = none := by
  unfold lockChange at opened
  split at opened
  · exact Option.isNone_iff_eq_none.mp admitted
  · cases opened
  · cases opened
  · cases opened

theorem Locked.exec (locked : Locked s) (done : s.exec me op answers = some (t, reply)) :
    Locked t := by
  unfold Sys.exec at done
  split at done
  · rename_i admitted
    cases done
    intro k held
    change s.lockAfter me op (answers op) = some k
    unfold Sys.lockAfter
    by_cases same : k = me
    · subst same
      change ((s.sets k _).contender k).holds.transaction = true at held
      rw [Sys.sets_self] at held
      change (lockChange op (answers op)).getD _ = true at held
      rcases change : lockChange op (answers op) with _ | _ | _
      · rw [change] at held
        exact locked k held
      · rw [change] at held
        cases held
      · rfl
    · change ((s.sets me _).contender k).holds.transaction = true at held
      rw [Sys.sets_of_ne same] at held
      rcases change : lockChange op (answers op) with _ | _ | _
      · exact locked k held
      · exact Sys.unlocked_of_ne same (locked k held)
      · cases (lock_free_of_opened change admitted).symm.trans (locked k held)
  · cases done

/-- A step of a program is a call. -/
theorem exists_call {α : Type} {p q : Async α}
    (fire : p.step (Sys.exec me) answers s = some (t, q)) :
    ∃ op reply, s.exec me op answers = some (t, reply) := by
  cases p with
  | ret a => cases fire
  | throw => cases fire
  | call op k =>
      obtain ⟨⟨u, reply⟩, done, same⟩ := Option.map_eq_some_iff.mp fire
      cases same
      exact ⟨op, reply, done⟩

theorem Locked.program (locked : Locked s) {α : Type} {p : Async α} {stage : Async α → Stage}
    (fire : ((p.step (Sys.exec me) answers s).map fun (u, q) => u.moves me (stage q)) = some t) :
    Locked t := by
  obtain ⟨⟨u, q⟩, done, rfl⟩ := Option.map_eq_some_iff.mp fire
  obtain ⟨op, reply, done⟩ := exists_call done
  exact (locked.exec done).sets id

theorem Locked.step {e : Event κ} (locked : Locked s) (fire : step host pid s e = some t) :
    Locked t := by
  cases e with
  | starts me =>
      simp only [LoopOwner.step] at fire
      split at fire
      · cases fire
        exact locked.sets id
      · cases fire
  | calls me answers =>
      simp only [LoopOwner.step] at fire
      split at fire
      · exact locked.program fire
      · exact locked.program fire
      · cases fire
      · cases fire
  | turns me =>
      simp only [LoopOwner.step] at fire
      split at fire
      · cases fire
        exact locked.sets id
      · cases fire
  | closes me =>
      simp only [LoopOwner.step] at fire
      split at fire
      · cases fire
        exact locked.sets id
      · cases fire
  | serverFails me =>
      cases fire
      exact locked.sets id
  | serverCloses me =>
      cases fire
      exact locked.sets id
  | transactionEnds me =>
      cases fire
      intro k held
      change ((s.sets me _).contender k).holds.transaction = true at held
      by_cases same : k = me
      · subst same
        rw [Sys.sets_self] at held
        cases held
      · rw [Sys.sets_of_ne same] at held
        exact Sys.unlocked_of_ne same (locked k held)
  | crashes dead =>
      cases fire
      intro k held
      dsimp only at held ⊢
      split at held
      · cases held
      · rename_i alive
        rw [locked k held]
        exact Option.filter_eq_some_iff.mpr ⟨rfl, decide_eq_true alive⟩
  | others inUse projection =>
      cases fire
      exact locked

/-- No lease is active beside another one. -/
def Exclusive (s : Sys κ) : Prop :=
  ∀ j k, (s.contender j).Owns → (s.contender k).Owns → j = k

omit [DecidableEq κ] in
theorem Locked.exclusive (locked : Locked s) : Exclusive s := fun j k first second =>
  Option.some.inj ((locked j first.2.2.2).symm.trans (locked k second.2.2.2))

end

/-! ## What a call leaves behind -/

section

/-- Only calls that may throw do, and the failure is handled. -/
def Smooth (inLoop : Bool) (op : Op) (answers : Answers) (_ : Holdings) : Prop :=
  (answers op = none → op.mayThrow = true) ∧ unhandled inLoop op (answers op) = false

/-- The program ends so from these holdings, if it meets handled failures only. -/
abbrev Clean {α : Type} (inLoop : Bool) (p : Async α) (post : Option α → Holdings → Prop)
    (g : Holdings) : Prop :=
  p.Always (Program.guarded holdings.exec (Smooth inLoop)) (fun _ _ => True) post g

variable {inLoop : Bool} {g : Holdings} {host : Host} {owner : LoopOwnerHandshake}

theorem clean_await {op : Op} {post : Option op.Reply → Holdings → Prop}
    (returned : ∀ reply, unhandled inLoop op (some reply) = false →
      post (some reply) (g.after op (some reply)))
    (thrown : op.mayThrow = true → unhandled inLoop op none = false → post none g) :
    Clean inLoop (Program.await op) post g := by
  refine Program.Always.await_guarded trivial fun answers t reply smooth done => ?_
  unfold Smooth at smooth
  simp only [Protocol.exec] at done
  split at done
  · rename_i answer given
    rw [given] at smooth
    cases done
    exact returned answer smooth.2
  · rename_i given
    rw [given] at smooth
    cases done
    exact thrown (smooth.1 rfl) smooth.2

/-! ### Calls that open and close nothing -/

theorem makeDirectory_clean {post : Option Unit → Holdings → Prop} (ended : ∀ o, post o g) :
    Clean inLoop makeDirectory post g := by
  refine Program.Always.bind (clean_await (fun made _ => ?_) fun may _ => nomatch may)
  cases made with
  | ok _ => exact ended _
  | error failure => exact Program.Always.ensure (fun _ => ended _) fun _ => ended _

theorem inspectDirectory_clean {create : Bool} {post : Option Readiness → Holdings → Prop}
    (ended : ∀ o, post o g) : Clean inLoop (inspectDirectory host create) post g := by
  refine Program.Always.bind (clean_await (fun found _ => ?_) fun may _ => nomatch may)
  cases found with
  | ok info =>
      exact Program.Always.bind (Program.Always.ensure (fun _ => ended _) fun _ => ended _)
  | error failure =>
      exact Program.Always.bind (Program.Always.ensure (fun _ => ended _) fun _ => ended _)

theorem verifyEndpointDirectory_clean {create : Bool} {post : Option Readiness → Holdings → Prop}
    (ended : ∀ o, post o g) : Clean inLoop (verifyEndpointDirectory host create) post g := by
  unfold verifyEndpointDirectory
  split
  · exact ended _
  · split
    · refine Program.Always.bind (makeDirectory_clean fun o => ?_)
      cases o with
      | none => exact ended _
      | some _ => exact inspectDirectory_clean ended
    · exact inspectDirectory_clean ended

theorem validateHandshake_clean {post : Option Bool → Holdings → Prop}
    (returned : ∀ valid, post (some valid) g) : Clean inLoop (validateHandshake owner) post g :=
  Program.Always.bind (Program.Always.attempt
    (clean_await (fun _ _ => returned _) fun _ _ => returned _))

theorem draining_clean {pid : Nat} {previousOwner : Option LoopOwnerHandshake}
    {post : Option Bool → Holdings → Prop} (returned : ∀ drains, post (some drains) g) :
    Clean inLoop (draining pid previousOwner) post g := by
  cases previousOwner with
  | none => exact returned _
  | some previousOwner =>
      rw [draining]
      split
      · exact returned _
      · exact validateHandshake_clean returned

theorem quarantineRefusedSocket_clean {post : Option Quarantine → Holdings → Prop}
    (returned : ∀ done, post (some done) g) : Clean inLoop quarantineRefusedSocket post g := by
  refine Program.Always.bind (clean_await (fun found handled => ?_) fun may _ => nomatch may)
  cases found with
  | error failure =>
      refine Program.Always.bind (Program.Always.ensure (fun _ => returned _) fun other => ?_)
      exact absurd (of_not_not (of_decide_eq_false handled)) other
  | ok isSocket =>
      cases isSocket with
      | false => exact returned _
      | true =>
          refine Program.Always.bind
            (clean_await (fun moved handled => ?_) fun may _ => nomatch may)
          cases moved with
          | error failure =>
              refine Program.Always.bind
                (Program.Always.ensure (fun _ => returned _) fun other => ?_)
              exact absurd (of_not_not (of_decide_eq_false handled)) other
          | ok _ =>
              exact Program.Always.bind (Program.Always.attempt
                (clean_await (fun _ _ => returned _) fun _ _ => returned _))

/-! ### The lock -/

theorem openTransaction_clean {post : Option (Except Failure Unit) → Holdings → Prop}
    (opened : post (some (.ok ())) { g with transaction := true })
    (failed : ∀ failure, post (some (.error failure)) g) : Clean inLoop openTransaction post g := by
  refine Program.Always.bind (clean_await (fun pragma _ => ?_) fun may _ => nomatch may)
  cases pragma with
  | error failure => exact failed failure
  | ok _ =>
      refine Program.Always.bind (clean_await (fun table _ => ?_) fun may _ => nomatch may)
      cases table with
      | error failure => exact failed failure
      | ok _ =>
          refine clean_await (fun begun _ => ?_) fun may _ => nomatch may
          cases begun with
          | error failure => exact failed failure
          | ok _ => exact opened

theorem acquireKernelAdmissionLock_clean {post : Option Bool → Holdings → Prop}
    (locked : post (some true) { g with transaction := true }) (busy : post (some false) g)
    (thrown : post none g) : Clean inLoop acquireKernelAdmissionLock post g := by
  refine Program.Always.bind (clean_await (fun _ _ => ?_) fun _ _ => thrown)
  refine Program.Always.bind (openTransaction_clean locked fun failure => ?_)
  refine Program.Always.bind (clean_await (fun _ _ => ?_) fun _ _ => thrown)
  exact Program.Always.bind (Program.Always.ensure (fun _ => busy) fun _ => thrown)

/-- Whether it returns or not, the transaction is closed. -/
theorem closeLock_clean {post : Option Unit → Holdings → Prop}
    (ended : ∀ o, post o { g with transaction := false }) : Clean inLoop closeLock post g := by
  have closes (h : Holdings) (same : h.listening = g.listening) :
      Clean inLoop (Call.closeTransaction.bind fun _ => Call.closeClient) post h := by
    refine Program.Always.bind (clean_await (fun _ _ => ?_) fun _ handled => nomatch handled)
    have now : h.after .closeTransaction (some ()) = { g with transaction := false } :=
      congrArg (Holdings.mk false) same
    rw [now]
    exact clean_await (fun _ _ => ended _) fun _ _ => ended _
  exact Program.Always.bind (Program.Always.attempt
    (clean_await (fun _ _ => closes _ rfl) fun _ _ => closes _ rfl))

/-! ### The two parts -/

/-- What is held when a part has ended. -/
def Settled : Option Turn → Holdings → Prop
  | none, g | some (.returned (.occupied _ _)), g => g = {}
  | some (.returned (.acquired _)), _ => True
  | some (.binds _), g => g.listening = false

theorem occupiedBy_clean : Clean false (occupiedBy owner) Settled {} :=
  Program.Always.bind (clean_await (fun _ _ => rfl) fun _ _ => rfl)

theorem lockedOut_clean : Clean false lockedOut Settled {} := by
  refine Program.Always.bind (clean_await (fun probe _ => ?_) fun may _ => nomatch may)
  cases probe with
  | live owner => exact occupiedBy_clean
  | compromised error => exact rfl
  | absent refused => exact rfl

/-- The lock is given back, and nothing is held. -/
theorem closeLock_then {left : Async Turn} (deaf : g.listening = false)
    (settled : Clean inLoop left Settled {}) :
    Clean inLoop (closeLock.bind fun _ => left) Settled g := by
  refine Program.Always.bind (closeLock_clean fun o => ?_)
  have empty : ({ g with transaction := false } : Holdings) = {} :=
    congrArg (Holdings.mk false) deaf
  rw [empty]
  cases o with
  | none => exact rfl
  | some _ => exact settled

theorem prepare_clean (deaf : g.listening = false) : Clean inLoop (prepare owner) Settled g := by
  refine Program.Always.bind (clean_await (fun previousOwner _ => ?_) fun may _ => nomatch may)
  refine Program.Always.bind (draining_clean fun drains => ?_)
  cases drains with
  | true => exact closeLock_then deaf rfl
  | false =>
      refine Program.Always.bind (clean_await (fun ready _ => ?_) fun may _ => nomatch may)
      cases ready with
      | error failure => exact closeLock_then deaf rfl
      | ok _ => exact deaf

theorem approach_clean {pid : Nat} : Clean false (approach host pid) Settled {} := by
  refine Program.Always.bind (verifyEndpointDirectory_clean fun o => ?_)
  cases o with
  | none => exact rfl
  | some _ =>
      refine Program.Always.bind (clean_await (fun probe _ => ?_) fun may _ => nomatch may)
      cases probe with
      | live owner => exact occupiedBy_clean
      | compromised error => exact rfl
      | absent refused =>
          refine Program.Always.bind (acquireKernelAdmissionLock_clean ?_ lockedOut_clean rfl)
          refine Program.Always.bind (Program.Always.attempt
            (clean_await (fun identity _ => prepare_clean rfl) fun _ _ => ?_))
          exact closeLock_then rfl rfl

theorem contend_clean (deaf : g.listening = false) :
    Clean true (contend host owner) Settled g := by
  refine Program.Always.bind (clean_await (fun probe _ => ?_) fun may _ => nomatch may)
  cases probe with
  | live other =>
      refine Program.Always.bind (clean_await (fun _ _ => ?_) fun _ handled => nomatch handled)
      exact closeLock_then deaf rfl
  | compromised error => exact closeLock_then deaf rfl
  | absent refused =>
      dsimp only
      split
      · refine Program.Always.bind (quarantineRefusedSocket_clean fun done => ?_)
        cases done with
        | notSocket => exact closeLock_then deaf rfl
        | retry => exact deaf
        | gone => exact deaf
      · exact closeLock_then deaf rfl

theorem bindEndpoint_clean (deaf : g.listening = false) :
    Clean true (bindEndpoint host owner) Settled g := by
  refine Program.Always.bind (clean_await (fun listens _ => ?_) fun may _ => nomatch may)
  cases listens with
  | error failure =>
      dsimp only
      split
      · exact contend_clean deaf
      · exact closeLock_then deaf rfl
  | ok _ =>
      exact Program.Always.bind (clean_await (fun _ _ => trivial) fun _ handled => nomatch handled)

end

/-! ## Runs -/

section

variable {κ : Type} [DecidableEq κ] {host : Host} {pid : κ → Nat} {s t : Sys κ} {me k : κ}
  {inLoop : Bool} {op : Op} {answers : Answers} {g h : Holdings}

/-- No more is held. -/
structure Holdings.Below (h g : Holdings) : Prop where
  transaction : h.transaction = true → g.transaction = true
  listening : h.listening = true → g.listening = true

theorem Holdings.Below.refl (g : Holdings) : g.Below g := ⟨id, id⟩

theorem Holdings.Below.eq_empty (below : h.Below {}) : h = {} := by
  rcases h with ⟨_ | _, _ | _⟩
  · rfl
  · cases below.listening rfl
  · cases below.transaction rfl
  · cases below.transaction rfl

theorem Holdings.Below.after (below : h.Below g) (op : Op) (reply : Option op.Reply) :
    (h.after op reply).Below (g.after op reply) := by
  constructor
  · change (lockChange op reply).getD _ = true → (lockChange op reply).getD _ = true
    cases lockChange op reply with
    | none => exact below.transaction
    | some _ => exact id
  · change (serverChange op reply).getD _ = true → (serverChange op reply).getD _ = true
    cases serverChange op reply with
    | none => exact below.listening
    | some _ => exact id

theorem Holdings.after_none (op : Op) (g : Holdings) : g.after op none = g := by
  cases op <;> rfl

theorem clean_call {α : Type} {rest : Option op.Reply → Async α}
    {post : Option α → Holdings → Prop} (clean : Clean inLoop (.call op rest) post g)
    (smooth : Smooth inLoop op answers g) :
    Clean inLoop (rest (answers op)) post (g.after op (answers op)) := by
  refine clean.2 answers _ _ ?_
  rw [Program.guarded, if_pos smooth]
  simp only [Protocol.exec]
  cases given : answers op with
  | none => rw [Holdings.after_none]
  | some reply => rfl

/-- What a contender may hold where it is. -/
def Covered (c : Contender) : Prop :=
  match c.stage with
  | .idle => c.holds = {}
  | .acquiring inLoop left => ∃ g, c.holds.Below g ∧ Clean inLoop left Settled g
  | .closing _ | .crashed => True

theorem Covered.fewer {c d : Contender} (covered : Covered c) (same : d.stage = c.stage)
    (below : d.holds.Below c.holds) : Covered d := by
  unfold Covered at covered ⊢
  rw [same]
  cases stage : c.stage with
  | idle =>
      rw [stage] at covered
      rw [covered] at below
      exact below.eq_empty
  | acquiring inLoop left =>
      rw [stage] at covered
      obtain ⟨g, more, clean⟩ := covered
      exact ⟨g, ⟨more.transaction ∘ below.transaction, more.listening ∘ below.listening⟩, clean⟩
  | closing left => trivial
  | crashed => trivial

theorem covered_sets {c : Contender} (covered : ∀ k, Covered (s.contender k)) (new : Covered c) :
    ∀ k, Covered ((s.sets me c).contender k) := by
  intro k
  by_cases same : k = me
  · subst same
    rwa [Sys.sets_self]
  · rw [Sys.sets_of_ne same]
    exact covered k

/-- A call alters its own contender only. -/
theorem Sys.exec_spec {reply : Option op.Reply} (done : s.exec me op answers = some (t, reply)) :
    reply = answers op ∧ (answers op = none → op.mayThrow = true) ∧
      t.contender = Function.update s.contender me ((s.contender me).after op (answers op)) := by
  unfold Sys.exec at done
  split at done
  · rename_i admitted
    cases done
    refine ⟨rfl, fun failed => ?_, rfl⟩
    rw [failed] at admitted
    cases op <;> first | rfl | exact admitted
  · cases done

theorem contender_of_step {α : Type} {p q : Async α}
    (fire : p.step (Sys.exec me) answers s = some (t, q)) (other : k ≠ me) :
    t.contender k = s.contender k := by
  obtain ⟨op, reply, done⟩ := exists_call fire
  obtain ⟨-, -, contenders⟩ := Sys.exec_spec done
  rw [contenders, Function.update_of_ne other]

theorem covered_calls {left rest : Async Turn} (covered : ∀ k, Covered (s.contender k))
    (here : (s.contender me).stage = .acquiring inLoop left)
    (handled : s.mishandles (.calls me answers) = false)
    (fire : left.step (Sys.exec me) answers s = some (t, rest)) :
    ∀ k, Covered ((t.moves me (.acquiring inLoop rest)).contender k) := by
  cases left with
  | ret turn => cases fire
  | throw => cases fire
  | call op next =>
      obtain ⟨⟨u, reply⟩, done, same⟩ := Option.map_eq_some_iff.mp fire
      cases same
      obtain ⟨rfl, thrown, contenders⟩ := Sys.exec_spec done
      have own := covered me
      unfold Covered at own
      unfold Sys.mishandles at handled
      dsimp only at handled
      rw [here] at own handled
      obtain ⟨g, below, clean⟩ := own
      intro k
      by_cases same : k = me
      · subst same
        rw [Sys.moves, Sys.sets_self, contenders, Function.update_self]
        exact ⟨_, below.after op _, clean_call clean ⟨thrown, handled⟩⟩
      · rw [Sys.moves, Sys.sets_of_ne same, contender_of_step fire same]
        exact covered k

theorem covered_step {e : Event κ} (covered : ∀ k, Covered (s.contender k)) (handled : Handled s e)
    (fire : step host pid s e = some t) : ∀ k, Covered (t.contender k) := by
  cases e with
  | starts me =>
      simp only [step] at fire
      split at fire
      · rename_i idle
        cases fire
        have own := covered me
        unfold Covered at own
        rw [idle] at own
        exact covered_sets covered ⟨_, own ▸ .refl _, approach_clean⟩
      · cases fire
  | calls me answers =>
      simp only [step] at fire
      split at fire
      · rename_i inLoop left here
        obtain ⟨⟨u, rest⟩, done, rfl⟩ := Option.map_eq_some_iff.mp fire
        exact covered_calls covered here handled done
      · rename_i left here
        obtain ⟨⟨u, rest⟩, done, rfl⟩ := Option.map_eq_some_iff.mp fire
        intro k
        by_cases same : k = me
        · subst same
          rw [Sys.moves, Sys.sets_self]
          trivial
        · rw [Sys.moves, Sys.sets_of_ne same, contender_of_step done same]
          exact covered k
      · cases fire
      · cases fire
  | turns me =>
      simp only [step] at fire
      split at fire
      · rename_i inLoop owner here
        cases fire
        have own := covered me
        unfold Covered at own
        rw [here] at own
        obtain ⟨g, below, deaf⟩ := own
        exact covered_sets covered ⟨g, below, bindEndpoint_clean deaf⟩
      · cases fire
  | closes me =>
      simp only [step] at fire
      split at fire
      · cases fire
        exact covered_sets covered trivial
      · cases fire
  | serverFails me =>
      cases fire
      exact covered_sets covered ((covered me).fewer rfl (.refl _))
  | serverCloses me =>
      cases fire
      exact covered_sets covered ((covered me).fewer rfl ⟨id, Bool.noConfusion⟩)
  | transactionEnds me =>
      cases fire
      exact covered_sets covered ((covered me).fewer rfl ⟨Bool.noConfusion, id⟩)
  | crashes dead =>
      cases fire
      intro k
      dsimp only
      split
      · trivial
      · exact covered k
  | others inUse projection =>
      cases fire
      exact covered

/-- Nothing is held after a call that has thrown or says that the loop is occupied. -/
def NothingLeft (s : Sys κ) : Prop := ∀ k, (s.contender k).Refused → (s.contender k).holds = {}

omit [DecidableEq κ] in
theorem nothingLeft_of_covered (covered : ∀ k, Covered (s.contender k)) : NothingLeft s := by
  intro k refused
  have own := covered k
  unfold Covered at own
  unfold Contender.Refused at refused
  split at refused
  · rename_i here
    rw [here] at own
    obtain ⟨g, below, empty⟩ := own
    cases (empty : g = ({} : Holdings))
    exact below.eq_empty
  · rename_i here
    rw [here] at own
    obtain ⟨g, below, empty⟩ := own
    cases (empty : g = ({} : Holdings))
    exact below.eq_empty
  · cases refused

/-- In every run at most one lease is active; and where no failure is unhandled, whoever is
refused holds nothing. -/
theorem owner_leaks_nothing (run : Steps (step host pid) AnyStep {} s) :
    Exclusive s ∧ (Steps (step host pid) Handled {} s → NothingLeft s) := by
  constructor
  · have start : Locked ({} : Sys κ) := fun k held => nomatch held
    exact (run.invariant start fun t e u locked _ fire => locked.step host pid fire).exclusive
  · intro smooth
    exact nothingLeft_of_covered (smooth.invariant (fun k => rfl) fun t e u covered handled fire =>
      covered_step covered handled fire)

end

/-- Nothing fails, and no owner answers. -/
def fine : Answers
  | .mkdir | .execute _ | .beginImmediate | .beforeListen | .listen | .renameEndpoint =>
      some (.ok ())
  | .lstatDirectory =>
      some (.ok { isDirectory := true, isSymbolicLink := false, mode := 0o700, uid := 0 })
  | .lstatEndpoint => some (.ok true)
  | .probeEndpoint => some (.absent false)
  | .readProcessIdentity _ => some "Mon Jan 1 00:00:00"
  | .readProjectedOwner => some none
  | .publishProjection _ | .createClient | .closeClient | .rollback | .closeTransaction
  | .unlinkQuarantine | .closeServer => some ()

/-- Another one has the lock, and answers. -/
def taken : Answers
  | .beginImmediate => some (.error { code := some "SQLITE_BUSY" })
  | .probeEndpoint => some (.live { pid := 1, processStartIdentity := "Mon Jan 1 00:00:00" })
  | op => fine op

/-- The projection cannot be written. -/
def unpublished : Answers
  | .publishProjection _ => none
  | op => fine op

/-- The calls up to the loop. -/
def admission {κ : Type} (me : κ) : List (Event κ) :=
  .starts me :: List.replicate 10 (.calls me fine) ++ [.turns me]

/-- The first one gets the loop, and the second one is refused. -/
def contended : List (Event Bool) :=
  admission false ++ List.replicate 2 (.calls false fine) ++
    .starts true :: List.replicate 6 (.calls true fine) ++ List.replicate 4 (.calls true taken)

theorem owner_leaks_nothing_contended : ∃ s : Sys Bool,
    Steps (step {} fun me => me.toNat + 1) Handled {} s ∧ (s.contender false).Owns ∧
      (s.contender true).Refused ∧ Exclusive s ∧ NothingLeft s := by
  have replay : runWhile (step {} fun me : Bool => me.toNat + 1) (fun s e => !s.mishandles e) {}
      contended = some _ := rfl
  have run : Steps (step {} fun me : Bool => me.toNat + 1) Handled {} _ :=
    Steps.of_runWhile (fun s e smooth => Bool.not_eq_true' _ |>.mp smooth) replay
  obtain ⟨exclusive, nothing⟩ := owner_leaks_nothing run.any
  exact ⟨_, run, ⟨rfl, rfl, rfl, rfl⟩, trivial, exclusive, nothing run⟩

/-- Behind a server that listens the projection cannot be written: `acquireLoopOwner` throws, and
keeps the transaction and the server. -/
theorem unpublished_owner_leaks : ∃ s : Sys Unit, Steps (step {} fun _ => 1) AnyStep {} s ∧
    (s.contender ()).Refused ∧ (s.contender ()).holds = { transaction := true, listening := true } ∧
      ¬ NothingLeft s := by
  have replay : runWhile (step {} fun _ : Unit => 1) (fun _ _ => true) {}
      (admission () ++ [.calls () fine, .calls () unpublished]) = some _ := rfl
  have run : Steps (step {} fun _ : Unit => 1) AnyStep {} _ :=
    Steps.of_runWhile (fun _ _ _ => trivial) replay
  refine ⟨_, run, trivial, rfl, fun nothing => ?_⟩
  cases nothing () trivial

end Opensquid.Ralph.LoopOwner
