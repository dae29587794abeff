import Opensquid.Lib.Steps
import Opensquid.Lib.Utf8Stream

/-!
# A supervised JSONL process

`runStreamingCli` frames the stdout of a child as records and hands them to `onRecord`, one
after the other on a chain of promises. A callback continues, completes the stream, fails it
or throws. The close of the child ends the stream; the promise settles when the chain has.
-/

namespace Opensquid.StreamingCli

open Opensquid.Lib Opensquid.Lib.Utf8

/-! ## Options and outcomes -/

inductive CliError
  | timeout
  | captureCap (stream : String) (cap : Nat)
  | recordCap (cap : Nat)
  | callback (message : String)
  | spawn (message : String)
  | exit (code : Option Int) (stderr : List Char)
  | cleanup (treeExitTimeoutMs : Nat) (cause : CliError)
  deriving DecidableEq

def CliError.message : CliError → String
  | .timeout => "streaming cli timeout"
  | .captureCap stream cap => s!"capture cap exceeded: {stream} exceeded {cap} bytes"
  | .recordCap cap => s!"record cap exceeded: stdout record exceeded {cap} bytes"
  | .callback message => message
  | .spawn message => s!"streaming cli spawn failed: {message}"
  | .exit code stderr =>
      "streaming cli exit " ++ (code.elim "null" toString) ++ ": " ++ (String.ofList stderr).trimAscii.toString
  | .cleanup ms _ => s!"owned subprocess tree remained live after {ms}ms"

/-- The caps, and whether raw stdout is kept. -/
structure Options where
  recordCap : Nat
  captureCap : Nat
  retainStdout : Bool

/-- What a callback comes to; `fails` is a decision, `throws` is not. -/
inductive Outcome
  | continues
  | completes
  | fails (error : CliError)
  | throws (error : CliError)
  deriving DecidableEq

/-- A link of the promise chain. -/
inductive CallStatus
  | waiting
  | opened
  | settled (outcome : Outcome)
  deriving DecidableEq

structure Call where
  record : List Char
  status : CallStatus
  deriving DecidableEq

def Call.isSettled (c : Call) : Bool :=
  match c.status with
  | .settled _ => true
  | .waiting | .opened => false

inductive SessionPhase
  | running
  | inputClosed
  | failed
  | closed
  deriving DecidableEq

inductive LifecyclePhase
  | running
  | termSent
  | treeKilled
  | closed
  deriving DecidableEq

structure StreamingCliResult where
  stdout : List Char
  stderr : List Char
  code : Option Int
  completed : Bool

/-! ## The state -/

structure Run where
  /-- The phase is terminal. -/
  terminal : Bool := false
  stdout : List Char := []
  stderr : List Char := []
  stdoutBytes : Nat := 0
  stderrBytes : Nat := 0
  currentRecordBytes : Nat := 0
  out : Framer := .start
  err : Framer := .start
  /-- What `onStderrLine` has been called with. -/
  stderrLines : List (List Char) := []
  /-- The links of `callbackChain`. -/
  chain : List Call := []
  session : SessionPhase := .running
  completed : Bool := false
  callbackError : Option CliError := none
  owner : LifecyclePhase := .running
  shutdownError : Option CliError := none
  /-- The code of the close event. -/
  closed : Option (Option Int) := none
  /-- How the promise has settled. -/
  result : Option (Except CliError StreamingCliResult) := none
  /-- What the child has written to stdout. -/
  sent : List UInt8 := []
  /-- How many calls had settled at the close. -/
  settledAtClose : Nat := 0

namespace Run

def shutdownPending (s : Run) : Prop := s.owner = .termSent ∨ s.owner = .treeKilled

instance (s : Run) : Decidable s.shutdownPending := inferInstanceAs (Decidable (_ ∨ _))

/-- `session.closeInput()`. -/
def closeInput (s : Run) : Run :=
  if s.session = .running then { s with session := .inputClosed } else s

/-- `owner.requestShutdown(error)`. -/
def requestShutdown (s : Run) (error : CliError) : Run :=
  if s.owner = .running then
    closeInput { s with owner := .termSent, shutdownError := some error }
  else s

def beginShutdown (s : Run) (error : CliError) : Run :=
  if s.terminal then s
  else requestShutdown { s with callbackError := s.callbackError.or (some error) } error

/-- `session.complete()`. -/
def complete (s : Run) : Run :=
  if s.session = .running then { closeInput s with completed := true } else s

/-- `session.fail(error)`. -/
def fail (s : Run) (error : CliError) : Run :=
  if s.session = .running then
    beginShutdown { s with
      session := .failed
      callbackError := s.callbackError.or (some error) } error
  else s

def setCall (s : Run) (i : Nat) (c : Call) : Run := { s with chain := s.chain.set i c }

/-- What follows a callback on the chain. -/
def decide (s : Run) : Outcome → Run
  | .continues => s
  | .completes => s.complete
  | .fails error | .throws error => s.fail error

end Run

/-! ## Chunks -/

/-- The bytes of the current record after a chunk; true: a record exceeds the cap. -/
def countRecord (cap n : Nat) : List UInt8 → Nat × Bool
  | [] => (n, false)
  | b :: bytes =>
      if b = 10 then countRecord cap 0 bytes
      else if n + 1 > cap then (n + 1, true)
      else countRecord cap (n + 1) bytes

/-- One trailing CR is removed. -/
def stripCr (line : List Char) : List Char := if line.getLast? = some '\r' then line.dropLast else line

namespace Run

def onStdout (opts : Options) (s : Run) (bytes : List UInt8) : Run :=
  if s.terminal ∨ s.shutdownPending then s
  else
    let s := if opts.retainStdout then { s with stdoutBytes := s.stdoutBytes + bytes.length } else s
    if opts.retainStdout ∧ s.stdoutBytes > opts.captureCap then
      s.beginShutdown (.captureCap "stdout" opts.captureCap)
    else
      let (count, exceeded) := countRecord opts.recordCap s.currentRecordBytes bytes
      let s := { s with currentRecordBytes := count }
      if exceeded then s.beginShutdown (.recordCap opts.recordCap)
      else
        let text := (s.out.decoder.write bytes).2
        let (out, lines) := s.out.write bytes
        { s with
          stdout := if opts.retainStdout then s.stdout ++ text else s.stdout
          out
          chain := s.chain ++ lines.map fun line => ⟨stripCr line, .waiting⟩ }

def onStderr (opts : Options) (s : Run) (bytes : List UInt8) : Run :=
  if s.terminal ∨ s.shutdownPending then s
  else
    let s := { s with stderrBytes := s.stderrBytes + bytes.length }
    if s.stderrBytes > opts.captureCap then s.beginShutdown (.captureCap "stderr" opts.captureCap)
    else
      let text := (s.err.decoder.write bytes).2
      let (err, lines) := s.err.write bytes
      { s with
        stderr := s.stderr ++ text
        err
        stderrLines := s.stderrLines ++ (lines.map stripCr).filter fun line => line ≠ [] }

def onSpawnError (s : Run) (message : String) : Run :=
  if s.terminal then s
  else { s with
    terminal := true
    result := some (.error (s.shutdownError.getD (.spawn message))) }

/-- The decoders are ended and the session is marked closed. -/
def onClose (opts : Options) (s : Run) (code : Option Int) : Run :=
  let s := { s with closed := some code, settledAtClose := s.chain.countP Call.isSettled }
  if s.terminal then s
  else { s with
    terminal := true
    stdout := if opts.retainStdout then s.stdout ++ s.out.decoder.flush else s.stdout
    stderr := s.stderr ++ s.err.decoder.flush
    session := .closed }

/-- `DEFAULT` of `treeExitTimeoutMs`. -/
def treeExitTimeoutMs : Nat := 2000

/-- `owner.handleClose()`, given whether the tree has exited in time. -/
def handleClose (s : Run) (treeExited : Bool) : Option CliError :=
  if s.shutdownPending ∧ treeExited = false then
    some (.cleanup treeExitTimeoutMs (s.shutdownError.getD (.callback "owned subprocess shutdown")))
  else s.shutdownError

/-- The promise settles after the owner and the chain have. -/
def settlePromise (s : Run) (code : Option Int) (treeExited : Bool) :
    Except CliError StreamingCliResult :=
  match (s.handleClose treeExited).or s.callbackError with
  | some error => .error error
  | none =>
      if code = some 0 then .ok ⟨s.stdout, s.stderr, code, s.completed⟩
      else .error (.exit code s.stderr)

end Run

/-! ## Runs -/

inductive Event
  | stdout (bytes : List UInt8)
  | stderr (bytes : List UInt8)
  | timeout
  | grace
  | start (i : Nat)
  | settle (i : Nat) (outcome : Outcome)
  | spawnError (message : String)
  | close (code : Option Int)
  | finish (treeExited : Bool)

/-- The streams have ended at the close; a cleared timer does not fire; a link of the chain
starts when the links before it have settled. -/
def step (opts : Options) (s : Run) : Event → Option Run
  | .stdout bytes =>
      if s.closed = none then
        some { s.onStdout opts bytes with sent := s.sent ++ bytes }
      else none
  | .stderr bytes => if s.closed = none then some (s.onStderr opts bytes) else none
  | .timeout =>
      if s.terminal = false ∧ s.owner = .running then some (s.beginShutdown .timeout) else none
  | .grace => if s.owner = .termSent then some { s with owner := .treeKilled } else none
  | .start i =>
      match s.chain[i]? with
      | some ⟨record, .waiting⟩ =>
          if (s.chain.take i).all Call.isSettled then
            some (s.setCall i ⟨record, .opened⟩)
          else none
      | _ => none
  | .settle i outcome =>
      match s.chain[i]? with
      | some ⟨record, .opened⟩ => some ((s.setCall i ⟨record, .settled outcome⟩).decide outcome)
      | _ => none
  | .spawnError message => if s.closed = none then some (s.onSpawnError message) else none
  | .close code => if s.closed = none then some (s.onClose opts code) else none
  | .finish treeExited =>
      match s.closed with
      | none => none
      | some code =>
          if s.result.isNone ∧ s.chain.all Call.isSettled then
            some { s with
              owner := .closed
              result := some (s.settlePromise code treeExited) }
          else none

end Opensquid.StreamingCli
