import Opensquid.Lib.Steps
import Opensquid.Lib.Utf8Stream
import Opensquid.Lib.Whitespace
import Opensquid.Runtime.OwnedProcess

/-!
# One-shot subprocesses

`runOneShotCli` captures the two streams of a child and settles its promise when the child closes or
fails. The lap timer, a stream above its cap and a failing write to stdin request a shutdown of the
child's owner.

`step` takes the events in any order: chunks, timers, the close and the error of the child, the exit
hook, and what the handlers wait for (a kill that settles, the turn of a promise, the answers about
the tree). `Sound` holds in every run; `disciplined_iff` says when the machine keeps its promises in
every run.
-/

namespace Opensquid.SpawnLifecycle

open Opensquid.Lib Opensquid.Lib.Lines OwnedProcess

/-! ## The state -/

structure OneShotOpts where
  owner : OwnerConfig
  errorPrefix : String := ""
  maxCaptureBytes : Nat := 10 * 1024 * 1024
  /-- `timeoutError(timeoutMs)`. -/
  timeoutError : OneShotError

/-- What `onStreams` is called with. -/
structure Streams where
  stdout : List Char
  stderr : List Char
  code : Option Int
  deriving DecidableEq, Repr

/-- The captured streams, and the calls of the two observers. -/
structure Capture where
  stdout : List Char := []
  stderr : List Char := []
  stderrLineBuf : List Char := []
  stdoutBytes : Nat := 0
  stderrBytes : Nat := 0
  streamsReported : Bool := false
  onStreams : List Streams := []
  onStderrLine : List (List Char) := []
  /-- What the child has written. -/
  stdoutChunks : List (List UInt8) := []
  stderrChunks : List (List UInt8) := []
  deriving DecidableEq, Repr

inductive Outcome
  | resolved (stdout : List Char)
  | rejected (error : OneShotError)
  deriving DecidableEq, Repr

/-- Where the handler of the close or of the error is. -/
inductive Handling
  | idle
  /-- `handleSpawnError` waits for the kill. -/
  | spawnError (error : OneShotError)
  /-- `handleClose` waits for the kill. -/
  | close (code : Option Int)
  /-- `handleClose` waits for the tree, first for its turn to read the clock. -/
  | drain (code : Option Int) (deadline : Option Int)
  | spawnErrorDone (error : OneShotError)
  | closeDone (code : Option Int) (shutdownError : Option OneShotError)
  | settled
  deriving DecidableEq, Repr

/-- A look at the tree, with the clock that is read if it is alive. -/
structure DrainCheck where
  deadline : Int
  now : Int
  alive : Bool
  deriving DecidableEq, Repr

def DrainCheck.late (c : DrainCheck) : Bool := c.alive && decide (c.deadline - c.now ≤ 0)

structure OneShot where
  owner : OwnedProcess := {}
  lapArmed : Bool := true
  terminal : Bool := false
  capture : Capture := {}
  handling : Handling := .idle
  /-- The calls of `resolve` and `reject`. -/
  outcomes : List Outcome := []
  /-- The calls of `owner.requestShutdown`, with what they returned. -/
  requests : List (OneShotError × Bool) := []
  drainChecks : List DrainCheck := []
  deriving DecidableEq, Repr

inductive Event
  | stdout (d : List UInt8)
  | stderr (d : List UInt8)
  | requestShutdown (error : OneShotError)
  | stdinFailed (text : String)
  | lapTimer
  | graceTimer
  | processExit
  | error (message : String)
  | close (code : Option Int)
  /-- The promise of `signalTree` settles. -/
  | killSettled
  /-- The turn of what waits for a promise. -/
  | resume
  | drainStart (now : Int)
  | drainCheck (now : Int) (alive : Bool)
  deriving DecidableEq, Repr

/-! ## The streams -/

namespace Capture

def addStdout (c : Capture) (d : List UInt8) : Capture :=
  { c with stdoutBytes := c.stdoutBytes + d.length, stdoutChunks := c.stdoutChunks ++ [d] }

def addStderr (c : Capture) (d : List UInt8) : Capture :=
  { c with stderrBytes := c.stderrBytes + d.length, stderrChunks := c.stderrChunks ++ [d] }

def decodeStdout (c : Capture) (d : List UInt8) : Capture :=
  { c with stdout := c.stdout ++ Utf8.decode d }

/-- The loop takes the complete lines from the buffer. -/
def decodeStderr (c : Capture) (d : List UInt8) : Capture :=
  let chunk := Utf8.decode d
  { c with
    stderr := c.stderr ++ chunk
    stderrLineBuf := Utf8.lastLine (c.stderrLineBuf ++ chunk)
    onStderrLine := c.onStderrLine ++
      (completeLines '\n' (c.stderrLineBuf ++ chunk)).filter fun line => line.length > 0 }

def reportStreams (c : Capture) (code : Option Int) : Capture :=
  if c.streamsReported then c
  else { c with streamsReported := true, onStreams := c.onStreams ++ [⟨c.stdout, c.stderr, code⟩] }

end Capture

/-! ## The machine -/

variable {opts : OneShotOpts}

namespace OneShot

def requestShutdown (opts : OneShotOpts) (error : OneShotError) (s : OneShot) : OneShot :=
  let (owner, returned) := s.owner.requestShutdown opts.owner error
  { s with
    owner
    lapArmed := if returned then false else s.lapArmed
    requests := s.requests ++ [(error, returned)] }

def failCapExceeded (opts : OneShotOpts) (stream : String) (s : OneShot) : OneShot :=
  s.requestShutdown opts (.error (opts.errorPrefix ++ s!"capture cap exceeded: {stream} exceeded {opts.maxCaptureBytes} bytes " ++
    "(runaway lap — fail-loud, not truncated; raise OneShotOpts.maxCaptureBytes to override)"))

def onStdout (opts : OneShotOpts) (d : List UInt8) (s : OneShot) : OneShot :=
  let s := { s with capture := s.capture.addStdout d }
  if s.capture.stdoutBytes > opts.maxCaptureBytes then s.failCapExceeded opts "stdout"
  else { s with capture := s.capture.decodeStdout d }

def onStderr (opts : OneShotOpts) (d : List UInt8) (s : OneShot) : OneShot :=
  let s := { s with capture := s.capture.addStderr d }
  if s.capture.stderrBytes > opts.maxCaptureBytes then s.failCapExceeded opts "stderr"
  else { s with capture := s.capture.decodeStderr d }

/-- `handleSpawnError` goes on to its end. -/
def endSpawnError (error : OneShotError) (s : OneShot) : OneShot :=
  { s with
    owner := s.owner.finishSpawnError error
    handling := .spawnErrorDone (s.owner.shutdownError.getD error) }

/-- `handleClose` goes on to its end. -/
def endClose (opts : OneShotOpts) (code : Option Int) (failedToDrain : Bool) (s : OneShot) : OneShot :=
  let owner := s.owner.finishClose opts.owner failedToDrain
  { s with owner, handling := .closeDone code owner.finalError }

def onError (opts : OneShotOpts) (message : String) (s : OneShot) : OneShot :=
  if s.terminal then s
  else
    let error := OneShotError.error (opts.errorPrefix ++ "spawn failed: " ++ message)
    let s := { s with terminal := true, lapArmed := false, capture := s.capture.reportStreams none }
    if s.owner.phase = .closed ∨ s.owner.phase = .spawnFailed then
      { s with handling := .spawnErrorDone ((s.owner.finalError.or s.owner.shutdownError).getD error) }
    else if s.owner.shutdownPending then
      { s with owner := s.owner.forceKill opts.owner, handling := .spawnError error }
    else s.endSpawnError error

def onClose (opts : OneShotOpts) (code : Option Int) (s : OneShot) : OneShot :=
  if s.terminal then s
  else
    let s := { s with terminal := true, lapArmed := false, capture := s.capture.reportStreams code }
    if s.owner.phase = .closed ∨ s.owner.phase = .spawnFailed then
      { s with handling := .closeDone code s.owner.finalError }
    else if s.owner.phase = .termSent then
      { s with owner := s.owner.forceKill opts.owner, handling := .close code }
    else if s.owner.phase = .treeKilled then { s with handling := .close code }
    else s.endClose opts code false

def settle (outcome : Outcome) (s : OneShot) : OneShot :=
  { s with outcomes := s.outcomes ++ [outcome], handling := .settled }

/-- How the promise settles after `handleClose`. -/
def closeOutcome (opts : OneShotOpts) (s : OneShot) (code : Option Int)
    (shutdownError : Option OneShotError) : Outcome :=
  match shutdownError with
  | some error => .rejected error
  | none =>
      if code = some 0 then .resolved s.capture.stdout
      else .rejected (.error (opts.errorPrefix ++ "exit " ++ code.elim "null" toString ++ ": " ++
        String.ofList (trim s.capture.stderr)))

def resume (opts : OneShotOpts) (s : OneShot) : Option OneShot :=
  match s.handling with
  | .spawnError error =>
      if s.owner.forceKillPromise = some .done then some (s.endSpawnError error) else none
  | .close code =>
      if s.owner.forceKillPromise = some .done then
        if s.owner.shutdownPending && opts.owner.pc.probesTree then
          some { s with handling := .drain code none }
        else some (s.endClose opts code false)
      else none
  | .spawnErrorDone error => some (s.settle (.rejected error))
  | .closeDone code shutdownError => some (s.settle (s.closeOutcome opts code shutdownError))
  | .idle | .drain _ _ | .settled => none

/-- One turn of the loop of `waitForTreeExit`. -/
def drainCheck (opts : OneShotOpts) (code : Option Int) (deadline now : Int) (alive : Bool)
    (s : OneShot) : OneShot :=
  let check : DrainCheck := { deadline, now, alive }
  let s := { s with drainChecks := s.drainChecks ++ [check] }
  if alive then if check.late then s.endClose opts code true else s
  else s.endClose opts code false

end OneShot

def step (opts : OneShotOpts) (s : OneShot) : Event → Option OneShot
  | .stdout d => some (s.onStdout opts d)
  | .stderr d => some (s.onStderr opts d)
  | .requestShutdown error => some (s.requestShutdown opts error)
  | .stdinFailed text =>
      some (s.requestShutdown opts (.error (opts.errorPrefix ++ "stdin write failed: " ++ text)))
  | .lapTimer =>
      if s.lapArmed then some ({ s with lapArmed := false }.requestShutdown opts opts.timeoutError)
      else none
  | .graceTimer =>
      if s.owner.graceArmed then
        some { s with owner := { s.owner with graceArmed := false }.forceKill opts.owner }
      else none
  | .processExit =>
      if 0 < s.owner.exitHooks then some { s with owner := s.owner.exitKill opts.owner } else none
  | .error message => some (s.onError opts message)
  | .close code => some (s.onClose opts code)
  | .killSettled =>
      if s.owner.forceKillPromise = some .pending then
        some { s with owner := { s.owner with forceKillPromise := some .done } }
      else none
  | .resume => s.resume opts
  | .drainStart now =>
      match s.handling with
      | .drain code none =>
          some { s with handling := .drain code (some (now + opts.owner.treeExitTimeoutMs)) }
      | _ => none
  | .drainCheck now alive =>
      match s.handling with
      | .drain code (some deadline) => some (s.drainCheck opts code deadline now alive)
      | _ => none

/-! ## What holds in every run -/

namespace OneShot

/-- The errors of the requests that returned true. -/
def accepted (s : OneShot) : List OneShotError :=
  s.requests.filterMap fun (error, returned) => if returned then some error else none

/-- The error that was requested, or that its tree was alive at the deadline. -/
def Excuses (opts : OneShotOpts) (s : OneShot) (asked error : OneShotError) : Prop :=
  error = asked ∨ (∃ check ∈ s.drainChecks, check.late = true) ∧ error = cleanupError opts.owner asked

/-- An error that no cleanup failed for. -/
def IsPlain (error : OneShotError) : Prop := ∃ message, error = .error message

/-- What a handler that has come to its end rejects with. -/
def Blames (opts : OneShotOpts) (s : OneShot) (error : OneShotError) : Prop :=
  match s.owner.shutdownError with
  | some asked => s.Excuses opts asked error
  | none => IsPlain error

/-- What has been settled and what the owner is at, for each place of the handler. -/
def Fits (opts : OneShotOpts) (s : OneShot) : Prop :=
  match s.handling with
  | .idle => s.terminal = false ∧ s.outcomes = [] ∧ s.owner.phase ≠ .closed ∧ s.owner.phase ≠ .spawnFailed
  | .spawnError error => s.terminal = true ∧ s.outcomes = [] ∧ s.owner.phase = .treeKilled ∧ IsPlain error
  | .close _ | .drain _ _ => s.terminal = true ∧ s.outcomes = [] ∧ s.owner.phase = .treeKilled
  | .spawnErrorDone error =>
      s.terminal = true ∧ s.outcomes = [] ∧ s.owner.phase = .spawnFailed ∧ s.Blames opts error
  | .closeDone _ shutdownError =>
      s.terminal = true ∧ s.outcomes = [] ∧ s.owner.phase = .closed ∧
        (∀ error ∈ shutdownError, s.Blames opts error) ∧
        (shutdownError = none → s.owner.shutdownError = none)
  | .settled =>
      s.terminal = true ∧ (s.owner.phase = .closed ∨ s.owner.phase = .spawnFailed) ∧
        ∃ outcome, s.outcomes = [outcome] ∧ (∀ error, outcome = .rejected error → s.Blames opts error) ∧
          ((∃ stdout, outcome = .resolved stdout) → s.owner.shutdownError = none)

structure Sound (opts : OneShotOpts) (s : OneShot) : Prop where
  owner : s.owner.Sound opts.owner
  accepted : s.accepted = s.owner.shutdownError.toList
  fits : s.Fits opts

variable {s t : OneShot} {error : OneShotError} {code : Option Int}

theorem Sound.start : Sound opts {} where
  owner := OwnedProcess.Sound.start
  accepted := rfl
  fits := by simp [Fits]

/-- Nothing is being handled while the child runs or has only been asked. -/
theorem Sound.idle (sound : Sound opts s)
    (phase : s.owner.phase = .running ∨ s.owner.phase = .termSent) :
    s.handling = .idle ∧ s.terminal = false ∧ s.outcomes = [] := by
  have fits := sound.fits
  unfold Fits at fits
  split at fits
  · rename_i same
    exact ⟨same, fits.1, fits.2.1⟩
  all_goals rcases phase with phase | phase <;> simp [phase] at fits

theorem Sound.of_not_terminal (sound : Sound opts s) (open_ : s.terminal = false) :
    s.outcomes = [] ∧ s.owner.phase ≠ .closed ∧ s.owner.phase ≠ .spawnFailed := by
  have fits := sound.fits
  unfold Fits at fits
  split at fits
  · exact fits.2
  all_goals simp [open_] at fits

theorem Sound.of_capture (sound : Sound opts s) (capture : Capture) :
    Sound opts { s with capture } := ⟨sound.owner, sound.accepted, sound.fits⟩

theorem Sound.requestShutdown (sound : Sound opts s) : Sound opts (s.requestShutdown opts error) := by
  by_cases running : s.owner.phase = .running
  · obtain ⟨handling, terminal, outcomes⟩ := sound.idle (Or.inl running)
    have untouched := sound.owner.running running
    have none_asked := sound.accepted
    have next := @OwnedProcess.Sound.requestShutdown _ _ error sound.owner
    simp only [OneShot.requestShutdown, untouched, OwnedProcess.requestShutdown] at next ⊢
    rw [untouched] at none_asked
    refine ⟨next, ?_, ?_⟩
    · simp only [OneShot.accepted, List.filterMap_append] at none_asked ⊢
      rw [none_asked]
      rfl
    · simp [Fits, handling, terminal, outcomes]
  · have same : s.owner.requestShutdown opts.owner error = (s.owner, false) := if_pos running
    simp only [OneShot.requestShutdown, same]
    refine ⟨sound.owner, ?_, sound.fits⟩
    rw [← sound.accepted]
    simp [OneShot.accepted]

theorem Sound.of_lap (sound : Sound opts s) (lapArmed : Bool) : Sound opts { s with lapArmed } :=
  ⟨sound.owner, sound.accepted, sound.fits⟩

/-- The tree is killed while nothing is being handled. -/
theorem Sound.of_killed (sound : Sound opts s) (phase : s.owner.phase = .termSent) {owner : OwnedProcess}
    (next : owner.Sound opts.owner ∧ owner.phase = .treeKilled ∧
      owner.shutdownError = s.owner.shutdownError) : Sound opts { s with owner } := by
  obtain ⟨handling, terminal, outcomes⟩ := sound.idle (Or.inr phase)
  refine ⟨next.1, ?_, ?_⟩
  · rw [next.2.2]
    exact sound.accepted
  · simp [Fits, handling, terminal, outcomes, next.2.1]

theorem Sound.onStdout (sound : Sound opts s) (d : List UInt8) : Sound opts (s.onStdout opts d) := by
  unfold OneShot.onStdout
  dsimp only
  split
  · exact (sound.of_capture _).requestShutdown
  · exact sound.of_capture _

theorem Sound.onStderr (sound : Sound opts s) (d : List UInt8) : Sound opts (s.onStderr opts d) := by
  unfold OneShot.onStderr
  dsimp only
  split
  · exact (sound.of_capture _).requestShutdown
  · exact sound.of_capture _

theorem Sound.graceTimer (sound : Sound opts s) (armed : s.owner.graceArmed = true) :
    Sound opts { s with owner := { s.owner with graceArmed := false }.forceKill opts.owner } := by
  have phase := sound.owner.graceArmed armed
  have fired : OwnedProcess.Sound opts.owner { s.owner with graceArmed := false } :=
    { sound.owner with
      running := by simp [phase]
      graceArmed := by simp }
  apply sound.of_killed phase
  exact fired.forceKill (by simp [OwnedProcess.shutdownPending, phase])

theorem Sound.processExit (sound : Sound opts s) (installed : 0 < s.owner.exitHooks) :
    Sound opts { s with owner := s.owner.exitKill opts.owner } := by
  have phase : s.owner.phase = .termSent := by
    by_contra other
    have none_left := sound.owner.exitHooks_eq_zero other
    omega
  exact sound.of_killed phase (sound.owner.exitKill installed)

theorem Sound.killSettled (sound : Sound opts s)
    (pending : s.owner.forceKillPromise = some .pending) :
    Sound opts { s with owner := { s.owner with forceKillPromise := some .done } } := by
  have before := sound.owner
  refine ⟨?_, sound.accepted, sound.fits⟩
  exact {
    running := by
      intro phase
      have untouched := before.running phase
      rw [untouched] at pending
      cases pending
    termSent := by
      intro phase
      have none := before.termSent phase
      rw [pending] at none
      cases none
    treeKilled := fun _ => rfl
    asked := before.asked
    unasked := by
      intro none
      have absent := (before.unasked none).2
      rw [pending] at absent
      cases absent
    terms := before.terms
    kills := by
      have kills := before.kills
      rw [pending] at kills
      exact kills
    graceArmed := before.graceArmed
    exitHooks := before.exitHooks }

/-- `handleSpawnError` comes to its end, at once or after the kill. -/
theorem Sound.endSpawnError (owner : s.owner.Sound opts.owner)
    (accepted : s.accepted = s.owner.shutdownError.toList) (terminal : s.terminal = true)
    (outcomes : s.outcomes = []) (other : s.owner.phase ≠ .termSent) (plain : IsPlain error) :
    Sound opts (s.endSpawnError error) := by
  refine ⟨owner.finish other (Or.inr rfl) _, accepted, ?_⟩
  refine ⟨terminal, outcomes, rfl, ?_⟩
  have asked : (s.endSpawnError error).owner.shutdownError = s.owner.shutdownError := rfl
  unfold Blames
  rw [asked]
  cases s.owner.shutdownError with
  | none => exact plain
  | some asked => exact Or.inl rfl

/-- `handleClose` comes to its end, at once or after the kill and the look at the tree. -/
theorem Sound.endClose (owner : s.owner.Sound opts.owner)
    (accepted : s.accepted = s.owner.shutdownError.toList) (terminal : s.terminal = true)
    (outcomes : s.outcomes = []) (other : s.owner.phase ≠ .termSent) {failedToDrain : Bool}
    (late : failedToDrain = true →
      s.owner.shutdownError.isSome ∧ ∃ check ∈ s.drainChecks, check.late = true) :
    Sound opts (s.endClose opts code failedToDrain) := by
  refine ⟨owner.finish other (Or.inl rfl) _, accepted, ?_⟩
  refine ⟨terminal, outcomes, rfl, ?_⟩
  have asked : (s.endClose opts code failedToDrain).owner.shutdownError = s.owner.shutdownError := rfl
  unfold Blames
  rw [asked]
  cases failedToDrain with
  | true =>
      obtain ⟨shut, check⟩ := late rfl
      obtain ⟨asked, isAsked⟩ := Option.isSome_iff_exists.mp shut
      simp only [OwnedProcess.finishClose, isAsked]
      refine ⟨?_, by simp⟩
      intro error same
      cases same
      exact Or.inr ⟨check, rfl⟩
  | false =>
      simp only [OwnedProcess.finishClose]
      cases shut : s.owner.shutdownError with
      | none => simp
      | some asked =>
          refine ⟨?_, by simp⟩
          intro error same
          cases same
          exact Or.inl rfl

theorem Sound.onError (sound : Sound opts s) (message : String) : Sound opts (s.onError opts message) := by
  unfold OneShot.onError
  split
  · exact sound
  · rename_i running
    have open_ : s.terminal = false := Bool.eq_false_iff.mpr running
    obtain ⟨outcomes, notClosed, notFailed⟩ := sound.of_not_terminal open_
    dsimp only
    rw [if_neg (not_or.mpr ⟨notClosed, notFailed⟩)]
    split
    · rename_i pending
      have next := sound.owner.forceKill pending
      refine ⟨next.1, ?_, rfl, outcomes, next.2.1, _, rfl⟩
      rw [next.2.2]
      exact sound.accepted
    · rename_i quiet
      have other : s.owner.phase ≠ .termSent := by
        intro phase
        exact quiet (by simp [OwnedProcess.shutdownPending, phase])
      exact Sound.endSpawnError sound.owner sound.accepted rfl outcomes other ⟨_, rfl⟩

theorem Sound.onClose (sound : Sound opts s) : Sound opts (s.onClose opts code) := by
  unfold OneShot.onClose
  split
  · exact sound
  · rename_i running
    have open_ : s.terminal = false := Bool.eq_false_iff.mpr running
    obtain ⟨outcomes, notClosed, notFailed⟩ := sound.of_not_terminal open_
    dsimp only
    rw [if_neg (not_or.mpr ⟨notClosed, notFailed⟩)]
    split
    · rename_i phase
      have next := sound.owner.forceKill (by simp [OwnedProcess.shutdownPending, phase])
      refine ⟨next.1, ?_, rfl, outcomes, next.2.1⟩
      rw [next.2.2]
      exact sound.accepted
    · rename_i other
      split
      · rename_i phase
        exact ⟨sound.owner, sound.accepted, rfl, outcomes, phase⟩
      · apply Sound.endClose
        · exact sound.owner
        · exact sound.accepted
        · rfl
        · exact outcomes
        · exact other
        · intro failed
          cases failed

theorem Sound.settle_of (sound : Sound opts s) (terminal : s.terminal = true) (outcomes : s.outcomes = [])
    (ended : s.owner.phase = .closed ∨ s.owner.phase = .spawnFailed) {outcome : Outcome}
    (blames : ∀ error, outcome = .rejected error → s.Blames opts error)
    (resolves : (∃ stdout, outcome = .resolved stdout) → s.owner.shutdownError = none) :
    Sound opts (s.settle outcome) := by
  refine ⟨sound.owner, sound.accepted, terminal, ended, outcome, ?_, blames, resolves⟩
  simp [OneShot.settle, outcomes]

theorem Sound.resume (sound : Sound opts s) (fire : s.resume opts = some t) : Sound opts t := by
  have fits := sound.fits
  unfold OneShot.resume at fire
  unfold Fits at fits
  cases handling : s.handling with
  | spawnError error =>
      rw [handling] at fire fits
      obtain ⟨terminal, outcomes, phase, plain⟩ := fits
      simp only at fire
      split at fire
      · cases fire
        exact Sound.endSpawnError sound.owner sound.accepted terminal outcomes (by simp [phase]) plain
      · cases fire
  | close code =>
      rw [handling] at fire fits
      obtain ⟨terminal, outcomes, phase⟩ := fits
      simp only at fire
      split at fire
      · split at fire
        · cases fire
          exact ⟨sound.owner, sound.accepted, terminal, outcomes, phase⟩
        · cases fire
          exact Sound.endClose sound.owner sound.accepted terminal outcomes (by simp [phase]) (by simp)
      · cases fire
  | spawnErrorDone error =>
      rw [handling] at fire fits
      obtain ⟨terminal, outcomes, phase, blames⟩ := fits
      cases fire
      refine sound.settle_of terminal outcomes (Or.inr phase) ?_ (by simp)
      intro error same
      cases same
      exact blames
  | closeDone code shutdownError =>
      rw [handling] at fire fits
      obtain ⟨terminal, outcomes, phase, blames, quiet⟩ := fits
      cases fire
      refine sound.settle_of terminal outcomes (Or.inl phase) ?_ ?_
      · intro error same
        cases shutdownError with
        | some asked =>
            cases same
            exact blames _ rfl
        | none =>
            unfold Blames
            rw [quiet rfl]
            simp only [OneShot.closeOutcome] at same
            split at same
            · cases same
            · cases same
              exact ⟨_, rfl⟩
      · intro ⟨stdout, same⟩
        cases shutdownError with
        | some asked => cases same
        | none => exact quiet rfl
  | idle | drain | settled =>
      rw [handling] at fire
      cases fire

theorem Sound.drain (sound : Sound opts s) {deadline now : Int} {alive : Bool}
    (handling : s.handling = .drain code (some deadline)) :
    Sound opts (s.drainCheck opts code deadline now alive) := by
  have fits := sound.fits
  unfold Fits at fits
  rw [handling] at fits
  obtain ⟨terminal, outcomes, phase⟩ := fits
  have other : s.owner.phase ≠ .termSent := by simp [phase]
  have asked := sound.owner.asked (by simp [OwnedProcess.shutdownPending, phase])
  unfold OneShot.drainCheck
  dsimp only
  split
  · split
    · rename_i late
      apply Sound.endClose
      · exact sound.owner
      · exact sound.accepted
      · exact terminal
      · exact outcomes
      · exact other
      · exact fun _ => ⟨asked, _, List.mem_append_right _ (List.mem_singleton.mpr rfl), late⟩
    · refine ⟨sound.owner, sound.accepted, ?_⟩
      unfold Fits
      rw [handling]
      exact ⟨terminal, outcomes, phase⟩
  · apply Sound.endClose
    · exact sound.owner
    · exact sound.accepted
    · exact terminal
    · exact outcomes
    · exact other
    · intro failed
      cases failed

theorem Sound.next {e : Event} (sound : Sound opts s) (fire : step opts s e = some t) : Sound opts t := by
  cases e with
  | stdout d =>
      cases fire
      exact sound.onStdout d
  | stderr d =>
      cases fire
      exact sound.onStderr d
  | requestShutdown error =>
      cases fire
      exact sound.requestShutdown
  | stdinFailed text =>
      cases fire
      exact sound.requestShutdown
  | lapTimer =>
      obtain ⟨-, same⟩ := Option.ite_none_right_eq_some.mp fire
      cases same
      exact (sound.of_lap false).requestShutdown
  | graceTimer =>
      obtain ⟨armed, same⟩ := Option.ite_none_right_eq_some.mp fire
      cases same
      exact sound.graceTimer armed
  | processExit =>
      obtain ⟨installed, same⟩ := Option.ite_none_right_eq_some.mp fire
      cases same
      exact sound.processExit installed
  | error message =>
      cases fire
      exact sound.onError message
  | close code =>
      cases fire
      exact sound.onClose
  | killSettled =>
      obtain ⟨pending, same⟩ := Option.ite_none_right_eq_some.mp fire
      cases same
      exact sound.killSettled pending
  | resume => exact sound.resume fire
  | drainStart now =>
      simp only [step] at fire
      split at fire
      · rename_i code handling
        cases fire
        have fits := sound.fits
        unfold Fits at fits
        rw [handling] at fits
        exact ⟨sound.owner, sound.accepted, fits⟩
      · cases fire
  | drainCheck now alive =>
      simp only [step] at fire
      split at fire
      · rename_i code deadline handling
        cases fire
        exact sound.drain handling
      · cases fire

theorem sound_of_run (run : Steps (step opts) AnyStep {} s) : Sound opts s :=
  run.invariant Sound.start fun _ _ _ sound _ fire => sound.next fire

/-! ## What the machine promises -/

/-- A turn of what the handlers wait for that does not find the tree alive before the deadline. -/
def Answered (s : OneShot) : Event → Prop
  | .killSettled | .resume | .drainStart _ => True
  | .drainCheck now alive => ∀ code deadline, s.handling = .drain code (some deadline) →
      alive = true → deadline ≤ now
  | _ => False

/-- A run in which so many events are such turns. -/
inductive Turns (opts : OneShotOpts) (s : OneShot) : Nat → OneShot → Prop
  | start : Turns opts s 0 s
  | answered {n : Nat} {t u : OneShot} {e : Event} :
      Turns opts s n t → t.Answered e → step opts t e = some u → Turns opts s (n + 1) u
  | other {n : Nat} {t u : OneShot} {e : Event} :
      Turns opts s n t → ¬ t.Answered e → step opts t e = some u → Turns opts s n u

structure Disciplined (opts : OneShotOpts) (s : OneShot) : Prop where
  signalsOnce : ∀ signal, s.owner.issued signal ≤ 1
  unasked : s.accepted = [] → ∀ signal, s.owner.issued signal = 0
  acceptedOnce : s.accepted.length ≤ 1
  settlesOnce : s.outcomes.length ≤ 1
  settlesAfterEnd : s.outcomes ≠ [] → s.terminal = true
  /-- What has ended takes five turns at most, and where there is none left it has settled once. -/
  settles : s.terminal = true → ∀ n t, Turns opts s n t →
    n ≤ 5 ∧ (t.outcomes.length = 1 ∨ ∃ e, t.Answered e ∧ (step opts t e).isSome = true)
  rejects : ∀ asked ∈ s.accepted, ∀ outcome ∈ s.outcomes,
    ∃ error, outcome = .rejected error ∧ s.Excuses opts asked error
  plain : s.accepted = [] → ∀ error, .rejected error ∈ s.outcomes → IsPlain error
  clean : s.outcomes ≠ [] → s.owner.graceArmed = false ∧ s.owner.exitHooks = 0

/-- The end that a settled state has come to. -/
theorem Sound.settled (sound : Sound opts s) (settled : s.outcomes ≠ []) :
    s.terminal = true ∧ (s.owner.phase = .closed ∨ s.owner.phase = .spawnFailed) ∧
      ∃ outcome, s.outcomes = [outcome] ∧ (∀ error, outcome = .rejected error → s.Blames opts error) ∧
        ((∃ stdout, outcome = .resolved stdout) → s.owner.shutdownError = none) := by
  have fits := sound.fits
  unfold Fits at fits
  split at fits
  case h_7 => exact fits
  all_goals exact absurd fits.2.1 settled

theorem Sound.continues (sound : Sound opts s) (terminal : s.terminal = true)
    (outcomes : s.outcomes = []) : ∃ e, s.Answered e ∧ (step opts s e).isSome = true := by
  have killed : s.owner.phase = .treeKilled → s.owner.forceKillPromise = some .pending ∨
      s.owner.forceKillPromise = some .done := by
    intro phase
    obtain ⟨promise, same⟩ := Option.isSome_iff_exists.mp (sound.owner.treeKilled phase)
    cases promise with
    | pending => exact Or.inl same
    | done => exact Or.inr same
  have fits := sound.fits
  unfold Fits at fits
  cases handling : s.handling with
  | idle =>
      rw [handling] at fits
      rw [terminal] at fits
      cases fits.1
  | spawnError error =>
      rw [handling] at fits
      rcases killed fits.2.2.1 with pending | done
      · exact ⟨.killSettled, trivial, by simp [step, pending]⟩
      · exact ⟨.resume, trivial, by simp [step, OneShot.resume, handling, done]⟩
  | close code =>
      rw [handling] at fits
      rcases killed fits.2.2 with pending | done
      · exact ⟨.killSettled, trivial, by simp [step, pending]⟩
      · refine ⟨.resume, trivial, ?_⟩
        simp only [step, OneShot.resume, handling, done, if_true]
        split <;> rfl
  | drain code deadline =>
      cases deadline with
      | none => exact ⟨.drainStart 0, trivial, by simp [step, handling]⟩
      | some deadline => exact ⟨.drainCheck 0 false, nofun, by simp [step, handling]⟩
  | spawnErrorDone error => exact ⟨.resume, trivial, by simp [step, OneShot.resume, handling]⟩
  | closeDone code shutdownError =>
      exact ⟨.resume, trivial, by simp [step, OneShot.resume, handling]⟩
  | settled =>
      rw [handling] at fits
      obtain ⟨-, -, outcome, single, -⟩ := fits
      rw [outcomes] at single
      cases single

/-- How many turns are left at most before the promise settles. -/
def rank (s : OneShot) : Nat :=
  (if s.owner.forceKillPromise = some .pending then 1 else 0) +
    match s.handling with
    | .spawnError _ | .close _ => 4
    | .drain _ none => 3
    | .drain _ (some _) => 2
    | .spawnErrorDone _ | .closeDone _ _ => 1
    | .idle | .settled => 0

theorem rank_le (s : OneShot) : s.rank ≤ 5 := by
  unfold rank
  split <;> split <;> omega

/-- A request that comes too late is only noted. -/
theorem requestShutdown_late (other : s.owner.phase ≠ .running) :
    (s.requestShutdown opts error).terminal = s.terminal ∧
      (s.requestShutdown opts error).rank = s.rank := by
  have same : s.owner.requestShutdown opts.owner error = (s.owner, false) := if_pos other
  unfold OneShot.requestShutdown
  rw [same]
  exact ⟨rfl, rfl⟩

theorem onStdout_late (other : s.owner.phase ≠ .running) (d : List UInt8) :
    (s.onStdout opts d).terminal = s.terminal ∧ (s.onStdout opts d).rank = s.rank := by
  unfold OneShot.onStdout
  dsimp only
  split
  · exact requestShutdown_late other
  · exact ⟨rfl, rfl⟩

theorem onStderr_late (other : s.owner.phase ≠ .running) (d : List UInt8) :
    (s.onStderr opts d).terminal = s.terminal ∧ (s.onStderr opts d).rank = s.rank := by
  unfold OneShot.onStderr
  dsimp only
  split
  · exact requestShutdown_late other
  · exact ⟨rfl, rfl⟩

theorem resume_rank (terminal : s.terminal = true) (fire : s.resume opts = some t) :
    t.terminal = true ∧ t.rank < s.rank := by
  unfold OneShot.resume at fire
  cases handling : s.handling with
  | spawnError error =>
      rw [handling] at fire
      obtain ⟨done, same⟩ := Option.ite_none_right_eq_some.mp fire
      cases same
      exact ⟨terminal, by simp [rank, handling, done, OneShot.endSpawnError, finishSpawnError, cleanup]⟩
  | close code =>
      rw [handling] at fire
      obtain ⟨done, same⟩ := Option.ite_none_right_eq_some.mp fire
      split at same <;> cases same
      · exact ⟨terminal, by simp [rank, handling, done]⟩
      · exact ⟨terminal, by simp [rank, handling, done, OneShot.endClose, finishClose, cleanup]⟩
  | spawnErrorDone | closeDone =>
      rw [handling] at fire
      cases fire
      refine ⟨terminal, ?_⟩
      simp only [rank, handling, settle]
      exact Nat.lt_succ_self _
  | idle | drain | settled =>
      rw [handling] at fire
      cases fire

theorem drainCheck_rank {deadline now : Int} {alive : Bool} (terminal : s.terminal = true)
    (handling : s.handling = .drain code (some deadline)) :
    (s.drainCheck opts code deadline now alive).terminal = true ∧
      (s.drainCheck opts code deadline now alive).rank ≤ s.rank ∧
      ((alive = true → deadline ≤ now) →
        (s.drainCheck opts code deadline now alive).rank < s.rank) := by
  cases alive with
  | false =>
      simp [rank, handling, OneShot.drainCheck, OneShot.endClose, finishClose, cleanup, terminal]
  | true =>
      by_cases late : deadline - now ≤ 0
      · simp [rank, handling, OneShot.drainCheck, DrainCheck.late, late, OneShot.endClose,
          finishClose, cleanup, terminal]
      · have early : ¬ deadline ≤ now := by omega
        simp [rank, handling, OneShot.drainCheck, DrainCheck.late, late, early, terminal]

/-- After the end no event adds a turn, and what waits comes to its end. -/
theorem Sound.rank_step {e : Event} (sound : Sound opts s) (terminal : s.terminal = true)
    (fire : step opts s e = some t) :
    t.terminal = true ∧ t.rank ≤ s.rank ∧ (s.Answered e → t.rank < s.rank) := by
  have notRunning : s.owner.phase ≠ .running := fun phase =>
    absurd (sound.idle (.inl phase)).2.1 (by rw [terminal]; decide)
  have notAsked : s.owner.phase ≠ .termSent := fun phase =>
    absurd (sound.idle (.inr phase)).2.1 (by rw [terminal]; decide)
  cases e with
  | stdout d =>
      cases fire
      obtain ⟨same, rank⟩ := @onStdout_late opts _ notRunning d
      exact ⟨same.trans terminal, rank.le, False.elim⟩
  | stderr d =>
      cases fire
      obtain ⟨same, rank⟩ := @onStderr_late opts _ notRunning d
      exact ⟨same.trans terminal, rank.le, False.elim⟩
  | requestShutdown error =>
      cases fire
      obtain ⟨same, rank⟩ := @requestShutdown_late opts _ error notRunning
      exact ⟨same.trans terminal, rank.le, False.elim⟩
  | stdinFailed text =>
      cases fire
      obtain ⟨same, rank⟩ := @requestShutdown_late opts _
        (.error (opts.errorPrefix ++ "stdin write failed: " ++ text)) notRunning
      exact ⟨same.trans terminal, rank.le, False.elim⟩
  | lapTimer =>
      obtain ⟨-, same⟩ := Option.ite_none_right_eq_some.mp fire
      cases same
      obtain ⟨same, rank⟩ := @requestShutdown_late opts { s with lapArmed := false }
        opts.timeoutError notRunning
      exact ⟨same.trans terminal, rank.le, False.elim⟩
  | graceTimer =>
      obtain ⟨armed, -⟩ := Option.ite_none_right_eq_some.mp fire
      rw [sound.owner.graceArmed_eq_false notAsked] at armed
      cases armed
  | processExit =>
      obtain ⟨installed, -⟩ := Option.ite_none_right_eq_some.mp fire
      rw [sound.owner.exitHooks_eq_zero notAsked] at installed
      cases installed
  | error message =>
      cases fire
      rw [OneShot.onError, if_pos terminal]
      exact ⟨terminal, Nat.le_refl _, False.elim⟩
  | close code =>
      cases fire
      rw [OneShot.onClose, if_pos terminal]
      exact ⟨terminal, Nat.le_refl _, False.elim⟩
  | killSettled =>
      obtain ⟨pending, same⟩ := Option.ite_none_right_eq_some.mp fire
      cases same
      have less : rank { s with owner := { s.owner with forceKillPromise := some .done } } <
          s.rank := by simp [rank, pending]
      exact ⟨terminal, less.le, fun _ => less⟩
  | resume =>
      obtain ⟨ended, less⟩ := resume_rank terminal fire
      exact ⟨ended, less.le, fun _ => less⟩
  | drainStart now =>
      simp only [step] at fire
      split at fire
      · rename_i code handling
        cases fire
        have less : rank { s with handling := .drain code (some (now + opts.owner.treeExitTimeoutMs)) } <
            s.rank := by simp [rank, handling]
        exact ⟨terminal, less.le, fun _ => less⟩
      · cases fire
  | drainCheck now alive =>
      simp only [step] at fire
      split at fire
      · rename_i code deadline handling
        cases fire
        obtain ⟨ended, le, less⟩ := @drainCheck_rank opts _ _ _ now alive terminal handling
        exact ⟨ended, le, fun answered => less (answered code deadline handling)⟩
      · cases fire

theorem Sound.turns (sound : Sound opts s) (terminal : s.terminal = true) {n : Nat}
    (run : Turns opts s n t) : Sound opts t ∧ t.terminal = true ∧ n + t.rank ≤ s.rank := by
  induction run with
  | start => exact ⟨sound, terminal, by omega⟩
  | answered _ answered fire ih =>
      obtain ⟨sound, terminal, room⟩ := ih
      obtain ⟨ended, -, less⟩ := sound.rank_step terminal fire
      exact ⟨sound.next fire, ended, by have := less answered; omega⟩
  | other _ _ fire ih =>
      obtain ⟨sound, terminal, room⟩ := ih
      obtain ⟨ended, le, -⟩ := sound.rank_step terminal fire
      exact ⟨sound.next fire, ended, by omega⟩

theorem Sound.settles (sound : Sound opts s) (terminal : s.terminal = true) {n : Nat}
    (run : Turns opts s n t) :
    n ≤ 5 ∧ (t.outcomes.length = 1 ∨ ∃ e, t.Answered e ∧ (step opts t e).isSome = true) := by
  obtain ⟨sound', ended, room⟩ := sound.turns terminal run
  have most := rank_le s
  refine ⟨by omega, ?_⟩
  by_cases settled : t.outcomes = []
  · exact .inr (sound'.continues ended settled)
  · obtain ⟨-, -, outcome, single, -⟩ := sound'.settled settled
    exact .inl (by rw [single]; rfl)

theorem Sound.disciplined (sound : Sound opts s) (once : SignalsOnce opts.owner) : Disciplined opts s where
  signalsOnce := sound.owner.issued_le_one once
  unasked none := by
    have quiet : s.owner.shutdownError = Option.none := by
      rw [sound.accepted] at none
      exact Option.toList_eq_nil_iff.mp none
    intro signal
    rw [issued, (sound.owner.unasked quiet).1, List.countP_nil]
  acceptedOnce := by
    rw [sound.accepted]
    exact Option.length_toList_le
  settlesOnce := by
    by_cases settled : s.outcomes = []
    · simp [settled]
    · obtain ⟨-, -, outcome, single, -⟩ := sound.settled settled
      simp [single]
  settlesAfterEnd settled := (sound.settled settled).1
  settles terminal n t run := sound.settles terminal run
  rejects asked mem outcome member := by
    have isAsked : s.owner.shutdownError = some asked := by
      rw [sound.accepted, Option.mem_toList] at mem
      exact mem
    obtain ⟨-, -, only, single, blames, quiet⟩ := sound.settled (List.ne_nil_of_mem member)
    rw [single, List.mem_singleton] at member
    subst member
    cases outcome with
    | resolved stdout =>
        have none := quiet ⟨stdout, rfl⟩
        rw [isAsked] at none
        cases none
    | rejected error =>
        have excuse := blames error rfl
        unfold Blames at excuse
        rw [isAsked] at excuse
        exact ⟨error, rfl, excuse⟩
  plain none error member := by
    have quiet : s.owner.shutdownError = Option.none := by
      rw [sound.accepted] at none
      exact Option.toList_eq_nil_iff.mp none
    obtain ⟨-, -, only, single, blames, -⟩ := sound.settled (List.ne_nil_of_mem member)
    rw [single, List.mem_singleton] at member
    have plain := blames error member.symm
    unfold Blames at plain
    rw [quiet] at plain
    exact plain
  clean settled := by
    have other : s.owner.phase ≠ .termSent := by
      rcases (sound.settled settled).2.1 with phase | phase <;> simp [phase]
    exact ⟨sound.owner.graceArmed_eq_false other, sound.owner.exitHooks_eq_zero other⟩

end OneShot

open OneShot

/-- A shutdown is requested, and the grace timer fires. -/
theorem exists_killed_run (opts : OneShotOpts) (error : OneShotError) :
    ∃ s, Steps (step opts) AnyStep {} s ∧ s.owner.shutdownError.isSome = true ∧
      s.owner.forceKillPromise.isSome = true := by
  let asked := OneShot.requestShutdown opts error {}
  have request : step opts {} (.requestShutdown error) = some asked := rfl
  have grace : step opts asked .graceTimer =
      some { asked with owner := { asked.owner with graceArmed := false }.forceKill opts.owner } := rfl
  refine ⟨_, .tail (.tail .refl trivial request) trivial grace, ?_, ?_⟩ <;>
    simp [asked, OneShot.requestShutdown, OwnedProcess.requestShutdown, forceKill, cleanup]

/-- Every run keeps the promises if and only if no call of `signalTree` gives `undefined` back. -/
theorem disciplined_iff (opts : OneShotOpts) :
    (∀ s, Steps (step opts) AnyStep {} s → s.Disciplined opts) ↔ SignalsOnce opts.owner := by
  constructor
  · intro always signalTree mem signal
    obtain ⟨s, run, asked, killed⟩ := exists_killed_run opts (.error "timeout")
    have sound := sound_of_run run
    have once := (always s run).signalsOnce signal
    have calls : s.owner.issued signal = (signalCalls opts.owner signal).length := by
      cases signal with
      | term => rw [sound.owner.terms, if_pos asked]
      | kill => rw [sound.owner.kills, if_pos killed]
    rw [calls] at once
    have some_call := @length_signalCalls_pos opts.owner signal
    exact length_signalCalls_eq_one_iff.mp (by omega) signalTree mem
  · intro once s run
    exact (sound_of_run run).disciplined once

/-- `realProcControl` with a detached child; its `signalTree` has no `return`. -/
def realOpts : OneShotOpts where
  owner :=
    { detached := true, hasPid := true, windows := false
      pc := { signalTree := some fun _ => .returned, probesTree := true } }
  timeoutError := .error "timeout after 400ms"

theorem real_control_signals_twice :
    ¬ ∀ s, Steps (step realOpts) AnyStep {} s → s.Disciplined realOpts := by
  intro always
  have run : Steps (step realOpts) AnyStep {} (OneShot.requestShutdown realOpts realOpts.timeoutError
      { lapArmed := false }) := .tail .refl trivial (e := .lapTimer) rfl
  have once := (always _ run).signalsOnce .term
  exact absurd once (by decide)

end Opensquid.SpawnLifecycle
