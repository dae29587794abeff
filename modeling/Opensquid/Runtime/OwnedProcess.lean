import Mathlib.Data.List.Count
import Mathlib.Tactic.Common

/-!
# The owner of a child process

`OwnedProcess` shuts a child down: SIGTERM and a grace timer first, SIGKILL of the whole tree after
that or when the root closes. The methods that wait are cut where they wait; who calls them goes on
with `finishSpawnError` and `finishClose`.

What the owner does to its surroundings is part of its state: the signals it has sent, whether its
grace timer is armed and how many of its exit hooks are installed. `Sound` says which of these there
are in each phase. A signal takes as many calls as `signalCalls` says: two, where `signalTree` is
there and gives `undefined` back, because the call behind `??` follows.
-/

namespace Opensquid.SpawnLifecycle

/-! ## Signals -/

inductive Signal
  | term
  | kill
  deriving DecidableEq, Repr

/-- What a call of `signalTree` comes to; `returned` is `undefined`. -/
inductive SignalResult
  | returned
  | promise
  | threw
  deriving DecidableEq, Repr

structure ProcControl where
  signalTree : Option (Signal → SignalResult)
  /-- `isTreeAlive` is there. -/
  probesTree : Bool

/-- The child, the process control and `options`. -/
structure OwnerConfig where
  detached : Bool
  hasPid : Bool
  windows : Bool
  pc : ProcControl
  treeExitTimeoutMs : Int := 2000

inductive SignalCall
  /-- `signalTree(proc, detached, signal)`. -/
  | tree (signal : Signal)
  /-- `pc.kill(-pid, signal)`. -/
  | group (signal : Signal)
  /-- `proc.kill(signal)`. -/
  | root (signal : Signal)
  /-- `proc.kill('SIGKILL')` of the exit hook. -/
  | exitHook
  deriving DecidableEq, Repr

namespace SignalCall

/-- The signal that the owner means for the tree. -/
def signal? : SignalCall → Option Signal
  | .tree signal | .group signal | .root signal => some signal
  | .exitHook => none

end SignalCall

variable {cfg : OwnerConfig}

def fallbackCall (cfg : OwnerConfig) (signal : Signal) : SignalCall :=
  if cfg.detached && cfg.hasPid && !cfg.windows then .group signal else .root signal

/-- The calls that one signal takes. -/
def signalCalls (cfg : OwnerConfig) (signal : Signal) : List SignalCall :=
  match cfg.pc.signalTree with
  | none => [fallbackCall cfg signal]
  | some signalTree =>
      match signalTree signal with
      | .returned => [.tree signal, fallbackCall cfg signal]
      | .promise | .threw => [.tree signal]

/-- No call of `signalTree` gives `undefined` back. -/
def SignalsOnce (cfg : OwnerConfig) : Prop :=
  ∀ signalTree ∈ cfg.pc.signalTree, ∀ signal, signalTree signal ≠ .returned

theorem signal?_of_mem_signalCalls {signal : Signal} {call : SignalCall}
    (mem : call ∈ signalCalls cfg signal) : call.signal? = some signal := by
  have fallback : (fallbackCall cfg signal).signal? = some signal := by
    unfold fallbackCall
    split <;> rfl
  unfold signalCalls at mem
  cases tree : cfg.pc.signalTree with
  | none =>
      rw [tree] at mem
      rw [List.mem_singleton.mp mem, fallback]
  | some signalTree =>
      rw [tree] at mem
      cases result : signalTree signal with
      | returned =>
          simp only [result, List.mem_cons, List.not_mem_nil, or_false] at mem
          rcases mem with rfl | rfl
          · rfl
          · exact fallback
      | promise | threw =>
          simp only [result, List.mem_singleton] at mem
          rw [mem]
          rfl

/-- How many calls for one signal another one takes. -/
theorem countP_signalCalls (wanted signal : Signal) :
    (signalCalls cfg signal).countP (·.signal? = some wanted) =
      if signal = wanted then (signalCalls cfg signal).length else 0 := by
  split
  · rename_i same
    rw [List.countP_eq_length]
    intro call mem
    rw [signal?_of_mem_signalCalls mem, same]
    exact decide_eq_true rfl
  · rename_i other
    rw [List.countP_eq_zero]
    intro call mem
    rw [signal?_of_mem_signalCalls mem]
    simpa using other

theorem length_signalCalls_eq_one_iff {signal : Signal} :
    (signalCalls cfg signal).length = 1 ↔
      ∀ signalTree ∈ cfg.pc.signalTree, signalTree signal ≠ .returned := by
  unfold signalCalls
  cases tree : cfg.pc.signalTree with
  | none => simp
  | some signalTree => cases result : signalTree signal <;> simp [result]

theorem length_signalCalls_pos (signal : Signal) : 0 < (signalCalls cfg signal).length := by
  unfold signalCalls
  split
  · exact Nat.one_pos
  · split <;> simp

/-! ## The owner -/

inductive OneShotError
  | error (message : String)
  /-- `OwnedProcessCleanupError`. -/
  | cleanup (message : String) (cause : OneShotError)
  deriving DecidableEq, Repr

inductive LifecyclePhase
  | running
  | spawnFailed
  | termSent
  | closed
  | treeKilled
  deriving DecidableEq, Repr

inductive KillPromise
  | pending
  | done
  deriving DecidableEq, Repr

structure OwnedProcess where
  phase : LifecyclePhase := .running
  shutdownError : Option OneShotError := none
  graceArmed : Bool := false
  forceKillPromise : Option KillPromise := none
  finalError : Option OneShotError := none
  signals : List SignalCall := []
  exitHooks : Nat := 0
  deriving DecidableEq, Repr

namespace OwnedProcess

def shutdownPending (o : OwnedProcess) : Bool := o.phase = .termSent || o.phase = .treeKilled

/-- With what the method returns. The signal is sent before the hook and the timer are there. -/
def requestShutdown (cfg : OwnerConfig) (error : OneShotError) (o : OwnedProcess) :
    OwnedProcess × Bool :=
  if o.phase ≠ .running then (o, false)
  else
    ({ o with
        phase := .termSent
        shutdownError := some error
        signals := o.signals ++ signalCalls cfg .term
        exitHooks := o.exitHooks + 1
        graceArmed := true }, true)

/-- `offExit` and `clearTimeout`. -/
def cleanup (o : OwnedProcess) : OwnedProcess :=
  { o with exitHooks := o.exitHooks - 1, graceArmed := false }

def forceKill (cfg : OwnerConfig) (o : OwnedProcess) : OwnedProcess :=
  if o.forceKillPromise ≠ none then o
  else if o.phase = .closed ∨ o.phase = .spawnFailed then o
  else
    let pending := cfg.pc.signalTree.any fun signalTree => signalTree .kill = .promise
    { o.cleanup with
      phase := .treeKilled
      signals := o.signals ++ signalCalls cfg .kill
      forceKillPromise := some (if pending then .pending else .done) }

/-- The exit hook, which is installed once. -/
def exitKill (cfg : OwnerConfig) (o : OwnedProcess) : OwnedProcess :=
  forceKill cfg { o with exitHooks := o.exitHooks - 1, signals := o.signals ++ [.exitHook] }

/-- `handleSpawnError` from its last wait on. -/
def finishSpawnError (error : OneShotError) (o : OwnedProcess) : OwnedProcess :=
  { o.cleanup with phase := .spawnFailed, finalError := some (o.shutdownError.getD error) }

def cleanupError (cfg : OwnerConfig) (cause : OneShotError) : OneShotError :=
  .cleanup s!"owned subprocess tree remained live after {cfg.treeExitTimeoutMs}ms" cause

/-- `handleClose` from its last wait on. -/
def finishClose (cfg : OwnerConfig) (failedToDrain : Bool) (o : OwnedProcess) : OwnedProcess :=
  { o.cleanup with
    phase := .closed
    finalError :=
      if failedToDrain then
        some (cleanupError cfg (o.shutdownError.getD (.error "owned subprocess shutdown")))
      else o.shutdownError }

/-- The calls for a signal so far. -/
def issued (o : OwnedProcess) (signal : Signal) : Nat := o.signals.countP (·.signal? = some signal)

/-! ## Its invariant -/

/-- What there is of signals, timers and hooks in each phase. -/
structure Sound (cfg : OwnerConfig) (o : OwnedProcess) : Prop where
  running : o.phase = .running → o = {}
  termSent : o.phase = .termSent → o.forceKillPromise = none
  treeKilled : o.phase = .treeKilled → o.forceKillPromise.isSome
  asked : o.shutdownPending = true → o.shutdownError.isSome
  unasked : o.shutdownError = none → o.signals = [] ∧ o.forceKillPromise = none
  terms : o.issued .term = if o.shutdownError.isSome then (signalCalls cfg .term).length else 0
  kills : o.issued .kill = if o.forceKillPromise.isSome then (signalCalls cfg .kill).length else 0
  graceArmed : o.graceArmed = true → o.phase = .termSent
  exitHooks : o.exitHooks ≤ if o.phase = .termSent then 1 else 0

variable {o : OwnedProcess} {error : OneShotError}

theorem Sound.start : Sound cfg {} where
  running _ := rfl
  termSent := by simp
  treeKilled := by simp
  asked := by simp [shutdownPending]
  unasked _ := ⟨rfl, rfl⟩
  terms := rfl
  kills := rfl
  graceArmed := by simp
  exitHooks := by simp

theorem Sound.requestShutdown (sound : Sound cfg o) :
    Sound cfg (o.requestShutdown cfg error).1 := by
  unfold OwnedProcess.requestShutdown
  split
  · exact sound
  · rename_i running
    rw [sound.running (not_not.mp running)]
    exact {
      running := by simp
      termSent := by simp
      treeKilled := by simp
      asked := by simp
      unasked := by simp
      terms := by simp [issued, countP_signalCalls]
      kills := by simp [issued, countP_signalCalls]
      graceArmed := by simp
      exitHooks := by simp }

/-- The state after a kill of a tree that has been asked to shut down. -/
theorem forceKill_of_termSent (sound : Sound cfg o) (phase : o.phase = .termSent) :
    o.forceKill cfg = { o with
      exitHooks := 0
      graceArmed := false
      phase := .treeKilled
      signals := o.signals ++ signalCalls cfg .kill
      forceKillPromise := some (if cfg.pc.signalTree.any fun signalTree => signalTree .kill = .promise
        then .pending else .done) } := by
  have hooks := sound.exitHooks
  rw [if_pos phase] at hooks
  have none_left : o.exitHooks - 1 = 0 := by omega
  unfold OwnedProcess.forceKill
  simp [sound.termSent phase, phase, cleanup, none_left]

theorem forceKill_of_killed (killed : o.forceKillPromise.isSome) : o.forceKill cfg = o := by
  unfold OwnedProcess.forceKill
  exact if_pos (Option.isSome_iff_ne_none.mp killed)

theorem Sound.forceKill (sound : Sound cfg o) (pending : o.shutdownPending = true) :
    Sound cfg (o.forceKill cfg) ∧ (o.forceKill cfg).phase = .treeKilled ∧
      (o.forceKill cfg).shutdownError = o.shutdownError := by
  have asked := sound.asked pending
  simp only [shutdownPending, Bool.or_eq_true, decide_eq_true_eq] at pending
  rcases pending with phase | phase
  · rw [forceKill_of_termSent sound phase]
    refine ⟨?_, rfl, rfl⟩
    exact {
      running := by simp
      termSent := by simp
      treeKilled := by simp
      asked := fun _ => asked
      unasked := by
        intro none
        rw [none] at asked
        cases asked
      terms := by
        have before := sound.terms
        rw [issued] at before ⊢
        rw [List.countP_append, before, countP_signalCalls]
        simp
      kills := by
        have before := sound.kills
        rw [issued] at before ⊢
        rw [List.countP_append, before, countP_signalCalls]
        simp [sound.termSent phase]
      graceArmed := by simp
      exitHooks := by simp }
  · rw [forceKill_of_killed (sound.treeKilled phase)]
    exact ⟨sound, phase, rfl⟩

theorem Sound.exitKill (sound : Sound cfg o) (installed : 0 < o.exitHooks) :
    Sound cfg (o.exitKill cfg) ∧ (o.exitKill cfg).phase = .treeKilled ∧
      (o.exitKill cfg).shutdownError = o.shutdownError := by
  have phase : o.phase = .termSent := by
    by_contra other
    have hooks := sound.exitHooks
    rw [if_neg other] at hooks
    omega
  have pending : o.shutdownPending = true := by simp [shutdownPending, phase]
  have asked := sound.asked pending
  have hooked : Sound cfg { o with exitHooks := o.exitHooks - 1, signals := o.signals ++ [.exitHook] } := {
    running := by simp [phase]
    termSent := fun _ => sound.termSent phase
    treeKilled := by simp [phase]
    asked := fun _ => asked
    unasked := by
      intro none
      rw [none] at asked
      cases asked
    terms := by simpa [issued, SignalCall.signal?] using sound.terms
    kills := by simpa [issued, SignalCall.signal?] using sound.kills
    graceArmed := fun _ => phase
    exitHooks := Nat.le_trans (Nat.sub_le _ _) sound.exitHooks }
  exact hooked.forceKill pending

/-- At the end of a handler, if no tree has been asked to shut down and not been killed. -/
theorem Sound.finish (sound : Sound cfg o) (other : o.phase ≠ .termSent) {phase : LifecyclePhase}
    (ended : phase = .closed ∨ phase = .spawnFailed) (finalError : Option OneShotError) :
    Sound cfg { o.cleanup with phase, finalError } where
  running same := by rcases ended with rfl | rfl <;> cases same
  termSent same := by rcases ended with rfl | rfl <;> cases same
  treeKilled same := by rcases ended with rfl | rfl <;> cases same
  asked pending := by rcases ended with rfl | rfl <;> simp [shutdownPending] at pending
  unasked := sound.unasked
  terms := sound.terms
  kills := sound.kills
  graceArmed := by simp [cleanup]
  exitHooks := by
    have hooks := sound.exitHooks
    rw [if_neg other] at hooks
    simp only [cleanup]
    omega

theorem Sound.exitHooks_eq_zero (sound : Sound cfg o) (other : o.phase ≠ .termSent) :
    o.exitHooks = 0 := by
  have hooks := sound.exitHooks
  rw [if_neg other] at hooks
  omega

theorem Sound.graceArmed_eq_false (sound : Sound cfg o) (other : o.phase ≠ .termSent) :
    o.graceArmed = false := by
  cases armed : o.graceArmed with
  | false => rfl
  | true => exact absurd (sound.graceArmed armed) other

/-- Where every signal takes one call, none is sent twice. -/
theorem Sound.issued_le_one (sound : Sound cfg o) (once : SignalsOnce cfg) (signal : Signal) :
    o.issued signal ≤ 1 := by
  have single : (signalCalls cfg signal).length = 1 :=
    length_signalCalls_eq_one_iff.mpr fun signalTree mem => once signalTree mem signal
  cases signal with
  | term =>
      rw [sound.terms, single]
      split <;> simp
  | kill =>
      rw [sound.kills, single]
      split <;> simp

end OwnedProcess

end Opensquid.SpawnLifecycle
