import Mathlib.Algebra.Order.Ring.Rat
import Mathlib.Data.List.Perm.Basic
import Mathlib.Tactic.Linarith
import Opensquid.Lib.IsoInstant
import Opensquid.Lib.Steps
import Opensquid.Lib.Table

/-!
# The file watcher

A change of a file restarts the timer of its kind and path. A timer that fires asks the rate limiter,
an allowed change is dispatched, and its slot is released when the dispatch settles. `stop` clears the
timers and waits for the watcher to close.

The handler looks at `stopped` before it asks the limiter and not after. An answer that comes when the
promise of `stop` has resolved still starts a dispatch; `watcher_keeps_promises` says that without such
an answer, and with a clock that reads a date, the four promises of the watcher hold in every run.
-/

namespace Opensquid.Triggers

open Opensquid.Lib

/-! ## Changes and timers -/

inductive ChangeKind
  | add
  | change
  | unlink
  deriving DecidableEq, Repr

def ChangeKind.text : ChangeKind → String
  | add => "add"
  | change => "change"
  | unlink => "unlink"

structure FileChangedEvent where
  path : String
  changeKind : ChangeKind
  changedAt : String
  deriving DecidableEq, Repr

/-- What concerns a pack, without the paths and options of the watcher under it. -/
structure FileWatcherConfig where
  pack : String
  skill : String
  debounceMs : Option Nat := none
  deriving Repr

def DEFAULT_DEBOUNCE_MS : Nat := 200

def FileWatcherConfig.debounce (cfg : FileWatcherConfig) : Nat :=
  cfg.debounceMs.getD DEFAULT_DEBOUNCE_MS

/-- The greatest delay of a timer. -/
def TIMEOUT_MAX : Nat := 2147483647

/-- The delay that `setTimeout` makes of a number of milliseconds. -/
def timeoutDelay (ms : Nat) : Nat := if 1 ≤ ms ∧ ms ≤ TIMEOUT_MAX then ms else 1

/-- One call of `debounceEmit`, by its number. -/
structure Emission where
  id : Nat
  changeKind : ChangeKind
  path : String
  time : ℚ
  deriving DecidableEq

def debounceKey (changeKind : ChangeKind) (path : String) : String := changeKind.text ++ "::" ++ path

def Emission.key (e : Emission) : String := debounceKey e.changeKind e.path

structure Timer where
  emission : Emission
  due : ℚ
  deriving DecidableEq

def Timer.key (t : Timer) : String := t.emission.key

inductive AuditEntry
  | dispatched (path : String) (changeKind : ChangeKind)
  | rateLimited (path : String) (changeKind : ChangeKind) (reason : Option String)
  | error (path : String) (reason : String)
  deriving DecidableEq, Repr

/-- An entry with the pack and the skill. -/
structure FileWatcherAuditEntry where
  pack : String
  skill : String
  entry : AuditEntry
  deriving DecidableEq, Repr

/-- A call of `dispatch`. -/
structure Dispatch where
  emission : Emission
  event : FileChangedEvent
  /-- The promise of a `stop` had resolved. -/
  afterStop : Bool
  deriving DecidableEq

/-! ## The state -/

structure FileWatcher where
  now : ℚ := 0
  /-- The listeners are attached. -/
  started : Bool := false
  /-- `watcher !== null` -/
  watching : Bool := false
  stopped : Bool := false
  debounceTimers : Table Timer.key := Table.empty
  /-- The timers that the event loop holds. -/
  timers : List Timer := []
  /-- The calls of `check` and of `dispatch` that have not settled. -/
  checking : List Emission := []
  dispatching : List Emission := []
  /-- A `stop` waits for the watcher to close. -/
  closing : Bool := false
  /-- The promise of a `stop` has resolved. -/
  stopResolved : Bool := false
  audit : List FileWatcherAuditEntry := []
  /-- The changes, the calls of `check`, the allowed ones, and the calls of `dispatch` and `release`. -/
  events : List Emission := []
  checked : List Emission := []
  allowed : List Emission := []
  dispatched : List Dispatch := []
  released : List Emission := []

/-- What becomes of `rateLimiter.check`. With an allowed call, the clock that is read next: none where
it throws or is not a number. -/
inductive CheckAnswer
  | allowed (now : Option Int)
  | denied (reason : Option String)
  | failed (reason : String)
  deriving DecidableEq, Repr

inductive Event
  | elapse (d : ℚ)
  | start
  | file (changeKind : ChangeKind) (path : String)
  | timer (t : Timer)
  | checkSettled (e : Emission) (answer : CheckAnswer)
  /-- With the text of the error, if the dispatch throws. -/
  | dispatchSettled (e : Emission) (error : Option String)
  | stop
  /-- `w.close()` settles. -/
  | closed (ok : Bool)

namespace FileWatcher

/-! ## The methods -/

def log (cfg : FileWatcherConfig) (w : FileWatcher) (entry : AuditEntry) : FileWatcher :=
  { w with audit := w.audit ++ [⟨cfg.pack, cfg.skill, entry⟩] }

/-- It throws, and changes nothing, on a watcher that is started or stopped. -/
def start (w : FileWatcher) : FileWatcher :=
  if w.watching || w.stopped then w else { w with started := true, watching := true }

def clearTimeout (w : FileWatcher) (t : Timer) : FileWatcher :=
  { w with timers := w.timers.filter fun other => other ≠ t }

def debounceEmit (cfg : FileWatcherConfig) (w : FileWatcher) (changeKind : ChangeKind) (path : String) :
    FileWatcher :=
  let e : Emission := ⟨w.events.length, changeKind, path, w.now⟩
  let w := { w with events := w.events ++ [e] }
  if w.stopped then w
  else
    let w := match w.debounceTimers.get e.key with
      | some existing => w.clearTimeout existing
      | none => w
    let timer : Timer := ⟨e, w.now + timeoutDelay cfg.debounce⟩
    { w with timers := w.timers ++ [timer], debounceTimers := w.debounceTimers.put timer }

/-- To the call of `check`. -/
def fireAfterDebounce (w : FileWatcher) (e : Emission) : FileWatcher :=
  if w.stopped then w else { w with checking := w.checking ++ [e], checked := w.checked ++ [e] }

/-- The callback of a timer. -/
def timerFired (w : FileWatcher) (t : Timer) : FileWatcher :=
  fireAfterDebounce
    { w with
      timers := w.timers.filter fun other => other ≠ t
      debounceTimers := w.debounceTimers.delete t.key } t.emission

/-- After the `await` of `check`, to the call of `dispatch`. Where the clock reads no date, the text of
it throws and the handler ends. -/
def checkSettled (cfg : FileWatcherConfig) (w : FileWatcher) (e : Emission) :
    CheckAnswer → FileWatcher
  | .failed reason => w.log cfg (.error e.path reason)
  | .denied reason => w.log cfg (.rateLimited e.path e.changeKind reason)
  | .allowed now =>
      let w := { w with allowed := w.allowed ++ [e] }
      match now.bind Iso.toISOString with
      | none => w
      | some changedAt =>
          { w with
            dispatching := w.dispatching ++ [e]
            dispatched := w.dispatched ++ [⟨e, ⟨e.path, e.changeKind, changedAt⟩, w.stopResolved⟩] }

/-- After the `await` of `dispatch`, with the finally clause. -/
def dispatchSettled (cfg : FileWatcherConfig) (w : FileWatcher) (e : Emission) (error : Option String) :
    FileWatcher :=
  let w := w.log cfg (match error with
    | none => .dispatched e.path e.changeKind
    | some reason => .error e.path reason)
  { w with released := w.released ++ [e] }

def stop (w : FileWatcher) : FileWatcher :=
  if w.stopped then { w with stopResolved := true }
  else
    let w :=
      { w with
        stopped := true
        timers := w.timers.filter fun t => t ∉ w.debounceTimers.rows
        debounceTimers := Table.empty }
    if w.watching then { w with watching := false, closing := true }
    else { w with stopResolved := true }

def step (cfg : FileWatcherConfig) (w : FileWatcher) : Event → Option FileWatcher
  | .elapse d => if 0 ≤ d then some { w with now := w.now + d } else none
  | .start => some w.start
  | .file changeKind path => if w.started then some (w.debounceEmit cfg changeKind path) else none
  | .timer t => if t ∈ w.timers ∧ t.due ≤ w.now then some (w.timerFired t) else none
  | .checkSettled e answer =>
      if e ∈ w.checking then
        some (checkSettled cfg { w with checking := w.checking.erase e } e answer)
      else none
  | .dispatchSettled e error =>
      if e ∈ w.dispatching then
        some (dispatchSettled cfg { w with dispatching := w.dispatching.erase e } e error)
      else none
  | .stop => some w.stop
  | .closed ok =>
      if w.closing then some { w with closing := false, stopResolved := w.stopResolved || ok } else none

/-! ## What every run keeps -/

/-- The timers of the map are those of the event loop, each of the last change of its key; a change
whose timer has fired is older than the next one of its key by the delay. -/
structure Sound (cfg : FileWatcherConfig) (w : FileWatcher) : Prop where
  numbered : ∀ e ∈ w.events, e.id < w.events.length
  ordered : w.events.Pairwise fun a b => a.id < b.id
  mapped : ∀ t, t ∈ w.timers ↔ t ∈ w.debounceTimers.rows
  silent : w.stopped = true → w.timers = []
  armed : ∀ t ∈ w.timers, t.emission ∈ w.events ∧
    t.due = t.emission.time + timeoutDelay cfg.debounce ∧ t.emission ∉ w.checked ∧
    ∀ e ∈ w.events, e.key = t.emission.key → e.id ≤ t.emission.id
  passed : ∀ e ∈ w.checked, e ∈ w.events ∧ e.time + timeoutDelay cfg.debounce ≤ w.now ∧
    ∀ later ∈ w.events, later.key = e.key → e.id < later.id →
      e.time + timeoutDelay cfg.debounce ≤ later.time
  answered : (w.checking ++ w.allowed).Nodup
  asked : ∀ e ∈ w.checking ++ w.allowed, e ∈ w.checked
  gated : (w.dispatched.map Dispatch.emission).Sublist w.allowed

/-- Every allowed check has had its dispatch, before the end of a `stop`, and its release comes when the
dispatch settles. -/
structure Kept (w : FileWatcher) : Prop where
  matched : (w.released ++ w.dispatching).Perm w.allowed
  early : ∀ d ∈ w.dispatched, d.afterStop = false

variable {cfg : FileWatcherConfig} {w : FileWatcher}

/-- A change of a running watcher clears the timer of its key and sets a new one. -/
theorem debounceEmit_running (sound : w.Sound cfg) (running : ¬ w.stopped = true)
    (changeKind : ChangeKind) (path : String) :
    ∃ timers, (∀ t, t ∈ timers ↔ t ∈ w.timers ∧ t.key ≠ debounceKey changeKind path) ∧
      w.debounceEmit cfg changeKind path =
        { w with
          events := w.events ++ [⟨w.events.length, changeKind, path, w.now⟩]
          timers := timers ++
            [⟨⟨w.events.length, changeKind, path, w.now⟩, w.now + timeoutDelay cfg.debounce⟩]
          debounceTimers := w.debounceTimers.put
            ⟨⟨w.events.length, changeKind, path, w.now⟩, w.now + timeoutDelay cfg.debounce⟩ } := by
  have found (t : Timer) (mem : t ∈ w.timers) : w.debounceTimers.get t.key = some t :=
    Table.mem_rows_iff.mp ((sound.mapped t).mp mem)
  unfold debounceEmit
  dsimp only
  rw [if_neg running]
  change ∃ timers, (∀ t, t ∈ timers ↔ t ∈ w.timers ∧ t.key ≠ debounceKey changeKind path) ∧
    _ = _
  cases held : w.debounceTimers.get (debounceKey changeKind path) with
  | some existing =>
      refine ⟨w.timers.filter fun other => other ≠ existing, fun t => ?_, ?_⟩
      · rw [List.mem_filter, decide_eq_true_eq]
        refine and_congr_right fun mem => not_congr ⟨fun same => ?_, fun same => ?_⟩
        · rw [same]
          exact Table.key_of_get held
        · have twice := found t mem
          rw [same, held] at twice
          exact (Option.some.inj twice).symm
      · simp only [Emission.key, held]
        rfl
  | none =>
      refine ⟨w.timers, fun t => ⟨fun mem => ⟨mem, fun same => ?_⟩, And.left⟩, ?_⟩
      · have once := found t mem
        rw [same, held] at once
        cases once
      · simp only [Emission.key, held]

theorem Sound.file (sound : w.Sound cfg) (changeKind : ChangeKind) (path : String) :
    (w.debounceEmit cfg changeKind path).Sound cfg := by
  let e : Emission := ⟨w.events.length, changeKind, path, w.now⟩
  have heard : Sound cfg
      { w with events := w.events ++ [e], timers := [], debounceTimers := Table.empty } := by
    refine { sound with
      numbered := fun x mem => ?_
      ordered := ?_
      mapped := fun t => by simp [Table.empty]
      silent := fun _ => rfl
      armed := fun t mem => absurd mem List.not_mem_nil
      passed := fun x mem => ?_ }
    · rw [List.length_append, List.length_singleton]
      rcases List.mem_append.mp mem with old | new
      · exact Nat.lt_succ_of_lt (sound.numbered x old)
      · rw [List.mem_singleton.mp new]
        exact Nat.lt_succ_self _
    · refine List.pairwise_append.mpr ⟨sound.ordered, List.pairwise_singleton _ _, fun x old y new => ?_⟩
      rw [List.mem_singleton.mp new]
      exact sound.numbered x old
    · obtain ⟨known, past, next⟩ := sound.passed x mem
      refine ⟨List.mem_append_left _ known, past, fun later at_ same order => ?_⟩
      rcases List.mem_append.mp at_ with old | new
      · exact next later old same order
      · rw [List.mem_singleton.mp new]
        exact past
  by_cases stopped : w.stopped = true
  · have none := sound.silent stopped
    rw [debounceEmit]
    dsimp only
    rw [if_pos stopped]
    exact { heard with
      mapped := sound.mapped
      silent := sound.silent
      armed := fun t mem => absurd mem (by simp [none]) }
  · obtain ⟨timers, cleared, eq⟩ := debounceEmit_running sound stopped changeKind path
    rw [eq]
    have unchecked : e ∉ w.checked := fun mem =>
      Nat.lt_irrefl _ (sound.numbered e (sound.passed e mem).1)
    refine { heard with
      mapped := fun t => ?_
      silent := fun halted => absurd halted stopped
      armed := fun t mem => ?_ }
    · rw [Table.mem_put_iff, List.mem_append, List.mem_singleton, cleared, sound.mapped]
      exact or_comm
    · rcases List.mem_append.mp mem with old | new
      · obtain ⟨mem, away⟩ := (cleared t).mp old
        obtain ⟨known, due, fresh, last⟩ := sound.armed t mem
        refine ⟨List.mem_append_left _ known, due, fresh, fun x at_ same => ?_⟩
        rcases List.mem_append.mp at_ with before | now
        · exact last x before same
        · rw [List.mem_singleton.mp now] at same
          exact absurd same.symm away
      · rw [List.mem_singleton.mp new]
        refine ⟨List.mem_append_right _ (List.mem_singleton_self _), rfl, unchecked, fun x at_ _ => ?_⟩
        rcases List.mem_append.mp at_ with before | now
        · exact (sound.numbered x before).le
        · rw [List.mem_singleton.mp now]

theorem Sound.timerFired (sound : w.Sound cfg) {t : Timer} (here : t ∈ w.timers) (due : t.due ≤ w.now) :
    (w.timerFired t).Sound cfg := by
  have running : ¬ w.stopped = true := fun stopped => by
    rw [sound.silent stopped] at here
    cases here
  obtain ⟨known, at_, fresh, last⟩ := sound.armed t here
  have unasked : t.emission ∉ w.checking ++ w.allowed := fun mem => fresh (sound.asked _ mem)
  have moved : ((w.checking ++ [t.emission]) ++ w.allowed).Perm
      (t.emission :: (w.checking ++ w.allowed)) := by
    rw [List.append_assoc]
    exact List.perm_middle
  unfold FileWatcher.timerFired fireAfterDebounce
  rw [if_neg running]
  refine { sound with
    mapped := fun x => ?_
    silent := fun stopped => absurd stopped running
    armed := fun x mem => ?_
    passed := fun e mem => ?_
    answered := moved.nodup_iff.mpr (List.nodup_cons.mpr ⟨unasked, sound.answered⟩)
    asked := fun e mem => ?_ }
  · rw [List.mem_filter, decide_eq_true_eq, Table.mem_delete, sound.mapped]
    refine and_congr_right fun row => not_congr ⟨fun same => by rw [same], fun same => ?_⟩
    have one := Table.mem_rows_iff.mp row
    have two := Table.mem_rows_iff.mp ((sound.mapped t).mp here)
    rw [same, two] at one
    exact (Option.some.inj one).symm
  · obtain ⟨old, other⟩ := List.mem_filter.mp mem
    obtain ⟨listed, later, unchecked, latest⟩ := sound.armed x old
    refine ⟨listed, later, fun checked => ?_, latest⟩
    rcases List.mem_append.mp checked with before | new
    · exact unchecked before
    · have same := List.mem_singleton.mp new
      have equal : x = t := by
        obtain ⟨emission, time⟩ := x
        obtain ⟨emission', time'⟩ := t
        simp only at same later at_
        rw [same] at later
        rw [same, later, at_]
      simp [equal] at other
  · rcases List.mem_append.mp mem with before | new
    · exact sound.passed e before
    · rw [List.mem_singleton.mp new]
      refine ⟨known, at_ ▸ due, fun later mem same order => ?_⟩
      exact absurd order (Nat.not_lt.mpr (last later mem same))
  · rcases List.mem_cons.mp (moved.mem_iff.mp mem) with rfl | before
    · exact List.mem_append_right _ (List.mem_singleton_self _)
    · exact List.mem_append_left _ (sound.asked e before)

theorem Sound.checkSettled (sound : w.Sound cfg) {e : Emission} (here : e ∈ w.checking)
    (answer : CheckAnswer) :
    (FileWatcher.checkSettled cfg { w with checking := w.checking.erase e } e answer).Sound cfg := by
  have fewer : (w.checking.erase e ++ w.allowed).Sublist (w.checking ++ w.allowed) :=
    List.erase_sublist.append_right _
  have dropped : Sound cfg { w with checking := w.checking.erase e } :=
    { sound with
      answered := sound.answered.sublist fewer
      asked := fun x mem => sound.asked x (fewer.subset mem) }
  have moved : (w.checking.erase e ++ (w.allowed ++ [e])).Perm (w.checking ++ w.allowed) := by
    rw [← List.append_assoc]
    refine (List.perm_append_singleton _ _).trans ?_
    rw [← List.cons_append]
    exact (List.perm_cons_erase here).symm.append_right _
  have granted : Sound cfg
      { w with checking := w.checking.erase e, allowed := w.allowed ++ [e] } :=
    { sound with
      answered := moved.nodup_iff.mpr sound.answered
      asked := fun x mem => sound.asked x (moved.mem_iff.mp mem)
      gated := sound.gated.trans (List.sublist_append_left _ _) }
  cases answer with
  | failed reason => exact { dropped with }
  | denied reason => exact { dropped with }
  | allowed now =>
      unfold FileWatcher.checkSettled
      dsimp only
      cases now.bind Iso.toISOString with
      | none => exact granted
      | some changedAt =>
          refine { granted with gated := ?_ }
          rw [List.map_append]
          exact sound.gated.append (List.Sublist.refl _)

theorem Sound.stop (sound : w.Sound cfg) : w.stop.Sound cfg := by
  unfold FileWatcher.stop
  split
  · exact { sound with }
  · have cleared : (w.timers.filter fun t => t ∉ w.debounceTimers.rows) = [] := by
      refine List.filter_eq_nil_iff.mpr fun t mem => ?_
      simp [(sound.mapped t).mp mem]
    have stopped : Sound cfg
        { w with
          stopped := true
          timers := w.timers.filter fun t => t ∉ w.debounceTimers.rows
          debounceTimers := Table.empty } := by
      rw [cleared]
      exact { sound with
        mapped := fun t => by simp [Table.empty]
        silent := fun _ => rfl
        armed := fun t mem => by cases mem }
    dsimp only
    split
    · exact { stopped with }
    · exact { stopped with }

theorem step_sound {event : Event} {v : FileWatcher} (sound : w.Sound cfg)
    (fire : step cfg w event = some v) : v.Sound cfg := by
  cases event with
  | elapse d =>
      obtain ⟨later, eq⟩ := Option.ite_none_right_eq_some.mp fire
      cases eq
      refine { sound with passed := fun e mem => ?_ }
      obtain ⟨known, past, next⟩ := sound.passed e mem
      exact ⟨known, past.trans (by simpa using later), next⟩
  | start =>
      cases fire
      unfold FileWatcher.start
      split
      · exact sound
      · exact { sound with }
  | file changeKind path =>
      obtain ⟨_, eq⟩ := Option.ite_none_right_eq_some.mp fire
      cases eq
      exact sound.file changeKind path
  | timer t =>
      obtain ⟨⟨here, due⟩, eq⟩ := Option.ite_none_right_eq_some.mp fire
      cases eq
      exact sound.timerFired here due
  | checkSettled e answer =>
      obtain ⟨here, eq⟩ := Option.ite_none_right_eq_some.mp fire
      cases eq
      exact sound.checkSettled here answer
  | dispatchSettled e error =>
      obtain ⟨_, eq⟩ := Option.ite_none_right_eq_some.mp fire
      cases eq
      exact { sound with }
  | stop =>
      cases fire
      exact sound.stop
  | closed ok =>
      obtain ⟨_, eq⟩ := Option.ite_none_right_eq_some.mp fire
      cases eq
      exact { sound with }

/-! ## Dispatches and releases -/

/-- No allowed answer comes after the promise of a `stop` has resolved, and the clock that is read for
an allowed change has a date. -/
def clean (w : FileWatcher) : Event → Bool
  | .checkSettled _ (.allowed now) => !w.stopResolved && (now.bind Iso.toISOString).isSome
  | _ => true

theorem step_kept {event : Event} {v : FileWatcher} (sound : w.Sound cfg) (kept : w.Kept)
    (ok : w.clean event = true) (fire : step cfg w event = some v) : v.Kept := by
  cases event with
  | elapse d =>
      obtain ⟨_, eq⟩ := Option.ite_none_right_eq_some.mp fire
      cases eq
      exact { kept with }
  | start =>
      cases fire
      unfold FileWatcher.start
      split
      · exact kept
      · exact { kept with }
  | file changeKind path =>
      obtain ⟨_, eq⟩ := Option.ite_none_right_eq_some.mp fire
      cases eq
      by_cases stopped : w.stopped = true
      · rw [debounceEmit]
        dsimp only
        rw [if_pos stopped]
        exact { kept with }
      · obtain ⟨_, _, eq⟩ := debounceEmit_running sound stopped changeKind path
        rw [eq]
        exact { kept with }
  | timer t =>
      obtain ⟨_, eq⟩ := Option.ite_none_right_eq_some.mp fire
      cases eq
      unfold FileWatcher.timerFired fireAfterDebounce
      split
      · exact { kept with }
      · exact { kept with }
  | checkSettled e answer =>
      obtain ⟨_, eq⟩ := Option.ite_none_right_eq_some.mp fire
      cases eq
      cases answer with
      | failed reason => exact { kept with }
      | denied reason => exact { kept with }
      | allowed now =>
          simp only [clean, Bool.and_eq_true, Bool.not_eq_true'] at ok
          obtain ⟨changedAt, date⟩ := Option.isSome_iff_exists.mp ok.2
          unfold FileWatcher.checkSettled
          dsimp only
          rw [date]
          refine ⟨?_, fun d mem => ?_⟩
          · rw [← List.append_assoc]
            exact kept.matched.append_right _
          · rcases List.mem_append.mp mem with old | new
            · exact kept.early d old
            · rw [List.mem_singleton.mp new]
              exact ok.1
  | dispatchSettled e error =>
      obtain ⟨here, eq⟩ := Option.ite_none_right_eq_some.mp fire
      cases eq
      refine ⟨?_, kept.early⟩
      refine List.Perm.trans ?_ kept.matched
      change (w.released ++ [e] ++ w.dispatching.erase e).Perm (w.released ++ w.dispatching)
      rw [List.append_assoc]
      exact ((List.perm_cons_erase here).symm).append_left _
  | stop =>
      cases fire
      unfold FileWatcher.stop
      split
      · exact { kept with }
      · dsimp only
        split
        · exact { kept with }
        · exact { kept with }
  | closed ok =>
      obtain ⟨_, eq⟩ := Option.ite_none_right_eq_some.mp fire
      cases eq
      exact { kept with }

/-! ## Bursts -/

/-- In a chain, an element that is not related to any later one is the last. -/
theorem getLast_of_apart {R : Emission → Emission → Prop} {burst : List Emission} {a : Emission}
    (chain : burst.IsChain R) (ordered : burst.Pairwise fun x y => x.id < y.id) (mem : a ∈ burst)
    (apart : ∀ later ∈ burst, a.id < later.id → ¬ R a later) : burst.getLast? = some a := by
  induction burst with
  | nil => cases mem
  | cons x rest ih =>
      cases rest with
      | nil =>
          rw [List.mem_singleton.mp mem]
          rfl
      | cons y rest =>
          obtain ⟨related, chain⟩ := List.isChain_cons_cons.mp chain
          obtain ⟨before, ordered⟩ := List.pairwise_cons.mp ordered
          have later : a ∈ y :: rest := by
            rcases List.mem_cons.mp mem with rfl | later
            · exact absurd related (apart y (by simp) (before y (by simp)))
            · exact later
          rw [List.getLast?_cons_cons]
          exact ih chain ordered later fun z at_ => apart z (List.mem_cons_of_mem _ at_)

theorem Sound.burst_once (sound : w.Sound cfg) (fits : cfg.debounce ≤ TIMEOUT_MAX)
    (changeKind : ChangeKind) (path : String) {burst : List Emission}
    (block : burst <:+: w.events.filter fun e => e.changeKind = changeKind ∧ e.path = path)
    (chain : burst.IsChain fun a b => b.time - a.time < (cfg.debounce : ℚ)) :
    (w.dispatched.filter fun d => d.emission ∈ burst).length ≤ 1 := by
  have ordered : burst.Pairwise fun x y => x.id < y.id :=
    (sound.ordered.sublist List.filter_sublist).sublist block.sublist
  have delay : (cfg.debounce : ℚ) ≤ timeoutDelay cfg.debounce := by
    unfold timeoutDelay
    split
    · exact le_rfl
    · exact_mod_cast (by omega : cfg.debounce ≤ 1)
  have listed (e : Emission) (mem : e ∈ burst) : e ∈ w.events ∧ e.key = debounceKey changeKind path := by
    obtain ⟨known, same⟩ := List.mem_filter.mp (block.subset mem)
    obtain ⟨rfl, rfl⟩ := of_decide_eq_true same
    exact ⟨known, rfl⟩
  have last (d : Dispatch) (mem : d ∈ w.dispatched) (within : d.emission ∈ burst) :
      burst.getLast? = some d.emission := by
    have checked := sound.asked _ (List.mem_append_right _ (sound.gated.subset (List.mem_map_of_mem mem)))
    obtain ⟨_, _, next⟩ := sound.passed _ checked
    refine getLast_of_apart chain ordered within fun later at_ order close => ?_
    have far := next later (listed later at_).1 ((listed later at_).2.trans (listed _ within).2.symm) order
    linarith
  have distinct : (w.dispatched.map Dispatch.emission).Nodup :=
    (sound.answered.sublist (List.sublist_append_right _ _)).sublist sound.gated
  have few : ((w.dispatched.filter fun d => d.emission ∈ burst).map Dispatch.emission).Nodup :=
    distinct.sublist (List.filter_sublist.map _)
  have same (d : Dispatch) (mem : d ∈ w.dispatched.filter fun d => d.emission ∈ burst) :
      burst.getLast? = some d.emission := by
    obtain ⟨known, within⟩ := List.mem_filter.mp mem
    exact last d known (of_decide_eq_true within)
  generalize w.dispatched.filter (fun d => d.emission ∈ burst) = found at few same
  match found with
  | [] => exact Nat.zero_le _
  | [_] => exact le_rfl
  | d :: d' :: rest =>
      have equal := (same d (by simp)).symm.trans (same d' (by simp))
      simp [Option.some.inj equal] at few

end FileWatcher

/-! ## Runs -/

open FileWatcher

/-- What the watcher promises of a state that it reaches. -/
structure Promises (cfg : FileWatcherConfig) (w : FileWatcher) : Prop where
  noneAfterStop : ∀ d ∈ w.dispatched, d.afterStop = false
  /-- Changes of one kind and path that follow each other by less than the debounce time. -/
  debounced : ∀ changeKind path burst,
    burst <:+: (w.events.filter fun e => e.changeKind = changeKind ∧ e.path = path) →
    burst.IsChain (fun a b => b.time - a.time < (cfg.debounce : ℚ)) →
    (w.dispatched.filter fun d => d.emission ∈ burst).length ≤ 1
  /-- Every dispatch has an allowed check of its own. -/
  gated : w.allowed.Nodup ∧ (w.dispatched.map Dispatch.emission).Sublist w.allowed
  /-- Every allowed check has been released once, or its dispatch has not settled. -/
  released : (w.released ++ w.dispatching).Perm w.allowed
  settles : ∀ e error v, step cfg w (.dispatchSettled e error) = some v → v.released = w.released ++ [e]

def Clean (w : FileWatcher) (event : Event) : Prop := w.clean event = true

section

variable {cfg : FileWatcherConfig} {w : FileWatcher}

theorem reached_sound (run : Steps (step cfg) AnyStep {} w) : w.Sound cfg := by
  refine run.invariant ?_ fun _ _ _ sound _ fire => step_sound sound fire
  constructor <;> simp [Table.empty]

theorem reached_kept (run : Steps (step cfg) Clean {} w) : w.Kept := by
  refine run.invariant_of (fun _ before => reached_sound before) ⟨by simp, by simp⟩ ?_
  exact fun _ _ _ sound _ kept ok fire => step_kept sound kept ok fire

theorem watcher_keeps_promises (fits : cfg.debounce ≤ TIMEOUT_MAX) (run : Steps (step cfg) Clean {} w) :
    Promises cfg w := by
  have sound := reached_sound run.any
  have kept := reached_kept run
  refine ⟨kept.early, fun changeKind path burst => sound.burst_once fits changeKind path, ⟨?_, sound.gated⟩,
    kept.matched, fun e error v fire => ?_⟩
  · exact sound.answered.sublist (List.sublist_append_right _ _)
  · obtain ⟨_, eq⟩ := Option.ite_none_right_eq_some.mp fire
    cases eq
    rfl

end

def cfg0 : FileWatcherConfig := ⟨"pack", "skill", none⟩

def change0 : Emission := ⟨0, .change, "a", 0⟩

def change1 : Emission := ⟨1, .change, "a", 100⟩

/-- Two changes of a file within the debounce time, and a stop while the one dispatch goes on. -/
def burstRun : List Event :=
  [.start, .file .change "a", .elapse 100, .file .change "a", .elapse 200, .timer ⟨change1, 300⟩,
    .checkSettled change1 (.allowed (some 0)), .stop, .closed true, .dispatchSettled change1 (some "late")]

theorem watcher_keeps_promises_burst :
    ∃ w : FileWatcher, runWhile (step cfg0) FileWatcher.clean {} burstRun = some w ∧
      w.released = [change1] ∧ Promises cfg0 w := by
  have found : (runWhile (step cfg0) FileWatcher.clean {} burstRun).map FileWatcher.released =
      some [change1] := by
    decide +kernel
  obtain ⟨w, replay, released⟩ := Option.map_eq_some_iff.mp found
  exact ⟨w, replay, released,
    watcher_keeps_promises (by decide) (Steps.of_runWhile (fun _ _ ok => ok) replay)⟩

/-- The limiter answers when the promise of `stop` has resolved. -/
def lateRun : List Event :=
  [.start, .file .change "a", .elapse 200, .timer ⟨change0, 200⟩, .stop, .closed true,
    .checkSettled change0 (.allowed (some 0))]

theorem dispatched_after_stop :
    ¬ ∀ (cfg : FileWatcherConfig) (w : FileWatcher), Steps (step cfg) AnyStep {} w → Promises cfg w := by
  intro promised
  have found : (runWhile (step cfg0) (fun _ _ => true) {} lateRun).map
      (fun w => w.dispatched.map Dispatch.afterStop) = some [true] := by
    decide +kernel
  obtain ⟨w, replay, late⟩ := Option.map_eq_some_iff.mp found
  have kept := promised cfg0 w (Steps.of_runWhile (fun _ _ _ => trivial) replay)
  obtain ⟨d, mem, after⟩ := List.mem_map.mp (late ▸ List.mem_singleton_self true)
  rw [kept.noneAfterStop d mem] at after
  cases after

/-- A clock that reads no date: the slot is not released. -/
example : (runWhile (step cfg0) (fun _ _ => true) {}
      [.start, .file .change "a", .elapse 200, .timer ⟨change0, 200⟩,
        .checkSettled change0 (.allowed none)]).map
    (fun w => (w.allowed, w.dispatching, w.released)) = some ([change0], [], []) := by
  decide +kernel

/-- A debounce time above the greatest delay: two changes a millisecond apart are both dispatched. -/
example : (runWhile (step { cfg0 with debounceMs := some 2147483648 }) (fun _ _ => true) {}
      [.start, .file .change "a", .elapse 1, .timer ⟨change0, 1⟩, .file .change "a", .elapse 1,
        .timer ⟨⟨1, .change, "a", 1⟩, 2⟩, .checkSettled change0 (.allowed (some 0)),
        .checkSettled ⟨1, .change, "a", 1⟩ (.allowed (some 0))]).map
    (fun w => w.dispatched.length) = some 2 := by
  decide +kernel

end Opensquid.Triggers
