import Mathlib.Data.List.Perm.Subperm
import Mathlib.Logic.Relation
import Opensquid.Lib.Steps
import Opensquid.Loop.ObservedActor
import Opensquid.Runtime.FsmState

/-!
# The history of a machine under many hook processes

Any number of calls at one key. `advanceFsmState` reads the file twice and writes it without a
lock; a hook process seeds its actor from the file, receives its event, and writes every state
of the walk with a comparison under the lock. Every read and every write is a step of its own.

`Undisturbed` is the condition of a step: the call that comes back to the file, to read it
again or to write it, finds what it has read before. `history_is_run`: in runs of such steps the
history is a run of the machine and every reported transition has an entry of its own; and
the first write of a process that is alone is accepted exactly when `SeedsItself`.
`concurrent_advance_lost` has two advances that read before either writes.
-/

namespace Opensquid.Runtime

open Opensquid.Lib Opensquid.Machine Opensquid.Loop

/-! ## Calls -/

/-- Where a call is. A call remembers what it has seen of the file. -/
inductive Call
  | advance (event now : String) (evalWhen : EvalWhen)
  | advanceHistory (now : String) (result : FlatStepResult) (seen : Option FsmStateFile)
  | advanceWrite (now : String) (result : FlatStepResult) (history : List FsmHistoryEntry)
      (seen : Option FsmStateFile)
  | seed (automation : Bool) (kind now : String)
  | persist (now expected : String) (states : List String)
  | waiting (now expected state : String) (states : List String)
  | locked (now expected state : String) (states : List String)
  | publish (now state : String) (states : List String) (history : List FsmHistoryEntry)
      (seen : Option FsmStateFile)
  | ended

structure System where
  file : FsmFile
  /-- The call that holds the lock. -/
  lock : Option Nat := none
  calls : List Call := []
  /-- The states that a process has been seeded with. -/
  seeds : List String := []
  /-- The states of the calls that have reported a transition written. -/
  reported : List String := []

/-- What the surroundings of a step decide: the checkpoint of the session, the values of the
guards, and whether the retries for the lock are used up. -/
structure Input where
  checkpoint : Option String := none
  eval : String → Option Bool := fun _ => none
  gaveUp : Bool := false

inductive Event
  | advanceFsmState (event now : String) (evalWhen : EvalWhen)
  | runV2Cartridges (automation : Bool) (kind now : String)
  | step (i : Nat) (input : Input)

def System.write (s : System) (history : List FsmHistoryEntry) (state now : String) : System :=
  { s with file := .held (.entering history state now), reported := s.reported ++ [state] }

variable (actor : V2ObservedActor)

/-- The next atomic step of a call. -/
def Call.next (i : Nat) (input : Input) (s : System) : Call → Option (Call × System)
  | .advance event now evalWhen => do
      let result ← stepFlat actor.fsm (readFsmState actor.fsm s.file) event evalWhen
      if result.transitioned then
        return (.advanceHistory now result (readFsmStateFile s.file), s)
      else return (.ended, s)
  | .advanceHistory now result seen =>
      some (.advanceWrite now result (((readFsmStateFile s.file).map FsmStateFile.history).getD [])
        seen, s)
  | .advanceWrite now result history _ => some (.ended, s.write history result.next now)
  | .seed automation kind now =>
      let seeded := resolveSeededActorState actor.fsm automation input.checkpoint s.file
      let s' := { s with seeds := s.seeds ++ [seeded] }
      match actor.receive input.eval kind seeded with
      | none => some (.ended, s')
      | some (effects, _) =>
          some (.persist now seeded (effects.filterMap V2ObservedActor.Effect.written), s')
  | .persist _ _ [] => some (.ended, s)
  | .persist now expected (state :: states) =>
      some (.waiting now expected state states, { s with file := s.file.opened })
  | .waiting now expected state states =>
      if input.gaveUp then some (.ended, s)
      else if s.lock.isNone then
        some (.locked now expected state states, { s with lock := some i })
      else none
  | .locked now expected state states =>
      let prior := readFsmStateFile s.file
      match comparePrior prior state (some expected) with
      | .rejected => some (.ended, { s with lock := none })
      | .unchanged => some (.persist now state states,
          { s with lock := none, reported := s.reported ++ [state] })
      | .publish history => some (.publish now state states history prior, s)
  | .publish now state states history _ =>
      some (.persist now state states, { s.write history state now with lock := none })
  | .ended => none

def step (s : System) : Event → Option System
  | .advanceFsmState event now evalWhen => some { s with calls := s.calls ++ [.advance event now evalWhen] }
  | .runV2Cartridges automation kind now => some { s with calls := s.calls ++ [.seed automation kind now] }
  | .step i input => do
      let call ← s.calls[i]?
      let (call', s') ← call.next actor i input s
      return { s' with calls := s'.calls.set i call' }

/-- What a call that comes back to the file has seen of it. -/
def Call.seen : Call → Option (Option FsmStateFile)
  | .advanceHistory _ _ seen | .advanceWrite _ _ _ seen | .publish _ _ _ _ seen => some seen
  | .advance .. | .seed .. | .persist .. | .waiting .. | .locked .. | .ended => none

/-- The call that makes the step. -/
def Event.call (s : System) : Event → Option Call
  | .step i _ => s.calls[i]?
  | .advanceFsmState .. | .runV2Cartridges .. => none

/-- A call that comes back to the file finds what it has seen of it. -/
def Undisturbed (s : System) (e : Event) : Prop :=
  ∀ call ∈ e.call s, ∀ seen ∈ call.seen, readFsmStateFile s.file = seen

instance {s : System} {e : Event} : Decidable (Undisturbed s e) :=
  inferInstanceAs (Decidable (∀ call ∈ e.call s, ∀ seen ∈ call.seen, readFsmStateFile s.file = seen))

/-! ## What is promised -/

/-- The states that the file's history has entered. -/
def FsmFile.entered (file : FsmFile) : List String :=
  ((readFsmStateFile file).map FsmStateFile.entered).getD []

/-- The history is a run of the machine from its initial or a seeded state, and ends in the
stored state. -/
def HistoryRun (fsm : Fsm) (seeds : List String) (file : FsmFile) : Prop :=
  ∀ content, readFsmStateFile file = some content →
    content.entered.getLast? = some content.state ∧
      ∃ start ∈ fsm.initial :: seeds,
        List.IsChain (Relation.TransGen (Declared fsm)) (start :: content.entered)

/-- Every reported state has an entry of its own behind the ones the file had at first. -/
def OwnEntries (file : FsmFile) (s : System) : Prop :=
  ∃ new, s.file.entered = file.entered ++ new ∧ s.reported.Subperm new

/-! ## The invariant -/

variable {actor} {s t : System} {file : FsmFile} {now state expected : String} {states : List String}

/-- One state and the rest of a walk from another state. -/
def Walk (fsm : Fsm) (states : List String) : Prop :=
  List.IsChain (fun s t => Declared fsm s t ∧ t ≠ s) states

/-- A state that a history may go on from: the state in the file, or a starting one. -/
def GoesOn (fsm : Fsm) (seeds : List String) (seen : Option FsmStateFile) (state : String) : Prop :=
  match seen with
  | some content => content.state = state
  | none => state ∈ fsm.initial :: seeds

/-- What is known of a call, whatever the others do. -/
def Call.fits (fsm : Fsm) (s : System) : Call → Prop
  | .advanceHistory _ result seen =>
      ∃ current, Declared fsm current result.next ∧ GoesOn fsm s.seeds seen current
  | .advanceWrite _ result history seen =>
      (∃ current, Declared fsm current result.next ∧ GoesOn fsm s.seeds seen current) ∧
        history = (seen.map FsmStateFile.history).getD []
  | .persist _ expected states =>
      Walk fsm (expected :: states) ∧
        (readFsmStateFile s.file = none → expected ∈ fsm.initial :: s.seeds)
  | .waiting _ expected state states | .locked _ expected state states =>
      Walk fsm (expected :: state :: states) ∧
        (readFsmStateFile s.file = none → expected ∈ fsm.initial :: s.seeds)
  | .publish _ state states history seen =>
      Walk fsm (state :: states) ∧
        (∃ expected, Declared fsm expected state ∧ GoesOn fsm s.seeds seen expected) ∧
        history = (seen.map FsmStateFile.history).getD []
  | .advance .. | .seed .. | .ended => True

structure Inv (fsm : Fsm) (file : FsmFile) (s : System) : Prop where
  history : HistoryRun fsm s.seeds s.file
  own : OwnEntries file s
  calls : ∀ call ∈ s.calls, call.fits fsm s

variable {fsm : Fsm}

theorem target_mem (valid : validateFsm fsm = []) {p q : String}
    (reaches : Relation.TransGen (Declared fsm) p q) : q ∈ fsm.states := by
  obtain ⟨r, -, tr, member, -, rfl⟩ := Relation.TransGen.tail'_iff.mp reaches
  exact mem_states_of_validateFsm valid member

/-- The stored state is one of the machine. -/
theorem HistoryRun.mem (valid : validateFsm fsm = []) {seeds : List String}
    (run : HistoryRun fsm seeds file) {content : FsmStateFile}
    (held : readFsmStateFile file = some content) : content.state ∈ fsm.states := by
  obtain ⟨last, start, -, chain⟩ := run content held
  obtain ⟨before, entered⟩ := List.getLast?_eq_some_iff.mp last
  rw [entered, ← List.cons_append, List.isChain_append] at chain
  obtain ⟨-, -, joint⟩ := chain
  have above := List.getLast?_cons (a := start) (l := before)
  exact target_mem valid (joint _ above _ rfl)

theorem readFsmState_of_run (valid : validateFsm fsm = []) {seeds : List String}
    (run : HistoryRun fsm seeds file) :
    GoesOn fsm seeds (readFsmStateFile file) (readFsmState fsm file) := by
  rcases Option.eq_none_or_eq_some (readFsmStateFile file) with empty | ⟨content, held⟩
  · rw [empty, readFsmState_of_none empty]
    exact List.mem_cons_self
  · rw [held, readFsmState_of_mem held (run.mem valid held)]
    rfl

/-! ## Steps of one call -/

theorem HistoryRun.more {seeds more : List String} (run : HistoryRun fsm seeds file) :
    HistoryRun fsm (seeds ++ more) file := by
  intro content held
  obtain ⟨last, start, mem, chain⟩ := run content held
  exact ⟨last, start, List.cons_subset_cons _ (List.subset_append_left _ _) mem, chain⟩

/-- A write that goes on from what the file holds. -/
theorem HistoryRun.entering {seeds : List String} (run : HistoryRun fsm seeds file)
    {current : String} (declared : Declared fsm current state)
    (goesOn : GoesOn fsm seeds (readFsmStateFile file) current) :
    HistoryRun fsm seeds (.held (.entering
      (((readFsmStateFile file).map FsmStateFile.history).getD []) state now)) := by
  intro content held
  cases held
  refine ⟨by simp [FsmStateFile.entered, FsmStateFile.entering], ?_⟩
  rcases Option.eq_none_or_eq_some (readFsmStateFile file) with empty | ⟨content, held⟩
  · rw [empty] at goesOn ⊢
    exact ⟨current, goesOn, .cons_cons (.single declared) (.singleton _)⟩
  · rw [held] at goesOn ⊢
    have here : content.state = current := goesOn
    obtain ⟨last, start, mem, chain⟩ := run content held
    refine ⟨start, mem, ?_⟩
    have next : Relation.TransGen (Declared fsm) content.state state := .single (here ▸ declared)
    have entered : (FsmStateFile.entering content.history state now).entered =
        content.entered ++ [state] := by
      simp [FsmStateFile.entered, FsmStateFile.entering]
    show List.IsChain _ (start :: (FsmStateFile.entering content.history state now).entered)
    rw [entered, ← List.cons_append]
    refine List.IsChain.append chain (.singleton _) fun x last' y same => ?_
    cases same
    rw [List.getLast?_cons, last] at last'
    cases last'
    exact next

theorem entered_entering :
    (FsmFile.held (.entering (((readFsmStateFile file).map FsmStateFile.history).getD []) state
      now)).entered = file.entered ++ [state] := by
  rw [FsmFile.entered, FsmFile.entered]
  rcases Option.eq_none_or_eq_some (readFsmStateFile file) with empty | ⟨content, held⟩
  · rw [empty]
    rfl
  · rw [held]
    simp [readFsmStateFile, FsmStateFile.entered, FsmStateFile.entering]

/-- A starting state stays one, and a written file stays written. -/
structure Later (s t : System) : Prop where
  seeds : s.seeds ⊆ t.seeds
  held : readFsmStateFile t.file = none → readFsmStateFile s.file = none

theorem Later.mem (later : Later s t) (start : state ∈ fsm.initial :: s.seeds) :
    state ∈ fsm.initial :: t.seeds :=
  List.cons_subset_cons _ later.seeds start

theorem Later.goesOn (later : Later s t) {seen : Option FsmStateFile}
    (goesOn : GoesOn fsm s.seeds seen state) : GoesOn fsm t.seeds seen state := by
  cases seen with
  | none => exact later.mem goesOn
  | some content => exact goesOn

theorem Call.fits.later {call : Call} (fits : call.fits fsm s) (later : Later s t) :
    call.fits fsm t := by
  cases call with
  | advance | seed | ended => trivial
  | advanceHistory now result seen =>
      obtain ⟨current, declared, goesOn⟩ := fits
      exact ⟨current, declared, later.goesOn goesOn⟩
  | advanceWrite now result history seen =>
      obtain ⟨⟨current, declared, goesOn⟩, whole⟩ := fits
      exact ⟨⟨current, declared, later.goesOn goesOn⟩, whole⟩
  | publish now state states history seen =>
      obtain ⟨walk, ⟨expected, declared, goesOn⟩, whole⟩ := fits
      exact ⟨walk, ⟨expected, declared, later.goesOn goesOn⟩, whole⟩
  | persist now expected states =>
      exact ⟨fits.1, fun empty => later.mem (fits.2 (later.held empty))⟩
  | waiting now expected state states | locked now expected state states =>
      exact ⟨fits.1, fun empty => later.mem (fits.2 (later.held empty))⟩

/-- What a step of one call leaves. -/
structure Kept (fsm : Fsm) (file : FsmFile) (s : System) (call : Call) (t : System) : Prop where
  later : Later s t
  calls : t.calls = s.calls
  history : HistoryRun fsm t.seeds t.file
  own : OwnEntries file t
  fits : call.fits fsm t

/-- A step that leaves the file's content, the seeds and the reports. -/
theorem Inv.unwritten (inv : Inv fsm file s) {call : Call} (fits : call.fits fsm s)
    (content : readFsmStateFile t.file = readFsmStateFile s.file) (seeds : t.seeds = s.seeds)
    (reported : t.reported = s.reported) (calls : t.calls = s.calls) : Kept fsm file s call t := by
  have later : Later s t := ⟨by rw [seeds]; exact List.Subset.refl _, fun empty => content ▸ empty⟩
  refine ⟨later, calls, ?_, ?_, fits.later later⟩
  · intro f held
    rw [seeds]
    exact inv.history f (content ▸ held)
  · rw [OwnEntries, FsmFile.entered, content, reported]
    exact inv.own

theorem Inv.seeded (inv : Inv fsm file s) {call : Call} {start : String}
    (fits : call.fits fsm { s with seeds := s.seeds ++ [start] }) :
    Kept fsm file s call { s with seeds := s.seeds ++ [start] } :=
  ⟨⟨List.subset_append_left _ _, id⟩, rfl, inv.history.more, inv.own, fits⟩

/-- A call that finds the file as it has seen it, and writes a state that goes on from it. -/
theorem Inv.write (inv : Inv fsm file s) {call : Call} {history : List FsmHistoryEntry}
    {seen : Option FsmStateFile} {current : String} (declared : Declared fsm current state)
    (goesOn : GoesOn fsm s.seeds seen current)
    (whole : history = (seen.map FsmStateFile.history).getD [])
    (found : readFsmStateFile s.file = seen)
    (file' : t.file = .held (.entering history state now)) (seeds : t.seeds = s.seeds)
    (reported : t.reported = s.reported ++ [state]) (calls : t.calls = s.calls)
    (fits : call.fits fsm t) : Kept fsm file s call t := by
  subst found whole
  refine ⟨⟨by rw [seeds]; exact List.Subset.refl _, fun empty => ?_⟩, calls, ?_, ?_, fits⟩
  · rw [file'] at empty
    cases empty
  · rw [file', seeds]
    exact inv.history.entering declared goesOn
  · obtain ⟨new, entered, credited⟩ := inv.own
    refine ⟨new ++ [state], ?_, ?_⟩
    · rw [file', entered_entering, entered, List.append_assoc]
    · rw [reported]
      exact credited.append (List.Subperm.refl _)

theorem Inv.next (valid : validateFsm actor.fsm = []) (plain : Plain actor.fsm)
    (inv : Inv actor.fsm file s) {call call' : Call} {i : Nat} {input : Input}
    (fits : call.fits actor.fsm s)
    (found : ∀ seen ∈ call.seen, readFsmStateFile s.file = seen)
    (fire : call.next actor i input s = some (call', t)) : Kept actor.fsm file s call' t := by
  cases call with
  | advance event now evalWhen =>
      obtain ⟨result, stepped, fire⟩ := Option.bind_eq_some_iff.mp fire
      split at fire
      · rename_i moved
        cases fire
        have declared := (stepFlat_declared valid plain (readFsmState_mem valid) stepped moved).1
        exact inv.unwritten ⟨_, declared, readFsmState_of_run valid inv.history⟩ rfl rfl rfl rfl
      · cases fire
        exact inv.unwritten trivial rfl rfl rfl rfl
  | advanceHistory now result seen =>
      cases fire
      exact inv.unwritten ⟨fits, by rw [found seen rfl]⟩ rfl rfl rfl rfl
  | advanceWrite now result history seen =>
      cases fire
      obtain ⟨⟨current, declared, goesOn⟩, whole⟩ := fits
      exact inv.write declared goesOn whole (found seen rfl) rfl rfl rfl rfl trivial
  | seed automation kind now =>
      rw [Call.next] at fire
      split at fire
      · cases fire
        exact inv.seeded trivial
      · rename_i effects last received
        cases fire
        refine inv.seeded ⟨?_, fun _ => ?_⟩
        · exact V2ObservedActor.receive_chain valid plain (seeded_mem valid _ _) received
        · exact List.mem_cons_of_mem _ (List.mem_append_right _ (List.mem_singleton_self _))
  | persist now expected states =>
      cases states with
      | nil =>
          cases fire
          exact inv.unwritten trivial rfl rfl rfl rfl
      | cons state states =>
          cases fire
          have same : (Call.waiting now expected state states).fits actor.fsm s := fits
          exact inv.unwritten same readFsmStateFile_opened rfl rfl rfl
  | waiting now expected state states =>
      rw [Call.next] at fire
      split at fire
      · cases fire
        exact inv.unwritten trivial rfl rfl rfl rfl
      · split at fire
        · cases fire
          have same : (Call.locked now expected state states).fits actor.fsm s := fits
          exact inv.unwritten same rfl rfl rfl rfl
        · cases fire
  | locked now expected state states =>
      obtain ⟨walk, start⟩ := fits
      obtain ⟨⟨declared, other⟩, rest⟩ := List.isChain_cons_cons.mp walk
      rw [Call.next] at fire
      rcases Option.eq_none_or_eq_some (readFsmStateFile s.file) with empty | ⟨content, held⟩
      · rw [empty] at fire
        cases fire
        exact inv.unwritten ⟨rest, ⟨expected, declared, start empty⟩, rfl⟩ rfl rfl rfl rfl
      · by_cases same : content.state = expected
        · rw [held, comparePrior_of_eq same other] at fire
          cases fire
          exact inv.unwritten ⟨rest, ⟨expected, declared, same⟩, rfl⟩ rfl rfl rfl rfl
        · rw [held, comparePrior_of_ne same] at fire
          cases fire
          exact inv.unwritten trivial rfl rfl rfl rfl
  | publish now state states history seen =>
      cases fire
      obtain ⟨walk, ⟨expected, declared, goesOn⟩, whole⟩ := fits
      refine inv.write declared goesOn whole (found seen rfl) rfl rfl rfl rfl ⟨walk, fun empty => ?_⟩
      cases empty
  | ended => cases fire

/-! ## Runs -/

theorem inv_init {seeds : List String} (start : HistoryRun fsm seeds file) :
    Inv fsm file { file, seeds } :=
  ⟨start, ⟨[], (List.append_nil _).symm, List.Subperm.refl _⟩, fun _ mem => by cases mem⟩

theorem Inv.spawn (inv : Inv fsm file s) {call : Call}
    (idle : ∀ u : System, call.fits fsm u) : Inv fsm file { s with calls := s.calls ++ [call] } := by
  refine ⟨inv.history, inv.own, fun c mem => ?_⟩
  rcases List.mem_append.mp mem with old | new
  · exact (inv.calls c old).later ⟨List.Subset.refl _, id⟩
  · rw [List.mem_singleton.mp new]
    exact idle _

theorem Inv.step (valid : validateFsm actor.fsm = []) (plain : Plain actor.fsm) {e : Event}
    (inv : Inv actor.fsm file s) (undisturbed : Undisturbed s e) (fire : step actor s e = some t) :
    Inv actor.fsm file t := by
  cases e with
  | advanceFsmState event now evalWhen =>
      cases fire
      exact inv.spawn fun _ => trivial
  | runV2Cartridges automation kind now =>
      cases fire
      exact inv.spawn fun _ => trivial
  | step i input =>
      obtain ⟨call, here, fire⟩ := Option.bind_eq_some_iff.mp fire
      obtain ⟨⟨call', u⟩, moved, fire⟩ := Option.bind_eq_some_iff.mp fire
      cases fire
      have kept := inv.next valid plain (inv.calls call (List.mem_of_getElem? here))
        (undisturbed call here) moved
      refine ⟨kept.history, kept.own, fun c mem => ?_⟩
      have same : Later u { u with calls := u.calls.set i call' } := ⟨List.Subset.refl _, id⟩
      rcases List.mem_or_eq_of_mem_set mem with old | rfl
      · rw [kept.calls] at old
        exact ((inv.calls c old).later kept.later).later same
      · exact kept.fits.later same

theorem inv_of_run (valid : validateFsm actor.fsm = []) (plain : Plain actor.fsm)
    {seeds : List String} (start : HistoryRun actor.fsm seeds file)
    (run : Steps (step actor) Undisturbed { file, seeds } s) : Inv actor.fsm file s :=
  run.invariant (inv_init start) fun _ _ _ inv undisturbed fire =>
    inv.step valid plain undisturbed fire

/-- In runs in which every call finds the file as it has seen it, the history is a run of
the machine and every reported transition has its entry; and a first write is accepted
exactly where the file seeds its own state. -/
theorem history_is_run {actor : V2ObservedActor} {file : FsmFile} {seeds : List String}
    (valid : validateFsm actor.fsm = []) (plain : Plain actor.fsm)
    (start : HistoryRun actor.fsm seeds file) :
    (∀ s, Steps (step actor) Undisturbed { file, seeds } s →
      HistoryRun actor.fsm s.seeds s.file ∧ OwnEntries file s) ∧
    ∀ (held : FsmFile) (automation : Bool) (checkpoint : Option String) (current now : String),
      (persistActorState held current now
          (some (resolveSeededActorState actor.fsm automation checkpoint held))).1 = true ↔
        SeedsItself actor.fsm automation checkpoint held := by
  constructor
  · intro s run
    have inv := inv_of_run valid plain start run
    exact ⟨inv.history, inv.own⟩
  · intro held automation checkpoint current now
    exact accepted_iff valid

/-! ## Two advances at once -/

/-- A machine with a gate in front of each of its two transitions. -/
def draftActor : V2ObservedActor :=
  { fsm :=
      { initial := "scope"
        states := ["scope", "plan", "author"]
        transitions := [{ «from» := "scope", on := some "scoped", «to» := "plan" },
          { «from» := "plan", on := some "planned", «to» := "author" }] }
    entryOf := fun state =>
      if state = "scope" then
        some { kind := .gate, guard := some "ready", emits := some "scoped", trigger := some ["stop"] }
      else if state = "plan" then
        some { kind := .gate, guard := some "ready", emits := some "planned", trigger := some ["stop"] }
      else some { kind := .terminal, outcome := some .shipped } }

/-- A hook process whose guards hold, and after it an advance. -/
def inTurn : List Event :=
  [.runV2Cartridges false "stop" "t1", .step 0 { eval := fun _ => some true }, .step 0 {},
    .step 0 {}, .step 0 {}, .step 0 {}, .step 0 {},
    .advanceFsmState "planned" "t2" none, .step 1 {}, .step 1 {}, .step 1 {}]

/-- Two advances that both read before either writes. -/
def atOnce : List Event :=
  [.advanceFsmState "scoped" "t1" none, .advanceFsmState "scoped" "t2" none, .step 0 {}, .step 1 {},
    .step 0 {}, .step 1 {}, .step 0 {}, .step 1 {}]

/-- The states entered and the states reported. -/
def System.summary (s : System) : List String × List String := (s.file.entered, s.reported)

theorem inTurn_run : (runWhile (step draftActor) (fun s e => Undisturbed s e) { file := .absent }
    inTurn).map System.summary = some (["plan", "author"], ["plan", "author"]) := by
  decide +kernel

theorem atOnce_run : (runWhile (step draftActor) (fun _ _ => true) { file := .absent } atOnce).map
    System.summary = some (["plan"], ["plan", "plan"]) := by
  decide +kernel

theorem history_is_run_inTurn : ∃ s, s.reported = ["plan", "author"] ∧
    HistoryRun draftActor.fsm s.seeds s.file ∧ OwnEntries .absent s := by
  obtain ⟨s, replay, summary⟩ := Option.map_eq_some_iff.mp inTurn_run
  have fresh : HistoryRun draftActor.fsm [] .absent := fun _ held => by cases held
  exact ⟨s, (Prod.mk.inj summary).2, (history_is_run (by decide +kernel) (by decide +kernel) fresh).1 s
    (Steps.of_runWhile (fun _ _ => of_decide_eq_true) replay)⟩

/-- Both report the transition, and there is one entry. -/
theorem concurrent_advance_lost : ∃ s, Steps (step draftActor) AnyStep { file := .absent } s ∧
    ¬ OwnEntries .absent s := by
  obtain ⟨s, replay, summary⟩ := Option.map_eq_some_iff.mp atOnce_run
  obtain ⟨entered, reported⟩ := Prod.mk.inj summary
  refine ⟨s, Steps.of_runWhile (fun _ _ _ => trivial) replay, ?_⟩
  rintro ⟨new, same, credited⟩
  have one : new = ["plan"] := same.symm.trans entered
  have short := credited.length_le
  rw [one, reported] at short
  exact absurd short (by decide)

end Opensquid.Runtime
