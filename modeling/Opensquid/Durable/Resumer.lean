import Opensquid.Durable.Resume
import Mathlib.Data.List.Dedup

/-!
# The resumer

At its start the daemon scans the checkpoint table for interrupted runs, and hands each to an
evaluator with the bindings that the rows hold and the step after the last completed one. The
evaluator of the interrupted run had more: what pure and failed steps bound has no row, a failed
step that goes on has no completed one, and after a terminal step there was no next step
(`pure_binding_lost`). `hands_back_iff` says when the state is the evaluator's own, and whatever
steps follow end as they would have.
-/

namespace Opensquid.Durable

open Opensquid.Lib

/-! ## What the resumer reads -/

namespace CheckpointStore

section

variable {ρ : Type} (engine : Engine ρ)

/-- One row of `loadBindings`; assigning `__proto__` adds no name. -/
def loadBinding (out : Bindings ρ) (row : CheckpointRow) : Bindings ρ :=
  match row.asBinding with
  | none => out
  | some name =>
      if name = "__proto__" then out
      else out.set name (engine.parsed row.stepIdx row.outputs.revive)

def loadBindings (store : CheckpointStore) (runId : String) : Bindings ρ :=
  ((store.rows.filter fun row =>
      row.runId = runId ∧ row.status = .completed ∧ row.asBinding.isSome).insertionSort
    (·.stepIdx ≤ ·.stepIdx)).foldl (loadBinding engine) []

end

end CheckpointStore

structure InterruptedSummary where
  runId : String
  lastCompletedStep : Nat
  lastCompletedAtMs : Int
  deriving DecidableEq, Repr

/-- The column `completed_at_ms`, by run and step. -/
abbrev CompletedAt := String → Nat → Int

/-- The resume window; none is infinite. -/
def inWindow (withinMs : Option Int) (nowMs completedAtMs : Int) : Bool :=
  withinMs.all fun within => within ≤ 0 ∨ nowMs - within ≤ completedAtMs

/-- The runs with completed rows in the window and no terminal marker, the latest first. -/
def CheckpointStore.scanInterrupted (store : CheckpointStore) (completedAtMs : CompletedAt)
    (terminalMarkers : List String) (withinMs : Option Int) (nowMs : Int) :
    List InterruptedSummary :=
  let rows := store.rows.filter fun row => row.runId ∉ terminalMarkers ∧
    row.status = .completed ∧ inWindow withinMs nowMs (completedAtMs row.runId row.stepIdx)
  let summary (runId : String) : InterruptedSummary :=
    let mine := rows.filter fun row => row.runId = runId
    { runId
      lastCompletedStep := (mine.map CheckpointRow.stepIdx).max?.getD 0
      lastCompletedAtMs := (mine.map fun row => completedAtMs runId row.stepIdx).max?.getD 0 }
  ((rows.map CheckpointRow.runId).dedup.map summary).insertionSort
    fun x y => y.lastCompletedAtMs ≤ x.lastCompletedAtMs

structure InterruptedRun where
  runId : String
  lastCompletedStep : Nat
  packVersion : String

structure ResolvedRule where
  process : List ProcessStep
  packVersion : String

inductive SkipReason
  | packMissing
  | packVersionMismatch
  deriving DecidableEq, Repr

structure RunEvaluatorInput (ρ : Type) where
  bindings : Bindings ρ
  entryStepIdx : Nat

/-- What `resume` gives to its evaluator, or why it skips the run. -/
def resume {ρ : Type} (engine : Engine ρ) (store : CheckpointStore) (run : InterruptedRun) :
    Option ResolvedRule → Except SkipReason (RunEvaluatorInput ρ)
  | none => .error .packMissing
  | some resolved =>
      if resolved.packVersion ≠ run.packVersion then .error .packVersionMismatch
      else .ok ⟨store.loadBindings engine run.runId, run.lastCompletedStep + 1⟩

/-- The initial bindings, overwritten. -/
def Bindings.overwrite {ρ : Type} (initial loaded : Bindings ρ) : Bindings ρ :=
  loaded.foldl (fun bindings entry => bindings.set entry.1 entry.2) initial

/-! ## Names -/

section

variable {ρ : Type}

theorem keys_set (bindings : Bindings ρ) (name : String) (value : ρ)
    (distinct : (bindings.map Prod.fst).Nodup) : ((bindings.set name value).map Prod.fst).Nodup := by
  rw [Bindings.set]
  split
  · have same : (bindings.map fun entry => if entry.1 = name then (name, value) else entry).map
        Prod.fst = bindings.map Prod.fst := by
      rw [List.map_map]
      refine List.map_congr_left fun entry _ => ?_
      rw [Function.comp_apply]
      split
      · rename_i here
        exact here.symm
      · rfl
    rwa [same]
  · rename_i unbound
    rw [List.map_append, List.nodup_append]
    refine ⟨distinct, List.nodup_singleton _, ?_⟩
    rintro key old key' new rfl
    obtain ⟨entry, mem, rfl⟩ := List.mem_map.mp old
    exact unbound (List.any_eq_true.mpr
      ⟨entry, mem, decide_eq_true (List.mem_singleton.mp new)⟩)

theorem get_overwrite {loaded : Bindings ρ} (distinct : (loaded.map Prod.fst).Nodup)
    (initial : Bindings ρ) (name : String) :
    Value.get name (initial.overwrite loaded) =
      (Value.get name loaded).or (Value.get name initial) := by
  induction loaded generalizing initial with
  | nil => rfl
  | cons entry rest ih =>
      rw [List.map_cons, List.nodup_cons] at distinct
      have next := ih distinct.2 (initial.set entry.1 entry.2)
      rw [Bindings.get_set] at next
      rw [Value.get]
      refine next.trans ?_
      split
      · rename_i same
        have absent : Value.get name rest = none := Bindings.get_eq_none_iff.mpr fun other mem named =>
          distinct.1 (same ▸ named ▸ List.mem_map_of_mem mem)
        rw [absent]
        rfl
      · rfl

theorem get_contentsOf_overwrite (engine : Engine ρ) {loaded : Bindings ρ}
    (distinct : (loaded.map Prod.fst).Nodup) (initial : Bindings ρ) (name : String) :
    Value.get name (engine.contentsOf (initial.overwrite loaded)) =
      (Value.get name (engine.contentsOf loaded)).or
        (Value.get name (engine.contentsOf initial)) := by
  rw [get_contentsOf, get_contentsOf, get_contentsOf, get_overwrite distinct]
  cases Value.get name loaded <;> rfl

end

/-! ## The interrupted run -/

/-- A step that was not skipped, and its call. -/
structure Executed (ρ : Type) where
  stepIdx : Nat
  step : ProcessStep
  call : Called ρ

/-- Where a run is cut off after a write: the steps it executed, what the loop does after the last
of them, and the steps that follow. -/
structure Cut (ρ : Type) where
  executed : List (Executed ρ)
  stepIdx : Nat
  next : Next ρ
  rest : List ProcessStep

section

variable {ρ : Type} (engine : Engine ρ) (registry : FunctionRegistry engine) (runId : String)

/-- A first run, cut off after its `n + 1`-st write. -/
def cutAfter : Nat → Nat → List ProcessStep → Bindings ρ → Option (Cut ρ)
  | _, _, [], _ => none
  | n, i, step :: rest, bindings =>
      if skipped engine step bindings then cutAfter n (i + 1) rest bindings
      else
        let call := invoke engine registry runId i step bindings none
        let next := afterCall engine i step bindings call.result
        if n < call.writes.length then some ⟨[⟨i, step, call⟩], i, next, rest⟩
        else
          match next with
          | .done _ => none
          | .go after => (cutAfter (n - call.writes.length) (i + 1) rest after).map fun cut =>
              { cut with executed := ⟨i, step, call⟩ :: cut.executed }

end

/-! ### A cut, step by step -/

section

variable {ρ : Type} {engine : Engine ρ} {registry : FunctionRegistry engine} {runId : String}

/-- The cases of `cutAfter`. -/
inductive CutAt (engine : Engine ρ) (registry : FunctionRegistry engine) (runId : String) :
    Nat → Nat → List ProcessStep → Bindings ρ → Cut ρ → Prop
  | skip {n i : Nat} {step : ProcessStep} {rest : List ProcessStep} {bindings : Bindings ρ}
      {cut : Cut ρ} :
      skipped engine step bindings = true → CutAt engine registry runId n (i + 1) rest bindings cut →
      CutAt engine registry runId n i (step :: rest) bindings cut
  | here {n i : Nat} {step : ProcessStep} {rest : List ProcessStep} {bindings : Bindings ρ}
      {call : Called ρ} :
      skipped engine step bindings = false →
      invoke engine registry runId i step bindings none = call → n < call.writes.length →
      CutAt engine registry runId n i (step :: rest) bindings
        ⟨[⟨i, step, call⟩], i, afterCall engine i step bindings call.result, rest⟩
  | later {n i : Nat} {step : ProcessStep} {rest : List ProcessStep} {bindings after : Bindings ρ}
      {call : Called ρ} {cut : Cut ρ} :
      skipped engine step bindings = false →
      invoke engine registry runId i step bindings none = call → ¬ n < call.writes.length →
      afterCall engine i step bindings call.result = .go after →
      CutAt engine registry runId (n - call.writes.length) (i + 1) rest after cut →
      CutAt engine registry runId n i (step :: rest) bindings
        { cut with executed := ⟨i, step, call⟩ :: cut.executed }

theorem cutAt_of_cutAfter {steps : List ProcessStep} {n i : Nat} {bindings : Bindings ρ} {cut : Cut ρ}
    (stops : cutAfter engine registry runId n i steps bindings = some cut) :
    CutAt engine registry runId n i steps bindings cut := by
  induction steps generalizing n i bindings cut with
  | nil => cases stops
  | cons step rest ih =>
      rw [cutAfter] at stops
      split at stops
      · rename_i skip
        exact .skip skip (ih stops)
      · rename_i executed
        rw [Bool.not_eq_true] at executed
        dsimp only at stops
        split at stops
        · rename_i last
          cases stops
          exact .here executed rfl last
        · rename_i earlier
          split at stops
          · cases stops
          · rename_i after go
            obtain ⟨inner, inside, rfl⟩ := Option.map_eq_some_iff.mp stops
            exact .later executed rfl earlier go (ih inside)

/-- A first call writes a row exactly if its primitive is durable. -/
theorem invoke_writes {i : Nat} {step : ProcessStep} {bindings : Bindings ρ} {call : Called ρ}
    (called : invoke engine registry runId i step bindings none = call) :
    (registry.durable step.call = false ∧ call.writes = []) ∨
      (registry.durable step.call = true ∧ ∃ args,
        call.writes = [checkpointWrite engine runId i step args call.result]) := by
  subst called
  unfold invoke
  dsimp only
  split
  · rename_i durable
    exact .inr ⟨durable, _, rfl⟩
  · rename_i pure
    exact .inl ⟨Bool.not_eq_true _ ▸ pure, rfl⟩

theorem length_writes_le {i : Nat} {step : ProcessStep} {bindings : Bindings ρ} {call : Called ρ}
    (called : invoke engine registry runId i step bindings none = call) :
    call.writes.length ≤ 1 := by
  rcases invoke_writes called with ⟨_, none⟩ | ⟨_, args, one⟩
  · rw [none]
    exact Nat.zero_le 1
  · rw [one]
    exact le_rfl

variable {n i : Nat} {steps : List ProcessStep} {bindings : Bindings ρ} {cut : Cut ρ}

/-- The writes before the cut are those of the executed steps. -/
theorem CutAt.writes (stops : CutAt engine registry runId n i steps bindings cut) :
    (evalSteps engine registry runId noPrior i steps bindings).writes.take (n + 1) =
      cut.executed.flatMap fun e => e.call.writes := by
  induction stops with
  | skip skip _ ih =>
      rw [evalSteps, if_pos skip]
      exact ih
  | here executed called last =>
      rename_i n i step rest bindings call
      have one := length_writes_le called
      have whole : (call.writes.length : Nat) = n + 1 := by omega
      rw [evalSteps, if_neg (Bool.not_eq_true _ ▸ executed)]
      dsimp only [noPrior]
      rw [called]
      have writes : ∀ run : Run ρ, (Run.after call run).writes.take (n + 1) = call.writes := by
        intro run
        rw [Run.after, List.take_append_of_le_length whole.ge, List.take_of_length_le whole.le]
      rw [List.flatMap_singleton]
      split
      · exact writes _
      · exact writes _
  | later executed called earlier go _ ih =>
      rename_i n i step rest bindings after call cut _
      rw [evalSteps, if_neg (Bool.not_eq_true _ ▸ executed)]
      dsimp only [noPrior]
      rw [called, go]
      dsimp only
      rw [Run.after, List.take_append, List.take_of_length_le (by omega), List.flatMap_cons, ← ih]
      congr 2
      omega

/-- The steps that a cut has executed, in order, from the first one on. -/
theorem CutAt.order (stops : CutAt engine registry runId n i steps bindings cut) :
    i ≤ cut.stepIdx ∧ (∀ e ∈ cut.executed, i ≤ e.stepIdx ∧ e.stepIdx ≤ cut.stepIdx) ∧
      cut.executed.Pairwise (fun e e' => e.stepIdx < e'.stepIdx) ∧
      steps.drop (cut.stepIdx + 1 - i) = cut.rest := by
  induction stops with
  | skip _ _ ih =>
      rename_i n i step rest bindings cut _ _
      obtain ⟨start, within, increasing, rest⟩ := ih
      refine ⟨by omega, fun e mem => ⟨by have := (within e mem).1; omega, (within e mem).2⟩,
        increasing, ?_⟩
      rw [show cut.stepIdx + 1 - i = cut.stepIdx + 1 - (i + 1) + 1 by omega, List.drop_succ_cons]
      exact rest
  | here =>
      rename_i n i step rest bindings call _ _ _
      refine ⟨le_rfl, List.forall_mem_singleton.mpr ⟨le_rfl, le_rfl⟩, List.pairwise_singleton _ _, ?_⟩
      rw [Nat.add_sub_cancel_left]
      rfl
  | later _ _ _ _ _ ih =>
      rename_i n i step rest bindings after call cut _ _ _ _ _
      obtain ⟨start, within, increasing, rest⟩ := ih
      refine ⟨by dsimp only; omega, List.forall_mem_cons.mpr ⟨⟨le_rfl, by dsimp only; omega⟩, ?_⟩,
        List.pairwise_cons.mpr ⟨fun e mem => (within e mem).1, increasing⟩, ?_⟩
      · exact fun e mem => ⟨by have := (within e mem).1; omega, (within e mem).2⟩
      · dsimp only
        rw [show cut.stepIdx + 1 - i = cut.stepIdx + 1 - (i + 1) + 1 by omega, List.drop_succ_cons]
        exact rest

theorem CutAt.called (stops : CutAt engine registry runId n i steps bindings cut) :
    ∀ e ∈ cut.executed, ∃ b, invoke engine registry runId e.stepIdx e.step b none = e.call := by
  induction stops with
  | skip _ _ ih => exact ih
  | here _ called _ => exact List.forall_mem_singleton.mpr ⟨_, called⟩
  | later _ called _ _ _ ih => exact List.forall_mem_cons.mpr ⟨⟨_, called⟩, ih⟩

/-- The last executed step is the one that wrote. -/
theorem CutAt.last (stops : CutAt engine registry runId n i steps bindings cut) :
    ∃ before e, cut.executed = before ++ [e] ∧ e.stepIdx = cut.stepIdx ∧ e.call.writes ≠ [] := by
  induction stops with
  | skip _ _ ih => exact ih
  | here _ _ last => exact ⟨[], _, rfl, rfl, List.ne_nil_of_length_pos (Nat.zero_lt_of_lt last)⟩
  | later _ _ _ _ _ ih =>
      obtain ⟨before, e, split, place, wrote⟩ := ih
      exact ⟨_ :: before, e, congrArg _ split, place, wrote⟩

/-- The loop goes on with what the executed steps bound, and ends as from there. -/
theorem CutAt.go (stops : CutAt engine registry runId n i steps bindings cut) {after : Bindings ρ}
    (go : cut.next = .go after) :
    after = cut.executed.foldl (fun b e => bindAs e.step (boundValue engine e.call.result) b)
      bindings ∧
    ∃ done ws, steps = done ++ cut.rest ∧ i + done.length = cut.stepIdx + 1 ∧
      Passes engine registry runId noPrior i done bindings ws after := by
  induction stops with
  | skip skip _ ih =>
      obtain ⟨bound, done, ws, rfl, place, passes⟩ := ih go
      refine ⟨bound, _ :: done, _, rfl, ?_, Passes.append (.skip skip) passes⟩
      rw [List.length_cons]
      omega
  | here executed called _ =>
      rename_i n i step rest bindings call _
      dsimp only at go
      refine ⟨(bindings_of_go go).2, [step], _, rfl, rfl, Passes.go executed ?_⟩
      rw [noPrior, called]
      exact go
  | later executed called _ goes _ ih =>
      rename_i n i step rest bindings after call cut _ _
      obtain ⟨bound, done, ws, rfl, place, passes⟩ := ih go
      rw [(bindings_of_go goes).2] at bound
      refine ⟨bound, step :: done, _, rfl, ?_, Passes.append (.go executed ?_) passes⟩
      · rw [List.length_cons]
        dsimp only
        omega
      · rw [noPrior, called]
        exact goes

end

/-! ### What the executed steps bound, and what is kept of it -/

/-- What the last item gives that gives something. -/
def lastOf {α β : Type} (f : α → Option β) : List α → Option β
  | [] => none
  | x :: rest => (lastOf f rest).or (f x)

theorem lastOf_append {α β : Type} (f : α → Option β) (xs ys : List α) :
    lastOf f (xs ++ ys) = (lastOf f ys).or (lastOf f xs) := by
  induction xs with
  | nil => exact Option.or_none.symm
  | cons x xs ih => rw [List.cons_append, lastOf, lastOf, ih, Option.or_assoc]

theorem lastOf_eq_none {α β : Type} {f : α → Option β} {xs : List α}
    (silent : ∀ x ∈ xs, f x = none) : lastOf f xs = none := by
  induction xs with
  | nil => rfl
  | cons x xs ih =>
      obtain ⟨here, later⟩ := List.forall_mem_cons.mp silent
      rw [lastOf, ih later, here, Option.or_none]

/-- What is read after a fold of which each step writes it or leaves it. -/
theorem read_foldl {α β γ : Type} {write : β → α → β} (read : β → Option γ) {f : α → Option γ}
    (one : ∀ b x, read (write b x) = (f x).or (read b)) (xs : List α) (b : β) :
    read (xs.foldl write b) = (lastOf f xs).or (read b) := by
  induction xs generalizing b with
  | nil => rfl
  | cons x xs ih => rw [List.foldl_cons, ih, one, lastOf, Option.or_assoc]

section

variable {ρ : Type} {engine : Engine ρ}

namespace Executed

def bound (engine : Engine ρ) (name : String) (e : Executed ρ) : Option Value :=
  if e.step.as = some name then some (engine.contents (boundValue engine e.call.result)) else none

/-- The output of a durable step that succeeded. -/
def output (registry : FunctionRegistry engine) (e : Executed ρ) : Option Value :=
  if registry.durable e.step.call then e.call.result.toOption.map engine.contents else none

/-- What its row holds for the name. -/
def kept (registry : FunctionRegistry engine) (name : String) (e : Executed ρ) : Option Value :=
  if e.step.as = some name ∧ name ≠ "__proto__" then (e.output registry).map Value.restore
  else none

end Executed

theorem get_bindAs (name : String) (bindings : Bindings ρ) (e : Executed ρ) :
    Value.get name (engine.contentsOf (bindAs e.step (boundValue engine e.call.result) bindings)) =
      (e.bound engine name).or (Value.get name (engine.contentsOf bindings)) := by
  rw [contentsOf_bindAs, bindAs, Executed.bound]
  cases e.step.as with
  | none => rfl
  | some other =>
      dsimp only
      rw [Bindings.get_set]
      by_cases same : other = name
      · rw [if_pos same, if_pos (congrArg some same), Option.some_or]
      · rw [if_neg same, if_neg (fun named => same (Option.some.inj named)), Option.none_or]

def loadedFor (name : String) (row : CheckpointRow) : Option Value :=
  if row.asBinding = some name ∧ name ≠ "__proto__" then some row.outputs.revive else none

theorem get_loadBinding (name : String) (bindings : Bindings ρ) (row : CheckpointRow) :
    Value.get name (engine.contentsOf (CheckpointStore.loadBinding engine bindings row)) =
      (loadedFor name row).or (Value.get name (engine.contentsOf bindings)) := by
  rw [CheckpointStore.loadBinding, loadedFor]
  cases row.asBinding with
  | none => rfl
  | some other =>
      dsimp only
      split
      · rename_i proto
        rw [if_neg fun both => both.2 (Option.some.inj both.1 ▸ proto), Option.none_or]
      · rename_i ordinary
        rw [contentsOf_set, engine.contents_parsed, Bindings.get_set]
        by_cases same : other = name
        · subst same
          rw [if_pos rfl, if_pos ⟨rfl, ordinary⟩, Option.some_or]
        · rw [if_neg same, if_neg (fun both => same (Option.some.inj both.1)), Option.none_or]

end

/-! ### The rows of the run -/

/-- The row as the table holds it. -/
def held (write : CheckpointRow) : CheckpointRow :=
  { write with outputs := write.outputs.canonicalize }

theorem rows_foldl_append {writes : List CheckpointRow} {store : CheckpointStore}
    (new : ∀ write ∈ writes, ∀ row ∈ store.rows, ¬ row.SameKey write)
    (apart : writes.Pairwise fun write write' => ¬ write.SameKey write') :
    (writes.foldl CheckpointStore.append store).rows = store.rows ++ writes.map held := by
  induction writes generalizing store with
  | nil => exact (List.append_nil _).symm
  | cons write rest ih =>
      obtain ⟨first, later⟩ := List.pairwise_cons.mp apart
      obtain ⟨newHere, newLater⟩ := List.forall_mem_cons.mp new
      have rows : (store.append write).rows = store.rows ++ [held write] := by
        rw [CheckpointStore.append]
        exact congrArg (· ++ [held write])
          (List.filter_eq_self.mpr fun row mem => decide_eq_true (newHere row mem))
      rw [List.foldl_cons, ih ?_ later, rows, List.append_assoc]
      · rfl
      · intro other mem row there
        rw [rows] at there
        rcases List.mem_append.mp there with old | added
        · exact newLater other mem row old
        · rw [List.mem_singleton.mp added]
          exact first other mem

theorem not_mem_of_fetchRun {store : CheckpointStore} {runId : String}
    (fresh : store.fetchRun runId = []) : ∀ row ∈ store.rows, row.runId ≠ runId := by
  intro row mem mine
  have read : CheckpointStore.rowToCheckpoint row ∈ store.fetchRun runId :=
    CheckpointStore.mem_fetchRun.mpr ⟨row, mem, mine, rfl⟩
  rw [fresh] at read
  cases read

section

variable {ρ : Type} {engine : Engine ρ} {registry : FunctionRegistry engine} {runId : String}
  {n i : Nat} {steps : List ProcessStep} {bindings : Bindings ρ} {cut : Cut ρ}

/-- What a step has written. -/
def Executed.Wrote (engine : Engine ρ) (registry : FunctionRegistry engine) (runId : String)
    (e : Executed ρ) : Prop :=
  (registry.durable e.step.call = false ∧ e.call.writes = []) ∨
    (registry.durable e.step.call = true ∧ ∃ args,
      e.call.writes = [checkpointWrite engine runId e.stepIdx e.step args e.call.result])

theorem CutAt.wrote (stops : CutAt engine registry runId n i steps bindings cut) :
    ∀ e ∈ cut.executed, e.Wrote engine registry runId := by
  intro e mem
  obtain ⟨b, called⟩ := stops.called e mem
  exact invoke_writes called

theorem Executed.Wrote.row {e : Executed ρ} (wrote : e.Wrote engine registry runId)
    {write : CheckpointRow} (mem : write ∈ e.call.writes) :
    write.runId = runId ∧ write.stepIdx = e.stepIdx ∧
      (write.status = .completed ↔ ∃ v, e.call.result = .ok v) := by
  rcases wrote with ⟨_, none⟩ | ⟨_, args, one⟩
  · rw [none] at mem
    cases mem
  · rw [one] at mem
    rw [List.mem_singleton.mp mem]
    obtain ⟨run, step, _, _, _, status⟩ := checkpointWrite_spec engine runId e.stepIdx e.step args
      e.call.result
    exact ⟨run, step, status⟩

/-- The rows that `loadBindings` selects of its run. -/
def selected (row : CheckpointRow) : Bool := row.status = .completed ∧ row.asBinding.isSome

/-- What is loaded of one step. -/
theorem Executed.Wrote.loads {e : Executed ρ} (wrote : e.Wrote engine registry runId)
    (name : String) :
    lastOf (loadedFor name) ((e.call.writes.map held).filter selected) = e.kept registry name := by
  rcases wrote with ⟨pure, none⟩ | ⟨durable, args, one⟩
  · rw [none, Executed.kept, Executed.output, pure]
    exact (ite_self _).symm
  · rw [one, Executed.kept, Executed.output, if_pos durable]
    cases e.call.result with
    | error message => exact (ite_self _).symm
    | ok v =>
        cases as : e.step.as with
        | none =>
            rw [if_neg (fun both => by cases both.1)]
            have dropped : selected (held (checkpointWrite engine runId e.stepIdx e.step args (.ok v)))
                = false := by
              rw [selected]
              refine decide_eq_false fun both => ?_
              have absent : (held (checkpointWrite engine runId e.stepIdx e.step args
                (.ok v))).asBinding = none := as
              rw [absent] at both
              cases both.2
            rw [List.map_singleton, List.filter_singleton, dropped]
            rfl
        | some other =>
            have kept : selected (held (checkpointWrite engine runId e.stepIdx e.step args (.ok v)))
                = true := by
              have present : (held (checkpointWrite engine runId e.stepIdx e.step args
                (.ok v))).asBinding = some other := as
              rw [selected, present]
              rfl
            rw [List.map_singleton, List.filter_singleton, kept, cond_true, lastOf, lastOf,
              Option.none_or, loadedFor]
            have named : (held (checkpointWrite engine runId e.stepIdx e.step args (.ok v))).asBinding =
                some other := as
            rw [named]
            rfl

/-- The rows that a run cut off has left, in a table that had none of it. -/
theorem CutAt.rows (stops : CutAt engine registry runId n i steps bindings cut)
    {store : CheckpointStore} (fresh : store.fetchRun runId = []) :
    ((cut.executed.flatMap fun e => e.call.writes).foldl CheckpointStore.append store).rows =
      store.rows ++ (cut.executed.flatMap fun e => e.call.writes).map held ∧
    (cut.executed.flatMap fun e => e.call.writes).Pairwise
      (fun write write' => write.stepIdx < write'.stepIdx) := by
  have increasing : (cut.executed.flatMap fun e => e.call.writes).Pairwise
      (fun write write' => write.stepIdx < write'.stepIdx) := by
    rw [List.pairwise_flatMap]
    constructor
    · intro e mem
      rcases stops.wrote e mem with ⟨_, none⟩ | ⟨_, args, one⟩
      · rw [none]
        exact .nil
      · rw [one]
        exact List.pairwise_singleton _ _
    · refine stops.order.2.2.1.imp_of_mem fun {e e'} mem mem' before write wrote write' wrote' => ?_
      rw [((stops.wrote e mem).row wrote).2.1, ((stops.wrote e' mem').row wrote').2.1]
      exact before
  refine ⟨rows_foldl_append (fun write mem row there same => ?_)
    (increasing.imp fun before same => before.ne same.2), increasing⟩
  obtain ⟨e, executed, wrote⟩ := List.mem_flatMap.mp mem
  exact not_mem_of_fetchRun fresh row there (same.1.trans ((stops.wrote e executed).row wrote).1)

/-- `loadBindings` finds what the rows keep of each name. -/
theorem CutAt.loads (stops : CutAt engine registry runId n i steps bindings cut)
    {store : CheckpointStore} (fresh : store.fetchRun runId = []) (name : String) :
    Value.get name (engine.contentsOf (CheckpointStore.loadBindings engine
      ((cut.executed.flatMap fun e => e.call.writes).foldl CheckpointStore.append store) runId)) =
      lastOf (Executed.kept registry name) cut.executed := by
  obtain ⟨rows, increasing⟩ := stops.rows fresh
  have filtered : ∀ writes : List CheckpointRow, (∀ write ∈ writes, write.runId = runId) →
      (writes.map held).filter (fun row => row.runId = runId ∧ row.status = .completed ∧
        row.asBinding.isSome) = (writes.map held).filter selected := by
    intro writes mine
    refine List.filter_congr fun row mem => ?_
    obtain ⟨write, written, rfl⟩ := List.mem_map.mp mem
    exact decide_eq_decide.mpr (and_iff_right (mine write written))
  have mine : ∀ write ∈ cut.executed.flatMap (fun e => e.call.writes), write.runId = runId := by
    intro write mem
    obtain ⟨e, executed, wrote⟩ := List.mem_flatMap.mp mem
    exact ((stops.wrote e executed).row wrote).1
  have others : store.rows.filter (fun row => row.runId = runId ∧ row.status = .completed ∧
      row.asBinding.isSome) = [] :=
    List.filter_eq_nil_iff.mpr fun row mem both =>
      not_mem_of_fetchRun fresh row mem (of_decide_eq_true both).1
  have ordered : ((cut.executed.flatMap fun e => e.call.writes).map held).Pairwise
      (fun row row' : CheckpointRow => row.stepIdx ≤ row'.stepIdx) :=
    List.pairwise_map.mpr (increasing.imp fun before => le_of_lt before)
  have sorted := ordered.filter selected
  have perStep : ∀ executed : List (Executed ρ), (∀ e ∈ executed, e.Wrote engine registry runId) →
      lastOf (loadedFor name)
        (((executed.flatMap fun e => e.call.writes).map held).filter selected) =
        lastOf (Executed.kept registry name) executed := by
    intro executed wrote
    induction executed with
    | nil => rfl
    | cons e rest ih =>
        obtain ⟨here, later⟩ := List.forall_mem_cons.mp wrote
        rw [List.flatMap_cons, List.map_append, List.filter_append, lastOf_append, lastOf,
          ih later, here.loads name]
  have folded : ∀ rows out, Value.get name (engine.contentsOf
      (rows.foldl (CheckpointStore.loadBinding engine) out)) =
      (lastOf (loadedFor name) rows).or (Value.get name (engine.contentsOf out)) :=
    read_foldl (fun out => Value.get name (engine.contentsOf out)) (get_loadBinding name)
  rw [CheckpointStore.loadBindings, rows, List.filter_append, others, List.nil_append,
    filtered _ mine, List.Pairwise.insertionSort_eq sorted, folded, perStep _ stops.wrote,
    Engine.contentsOf, List.map_nil, Value.get, Option.or_none]

theorem keys_loadBindings (engine : Engine ρ) (store : CheckpointStore) (runId : String) :
    ((store.loadBindings engine runId).map Prod.fst).Nodup := by
  have step : ∀ (rows : List CheckpointRow) (out : Bindings ρ), (out.map Prod.fst).Nodup →
      ((rows.foldl (CheckpointStore.loadBinding engine) out).map Prod.fst).Nodup := by
    intro rows
    induction rows with
    | nil => exact fun _ distinct => distinct
    | cons row rest ih =>
        intro out distinct
        refine ih _ ?_
        unfold CheckpointStore.loadBinding
        split
        · exact distinct
        · split
          · exact distinct
          · exact keys_set out _ _ distinct
  exact step _ [] List.nodup_nil

/-- The summary of a run: its last completed step in the window. -/
theorem summary_of_scan {store : CheckpointStore} {completedAtMs : CompletedAt}
    {terminalMarkers : List String} {withinMs : Option Int} {nowMs : Int}
    {summary : InterruptedSummary}
    (reported : summary ∈ store.scanInterrupted completedAtMs terminalMarkers withinMs nowMs) :
    (∃ row ∈ store.rows, row.runId = summary.runId ∧ row.status = .completed ∧
      inWindow withinMs nowMs (completedAtMs row.runId row.stepIdx) = true ∧
      row.stepIdx = summary.lastCompletedStep) ∧
    ∀ row ∈ store.rows, row.runId = summary.runId → row.status = .completed →
      inWindow withinMs nowMs (completedAtMs row.runId row.stepIdx) = true →
      row.stepIdx ≤ summary.lastCompletedStep := by
  rw [CheckpointStore.scanInterrupted, List.mem_insertionSort] at reported
  obtain ⟨runId, mem, rfl⟩ := List.mem_map.mp reported
  obtain ⟨row, there, rfl⟩ := List.mem_map.mp (List.mem_dedup.mp mem)
  obtain ⟨inTable, unmarked, complete, recent⟩ := by
    simpa only [List.mem_filter, decide_eq_true_eq] using there
  have found : row.stepIdx ∈ ((store.rows.filter fun x => x.runId ∉ terminalMarkers ∧
      x.status = .completed ∧ inWindow withinMs nowMs (completedAtMs x.runId x.stepIdx)).filter
        fun x => x.runId = row.runId).map CheckpointRow.stepIdx :=
    List.mem_map_of_mem (List.mem_filter.mpr ⟨there, decide_eq_true rfl⟩)
  dsimp only
  cases last : (((store.rows.filter fun x => x.runId ∉ terminalMarkers ∧
      x.status = .completed ∧ inWindow withinMs nowMs (completedAtMs x.runId x.stepIdx)).filter
        fun x => x.runId = row.runId).map CheckpointRow.stepIdx).max? with
  | none =>
      rw [List.max?_eq_none_iff.mp last] at found
      cases found
  | some k =>
      rw [Option.getD_some]
      obtain ⟨attained, above⟩ := List.max?_eq_some_iff.mp last
      constructor
      · obtain ⟨x, mine, rfl⟩ := List.mem_map.mp attained
        obtain ⟨⟨inTable, _, complete, recent⟩, same⟩ := by
          simpa only [List.mem_filter, decide_eq_true_eq] using mine
        exact ⟨x, inTable, same, complete, recent, rfl⟩
      · intro x inTable same complete recent
        refine above _ (List.mem_map_of_mem (List.mem_filter.mpr ⟨List.mem_filter.mpr
          ⟨inTable, decide_eq_true ⟨?_, complete, recent⟩⟩, decide_eq_true same⟩))
        rw [same]
        exact unmarked

/-- The reported step is that of the cut if its row is completed and in the window. -/
theorem CutAt.lastCompleted (stops : CutAt engine registry runId n i steps bindings cut)
    {store : CheckpointStore} (fresh : store.fetchRun runId = []) {completedAtMs : CompletedAt}
    {terminalMarkers : List String} {withinMs : Option Int} {nowMs : Int}
    {summary : InterruptedSummary} (mine : summary.runId = runId)
    (reported : summary ∈ CheckpointStore.scanInterrupted
      ((cut.executed.flatMap fun e => e.call.writes).foldl CheckpointStore.append store)
      completedAtMs terminalMarkers withinMs nowMs) :
    summary.lastCompletedStep = cut.stepIdx ↔
      (∃ e v, cut.executed.getLast? = some e ∧ e.call.result = .ok v) ∧
        inWindow withinMs nowMs (completedAtMs runId cut.stepIdx) = true := by
  obtain ⟨⟨row, inTable, sameRun, complete, recent, last⟩, above⟩ := summary_of_scan reported
  rw [mine] at sameRun
  obtain ⟨rows, _⟩ := stops.rows fresh
  obtain ⟨_, within, increasing, _⟩ := stops.order
  -- the rows of the run are those of the executed steps
  have written : ∃ e ∈ cut.executed, row.stepIdx = e.stepIdx ∧ ∃ v, e.call.result = .ok v := by
    rw [rows] at inTable
    rcases List.mem_append.mp inTable with old | new
    · exact absurd sameRun (not_mem_of_fetchRun fresh row old)
    · obtain ⟨write, mem, rfl⟩ := List.mem_map.mp new
      obtain ⟨e, executed, wrote⟩ := List.mem_flatMap.mp mem
      obtain ⟨_, place, status⟩ := (stops.wrote e executed).row wrote
      exact ⟨e, executed, place, status.mp complete⟩
  obtain ⟨e, executed, place, v, result⟩ := written
  obtain ⟨before, final, split, place', wrote⟩ := stops.last
  constructor
  · intro same
    rw [← last, place] at same
    have isLast : e = final := by
      rw [split] at executed increasing
      rcases List.mem_append.mp executed with earlier | here
      · have less := (List.pairwise_append.mp increasing).2.2 e earlier final List.mem_cons_self
        omega
      · exact List.mem_singleton.mp here
    subst isLast
    refine ⟨⟨e, v, by rw [split, List.getLast?_concat], result⟩, ?_⟩
    rwa [sameRun, place, same] at recent
  · rintro ⟨⟨e', v', lastOne, done⟩, recent'⟩
    rw [split, List.getLast?_concat] at lastOne
    cases lastOne
    have known : final ∈ cut.executed := by
      rw [split]
      exact List.mem_append_right _ List.mem_cons_self
    obtain ⟨write, mem⟩ := List.exists_mem_of_ne_nil _ wrote
    obtain ⟨run, step, status⟩ := (stops.wrote final known).row mem
    have there : held write ∈ ((cut.executed.flatMap fun e => e.call.writes).foldl
        CheckpointStore.append store).rows := by
      rw [rows]
      exact List.mem_append_right _
        (List.mem_map_of_mem (List.mem_flatMap.mpr ⟨final, known, mem⟩))
    have atMost := above (held write) there (run.trans mine.symm) (status.mpr ⟨v', done⟩) (by
      change inWindow withinMs nowMs (completedAtMs write.runId write.stepIdx) = true
      rw [run, step, place']
      exact recent')
    change write.stepIdx ≤ _ at atMost
    rw [step, place'] at atMost
    have below := (within e executed).2
    omega

end

/-! ## What is handed back -/

section

variable {ρ : Type} (engine : Engine ρ) (registry : FunctionRegistry engine) (runId : String)
  (steps : List ProcessStep) (initial : Bindings ρ)

/-- The evaluator is given the bindings and the next step of the run that was cut off, and from
there ends as the whole run. -/
def HandsBack (cut : Cut ρ) (input : RunEvaluatorInput ρ) : Prop :=
  match cut.next with
  | .done _ => False
  | .go after =>
      input.entryStepIdx = cut.stepIdx + 1 ∧
      SameNames (engine.contentsOf (initial.overwrite input.bindings)) (engine.contentsOf after) ∧
      let run := evalSteps engine registry runId noPrior input.entryStepIdx
        (steps.drop input.entryStepIdx) (initial.overwrite input.bindings)
      let whole := evalSteps engine registry runId noPrior 0 steps initial
      run.result = whole.result ∧
        SameNames (engine.contentsOf run.bindings) (engine.contentsOf whole.bindings)

/-- The bindings of the run that was cut off, and those handed back. -/
def Handed (cut : Cut ρ) (input : RunEvaluatorInput ρ) (restoring : Bool) (i : Nat)
    (b b' : Bindings ρ) : Prop :=
  restoring = false ∧ i = cut.stepIdx + 1 ∧ cut.next = .go b ∧ b' = initial.overwrite input.bindings

variable (withinMs : Option Int) (nowMs : Int) (completedAtMs : CompletedAt)

/-- The last write is the completed row of a step that goes on, and every name has been bound
last by a step whose row gives it back. -/
structure Recoverable (cut : Cut ρ) : Prop where
  goesOn : ∃ after, cut.next = .go after
  completed : ∃ e v, cut.executed.getLast? = some e ∧ e.call.result = .ok v
  recent : inWindow withinMs nowMs (completedAtMs runId cut.stepIdx) = true
  /-- What binds a name last is a durable output that survives its row. Another step may bind the
  value only that the rows before it, or else the initial bindings, give the name. -/
  names : ∀ name before e later, cut.executed = before ++ e :: later → e.step.as = some name →
    (∀ x ∈ later, x.step.as ≠ some name) →
    (∃ v, e.output registry = some v ∧ name ≠ "__proto__" ∧ v.Survives) ∨
      ((e.output registry = none ∨ name = "__proto__") ∧
        (lastOf (Executed.kept registry name) before).or
            (Value.get name (engine.contentsOf initial)) =
          some (engine.contents (boundValue engine e.call.result)))

end

section

variable {ρ : Type} {engine : Engine ρ} {registry : FunctionRegistry engine} {runId : String}
  {n i : Nat} {steps : List ProcessStep} {bindings initial : Bindings ρ} {cut : Cut ρ}

theorem Executed.output_eq {e : Executed ρ} {v : Value} (given : e.output registry = some v) :
    registry.durable e.step.call = true ∧
      ∃ value, e.call.result = .ok value ∧ engine.contents value = v := by
  unfold Executed.output at given
  split at given
  · rename_i durable
    cases result : e.call.result with
    | error message =>
        rw [result] at given
        cases given
    | ok value =>
        rw [result] at given
        cases given
        exact ⟨durable, value, rfl, rfl⟩
  · cases given

/-- The durable outputs of a run are plain. -/
theorem CutAt.plain (stops : CutAt engine registry runId n i steps bindings cut) {e : Executed ρ}
    (mem : e ∈ cut.executed) {v : Value} (given : e.output registry = some v) : v.Plain := by
  obtain ⟨b, called⟩ := stops.called e mem
  obtain ⟨durable, value, result, rfl⟩ := Executed.output_eq given
  rw [invoke_none] at called
  have ok : registry.dispatch e.step b = .ok value := by
    rw [← result, ← called]
    rfl
  exact registry.plain durable ok

/-- The last step that binds a name. -/
theorem exists_lastBinder {executed : List (Executed ρ)} {name : String}
    (binds : ∃ e ∈ executed, e.step.as = some name) :
    ∃ before e later, executed = before ++ e :: later ∧ e.step.as = some name ∧
      ∀ x ∈ later, x.step.as ≠ some name := by
  induction executed with
  | nil =>
      obtain ⟨e, mem, _⟩ := binds
      cases mem
  | cons x rest ih =>
      by_cases again : ∃ e ∈ rest, e.step.as = some name
      · obtain ⟨before, e, later, split, here, silent⟩ := ih again
        exact ⟨x :: before, e, later, congrArg (x :: ·) split, here, silent⟩
      · obtain ⟨e, mem, here⟩ := binds
        rcases List.mem_cons.mp mem with rfl | later
        · exact ⟨[], e, rest, rfl, here, fun y there named => again ⟨y, there, named⟩⟩
        · exact absurd ⟨e, later, here⟩ again

/-- A name comes back if and only if its last binder is one whose row gives it back. -/
theorem get_iff {before later : List (Executed ρ)} {e : Executed ρ} {name : String}
    (here : e.step.as = some name) (silent : ∀ x ∈ later, x.step.as ≠ some name)
    (plain : ∀ v, e.output registry = some v → v.Plain) :
    (lastOf (Executed.kept registry name) (before ++ e :: later)).or
          (Value.get name (engine.contentsOf initial)) =
        (lastOf (Executed.bound engine name) (before ++ e :: later)).or
          (Value.get name (engine.contentsOf initial)) ↔
      (∃ v, e.output registry = some v ∧ name ≠ "__proto__" ∧ v.Survives) ∨
        ((e.output registry = none ∨ name = "__proto__") ∧
          (lastOf (Executed.kept registry name) before).or
              (Value.get name (engine.contentsOf initial)) =
            some (engine.contents (boundValue engine e.call.result))) := by
  have noneBound : lastOf (Executed.bound engine name) later = none :=
    lastOf_eq_none fun x mem => if_neg (silent x mem)
  have noneKept : lastOf (Executed.kept registry name) later = none :=
    lastOf_eq_none fun x mem => if_neg fun both => silent x mem both.1
  rw [lastOf_append, lastOf_append, lastOf, lastOf, noneBound, noneKept, Option.none_or,
    Option.none_or, Executed.bound, if_pos here, Option.some_or, Option.some_or]
  by_cases lost : e.output registry = none ∨ name = "__proto__"
  · have kept : e.kept registry name = none := by
      unfold Executed.kept
      split
      · rename_i both
        rw [lost.resolve_right both.2]
        rfl
      · rfl
    rw [kept, Option.none_or]
    constructor
    · exact fun same => .inr ⟨lost, same⟩
    · rintro (⟨v, given, ordinary, _⟩ | ⟨_, same⟩)
      · rcases lost with none | proto
        · rw [given] at none
          cases none
        · exact absurd proto ordinary
      · exact same
  · obtain ⟨some', ordinary⟩ := not_or.mp lost
    obtain ⟨v, given⟩ := Option.ne_none_iff_exists'.mp some'
    have kept : e.kept registry name = some v.restore := by
      rw [Executed.kept, if_pos ⟨here, ordinary⟩, given, Option.map_some]
    have bound : engine.contents (boundValue engine e.call.result) = v := by
      obtain ⟨_, value, result, rfl⟩ := Executed.output_eq given
      rw [result]
      rfl
    rw [kept, Option.some_or, Option.some_or, bound]
    constructor
    · exact fun same => .inl ⟨v, given, ordinary,
        (Value.restore_eq_iff (plain v given)).mp (Option.some.inj same)⟩
    · rintro (⟨w, given', _, survives⟩ | ⟨lost', _⟩)
      · cases given.symm.trans given'
        exact congrArg some ((Value.restore_eq_iff (plain v given)).mpr survives)
      · exact absurd lost' lost

/-- A run can be cut off after each of its writes. -/
theorem exists_cut (written : n < (evalSteps engine registry runId noPrior i steps bindings).writes.length) :
    ∃ cut, cutAfter engine registry runId n i steps bindings = some cut := by
  induction steps generalizing n i bindings with
  | nil => cases written
  | cons step rest ih =>
      rw [evalSteps] at written
      rw [cutAfter]
      split at written
      · rename_i skip
        rw [if_pos skip]
        exact ih written
      · rename_i executed
        rw [if_neg executed]
        dsimp only [noPrior] at written ⊢
        by_cases last : n < (invoke engine registry runId i step bindings none).writes.length
        · rw [if_pos last]
          exact ⟨_, rfl⟩
        · rw [if_neg last]
          cases go : afterCall engine i step bindings
              (invoke engine registry runId i step bindings none).result with
          | done result =>
              rw [go] at written
              dsimp only at written
              rw [Run.after, List.append_nil] at written
              exact absurd written last
          | go after =>
              rw [go] at written
              dsimp only at written ⊢
              rw [Run.after, List.length_append] at written
              have remains : n - (invoke engine registry runId i step bindings none).writes.length <
                  (evalSteps engine registry runId noPrior (i + 1) rest after).writes.length := by
                omega
              obtain ⟨cut, stops⟩ := ih remains
              rw [stops]
              exact ⟨_, rfl⟩

/-- Bindings that go on side by side from what was handed back, and the steps that led there. -/
theorem exists_passes {input : RunEvaluatorInput ρ} {restoring : Bool} {j : Nat} {b b' : Bindings ρ}
    (together : Together engine registry (Handed initial cut input) restoring j b b') :
    restoring = false ∧ ∃ after more ws ws', cut.next = .go after ∧
      j = cut.stepIdx + 1 + more.length ∧
      Passes engine registry runId noPrior (cut.stepIdx + 1) more after ws b ∧
      Passes engine registry runId noPrior (cut.stepIdx + 1) more
        (initial.overwrite input.bindings) ws' b' := by
  induction together with
  | start handed =>
      obtain ⟨rfl, rfl, go, rfl⟩ := handed
      exact ⟨rfl, _, [], [], [], go, rfl, .nil, .nil⟩
  | cut _ ih => cases ih.1
  | skip _ skip skip' ih =>
      obtain ⟨rfl, after, more, ws, ws', go, rfl, passes, passes'⟩ := ih
      exact ⟨rfl, after, more ++ [_], _, _, go, by rw [List.length_append]; rfl,
        passes.append (.skip skip), passes'.append (.skip skip')⟩
  | restored _ _ _ _ _ _ ih => cases ih.1
  | called _ skip skip' _ goes goes' ih =>
      obtain ⟨rfl, after, more, ws, ws', go, rfl, passes, passes'⟩ := ih
      refine ⟨rfl, after, more ++ [_], _, _, go, by rw [List.length_append]; rfl,
        passes.append (.go skip ?_), passes'.append (.go skip' ?_)⟩
      · rw [noPrior, invoke_none]
        exact goes
      · rw [noPrior, invoke_none]
        exact goes'

/-- Whatever steps follow, the run that is handed back ends as the whole run exactly if nothing can
tell the bindings handed back from those of the run that was cut off. -/
theorem ends_iff_cannotTell {input : RunEvaluatorInput ρ} {after : Bindings ρ}
    (go : cut.next = .go after)
    (same : SameNames (engine.contentsOf after) (engine.contentsOf (initial.overwrite input.bindings))) :
    (∀ rest, EndsAlike engine registry runId (cut.stepIdx + 1) rest after
      (initial.overwrite input.bindings)) ↔
    CannotTell engine registry (Handed initial cut input) := by
  constructor
  · intro ends restoring j b b' together
    obtain ⟨_, after', more, ws, ws', go', rfl, passes, passes'⟩ := exists_passes together
    cases go.symm.trans go'
    have alike : ∀ rest,
        EndsAlike engine registry runId (cut.stepIdx + 1 + more.length) rest b b' := by
      intro rest
      obtain ⟨result, finals, _⟩ := passes rest
      obtain ⟨result', finals', _⟩ := passes' rest
      obtain ⟨results, names⟩ := ends (more ++ rest)
      rw [result, result'] at results
      rw [finals, finals'] at names
      exact ⟨results, names⟩
    exact agree_of_endsAlike alike
  · intro cannotTell rest
    have together : Together engine registry (Handed initial cut input)
        (decide (cut.stepIdx + 1 < 0)) (cut.stepIdx + 1) after (initial.overwrite input.bindings) :=
      .start ⟨decide_eq_false (Nat.not_lt_zero _), rfl, go, rfl⟩
    have left : Left (evalSteps engine registry runId noPrior (cut.stepIdx + 1) rest after).writes 0
        noPrior := ⟨fun _ _ below => absurd below (Nat.not_lt_zero _), fun _ _ => rfl⟩
    obtain ⟨result, finals, _⟩ := evalSteps_eq cannotTell keptBySet_sameNames together same left
    exact ⟨result, fun name => (finals name).symm⟩

/-- The names come back exactly if the last binder of each is one whose row gives it back. -/
theorem CutAt.sameNames_iff (stops : CutAt engine registry runId n i steps initial cut)
    {after given : Bindings ρ} (go : cut.next = .go after)
    (loads : ∀ name, Value.get name (engine.contentsOf given) =
      (lastOf (Executed.kept registry name) cut.executed).or
        (Value.get name (engine.contentsOf initial))) :
    SameNames (engine.contentsOf given) (engine.contentsOf after) ↔
      ∀ name before e later, cut.executed = before ++ e :: later → e.step.as = some name →
        (∀ x ∈ later, x.step.as ≠ some name) →
        (∃ v, e.output registry = some v ∧ name ≠ "__proto__" ∧ v.Survives) ∨
          ((e.output registry = none ∨ name = "__proto__") ∧
            (lastOf (Executed.kept registry name) before).or
                (Value.get name (engine.contentsOf initial)) =
              some (engine.contents (boundValue engine e.call.result))) := by
  have own : ∀ name, Value.get name (engine.contentsOf after) =
      (lastOf (Executed.bound engine name) cut.executed).or
        (Value.get name (engine.contentsOf initial)) := by
    intro name
    rw [(stops.go go).1]
    exact read_foldl (fun b => Value.get name (engine.contentsOf b))
      (fun b e => get_bindAs name b e) cut.executed initial
  have plain : ∀ {before e later}, cut.executed = before ++ e :: later →
      ∀ v, e.output registry = some v → v.Plain := fun split v =>
    stops.plain (split ▸ List.mem_append_right _ List.mem_cons_self)
  constructor
  · intro same name before e later split here silent
    refine (get_iff here silent (plain split)).mp ?_
    rw [← split, ← loads name, ← own name]
    exact same name
  · intro names name
    rw [loads name, own name]
    by_cases binds : ∃ e ∈ cut.executed, e.step.as = some name
    · obtain ⟨before, e, later, split, here, silent⟩ := exists_lastBinder binds
      rw [split]
      exact (get_iff here silent (plain split)).mpr (names name before e later split here silent)
    · have silent : ∀ e ∈ cut.executed, e.step.as ≠ some name := fun e mem here =>
        binds ⟨e, mem, here⟩
      have noneBound : lastOf (Executed.bound engine name) cut.executed = none :=
        lastOf_eq_none fun e mem => if_neg (silent e mem)
      have noneKept : lastOf (Executed.kept registry name) cut.executed = none :=
        lastOf_eq_none fun e mem => if_neg fun both => silent e mem both.1
      rw [noneKept, noneBound]

/-- A process that begins with the steps of the cut ends as what follows them. -/
theorem CutAt.ends_whole (stops : CutAt engine registry runId n 0 steps initial cut)
    {after : Bindings ρ} (go : cut.next = .go after) (rest : List ProcessStep) :
    let whole := evalSteps engine registry runId noPrior 0 (steps.take (cut.stepIdx + 1) ++ rest)
      initial
    let tail := evalSteps engine registry runId noPrior (cut.stepIdx + 1) rest after
    whole.result = tail.result ∧ whole.bindings = tail.bindings ∧
      (steps.take (cut.stepIdx + 1) ++ rest).drop (cut.stepIdx + 1) = rest := by
  obtain ⟨_, done, ws, split, place, passes⟩ := stops.go go
  rw [Nat.zero_add] at place
  have taken : steps.take (cut.stepIdx + 1) = done := by
    rw [split, ← place, List.take_left]
  obtain ⟨result, finals, _⟩ := passes rest
  rw [Nat.zero_add, place] at result finals
  rw [taken]
  exact ⟨result, finals, by rw [← place, List.drop_left]⟩

/-- For every crash after a checkpoint write that the scan reports: what the resumer hands back is
the evaluator's own state, from which whatever steps follow end as they would have, exactly if it
is recoverable and nothing can tell its values from the evaluator's own. -/
theorem hands_back_iff {store : CheckpointStore} (fresh : store.fetchRun runId = [])
    (written : n < (evaluateProcess engine registry runId steps initial store).writes.length)
    {completedAtMs : CompletedAt} {terminalMarkers : List String} {withinMs : Option Int}
    {nowMs : Int} {summary : InterruptedSummary} (mine : summary.runId = runId)
    (reported : summary ∈ CheckpointStore.scanInterrupted
      (((evaluateProcess engine registry runId steps initial store).writes.take (n + 1)).foldl
        CheckpointStore.append store) completedAtMs terminalMarkers withinMs nowMs)
    {packVersion : String} {resolved : Option ResolvedRule} {input : RunEvaluatorInput ρ}
    (handed : resume engine
      (((evaluateProcess engine registry runId steps initial store).writes.take (n + 1)).foldl
        CheckpointStore.append store)
      ⟨summary.runId, summary.lastCompletedStep, packVersion⟩ resolved = .ok input) :
    ∃ cut, cutAfter engine registry runId n 0 steps initial = some cut ∧
      (HandsBack engine registry runId steps initial cut input →
        Recoverable engine registry runId initial withinMs nowMs completedAtMs cut) ∧
      ((∀ rest, HandsBack engine registry runId (steps.take (cut.stepIdx + 1) ++ rest) initial cut
          input) ↔
        Recoverable engine registry runId initial withinMs nowMs completedAtMs cut ∧
          CannotTell engine registry (Handed initial cut input)) := by
  rw [evaluateProcess_fresh fresh] at written reported handed
  obtain ⟨cut, stopped⟩ := exists_cut written
  refine ⟨cut, stopped, ?_⟩
  have stops := cutAt_of_cutAfter stopped
  rw [stops.writes] at reported handed
  obtain ⟨rfl⟩ : input = ⟨CheckpointStore.loadBindings engine
      ((cut.executed.flatMap fun e => e.call.writes).foldl CheckpointStore.append store)
      summary.runId, summary.lastCompletedStep + 1⟩ := by
    unfold resume at handed
    split at handed
    · cases handed
    · split at handed
      · cases handed
      · exact (Except.ok.inj handed).symm
  set loaded := CheckpointStore.loadBindings engine
    ((cut.executed.flatMap fun e => e.call.writes).foldl CheckpointStore.append store) summary.runId
  have last := stops.lastCompleted fresh mine reported
  have loads : ∀ name, Value.get name (engine.contentsOf (initial.overwrite loaded)) =
      (lastOf (Executed.kept registry name) cut.executed).or
        (Value.get name (engine.contentsOf initial)) := by
    intro name
    have rows := stops.loads fresh name
    rw [← mine] at rows
    rw [get_contentsOf_overwrite engine (keys_loadBindings engine _ _), rows]
  have recoverable : ∀ steps', HandsBack engine registry runId steps' initial cut
      ⟨loaded, summary.lastCompletedStep + 1⟩ →
      Recoverable engine registry runId initial withinMs nowMs completedAtMs cut := by
    intro steps' back
    unfold HandsBack at back
    split at back
    · exact back.elim
    · rename_i after go
      obtain ⟨completed, recent⟩ := last.mp (Nat.succ_injective back.1)
      exact ⟨⟨after, go⟩, completed, recent, (stops.sameNames_iff go loads).mp back.2.1⟩
  refine ⟨recoverable steps, fun back => ?_, ?_⟩
  · have state := recoverable _ (back [])
    obtain ⟨after, go⟩ := state.goesOn
    have same := (stops.sameNames_iff go loads).mpr state.names
    have ends : ∀ rest, EndsAlike engine registry runId (cut.stepIdx + 1) rest after
        (initial.overwrite loaded) := by
      intro rest
      have handed := back rest
      rw [HandsBack, go] at handed
      obtain ⟨entry, _, result, finals⟩ := handed
      dsimp only at entry result finals
      obtain ⟨wholeResult, wholeFinals, dropped⟩ := stops.ends_whole go rest
      rw [entry, dropped] at result finals
      rw [wholeResult] at result
      rw [wholeFinals] at finals
      exact ⟨result, finals⟩
    exact ⟨state, (ends_iff_cannotTell go fun name => (same name).symm).mp ends⟩
  · rintro ⟨state, cannotTell⟩ rest
    obtain ⟨after, go⟩ := state.goesOn
    have same := (stops.sameNames_iff go loads).mpr state.names
    have entry : summary.lastCompletedStep + 1 = cut.stepIdx + 1 :=
      congrArg Nat.succ (last.mpr ⟨state.completed, state.recent⟩)
    obtain ⟨result, finals⟩ :=
      (ends_iff_cannotTell go fun name => (same name).symm).mpr cannotTell rest
    obtain ⟨wholeResult, wholeFinals, dropped⟩ := stops.ends_whole go rest
    rw [HandsBack, go]
    dsimp only
    rw [entry, dropped, wholeResult, wholeFinals]
    exact ⟨rfl, same, result, finals⟩

end

/-! ## A pure binding -/

/-- The durable primitive `fetch` and the pure primitive `note` give a text each. -/
def noteRegistry : FunctionRegistry fetchEngine where
  durable fn := fn = "fetch"
  call fn _ _ := .ok (.str (if fn = "fetch" then "page" else "tag"))
  plain _ called := by
    cases called
    trivial

theorem readsContents_note : ReadsContents fetchEngine noteRegistry :=
  ⟨fun _ _ _ _ => rfl, fun _ _ _ _ _ => rfl⟩

def fetchThenNote : List ProcessStep :=
  [{ call := "fetch", as := some "body" }, { call := "note", as := some "mark" }]

def noteThenFetch : List ProcessStep :=
  [{ call := "note", as := some "mark" }, { call := "fetch", as := some "body" }]

/-- The table after the one write of the process. -/
def storeAfter (steps : List ProcessStep) : CheckpointStore :=
  ((evaluateProcess fetchEngine noteRegistry "run" steps [] .empty).writes.take 1).foldl
    CheckpointStore.append .empty

/-- The run of either process, cut off after its write, as the daemon finds it. -/
theorem scanInterrupted_storeAfter :
    (storeAfter fetchThenNote).scanInterrupted (fun _ _ => 5) [] none 9 = [⟨"run", 0, 5⟩] ∧
      (storeAfter noteThenFetch).scanInterrupted (fun _ _ => 5) [] none 9 = [⟨"run", 1, 5⟩] :=
  ⟨by decide, by decide⟩

/-- What `fetch` has bound is handed back, when the process is cut off before `note`, whatever
steps follow. -/
theorem hands_back_fetched :
    ∃ cut, cutAfter fetchEngine noteRegistry "run" 0 0 fetchThenNote [] = some cut ∧
      ∀ rest, HandsBack fetchEngine noteRegistry "run"
        (fetchThenNote.take (cut.stepIdx + 1) ++ rest) [] cut ⟨[("body", .str "page")], 1⟩ := by
  obtain ⟨cut, stops, _, backIff⟩ := @hands_back_iff Value fetchEngine noteRegistry "run" 0
    fetchThenNote [] .empty rfl (by decide) (fun _ _ => 5) [] none 9 ⟨"run", 0, 5⟩ rfl
    (scanInterrupted_storeAfter.1 ▸ List.mem_cons_self) "1.0.0" (some ⟨fetchThenNote, "1.0.0"⟩)
    ⟨[("body", .str "page")], 1⟩ rfl
  refine ⟨cut, stops, backIff.mpr ?_⟩
  cases stops
  refine ⟨⟨⟨_, rfl⟩, ⟨_, _, rfl, rfl⟩, rfl, fun name before e later split binds _ => ?_⟩,
    readsContents_note.cannotTell fun restoring i b b' handed => ?_⟩
  · obtain ⟨rfl, rfl, rfl⟩ : before = [] ∧ e = ⟨0, { call := "fetch", as := some "body" }, _⟩ ∧
        later = [] := by
      cases before with
      | nil => exact ⟨rfl, (List.cons.inj split).1.symm, (List.cons.inj split).2.symm⟩
      | cons x before => cases before <;> cases split
    cases binds
    exact .inl ⟨.str "page", rfl, by decide, trivial⟩
  · obtain ⟨_, _, go, rfl⟩ := handed
    cases go
    exact fun _ => rfl

/-- The same two calls the other way round: `loadBindings` finds no row for what `note` has bound,
and the rest of the process is evaluated without it. -/
theorem pure_binding_lost :
    CheckpointStore.fetchRun .empty "run" = [] ∧
      (⟨"run", 1, 5⟩ : InterruptedSummary) ∈
        (storeAfter noteThenFetch).scanInterrupted (fun _ _ => 5) [] none 9 ∧
      resume fetchEngine (storeAfter noteThenFetch) ⟨"run", 1, "1.0.0"⟩
        (some ⟨noteThenFetch, "1.0.0"⟩) = .ok ⟨[("body", .str "page")], 2⟩ ∧
      ∃ cut, cutAfter fetchEngine noteRegistry "run" 0 0 noteThenFetch [] = some cut ∧
        cut.next = .go [("mark", .str "tag"), ("body", .str "page")] ∧
        ¬ HandsBack fetchEngine noteRegistry "run" noteThenFetch [] cut
          ⟨[("body", .str "page")], 2⟩ := by
  refine ⟨rfl, scanInterrupted_storeAfter.2 ▸ List.mem_cons_self, rfl, _, rfl, rfl, fun back => ?_⟩
  obtain ⟨_, names, _⟩ := back
  cases names "mark"

end Opensquid.Durable
