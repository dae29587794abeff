import Opensquid.WorkGraph.Store

/-!
# The log, the op files and the folded ops

An inserted op is in the hands of the process that inserted it until its file is
written and its fold has run. `Sys.LogStep` is what one event does to that
bookkeeping, `Sys.Logged` the invariant it keeps over every run: the files and
the folded ops are the log without what some process still holds, and the live
projection is the fold of the folded ops in the order they were folded.
-/

namespace Opensquid.WorkGraph

open Opensquid.Lib

/-- The op a process has inserted but not yet written. -/
def ProcState.unwritten : ProcState → Option WgOp
  | .writing op _ => some op
  | _ => none

/-- The op a process has inserted but not yet folded. -/
def ProcState.unfolded : ProcState → Option WgOp
  | .writing op _ => some op
  | .folding op _ => some op
  | _ => none

/-- What one event does to the log, the op files and the projection. -/
inductive Sys.LogStep (env : Env) (s t : Sys) : Prop
  | appended {p : Nat} {op : WgOp} {st : ProcState} :
      (∀ o ∈ s.wgOps, o.id ≠ op.id) → op.project = LOCAL_PROJECT → op.actorId ≠ "" →
      (s.procs p).unfolded = none → st.unwritten = some op → st.unfolded = some op →
      t.procs = Function.update s.procs p st → t.wgOps = s.wgOps ++ [op] →
      t.opFiles = s.opFiles → t.folded = s.folded → t.proj = s.proj → Sys.LogStep env s t
  | written {p : Nat} {op : WgOp} {st : ProcState} :
      (s.procs p).unwritten = some op → (s.procs p).unfolded = some op →
      st.unwritten = none → st.unfolded = some op →
      t.procs = Function.update s.procs p st → t.wgOps = s.wgOps →
      t.opFiles = (if env.sourceDir then writeFile s.opFiles op else s.opFiles) →
      t.folded = s.folded → t.proj = s.proj → Sys.LogStep env s t
  | folded {p : Nat} {op : WgOp} {st : ProcState} :
      (s.procs p).unwritten = none → (s.procs p).unfolded = some op →
      st.unwritten = none → st.unfolded = none →
      t.procs = Function.update s.procs p st → t.wgOps = s.wgOps →
      t.opFiles = s.opFiles → t.folded = s.folded ++ [op] →
      t.proj = applyOp env.digest s.proj op → Sys.LogStep env s t
  | kept :
      (∀ q, (t.procs q).unwritten = (s.procs q).unwritten) →
      (∀ q, (t.procs q).unfolded = (s.procs q).unfolded) → t.wgOps = s.wgOps →
      t.opFiles = s.opFiles → t.folded = s.folded → t.proj = s.proj → Sys.LogStep env s t

@[simp] theorem afterFold_unwritten (op : WgOp) (token : Option String) :
    (afterFold op token).unwritten = none := by
  cases token <;> rfl

@[simp] theorem afterFold_unfolded (op : WgOp) (token : Option String) :
    (afterFold op token).unfolded = none := by
  cases token <;> rfl

@[simp] theorem afterFailure_unwritten (req : Append) (ts : String) (attempt : Nat) :
    (afterFailure req ts attempt).unwritten = none := by
  unfold afterFailure
  split <;> rfl

@[simp] theorem afterFailure_unfolded (req : Append) (ts : String) (attempt : Nat) :
    (afterFailure req ts attempt).unfolded = none := by
  unfold afterFailure
  split <;> rfl

/-- A process that moves between states without an op changes no log field. -/
theorem Sys.LogStep.of_setProc {env : Env} {s t : Sys} {p : Nat} {st : ProcState}
    (procs : t.procs = Function.update s.procs p st)
    (before : (s.procs p).unwritten = none ∧ (s.procs p).unfolded = none)
    (after : st.unwritten = none ∧ st.unfolded = none) (log : t.wgOps = s.wgOps)
    (files : t.opFiles = s.opFiles) (folds : t.folded = s.folded) (proj : t.proj = s.proj) :
    Sys.LogStep env s t := by
  refine .kept (fun q => ?_) (fun q => ?_) log files folds proj
  · by_cases same : q = p
    · rw [procs, same, Function.update_self, before.1, after.1]
    · rw [procs, Function.update_of_ne same]
  · by_cases same : q = p
    · rw [procs, same, Function.update_self, before.2, after.2]
    · rw [procs, Function.update_of_ne same]

theorem Sys.Step.log {env : Env} {s t : Sys} {e : Event} (fire : Sys.Step env s e t) :
    Sys.LogStep env s t := by
  cases fire with
  | tick ms => exact .kept (fun _ => rfl) (fun _ => rfl) rfl rfl rfl rfl
  | refused => exact .kept (fun _ => rfl) (fun _ => rfl) rfl rfl rfl rfl
  | invoked idle =>
      exact .of_setProc rfl (by rw [idle]; exact ⟨rfl, rfl⟩) ⟨rfl, rfl⟩ rfl rfl rfl rfl
  | stamped queued =>
      exact .of_setProc rfl (by rw [queued]; exact ⟨rfl, rfl⟩) ⟨rfl, rfl⟩ rfl rfl rfl rfl
  | stampFailed queued =>
      exact .of_setProc rfl (by rw [queued]; exact ⟨rfl, rfl⟩) ⟨rfl, rfl⟩ rfl rfl rfl rfl
  | selected selecting =>
      exact .of_setProc rfl (by rw [selecting]; exact ⟨rfl, rfl⟩) ⟨rfl, rfl⟩ rfl rfl rfl rfl
  | inserted inserting fresh =>
      exact .appended fresh rfl (env.actor_ne _) (by rw [inserting]; rfl) rfl rfl rfl rfl rfl rfl rfl
  | retried inserting =>
      exact .of_setProc rfl (by rw [inserting]; exact ⟨rfl, rfl⟩)
        ⟨afterFailure_unwritten .., afterFailure_unfolded ..⟩ rfl rfl rfl rfl
  | wasBusy busy =>
      refine .of_setProc rfl ?_ ⟨afterFailure_unwritten .., afterFailure_unfolded ..⟩ rfl rfl rfl rfl
      rcases busy with selecting | ⟨lamport, inserting⟩
      · rw [selecting]; exact ⟨rfl, rfl⟩
      · rw [inserting]; exact ⟨rfl, rfl⟩
  | fileWritten writing =>
      exact .written (by rw [writing]; rfl) (by rw [writing]; rfl) rfl rfl rfl rfl rfl rfl rfl
  | folded folding =>
      exact .folded (by rw [folding]; rfl) (by rw [folding]; rfl) (afterFold_unwritten ..)
        (afterFold_unfolded ..) rfl rfl rfl rfl rfl
  | claimWon reading =>
      exact .of_setProc rfl (by rw [reading]; exact ⟨rfl, rfl⟩) ⟨rfl, rfl⟩ rfl rfl rfl rfl
  | claimFenced reading =>
      exact .of_setProc rfl (by rw [reading]; exact ⟨rfl, rfl⟩) ⟨rfl, rfl⟩ rfl rfl rfl rfl
  | claimLost reading =>
      exact .of_setProc rfl (by rw [reading]; exact ⟨rfl, rfl⟩) ⟨rfl, rfl⟩ rfl rfl rfl rfl
  | cursorRead => exact .kept (fun _ => rfl) (fun _ => rfl) rfl rfl rfl rfl
  | opsListed => exact .kept (fun _ => rfl) (fun _ => rfl) rfl rfl rfl rfl
  | markAdvanced => exact .kept (fun _ => rfl) (fun _ => rfl) rfl rfl rfl rfl
  | passFailed => exact .kept (fun _ => rfl) (fun _ => rfl) rfl rfl rfl rfl

/-- The bookkeeping of the log: ids are unique, each inserted op is in at most
one process's hands, and the files and folded ops are those no process still
has to write or fold. -/
structure Sys.Logged (env : Env) (s : Sys) : Prop where
  ids : ∀ a ∈ s.wgOps, ∀ b ∈ s.wgOps, a.id = b.id → a = b
  stamps : ∀ op ∈ s.wgOps, op.project = LOCAL_PROJECT ∧ op.actorId ≠ ""
  unwritten : ∀ p, ∀ op ∈ (s.procs p).unwritten, op ∈ (s.procs p).unfolded
  inserted : ∀ p, ∀ op ∈ (s.procs p).unfolded, op ∈ s.wgOps
  owner : ∀ p q op, op ∈ (s.procs p).unfolded → op ∈ (s.procs q).unfolded → p = q
  files : env.sourceDir = true →
    ∀ op, op ∈ s.opFiles ↔ op ∈ s.wgOps ∧ ∀ p, op ∉ (s.procs p).unwritten
  filesOnce : s.opFiles.Nodup
  folds : ∀ op, op ∈ s.folded ↔ op ∈ s.wgOps ∧ ∀ p, op ∉ (s.procs p).unfolded
  foldsOnce : s.folded.Nodup
  live : s.proj = s.folded.foldl (applyOp env.digest) .empty

theorem Sys.Logged.init (env : Env) (now : Int) : (Sys.init now).Logged env where
  ids := List.forall_mem_nil _
  stamps := List.forall_mem_nil _
  unwritten _ _ mem := nomatch mem
  inserted _ _ mem := nomatch mem
  owner _ _ _ mem := nomatch mem
  files := by
    intro sourced op
    exact ⟨(fun mem => nomatch mem), fun absent => absent.1⟩
  filesOnce := List.nodup_nil
  folds := fun op => ⟨(fun mem => nomatch mem), fun absent => absent.1⟩
  foldsOnce := List.nodup_nil
  live := rfl

/-- A file with a new id is added to the others. -/
theorem writeFile_of_fresh {files : List WgOp} {op : WgOp}
    (fresh : ∀ f ∈ files, f.id ≠ op.id) : writeFile files op = files ++ [op] := by
  unfold writeFile
  rw [List.filter_eq_self.mpr fun f member => decide_eq_true (fresh f member)]

theorem Sys.LogStep.logged {env : Env} {s t : Sys} (step : Sys.LogStep env s t)
    (logged : s.Logged env) : t.Logged env := by
  obtain ⟨ids, stamps, unwritten, inserted, owner, files, filesOnce, folds, foldsOnce, live⟩ := logged
  cases step with
  | kept unwritten' unfolded' log files' folds' proj =>
      constructor
      · rw [log]; exact ids
      · rw [log]; exact stamps
      · simp only [unwritten', unfolded']; exact unwritten
      · simp only [unfolded', log]; exact inserted
      · simp only [unfolded']; exact owner
      · simp only [unwritten', log, files']; exact files
      · rw [files']; exact filesOnce
      · simp only [unfolded', log, folds']; exact folds
      · rw [folds']; exact foldsOnce
      · rw [proj, folds']; exact live
  | @appended p op st fresh project actor idle stUnwritten stUnfolded procs log files' folds' proj =>
      have unseen : op ∉ s.wgOps := fun member => fresh op member rfl
      constructor
      · intro a memA b memB same
        rw [log, List.mem_append, List.mem_singleton] at memA memB
        rcases memA with memA | rfl <;> rcases memB with memB | rfl
        · exact ids a memA b memB same
        · exact absurd same (fresh a memA)
        · exact absurd same.symm (fresh b memB)
        · rfl
      · intro o member
        rw [log, List.mem_append, List.mem_singleton] at member
        rcases member with member | rfl
        · exact stamps o member
        · exact ⟨project, actor⟩
      · intro q o
        rw [procs, mem_update, mem_update, stUnwritten, stUnfolded]
        grind
      · intro q o
        rw [procs, mem_update, stUnfolded, log]
        grind
      · intro q r o
        rw [procs, mem_update, mem_update, stUnfolded]
        grind
      · intro sourced o
        simp only [procs, mem_update, stUnwritten, log, files', files sourced o]
        grind
      · rw [files']; exact filesOnce
      · intro o
        simp only [procs, mem_update, stUnfolded, log, folds', folds o]
        grind
      · rw [folds']; exact foldsOnce
      · rw [proj, folds']; exact live
  | @written p op st held held' stUnwritten stUnfolded procs log files' folds' proj =>
      have known : op ∈ s.wgOps := inserted p op held'
      constructor
      · rw [log]; exact ids
      · rw [log]; exact stamps
      · intro q o
        rw [procs, mem_update, mem_update, stUnwritten, stUnfolded]
        grind
      · intro q o
        rw [procs, mem_update, stUnfolded, log]
        grind
      · intro q r o
        rw [procs, mem_update, mem_update, stUnfolded]
        grind
      · intro sourced o
        have fresh (f : WgOp) (member : f ∈ s.opFiles) : f.id ≠ op.id := by
          intro same
          obtain ⟨logged, released⟩ := (files sourced f).mp member
          exact released p (ids f logged op known same ▸ held)
        rw [files', if_pos sourced, writeFile_of_fresh fresh, List.mem_append, List.mem_singleton,
          files sourced o]
        simp only [procs, mem_update, stUnwritten, log]
        -- no other process holds the op that was written
        grind
      · rw [files']
        split
        · exact (filesOnce.filter _).append (List.nodup_singleton op) (by
            intro f member same
            rw [List.mem_singleton] at same
            exact of_decide_eq_true (List.mem_filter.mp member).2 (same ▸ rfl))
        · exact filesOnce
      · intro o
        simp only [procs, mem_update, stUnfolded, log, folds', folds o]
        grind
      · rw [folds']; exact foldsOnce
      · rw [proj, folds']; exact live
  | @folded p op st held held' stUnwritten stUnfolded procs log files' folds' proj =>
      have known : op ∈ s.wgOps := inserted p op held'
      constructor
      · rw [log]; exact ids
      · rw [log]; exact stamps
      · intro q o
        rw [procs, mem_update, mem_update, stUnwritten, stUnfolded]
        grind
      · intro q o
        rw [procs, mem_update, stUnfolded, log]
        grind
      · intro q r o
        rw [procs, mem_update, mem_update, stUnfolded]
        grind
      · intro sourced o
        simp only [procs, mem_update, stUnwritten, log, files', files sourced o]
        grind
      · rw [files']; exact filesOnce
      · intro o
        rw [folds', List.mem_append, List.mem_singleton, folds o]
        simp only [procs, mem_update, stUnfolded, log]
        grind
      · rw [folds']
        exact foldsOnce.append (List.nodup_singleton op) (by
          intro f member same
          rw [List.mem_singleton] at same
          exact ((folds f).mp member).2 p (same ▸ held'))
      · rw [proj, folds', List.foldl_append, ← live]
        rfl

theorem Sys.logged_of_run {env : Env} {now : Int} {s : Sys} {ok : Sys → Event → Prop}
    (run : Steps (step env) ok (Sys.init now) s) : s.Logged env :=
  run.invariant (Sys.Logged.init env now) fun _ _ _ logged _ fire =>
    (Sys.Step.of_step fire).log.logged logged

end Opensquid.WorkGraph
