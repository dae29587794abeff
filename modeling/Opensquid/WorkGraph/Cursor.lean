import Opensquid.WorkGraph.Store

/-!
# The op-log cursor

A reconcile pass reads the high-water mark, lists the ops above it and advances
the mark to the greatest lamport it listed. The mark is sound as long as every
new row gets a lamport above everything listed so far. `selectMax` and
`insertOp` are separate statements, so a writer may insert a lamport that a pass
has already gone past, and the pass never returns that op (`lateInsert_lost`).

`Sys.Covered s n` is the invariant: no op at or below `n` is still to be listed.
It holds of the stored mark, of every cursor a pass has read and of the mark
every pass is about to store.
-/

namespace Opensquid.WorkGraph

open Opensquid.Lib

/-! ## Greatest lamports -/

/-- A greatest lamport is the lamport of some op. -/
theorem exists_lamport_eq_maxLamport {ops : List WgOp} (nonempty : ops ≠ []) :
    ∃ op ∈ ops, op.lamport = maxLamport ops := by
  induction ops with
  | nil => exact absurd rfl nonempty
  | cons head tail ih =>
      simp only [maxLamport, List.map_cons, List.foldr_cons]
      by_cases last : tail = []
      · subst last
        exact ⟨head, List.mem_cons_self, (max_eq_left (Nat.zero_le _)).symm⟩
      · obtain ⟨op, member, greatest⟩ := ih last
        rcases le_total head.lamport ((tail.map WgOp.lamport).foldr max 0) with below | above
        · exact ⟨op, List.mem_cons_of_mem _ member, greatest.trans (max_eq_right below).symm⟩
        · exact ⟨head, List.mem_cons_self, (max_eq_left above).symm⟩

theorem mem_listOpsSince {ops : List WgOp} {cursor : Nat} {op : WgOp} :
    op ∈ listOpsSince ops cursor ↔ op ∈ ops ∧ cursor < op.lamport := by
  rw [listOpsSince, List.mem_filter, decide_eq_true_eq]

/-! ## The condition -/

/-- The row the event is about to insert, when its id is new. -/
def Sys.aboutToInsert (env : Env) (s : Sys) : Event → Option WgOp
  | .insertOp p =>
      match s.procs p with
      | .inserting req ts _ lamport =>
          let op := req.candidate env p ts lamport
          if s.wgOps.any (·.id = op.id) then none else some op
      | _ => none
  | _ => none

/-- The event inserts no row at or below a lamport that a pass has listed. -/
def InsertsAboveReturned (env : Env) (s : Sys) (e : Event) : Prop :=
  ∀ op ∈ s.aboutToInsert env e, ∀ returned ∈ s.returned, returned.lamport < op.lamport

instance (env : Env) (s : Sys) (e : Event) : Decidable (InsertsAboveReturned env s e) :=
  inferInstanceAs (Decidable (∀ op ∈ s.aboutToInsert env e, ∀ returned ∈ s.returned,
    returned.lamport < op.lamport))

/-! ## The invariant -/

/-- Every op at or below `n` has been listed, and `n` is no guess: it is zero or
the lamport of a listed op. -/
structure Sys.Covered (s : Sys) (n : Nat) : Prop where
  listed : ∀ op ∈ s.wgOps, op.lamport ≤ n → op ∈ s.returned
  attained : n = 0 ∨ ∃ op ∈ s.returned, op.lamport = n

/-- The lamport a process has selected but not yet inserted. -/
def ProcState.allocated : ProcState → Option Nat
  | .inserting _ _ _ lamport => some lamport
  | _ => none

/-- The mark a pass has read or is about to store. -/
def PassState.pending : PassState → Option Nat
  | .idle => none
  | .cursorRead cursor => some cursor
  | .listed ops => if ops = [] then none else some (maxLamport ops)

@[simp] theorem afterFold_allocated (op : WgOp) (token : Option String) :
    (afterFold op token).allocated = none := by
  cases token <;> rfl

@[simp] theorem afterFailure_allocated (req : Append) (ts : String) (attempt : Nat) :
    (afterFailure req ts attempt).allocated = none := by
  unfold afterFailure
  split <;> rfl

structure Sys.CursorInv (s : Sys) : Prop where
  positive : ∀ op ∈ s.wgOps, 0 < op.lamport
  allocated : ∀ p, ∀ lamport ∈ (s.procs p).allocated, 0 < lamport
  mark : s.Covered s.highWater
  pending : ∀ q, ∀ n ∈ (s.passes q).pending, s.Covered n

theorem Sys.CursorInv.init (now : Int) : (Sys.init now).CursorInv where
  positive := List.forall_mem_nil _
  allocated _ _ held := nomatch held
  mark := ⟨List.forall_mem_nil _, .inl rfl⟩
  pending _ _ held := nomatch held

/-- What one event does to the log, the listed ops and the passes. -/
inductive Sys.CursorStep (env : Env) (s t : Sys) (e : Event) : Prop
  | kept : t.wgOps = s.wgOps → t.returned = s.returned → t.highWater = s.highWater →
      t.passes = s.passes → Sys.CursorStep env s t e
  | inserted {op : WgOp} : op ∈ s.aboutToInsert env e →
      t.wgOps = s.wgOps ++ [op] → t.returned = s.returned → t.highWater = s.highWater →
      t.passes = s.passes → Sys.CursorStep env s t e
  | passMoved {q : Nat} {st : PassState} :
      t.wgOps = s.wgOps → t.returned = s.returned → t.highWater = s.highWater →
      t.passes = Function.update s.passes q st → st = .idle ∨ st = .cursorRead s.highWater →
      Sys.CursorStep env s t e
  | listed {q cursor : Nat} : s.passes q = .cursorRead cursor →
      t.wgOps = s.wgOps → t.returned = s.returned ++ listOpsSince s.wgOps cursor →
      t.highWater = s.highWater →
      t.passes = Function.update s.passes q (.listed (listOpsSince s.wgOps cursor)) →
      Sys.CursorStep env s t e
  | advanced {q : Nat} {ops : List WgOp} : s.passes q = .listed ops →
      t.wgOps = s.wgOps → t.returned = s.returned →
      t.highWater = (if ops = [] then s.highWater else max s.highWater (maxLamport ops)) →
      t.passes = Function.update s.passes q .idle → Sys.CursorStep env s t e

theorem Sys.Step.cursor {env : Env} {s t : Sys} {e : Event} (fire : Sys.Step env s e t) :
    Sys.CursorStep env s t e := by
  cases fire with
  | @inserted p req ts attempt lamport inserting fresh =>
      refine .inserted ?_ rfl rfl rfl rfl
      have unused : ¬ s.wgOps.any (·.id = (req.candidate env p ts lamport).id) = true := by
        intro used
        obtain ⟨o, member, same⟩ := List.any_eq_true.mp used
        exact fresh o member (of_decide_eq_true same)
      simp only [Sys.aboutToInsert, inserting, unused, Option.mem_def]
      rfl
  | cursorRead => exact .passMoved rfl rfl rfl rfl (.inr rfl)
  | opsListed reading => exact .listed reading rfl rfl rfl rfl
  | markAdvanced listed => exact .advanced listed rfl rfl rfl rfl
  | passFailed => exact .passMoved rfl rfl rfl rfl (.inl rfl)
  | _ => exact .kept rfl rfl rfl rfl

/-- The mark never decreases. -/
theorem Sys.CursorStep.highWater_le {env : Env} {s t : Sys} {e : Event}
    (step : Sys.CursorStep env s t e) : s.highWater ≤ t.highWater := by
  cases step with
  | kept _ _ mark _ => exact mark.ge
  | inserted _ _ _ mark _ => exact mark.ge
  | passMoved _ _ mark _ _ => exact mark.ge
  | listed _ _ _ mark _ => exact mark.ge
  | advanced _ _ _ mark _ =>
      rw [mark]
      split
      · exact le_rfl
      · exact le_max_left _ _

/-- The only lamport a step allocates is one above the log. -/
theorem Sys.Step.allocated {env : Env} {s t : Sys} {e : Event} (fire : Sys.Step env s e t)
    {p lamport : Nat} (held : lamport ∈ (t.procs p).allocated) :
    lamport ∈ (s.procs p).allocated ∨ lamport = nextLamport s.wgOps := by
  cases fire with
  | tick | refused | cursorRead | opsListed | markAdvanced | passFailed => exact .inl held
  | selected =>
      rcases mem_update.mp held with ⟨-, fresh⟩ | ⟨-, old⟩
      · exact .inr (Option.some.inj fresh).symm
      · exact .inl old
  | folded | retried | wasBusy =>
      rcases mem_update.mp held with ⟨-, fresh⟩ | ⟨-, old⟩
      · simp only [afterFold_allocated, afterFailure_allocated, Option.mem_def, reduceCtorEq]
          at fresh
      · exact .inl old
  | _ =>
      rcases mem_update.mp held with ⟨-, fresh⟩ | ⟨-, old⟩
      · cases fresh
      · exact .inl old

/-- The row about to be inserted carries the lamport its process holds. -/
theorem Sys.aboutToInsert_lamport {env : Env} {s : Sys} {e : Event} {op : WgOp}
    (about : op ∈ s.aboutToInsert env e) : ∃ p, op.lamport ∈ (s.procs p).allocated := by
  cases e with
  | insertOp p =>
      simp only [Sys.aboutToInsert] at about
      split at about
      · rename_i req ts attempt lamport inserting
        split at about
        · cases about
        · cases about
          exact ⟨p, by rw [inserting]; rfl⟩
      · cases about
  | _ => cases about

/-- A new row above every listed lamport leaves a covered mark covered. -/
theorem Sys.Covered.of_inserted {s t : Sys} {op : WgOp} {n : Nat} (covered : s.Covered n)
    (positive : 0 < op.lamport) (above : ∀ returned ∈ s.returned, returned.lamport < op.lamport)
    (log : t.wgOps = s.wgOps ++ [op]) (returns : t.returned = s.returned) : t.Covered n := by
  have beyond : n < op.lamport := by
    rcases covered.attained with rfl | ⟨returned, member, rfl⟩
    · exact positive
    · exact above returned member
  refine ⟨fun o member below => ?_, returns ▸ covered.attained⟩
  rw [log, List.mem_append, List.mem_singleton] at member
  rw [returns]
  rcases member with old | rfl
  · exact covered.listed o old below
  · omega

/-- After a pass has listed from a covered cursor, the whole log is listed. -/
theorem Sys.Covered.listed_all {s : Sys} {cursor : Nat} (covered : s.Covered cursor) {op : WgOp}
    (member : op ∈ s.wgOps) : op ∈ s.returned ++ listOpsSince s.wgOps cursor := by
  rw [List.mem_append, mem_listOpsSince]
  by_cases below : op.lamport ≤ cursor
  · exact .inl (covered.listed op member below)
  · exact .inr ⟨member, by omega⟩

/-- Listing only adds to what is covered. -/
theorem Sys.Covered.of_listed {s t : Sys} {n cursor : Nat} (at_cursor : s.Covered cursor)
    (covered : s.Covered n) (log : t.wgOps = s.wgOps)
    (returns : t.returned = s.returned ++ listOpsSince s.wgOps cursor) : t.Covered n := by
  refine ⟨fun op member _ => ?_, covered.attained.imp_right fun ⟨op, member, same⟩ => ?_⟩
  · rw [returns]
    exact at_cursor.listed_all (log ▸ member)
  · exact ⟨op, returns ▸ List.mem_append_left _ member, same⟩

theorem Sys.Covered.congr {s t : Sys} {n : Nat} (covered : s.Covered n)
    (log : t.wgOps = s.wgOps) (returns : t.returned = s.returned) : t.Covered n :=
  ⟨by rw [log, returns]; exact covered.listed, by rw [returns]; exact covered.attained⟩

theorem Sys.Step.cursorInv {env : Env} {s t : Sys} {e : Event} (fire : Sys.Step env s e t)
    (above : InsertsAboveReturned env s e) (inv : s.CursorInv) : t.CursorInv := by
  have allocated (p lamport : Nat) (held : lamport ∈ (t.procs p).allocated) : 0 < lamport := by
    rcases fire.allocated held with old | rfl
    · exact inv.allocated p lamport old
    · exact Nat.succ_pos _
  cases fire.cursor with
  | kept log returns mark passes =>
      refine ⟨log ▸ inv.positive, allocated, ?_, fun q n held => ?_⟩
      · exact mark ▸ inv.mark.congr log returns
      · exact (inv.pending q n (passes ▸ held)).congr log returns
  | @inserted op about log returns mark passes =>
      obtain ⟨p, held⟩ := Sys.aboutToInsert_lamport about
      have positive := inv.allocated p op.lamport held
      have keep {n : Nat} (covered : s.Covered n) : t.Covered n :=
        covered.of_inserted positive (above op about) log returns
      refine ⟨fun o member => ?_, allocated, mark ▸ keep inv.mark, fun q n held => ?_⟩
      · rw [log, List.mem_append, List.mem_singleton] at member
        rcases member with old | rfl
        · exact inv.positive o old
        · exact positive
      · exact keep (inv.pending q n (passes ▸ held))
  | @passMoved q st log returns mark passes moved =>
      refine ⟨log ▸ inv.positive, allocated, mark ▸ inv.mark.congr log returns, fun r n held => ?_⟩
      rw [passes] at held
      rcases mem_update.mp held with ⟨-, fresh⟩ | ⟨-, old⟩
      · rcases moved with rfl | rfl
        · cases fresh
        · cases fresh
          exact inv.mark.congr log returns
      · exact (inv.pending r n old).congr log returns
  | @listed q cursor reading log returns mark passes =>
      have at_cursor := inv.pending q cursor (by rw [reading]; rfl)
      have keep {n : Nat} (covered : s.Covered n) : t.Covered n :=
        at_cursor.of_listed covered log returns
      refine ⟨log ▸ inv.positive, allocated, mark ▸ keep inv.mark, fun r n held => ?_⟩
      rw [passes] at held
      rcases mem_update.mp held with ⟨-, fresh⟩ | ⟨-, old⟩
      · simp only [PassState.pending, Option.mem_def] at fresh
        split at fresh
        · cases fresh
        · rename_i nonempty
          cases fresh
          obtain ⟨op, member, greatest⟩ := exists_lamport_eq_maxLamport nonempty
          refine ⟨fun o logged _ => ?_, .inr ⟨op, ?_, greatest⟩⟩
          · exact returns ▸ at_cursor.listed_all (log ▸ logged)
          · exact returns ▸ List.mem_append_right _ member
      · exact keep (inv.pending r n old)
  | @advanced q ops listing log returns mark passes =>
      refine ⟨log ▸ inv.positive, allocated, ?_, fun r n held => ?_⟩
      · rw [mark]
        split
        · exact inv.mark.congr log returns
        · rename_i nonempty
          have stored := inv.pending q (maxLamport ops) (by
            rw [listing, PassState.pending, if_neg nonempty]
            rfl)
          rcases max_choice s.highWater (maxLamport ops) with same | same <;> rw [same]
          · exact inv.mark.congr log returns
          · exact stored.congr log returns
      · rw [passes] at held
        rcases mem_update.mp held with ⟨-, fresh⟩ | ⟨-, old⟩
        · cases fresh
        · exact (inv.pending r n old).congr log returns

/-! ## No op is lost -/

/-- As long as every row goes in above everything a pass has listed, each op at
or below the stored mark has been returned by some listing; and no step lowers
the mark. -/
theorem returned_of_le_highWater {env : Env} {now : Int} {s : Sys}
    (run : Steps (step env) (InsertsAboveReturned env) (Sys.init now) s) :
    (∀ op ∈ s.wgOps, op.lamport ≤ s.highWater → op ∈ s.returned) ∧
      ∀ e t, step env s e = some t → s.highWater ≤ t.highWater := by
  have inv : s.CursorInv :=
    run.invariant (Sys.CursorInv.init now) fun _ _ _ inv above fire =>
      (Sys.Step.of_step fire).cursorInv above inv
  exact ⟨inv.mark.listed, fun _ _ fire => (Sys.Step.of_step fire).cursor.highWater_le⟩

/-- Two writers and two passes, each pass between two inserts. -/
def orderlyPassEvents : List Event :=
  callEvents 0 (.createIssue "t" "") ++ [.readHighWater 0, .listOpsSince 0] ++
    callEvents 1 (.wedgeMark firstIssue "stuck") ++
    [.advanceHighWater 0, .readHighWater 1, .listOpsSince 1, .advanceHighWater 1]

theorem returned_of_le_highWater_orderly :
    ∃ s, runWhile (step deviceEnv) (fun s e => InsertsAboveReturned deviceEnv s e) (Sys.init 0)
        orderlyPassEvents = some s ∧ s.highWater = 2 ∧ s.wgOps.length = 2 ∧
      (∀ op ∈ s.wgOps, op.lamport ≤ s.highWater → op ∈ s.returned) := by
  have replay : (runWhile (step deviceEnv) (fun s e => InsertsAboveReturned deviceEnv s e)
      (Sys.init 0) orderlyPassEvents).any
        (fun s => s.highWater = 2 ∧ s.wgOps.length = 2) := by
    decide +kernel
  obtain ⟨s, reached, mark⟩ := (Option.any_eq_true _ _).mp replay
  obtain ⟨mark, size⟩ := of_decide_eq_true mark
  exact ⟨s, reached, mark, size, (returned_of_le_highWater
    (Steps.of_runWhile (fun _ _ above => of_decide_eq_true above) reached)).1⟩

/-- Two writers select lamport 2; one inserts, a pass lists it and advances; the
other inserts behind the mark. -/
def lateInsertEvents : List Event :=
  callEvents 0 (.createIssue "t" "") ++
  [.invoke 0 (.wedgeMark firstIssue "stuck"), .stamp 0, .selectMax 0,
    .invoke 1 (.archiveIssue firstIssue none), .stamp 1, .selectMax 1, .insertOp 1, .readHighWater 0, .listOpsSince 0, .advanceHighWater 0, .insertOp 0]

theorem lateInsert_lost :
    ¬ ∀ (env : Env) (now : Int) (s : Sys), Steps (step env) AnyStep (Sys.init now) s →
      ∀ op ∈ s.wgOps, op.lamport ≤ s.highWater → op ∈ s.returned := by
  intro listed
  have replay : (runWhile (step deviceEnv) (fun _ _ => true) (Sys.init 0) lateInsertEvents).any
      (fun s => s.wgOps.any fun op => op.lamport ≤ s.highWater ∧ op ∉ s.returned) := by
    decide +kernel
  obtain ⟨s, reached, found⟩ := (Option.any_eq_true _ _).mp replay
  obtain ⟨op, member, lost⟩ := List.any_eq_true.mp found
  obtain ⟨below, unlisted⟩ := of_decide_eq_true lost
  exact unlisted (listed deviceEnv 0 s (Steps.of_runWhile (fun _ _ _ => trivial) reached)
    op member below)

end Opensquid.WorkGraph
