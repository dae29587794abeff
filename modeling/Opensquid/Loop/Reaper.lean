import Opensquid.Lib.Steps
import Opensquid.Loop.Ownership

/-!
# The reaper

`reapOrphans` reads the issues, then the edges, and archives one by one the open stubs
that no edge owns. Meanwhile other processes decompose, claim, wedge and update, and
reap as well. The test looks at the status and the body alone, and nothing is tested
again before an archive: a claimed stub is archived (`claimed_stub_reaped`), and so is
one that a decomposition is about to link.

The archives are right if at the read of the edges every stub to be archived is idle
and nobody's, and nobody touches it from there on (`reaps_orphans`).
-/

namespace Opensquid.Loop

open Opensquid.Lib Opensquid.WorkGraph

/-! ## The program -/

/-- The part of the test that looks at the issue. -/
def openStub (i : Issue) : Bool := i.status = .open && isStub i.body

def isOrphan (i : Issue) (ownedIds : List String) : Bool := openStub i && i.id ∉ ownedIds

def reapReason : Option String := some "orphaned decomposition stub (no live owner) — reaped"

/-- The loop over the orphans. -/
def archiveEach (orphans : List Issue) (archived : List String) : Async (List String) := do
  Program.forEach (fun o => Wg.archiveIssue o.id reapReason) orphans
  return archived

/-- The second read, and what follows it. -/
def reapFrom (issues : List Issue) : Async (List String) := do
  let edges ← Wg.listEdges
  let ownedIds := (edges.filter (·.type = .parentChild)).map (·.toId)
  let orphans := issues.filter (isOrphan · ownedIds)
  archiveEach orphans (orphans.map (·.id))

/-- The two reads are started in this order. -/
def reapOrphans : Async (List String) := do
  let issues ← Wg.listIssues
  reapFrom issues

namespace Reaper

/-! ## The system -/

/-- A call in progress. Of a reap, also the open stubs it has read and, once it has read
the edges, the issues it has still to archive. -/
inductive Call
  | reap (stubs : List Issue) (ahead : List String) (rest : Async (List String))
  | decompose (taskId : String) (rest : Async ReconcileResult)

/-- What a reap archives next. -/
def Call.archives : Call → Option String
  | .reap _ _ (.call (.archiveIssue id _) _) => some id
  | _ => none

/-- What a decomposition links next. -/
def Call.links : Call → Option String
  | .decompose _ (.call (.addEdge _ id .parentChild) _) => some id
  | _ => none

def Call.ahead : Call → List String
  | .reap _ ahead _ => ahead
  | .decompose _ _ => []

def unowned (b : Board) (stubs : List Issue) : List String :=
  (stubs.map (·.id)).filter fun id => !owned b id

/-- What a reap is about to choose, when it reads the edges next. -/
def Call.chooses (b : Board) : Call → List String
  | .reap stubs _ (.call .listEdges _) => unowned b stubs
  | _ => []

def Call.cutOff : Call → Call
  | .reap stubs _ _ => .reap stubs [] .throw
  | .decompose taskId _ => .decompose taskId .throw

/-- An issue that a reap has archived, and how many calls had begun by then. -/
structure Reaped where
  id : String
  begun : Nat
  deriving DecidableEq, Repr

/-- All calls that have begun, in this order. -/
structure Sys where
  board : Board
  calls : List Call
  reaped : List Reaped

def Sys.init (board : Board) : Sys := ⟨board, [], []⟩

inductive Event
  | reap
  | decompose (taskId : String) (artifact : Option ScopeExtract) (ext : ScopeExtract)
  /-- The nth call makes its next work-graph call. -/
  | advance (n : Nat) (choice : Choice)
  | cutOff (n : Nat)
  /-- Another process claims, wedges or updates an issue. -/
  | other (op : WgCall) (choice : Choice)

/-- The calls of other processes. -/
def isOther : WgCall → Bool
  | .claimIssue _ | .wedgeMark _ _ | .updateIssue _ _ => true
  | _ => false

section

variable (digest : Digest)

def Call.advance (choice : Choice) (b : Board) : Call → Option (Board × Call)
  | .decompose taskId rest =>
      (rest.step (Board.exec digest) choice b).map fun (t, next) => (t, .decompose taskId next)
  | .reap stubs ahead rest =>
      (rest.step (Board.exec digest) choice b).map fun (t, next) =>
        (t, match rest with
          | .call .listIssues _ => .reap (b.issues.rows.filter openStub) [] next
          | .call .listEdges _ => .reap stubs (unowned b stubs) next
          | .call (.archiveIssue id _) _ => .reap stubs (ahead.erase id) next
          | _ => .reap stubs ahead next)

/-- One event; `none` when it is not enabled. -/
def Sys.step (s : Sys) : Event → Option Sys
  | .reap => some { s with calls := s.calls ++ [.reap [] [] reapOrphans] }
  | .decompose taskId artifact ext => some { s with
      calls := s.calls ++ [.decompose taskId (reconcileDecomposition digest taskId artifact ext)] }
  | .advance n choice =>
      s.calls[n]?.bind fun call => (call.advance digest choice s.board).map fun (board, next) =>
        { board, calls := s.calls.set n next,
          reaped := call.archives.toList.map (⟨·, s.calls.length⟩) ++ s.reaped }
  | .cutOff n => s.calls[n]?.map fun call => { s with calls := s.calls.set n call.cutOff }
  | .other op choice =>
      if isOther op then
        (Board.exec digest op choice s.board).map fun (board, _) => { s with board }
      else none

end

/-! ## What is claimed, and when it holds -/

/-- An open stub without a claim and without a wedge. -/
def Idle (b : Board) (id : String) : Prop :=
  ∃ i, b.issue id = some i ∧ openStub i = true ∧ i.claimToken = none ∧ i.wedgeReason = none

/-- An open, unclaimed, unwedged decomposition stub with no incoming parent-child edge. -/
structure TrueOrphan (b : Board) (id : String) : Prop where
  idle : Idle b id
  unowned : ¬ Owned b id

/-- A reap archives only true orphans, and none of them is linked by a decomposition that
had begun before. -/
def Sound (s : Sys) : Event → Prop
  | .advance n _ => ∀ call ∈ s.calls[n]?, (∀ id ∈ call.archives, TrueOrphan s.board id) ∧
      ∀ id ∈ call.links, ∀ r ∈ s.reaped, r.id = id → r.begun ≤ n
  | _ => True

/-- A reap has chosen the issue, and not archived it yet. -/
def Sys.Doomed (s : Sys) (id : String) : Prop := ∃ call ∈ s.calls, id ∈ call.ahead

/-- A decomposition has created the issue, and links it next. -/
def Sys.Linking (s : Sys) (id : String) : Prop := ∃ call ∈ s.calls, call.links = some id

/-- When a reap reads the edges, the open stubs it has read that have no owner are idle,
no decomposition is about to link one and no other reap has chosen one; until it has
archived them, nobody claims or wedges one, or updates it so that it is no open stub. -/
def Untouched (s : Sys) : Event → Prop
  | .advance n _ => ∀ call ∈ s.calls[n]?, ∀ id ∈ call.chooses s.board,
      Idle s.board id ∧ ¬ s.Linking id ∧ ¬ s.Doomed id
  | .other op _ =>
      match op with
      | .claimIssue id | .wedgeMark id _ => ¬ s.Doomed id
      | .updateIssue id patch => s.Doomed id → ∀ i ∈ s.board.issue id, openStub (patch.apply i) = true
      | _ => True
  | _ => True

/-! ## The reap's program -/

/-- Where a reap can be. -/
inductive ReapAt : List Issue → List String → Async (List String) → Prop
  | begun : ReapAt [] [] reapOrphans
  | read {issues : List Issue} (distinct : (issues.map (·.id)).Nodup) :
      ReapAt (issues.filter openStub) [] (reapFrom issues)
  | archiving {stubs orphans : List Issue} {archived : List String}
      (distinct : (orphans.map (·.id)).Nodup) :
      ReapAt stubs (orphans.map (·.id)) (archiveEach orphans archived)
  | thrown {stubs : List Issue} {ahead : List String} : ReapAt stubs ahead .throw

section

variable {digest : Digest} {b t : Board} {stubs : List Issue} {ahead : List String}
  {rest next : Async (List String)} {choice : Choice} {call : Call}

theorem orphans_eq {issues : List Issue} :
    (issues.filter (isOrphan · (((b.listEdges digest).filter (·.type = .parentChild)).map
      (·.toId)))).map (·.id) = unowned b (issues.filter openStub) := by
  have same : ∀ i : Issue, i.id ∉ ((b.listEdges digest).filter (·.type = .parentChild)).map
      (·.toId) ↔ owned b i.id = false := fun i => by
    rw [← Bool.not_eq_true, not_iff_not, owned_iff]
    simp only [List.mem_map, List.mem_filter, decide_eq_true_eq, mem_listEdges]
    constructor
    · rintro ⟨e, ⟨typed, kind⟩, child⟩
      exact ⟨e.fromId, kind ▸ child ▸ typed⟩
    · rintro ⟨parent, typed⟩
      exact ⟨⟨parent, i.id, .parentChild⟩, ⟨typed, rfl⟩, rfl⟩
  rw [unowned, List.filter_map, List.filter_filter]
  refine congrArg _ (List.filter_congr fun i _ => ?_)
  simp only [isOrphan, same, Function.comp_apply]
  cases openStub i <;> cases owned b i.id <;> rfl

theorem nodup_filter {issues : List Issue} {p : Issue → Bool}
    (distinct : (issues.map (·.id)).Nodup) : ((issues.filter p).map (·.id)).Nodup :=
  distinct.sublist (List.filter_sublist.map _)

theorem archiveEach_cons {o : Issue} {orphans : List Issue} {archived : List String} :
    archiveEach (o :: orphans) archived = .call (.archiveIssue o.id reapReason) fun reply =>
      match reply with
      | some _ => archiveEach orphans archived
      | none => .throw := by
  rw [archiveEach, Program.forEach]
  refine congrArg (Program.call _) (funext fun reply => ?_)
  cases reply <;> rfl

/-- One call of a reap: it reads, chooses, or archives the first of its orphans. -/
theorem ReapAt.advance (at_rest : ReapAt stubs ahead rest)
    (fire : (Call.reap stubs ahead rest).advance digest choice b = some (t, call)) :
    ∃ stubs' ahead' next, call = .reap stubs' ahead' next ∧ ReapAt stubs' ahead' next ∧
      ((t = b ∧ ahead' = (Call.reap stubs ahead rest).chooses b ∧
          (Call.reap stubs ahead rest).archives = none) ∨
        ∃ id, ahead = id :: ahead' ∧ id ∉ ahead' ∧
          (Call.reap stubs ahead rest).archives = some id ∧
          (Call.reap stubs ahead rest).chooses b = [] ∧
          ((b.issue id = none ∧ t = b) ∨ t = b.modify id (·.archive reapReason) fun _ => rfl)) := by
  obtain ⟨⟨t', next⟩, moved, same⟩ := Option.map_eq_some_iff.mp fire
  cases same
  cases at_rest with
  | begun =>
      cases moved
      exact ⟨_, _, _, rfl, .read b.issues.distinct, .inl ⟨rfl, rfl, rfl⟩⟩
  | @read issues distinct =>
      cases moved
      refine ⟨_, _, _, rfl, ?_, .inl ⟨rfl, rfl, rfl⟩⟩
      rw [← @orphans_eq digest]
      exact .archiving (nodup_filter distinct)
  | @archiving stubs orphans archived distinct =>
      cases orphans with
      | nil => cases moved
      | cons o orphans =>
          rw [List.map_cons, List.nodup_cons] at distinct
          rw [archiveEach_cons] at moved ⊢
          have erased : (o.id :: orphans.map (·.id)).erase o.id = orphans.map (·.id) :=
            List.erase_cons_head ..
          simp only [Program.step, Board.exec, Board.update, Option.map_some, Option.some.injEq,
            Prod.mk.injEq] at moved
          obtain ⟨rfl, rfl⟩ := moved
          simp only [List.map_cons, erased]
          by_cases present : (b.issue o.id).isSome
          · rw [if_pos present]
            exact ⟨_, _, _, rfl, .archiving distinct.2, .inr
              ⟨o.id, rfl, distinct.1, rfl, rfl, .inr rfl⟩⟩
          · rw [if_neg present]
            exact ⟨_, _, _, rfl, .thrown, .inr ⟨o.id, rfl, distinct.1, rfl, rfl,
              .inl ⟨Option.not_isSome_iff_eq_none.mp present, rfl⟩⟩⟩
  | thrown => cases moved

end

/-! ## The invariant -/

/-- What the decompositions know, each about its own issues. -/
structure Knows (s : Sys) (know : Nat → Progress) : Prop where
  follows : ∀ n taskId rest, s.calls[n]? = some (.decompose taskId rest) →
    (decomposition taskId).Follows rest (know n) ∧ (know n).Fits s.board taskId ∧
      ∀ id ∈ (know n).pending, id ∉ (know n).linked
  present : ∀ n, ∀ id ∈ (know n).created, (s.board.issue id).isSome
  apart : ∀ n m id, id ∈ (know n).created → id ∈ (know m).created → n = m

structure Sys.Inv (s : Sys) : Prop where
  knows : ∃ know, Knows s know
  reaps : ∀ (n : Nat) stubs ahead rest, s.calls[n]? = some (Call.reap stubs ahead rest) →
    ReapAt stubs ahead rest
  doomed : ∀ id, s.Doomed id → TrueOrphan s.board id ∧ ¬ s.Linking id
  alone : ∀ (n m : Nat) (c c' : Call) id, s.calls[n]? = some c → s.calls[m]? = some c' → id ∈ c.ahead →
    id ∈ c'.ahead → n = m
  reaped : ∀ r ∈ s.reaped, (s.board.issue r.id).isSome ∧ r.begun ≤ s.calls.length ∧
    ∀ n < r.begun, ∀ call ∈ s.calls[n]?, Call.links call ≠ some r.id

theorem Sys.doomed_iff {s : Sys} {id : String} :
    s.Doomed id ↔ ∃ n : Nat, ∃ call : Call, s.calls[n]? = some call ∧ id ∈ call.ahead := by
  simp only [Sys.Doomed, List.mem_iff_getElem?]
  exact ⟨fun ⟨call, ⟨n, here⟩, mem⟩ => ⟨n, call, here, mem⟩,
    fun ⟨n, call, here, mem⟩ => ⟨call, ⟨n, here⟩, mem⟩⟩

theorem Sys.linking_iff {s : Sys} {id : String} :
    s.Linking id ↔ ∃ n : Nat, ∃ call : Call, s.calls[n]? = some call ∧ call.links = some id := by
  simp only [Sys.Linking, List.mem_iff_getElem?]
  exact ⟨fun ⟨call, ⟨n, here⟩, links⟩ => ⟨n, call, here, links⟩,
    fun ⟨n, call, here, links⟩ => ⟨call, ⟨n, here⟩, links⟩⟩

theorem TrueOrphan.present {b : Board} {id : String} (orphan : TrueOrphan b id) :
    (b.issue id).isSome := by
  obtain ⟨i, here, _⟩ := orphan.idle
  rw [here]
  rfl

/-! ### One call changes -/

section

variable {s s' : Sys} {n : Nat} {next : Call} {know : Nat → Progress}

theorem Knows.replace (knows : Knows s know) (other : ∀ m ≠ n, s'.calls[m]? = s.calls[m]?)
    (here : s'.calls[n]? = some next)
    (present : ∀ id, (s.board.issue id).isSome → (s'.board.issue id).isSome)
    (fits : ∀ m ≠ n, ∀ taskId, (know m).Fits s.board taskId → (know m).Fits s'.board taskId)
    (g : Progress)
    (mine : ∀ taskId rest, next = .decompose taskId rest →
      (decomposition taskId).Follows rest g ∧ g.Fits s'.board taskId ∧ ∀ id ∈ g.pending, id ∉ g.linked)
    (created : ∀ id ∈ g.created,
      (s'.board.issue id).isSome ∧ (id ∈ (know n).created ∨ s.board.issue id = none)) :
    Knows s' (Function.update know n g) := by
  have new : ∀ m ≠ n, ∀ id ∈ g.created, id ∉ (know m).created := fun m ne id mem old => by
    rcases (created id mem).2 with own | absent
    · exact ne (knows.apart m n id old own)
    · have there := knows.present m id old
      rw [absent] at there
      cases there
  refine ⟨fun m taskId rest at_m => ?_, fun m id mem => ?_, fun m k id at_m at_k => ?_⟩
  · by_cases same : m = n
    · subst same
      rw [Function.update_self]
      exact mine taskId rest (Option.some.inj (here.symm.trans at_m))
    · rw [Function.update_of_ne same]
      rw [other m same] at at_m
      obtain ⟨follows, fit, distinct⟩ := knows.follows m taskId rest at_m
      exact ⟨follows, fits m same taskId fit, distinct⟩
  · by_cases same : m = n
    · subst same
      rw [Function.update_self] at mem
      exact (created id mem).1
    · rw [Function.update_of_ne same] at mem
      exact present id (knows.present m id mem)
  · by_cases same : m = n <;> by_cases same' : k = n
    · exact same.trans same'.symm
    · subst same
      rw [Function.update_self] at at_m
      rw [Function.update_of_ne same'] at at_k
      exact absurd at_k (new k same' id at_m)
    · subst same'
      rw [Function.update_self] at at_k
      rw [Function.update_of_ne same] at at_m
      exact absurd at_m (new m same id at_k)
    · rw [Function.update_of_ne same] at at_m
      rw [Function.update_of_ne same'] at at_k
      exact knows.apart m k id at_m at_k

theorem Sys.Inv.replace (inv : s.Inv) (other : ∀ m ≠ n, s'.calls[m]? = s.calls[m]?)
    (here : s'.calls[n]? = some next) (longer : s.calls.length ≤ s'.calls.length)
    (present : ∀ id, (s.board.issue id).isSome → (s'.board.issue id).isSome)
    (knows : ∃ know, Knows s' know)
    (reap : ∀ stubs ahead rest, next = .reap stubs ahead rest → ReapAt stubs ahead rest)
    (ahead : ∀ id ∈ next.ahead, (s.board.issue id).isSome ∧ TrueOrphan s'.board id ∧
      ¬ s.Linking id ∧ ∀ m ≠ n, ∀ c : Call, s.calls[m]? = some c → id ∉ c.ahead)
    (kept : ∀ m ≠ n, ∀ c : Call, s.calls[m]? = some c → ∀ id ∈ c.ahead, TrueOrphan s'.board id)
    (links : ∀ id, next.links = some id →
      s.board.issue id = none ∨ ∃ c : Call, s.calls[n]? = some c ∧ c.links = some id)
    (reaped : ∀ r ∈ s'.reaped, r ∈ s.reaped ∨ s.Doomed r.id ∧ r.begun ≤ s'.calls.length) :
    s'.Inv := by
  -- nothing that is present and not about to be linked is about to be linked now
  have unlinked : ∀ id, (s.board.issue id).isSome → ¬ s.Linking id → ¬ s'.Linking id := by
    intro id there idle linking
    obtain ⟨m, c, at_m, linked⟩ := Sys.linking_iff.mp linking
    by_cases same : m = n
    · subst same
      cases Option.some.inj (here.symm.trans at_m)
      rcases links id linked with absent | ⟨c, at_m, before⟩
      · rw [absent] at there
        cases there
      · exact idle (Sys.linking_iff.mpr ⟨m, c, at_m, before⟩)
    · exact idle (Sys.linking_iff.mpr ⟨m, c, (other m same).symm.trans at_m, linked⟩)
  refine ⟨knows, fun m stubs rest prog at_m => ?_, fun id doomed => ?_,
    fun m k c c' id at_m at_k mem mem' => ?_, fun r mem => ?_⟩
  · by_cases same : m = n
    · subst same
      exact reap _ _ _ (Option.some.inj (here.symm.trans at_m))
    · exact inv.reaps m _ _ _ ((other m same).symm.trans at_m)
  · obtain ⟨m, c, at_m, mem⟩ := Sys.doomed_iff.mp doomed
    by_cases same : m = n
    · subst same
      cases Option.some.inj (here.symm.trans at_m)
      obtain ⟨there, orphan, idle, _⟩ := ahead id mem
      exact ⟨orphan, unlinked id there idle⟩
    · have at_m := (other m same).symm.trans at_m
      obtain ⟨orphan, idle⟩ := inv.doomed id (Sys.doomed_iff.mpr ⟨m, c, at_m, mem⟩)
      exact ⟨kept m same c at_m id mem, unlinked id orphan.present idle⟩
  · by_cases same : m = n <;> by_cases same' : k = n
    · exact same.trans same'.symm
    · subst same
      cases Option.some.inj (here.symm.trans at_m)
      exact absurd mem' ((ahead id mem).2.2.2 k same' c' ((other k same').symm.trans at_k))
    · subst same'
      cases Option.some.inj (here.symm.trans at_k)
      exact absurd mem ((ahead id mem').2.2.2 m same c ((other m same).symm.trans at_m))
    · exact inv.alone m k c c' id ((other m same).symm.trans at_m) ((other k same').symm.trans at_k)
        mem mem'
  · rcases reaped r mem with old | ⟨doomed, begun⟩
    · obtain ⟨there, begun, unlinked'⟩ := inv.reaped r old
      refine ⟨present r.id there, begun.trans longer, fun m before c at_m linked => ?_⟩
      by_cases same : m = n
      · subst same
        cases Option.some.inj (here.symm.trans at_m)
        rcases links r.id linked with absent | ⟨c, at_m, linking⟩
        · rw [absent] at there
          cases there
        · exact unlinked' m before c at_m linking
      · exact unlinked' m before c ((other m same).symm.trans at_m) linked
    · obtain ⟨orphan, idle⟩ := inv.doomed r.id doomed
      refine ⟨present r.id orphan.present, begun, fun m before c at_m linked => ?_⟩
      exact unlinked r.id orphan.present idle (Sys.linking_iff.mpr ⟨m, c, at_m, linked⟩)

/-! ### The steps -/

variable {digest : Digest} {choice : Choice} {board : Board} {call : Call}

/-- A new call links nothing and has chosen nothing. -/
theorem Sys.Inv.begin (inv : s.Inv) (links : call.links = none) (ahead : call.ahead = [])
    (reap : ∀ stubs ahead rest, call = .reap stubs ahead rest → ReapAt stubs ahead rest)
    (decompose : ∀ taskId rest, call = .decompose taskId rest →
      (decomposition taskId).Follows rest .start) :
    Sys.Inv { s with calls := s.calls ++ [call] } := by
  obtain ⟨know, knows⟩ := inv.knows
  have other : ∀ m ≠ s.calls.length, (s.calls ++ [call])[m]? = s.calls[m]? := fun m ne => by
    rcases Nat.lt_or_gt_of_ne ne with before | after
    · exact List.getElem?_append_left before
    · rw [List.getElem?_eq_none (by rw [List.length_append]; exact after),
        List.getElem?_eq_none (Nat.le_of_lt after)]
  have here : (s.calls ++ [call])[s.calls.length]? = some call := List.getElem?_concat_length ..
  have knows' := @Knows.replace s { s with calls := s.calls ++ [call] } s.calls.length call know
    knows other here (fun _ there => there) (fun _ _ _ fit => fit) .start
    (fun taskId rest eq => ⟨decompose taskId rest eq, ⟨nofun, nofun, nofun⟩, nofun⟩) nofun
  refine inv.replace other here (by rw [List.length_append]; exact Nat.le_add_right _ _)
    (fun _ there => there) ⟨_, knows'⟩ reap (fun id mem => ?_) (fun m _ c at_m id mem => ?_)
    (fun id linked => ?_) fun r mem => .inl mem
  · rw [ahead] at mem
    cases mem
  · exact (inv.doomed id (Sys.doomed_iff.mpr ⟨m, c, at_m, mem⟩)).1
  · rw [links] at linked
    cases linked

theorem TrueOrphan.effect {b t : Board} {g : Progress} {id : String} (orphan : TrueOrphan b id)
    (effect : Effect b t g) (foreign : id ∉ g.pending) : TrueOrphan t id := by
  refine ⟨?_, effect.unowned foreign orphan.unowned⟩
  rw [Idle, effect.issue id orphan.present orphan.unowned]
  exact orphan.idle

theorem pending_of_links {taskId id : String} {rest : Async ReconcileResult} {g : Progress}
    (follows : (decomposition taskId).Follows rest g)
    (links : (Call.decompose taskId rest).links = some id) : id ∈ g.pending := by
  simp only [Call.links] at links
  split at links <;> cases links
  rename_i same
  cases same
  exact follows.allowed.2

theorem TrueOrphan.modify {b : Board} {id k : String} {f : Issue → Issue} {keep : ∀ i, (f i).id = i.id}
    (orphan : TrueOrphan b k) (other : k ≠ id) : TrueOrphan (b.modify id f keep) k := by
  refine ⟨?_, orphan.unowned⟩
  rw [Idle, Board.issue_modify_of_ne other]
  exact orphan.idle

/-- A decomposition makes a call. -/
theorem Sys.Inv.decompose {taskId : String} {rest next : Async ReconcileResult} (inv : s.Inv)
    (here : s.calls[n]? = some (.decompose taskId rest))
    (moved : rest.step (Board.exec digest) choice s.board = some (board, next)) :
    Sys.Inv { s with board, calls := s.calls.set n (.decompose taskId next) } := by
  obtain ⟨know, knows⟩ := inv.knows
  obtain ⟨follows, fits, distinct⟩ := knows.follows n taskId rest here
  cases rest with
  | ret result => cases moved
  | throw => cases moved
  | call op k =>
      obtain ⟨⟨t, reply⟩, done, same⟩ := Option.map_eq_some_iff.mp moved
      cases same
      have allowed := follows.allowed
      obtain ⟨effect, known⟩ := fits.effect distinct (knows.present n) allowed done
      have other : ∀ m ≠ n, (s.calls.set n (.decompose taskId (k reply)))[m]? = s.calls[m]? :=
        fun m ne => List.getElem?_set_ne ne.symm
      have here' : (s.calls.set n (.decompose taskId (k reply)))[n]? =
          some (.decompose taskId (k reply)) :=
        List.getElem?_set_self (List.getElem?_eq_some_iff.mp here).1
      have fits' : ∀ m ≠ n, ∀ taskId, (know m).Fits s.board taskId → (know m).Fits board taskId :=
        fun m ne taskId fit => effect.fits
          (fun id mem mem' => ne (knows.apart m n id mem mem')) fit
      have linking : ∀ id ∈ (know n).pending,
          ∃ c : Call, s.calls[n]? = some c ∧ c.links = some id := fun id pending => by
        cases Progress.may_of_pending pending allowed
        exact ⟨_, here, rfl⟩
      -- what it knows after the call
      obtain ⟨g, follows', fit, distinct', created, pending⟩ : ∃ g,
          (decomposition taskId).Follows (k reply) g ∧ g.Fits board taskId ∧
          (∀ id ∈ g.pending, id ∉ g.linked) ∧
          (∀ id ∈ g.created,
            (board.issue id).isSome ∧ (id ∈ (know n).created ∨ s.board.issue id = none)) ∧
          ∀ id ∈ g.pending, id ∈ (know n).pending ∨ s.board.issue id = none := by
        cases reply with
        | some reply =>
            obtain ⟨fit, distinct', created⟩ := known reply rfl
            exact ⟨_, follows.returned reply, fit, distinct', created,
              fun id mem => Progress.pending_of_next mem done⟩
        | none =>
            cases Board.exec_of_throw done
            exact ⟨_, follows.thrown, fits, distinct,
              fun id mem => ⟨knows.present n id mem, .inl mem⟩, fun id mem => .inl mem⟩
      have knows' : Knows { s with board, calls := s.calls.set n (.decompose taskId (k reply)) }
          (Function.update know n g) :=
        knows.replace other here' effect.present fits' g
          (fun _ _ same => by cases same; exact ⟨follows', fit, distinct'⟩) created
      refine inv.replace other here' (List.length_set ..).ge effect.present ⟨_, knows'⟩ nofun nofun
        (fun m _ c at_m id mem => ?_) (fun id linked => ?_) fun r mem => .inl mem
      · obtain ⟨orphan, idle⟩ := inv.doomed id (Sys.doomed_iff.mpr ⟨m, c, at_m, mem⟩)
        exact orphan.effect effect fun mem => idle (Sys.linking_iff.mpr ⟨n, linking id mem⟩)
      · rcases pending id (pending_of_links follows' linked) with before | new
        · exact .inr (linking id before)
        · exact .inl new

theorem unowned_of_chooses {b : Board} {id : String} (chosen : id ∈ call.chooses b) :
    ¬ Owned b id := by
  simp only [Call.chooses] at chosen
  split at chosen
  · rw [← owned_iff]
    simpa using (List.mem_filter.mp chosen).2
  · cases chosen

/-- A reap makes a call. -/
theorem Sys.Inv.reap {stubs : List Issue} {ahead : List String} {rest : Async (List String)}
    (inv : s.Inv) (here : s.calls[n]? = some (.reap stubs ahead rest))
    (untouched : Untouched s (.advance n choice))
    (moved : (Call.reap stubs ahead rest).advance digest choice s.board = some (board, next)) :
    Sys.Inv { s with
      board, calls := s.calls.set n next,
      reaped := (Call.reap stubs ahead rest).archives.toList.map (⟨·, s.calls.length⟩) ++ s.reaped } := by
  obtain ⟨know, knows⟩ := inv.knows
  obtain ⟨stubs', ahead', next, rfl, at_next, moves⟩ := (inv.reaps n _ _ _ here).advance moved
  have other : ∀ m ≠ n, (s.calls.set n (.reap stubs' ahead' next))[m]? = s.calls[m]? :=
    fun m ne => List.getElem?_set_ne ne.symm
  have here' : (s.calls.set n (.reap stubs' ahead' next))[n]? = some (.reap stubs' ahead' next) :=
    List.getElem?_set_self (List.getElem?_eq_some_iff.mp here).1
  have mine : ∀ taskId rest, Call.reap stubs' ahead' next = .decompose taskId rest →
      (decomposition taskId).Follows rest (know n) ∧ (know n).Fits board taskId ∧
        ∀ id ∈ (know n).pending, id ∉ (know n).linked := nofun
  have reap : ∀ stubs ahead rest, Call.reap stubs' ahead' next = .reap stubs ahead rest →
      ReapAt stubs ahead rest := fun _ _ _ same => by
    cases same
    exact at_next
  rcases moves with ⟨rfl, chosen, quiet⟩ | ⟨id, rfl, once, archived, _, effect⟩
  · -- a read: what it chooses is idle, unowned and nobody else's
    have knows' := @Knows.replace s { s with
        calls := s.calls.set n (.reap stubs' ahead' next),
        reaped := (Call.reap stubs ahead rest).archives.toList.map (⟨·, s.calls.length⟩) ++ s.reaped }
      n _ know knows other here' (fun _ there => there) (fun _ _ _ fit => fit) (know n) mine
      fun id mem => ⟨knows.present n id mem, .inl mem⟩
    refine inv.replace other here' (List.length_set ..).ge (fun _ there => there) ⟨_, knows'⟩ reap
      (fun id mem => ?_) (fun m _ c at_m id mem => ?_) nofun fun r mem => .inl ?_
    · have mem : id ∈ (Call.reap stubs ahead rest).chooses s.board := chosen ▸ mem
      obtain ⟨idle, linking, doomed⟩ := untouched _ here id mem
      have orphan : TrueOrphan s.board id := ⟨idle, unowned_of_chooses mem⟩
      exact ⟨orphan.present, orphan, linking,
        fun m _ c at_m mem => doomed (Sys.doomed_iff.mpr ⟨m, c, at_m, mem⟩)⟩
    · exact (inv.doomed id (Sys.doomed_iff.mpr ⟨m, c, at_m, mem⟩)).1
    · rwa [quiet] at mem
  · -- an archive: what is still ahead of a reap are other issues
    have doomed : s.Doomed id := Sys.doomed_iff.mpr ⟨n, _, here, List.mem_cons_self⟩
    have orphan := (inv.doomed id doomed).1
    have archive : board = s.board.modify id (·.archive reapReason) fun _ => rfl :=
      effect.resolve_left fun ⟨absent, _⟩ => by
        have there := orphan.present
        rw [absent] at there
        cases there
    subst archive
    have present : ∀ k, (s.board.issue k).isSome →
        ((s.board.modify id (·.archive reapReason) fun _ => rfl).issue k).isSome :=
      fun _ there => Board.isSome_modify there
    have knows' := @Knows.replace s { s with
        board := s.board.modify id (·.archive reapReason) fun _ => rfl
        calls := s.calls.set n (.reap stubs' ahead' next),
        reaped := (Call.reap stubs (id :: ahead') rest).archives.toList.map (⟨·, s.calls.length⟩) ++
          s.reaped }
      n _ know knows other here' present (fun _ _ _ fit => ⟨fit.children, fit.pending, fit.linked⟩)
      (know n) mine fun k mem => ⟨present k (knows.present n k mem), .inl mem⟩
    have kept : ∀ k ≠ id, TrueOrphan s.board k →
        TrueOrphan (s.board.modify id (·.archive reapReason) fun _ => rfl) k :=
      fun _ other orphan => orphan.modify other
    have alone : ∀ m ≠ n, ∀ c : Call, s.calls[m]? = some c → ∀ k ∈ id :: ahead', k ∉ c.ahead :=
      fun m ne c at_m k mem mem' => ne (inv.alone m n c _ k at_m here mem' mem)
    refine inv.replace other here' (List.length_set ..).ge present ⟨_, knows'⟩ reap
      (fun k mem => ?_) (fun m ne c at_m k mem => ?_) nofun fun r mem => ?_
    · have mem' : k ∈ id :: ahead' := List.mem_cons_of_mem _ mem
      obtain ⟨orphan, idle⟩ := inv.doomed k (Sys.doomed_iff.mpr ⟨n, _, here, mem'⟩)
      exact ⟨orphan.present, kept k (fun same => once (same ▸ mem)) orphan, idle,
        fun m ne c at_m => alone m ne c at_m k mem'⟩
    · have other : k ≠ id := fun same => alone m ne c at_m id List.mem_cons_self (same ▸ mem)
      exact kept k other (inv.doomed k (Sys.doomed_iff.mpr ⟨m, c, at_m, mem⟩)).1
    · rw [archived] at mem
      rcases List.mem_cons.mp mem with rfl | old
      · exact .inr ⟨doomed, (List.length_set ..).ge⟩
      · exact .inl old

/-- A call is cut off. -/
theorem Sys.Inv.cutOff (inv : s.Inv) (here : s.calls[n]? = some call) :
    Sys.Inv { s with calls := s.calls.set n call.cutOff } := by
  obtain ⟨know, knows⟩ := inv.knows
  have other : ∀ m ≠ n, (s.calls.set n call.cutOff)[m]? = s.calls[m]? :=
    fun m ne => List.getElem?_set_ne ne.symm
  have here' : (s.calls.set n call.cutOff)[n]? = some call.cutOff :=
    List.getElem?_set_self (List.getElem?_eq_some_iff.mp here).1
  have knows' := @Knows.replace s { s with calls := s.calls.set n call.cutOff } n _ know knows other
    here' (fun _ there => there) (fun _ _ _ fit => fit) (know n)
    (fun taskId rest same => by
      cases call <;> cases same
      exact ⟨trivial, (knows.follows n _ _ here).2⟩)
    fun id mem => ⟨knows.present n id mem, .inl mem⟩
  refine inv.replace other here' (List.length_set ..).ge (fun _ there => there) ⟨_, knows'⟩
    (fun _ _ _ same => ?_) (fun id mem => ?_)
    (fun m _ c at_m id mem => (inv.doomed id (Sys.doomed_iff.mpr ⟨m, c, at_m, mem⟩)).1)
    (fun id links => ?_) fun r mem => .inl mem
  · cases call <;> cases same
    exact .thrown
  · cases call <;> cases mem
  · cases call <;> cases links

/-- Another process changes an issue that no reap has chosen, or one that stays an open
stub. -/
theorem Sys.Inv.modify {id : String} {f : Issue → Issue} {keep : ∀ i, (f i).id = i.id} (inv : s.Inv)
    (orphan : s.Doomed id → TrueOrphan (s.board.modify id f keep) id) :
    Sys.Inv { s with board := s.board.modify id f keep } := by
  obtain ⟨know, knows⟩ := inv.knows
  have present : ∀ k, (s.board.issue k).isSome → ((s.board.modify id f keep).issue k).isSome :=
    fun _ there => Board.isSome_modify there
  have kept : ∀ k ≠ id, TrueOrphan s.board k → TrueOrphan (s.board.modify id f keep) k :=
    fun _ other orphan => orphan.modify other
  refine ⟨⟨know, fun n taskId rest here => ?_, fun n k mem => present k (knows.present n k mem),
    knows.apart⟩, inv.reaps, fun k doomed => ⟨?_, (inv.doomed k doomed).2⟩, inv.alone,
    fun r mem => ⟨present r.id (inv.reaped r mem).1, (inv.reaped r mem).2⟩⟩
  · obtain ⟨follows, fit, distinct⟩ := knows.follows n taskId rest here
    exact ⟨follows, ⟨fit.children, fit.pending, fit.linked⟩, distinct⟩
  · by_cases same : k = id
    · exact same ▸ orphan (same ▸ doomed)
    · exact kept k same (inv.doomed k doomed).1

theorem Sys.Inv.update {id : String} {f : Issue → Issue} {keep : ∀ i, (f i).id = i.id} {done : Option Unit}
    (inv : s.Inv) (moved : s.board.update id f keep = (board, done))
    (orphan : s.Doomed id → TrueOrphan (s.board.modify id f keep) id) :
    Sys.Inv { s with board } := by
  rw [Board.update] at moved
  split at moved <;> cases moved
  · exact inv.modify orphan
  · exact inv

/-- Another process makes a call. -/
theorem Sys.Inv.other {op : WgCall} {reply : Option op.Reply} (inv : s.Inv)
    (untouched : Untouched s (.other op choice)) (others : isOther op = true)
    (done : Board.exec digest op choice s.board = some (board, reply)) :
    Sys.Inv { s with board } := by
  cases op with
  | claimIssue id =>
      simp only [Board.exec] at done
      split at done
      · cases done
      · cases done
        exact inv.update rfl fun doomed => absurd doomed untouched
  | wedgeMark id reason =>
      exact inv.update (Option.some.inj done) fun doomed => absurd doomed untouched
  | updateIssue id patch =>
      refine inv.update (Option.some.inj done) fun doomed => ?_
      obtain ⟨⟨i, here, _, unclaimed, unwedged⟩, unowned⟩ := (inv.doomed id doomed).1
      refine ⟨⟨patch.apply i, ?_, untouched doomed i here, unclaimed, unwedged⟩, unowned⟩
      refine Board.issue_modify_self.trans ?_
      rw [here]
      rfl
  | _ => cases others

theorem Sys.Inv.step {t : Sys} {e : Event} (inv : s.Inv) (untouched : Untouched s e)
    (fire : s.step digest e = some t) : t.Inv := by
  cases e with
  | reap =>
      cases fire
      refine inv.begin rfl rfl (fun _ _ _ same => ?_) nofun
      cases same
      exact .begun
  | decompose taskId artifact ext =>
      cases fire
      refine inv.begin rfl rfl nofun fun _ _ same => ?_
      cases same
      exact reconcile_follows
  | advance n choice =>
      obtain ⟨call, here, fire⟩ := Option.bind_eq_some_iff.mp fire
      obtain ⟨⟨board, next⟩, moved, rfl⟩ := Option.map_eq_some_iff.mp fire
      cases call with
      | reap stubs ahead rest => exact inv.reap here untouched moved
      | decompose taskId rest =>
          obtain ⟨_, stepped, same⟩ := Option.map_eq_some_iff.mp moved
          cases same
          exact inv.decompose here stepped
  | cutOff n =>
      obtain ⟨call, here, rfl⟩ := Option.map_eq_some_iff.mp fire
      exact inv.cutOff here
  | other op choice =>
      simp only [Sys.step] at fire
      split at fire
      · rename_i others
        obtain ⟨⟨board, reply⟩, done, rfl⟩ := Option.map_eq_some_iff.mp fire
        exact inv.other untouched others done
      · cases fire

/-! ## Every run -/

theorem ReapAt.archives {stubs : List Issue} {ahead : List String} {rest : Async (List String)}
    {id : String} (at_rest : ReapAt stubs ahead rest)
    (archives : (Call.reap stubs ahead rest).archives = some id) : id ∈ ahead := by
  cases at_rest with
  | begun => cases archives
  | read => cases archives
  | @archiving stubs orphans archived distinct =>
      cases orphans with
      | nil => cases archives
      | cons o orphans =>
          cases archives
          exact List.mem_cons_self
  | thrown => cases archives

/-- In every run whose reads and foreign calls leave the chosen stubs untouched, whatever
a reap archives next is a true orphan, and whatever a decomposition links next has not
been archived by a reap since it began. -/
theorem reaps_orphans {s : Sys} (run : Steps (Sys.step digest) Untouched (.init board) s)
    (e : Event) : Sound s e := by
  have start : (Sys.init board).Inv := ⟨⟨fun _ => .start, nofun, nofun, nofun⟩, nofun,
    fun _ ⟨_, mem, _⟩ => absurd mem List.not_mem_nil, nofun, nofun⟩
  have inv : s.Inv := run.invariant start fun _ _ _ inv untouched fire => inv.step untouched fire
  cases e with
  | advance n choice =>
      intro call here
      constructor
      · intro id archives
        cases call with
        | decompose taskId rest => cases archives
        | reap stubs ahead rest =>
            have chosen := (inv.reaps n _ _ _ here).archives archives
            exact (inv.doomed id (Sys.doomed_iff.mpr ⟨n, _, here, chosen⟩)).1
      · rintro id links r mem rfl
        by_contra before
        exact (inv.reaped r mem).2.2 n (Nat.lt_of_not_le before) call here links
  | _ => trivial

end

/-! ## Two runs -/

instance (b : Board) (id : String) : Decidable (Idle b id) :=
  decidable_of_iff ((b.issue id).any fun i =>
      openStub i && i.claimToken.isNone && i.wedgeReason.isNone) <| by
    simp only [Idle, Option.any_eq_true, Bool.and_eq_true, Option.isNone_iff_eq_none, and_assoc]

instance (s : Sys) (e : Event) : Decidable (Untouched s e) := by
  cases e with
  | other op choice =>
      cases op <;> unfold Untouched Sys.Doomed <;> infer_instance
  | _ => unfold Untouched Sys.Doomed Sys.Linking; infer_instance

/-- A decomposition is cut off before it links its issue. -/
def abandoned : List Event :=
  [.decompose "wg-task" (some oneStep) oneStep, .advance 0 {}, .advance 0 {},
    .advance 0 { newId := "wg-1" }, .cutOff 0]

/-- The abandoned stub is reaped while another decomposition runs and its issue is claimed. -/
def reapedBesides : List Event :=
  abandoned ++ [.reap, .decompose "wg-task" (some oneStep) oneStep, .advance 1 {}, .advance 2 {},
    .advance 2 {}, .advance 2 { newId := "wg-2" }, .advance 1 {}, .advance 2 {},
    .other (.claimIssue "wg-2") { claimToken := "lap" }]

theorem reaps_orphans_besides :
    ∃ s, Steps (Sys.step sampleDigest) Untouched (.init taskBoard) s ∧
      s.calls[1]?.bind Call.archives = some "wg-1" ∧ Sound s (.advance 1 {}) := by
  have replay : (runWhile (Sys.step sampleDigest) (fun s e => decide (Untouched s e))
      (.init taskBoard) reapedBesides).any
        (fun s => s.calls[1]?.bind Call.archives = some "wg-1") = true := by
    decide +kernel
  obtain ⟨s, reached, archives⟩ := (Option.any_eq_true _ _).mp replay
  have run := Steps.of_runWhile (fun _ _ guard => of_decide_eq_true guard) reached
  exact ⟨s, run, of_decide_eq_true archives, reaps_orphans run _⟩

/-- The abandoned stub is claimed, then reaped. -/
def claimedReap : List Event :=
  abandoned ++ [.other (.claimIssue "wg-1") { claimToken := "lap" }, .reap, .advance 1 {},
    .advance 1 {}]

theorem claimed_stub_reaped :
    ∃ s t, Steps (Sys.step sampleDigest) AnyStep (.init taskBoard) s ∧
      s.step sampleDigest (.advance 1 {}) = some t ∧ ¬ Sound s (.advance 1 {}) := by
  have replay : (runWhile (Sys.step sampleDigest) (fun _ _ => true) (.init taskBoard)
      claimedReap).any (fun s => (s.step sampleDigest (.advance 1 {})).isSome ∧
        s.calls[1]?.bind Call.archives = some "wg-1" ∧ ¬ Idle s.board "wg-1") = true := by
    decide +kernel
  obtain ⟨s, reached, facts⟩ := (Option.any_eq_true _ _).mp replay
  obtain ⟨enabled, archives, claimed⟩ := of_decide_eq_true facts
  obtain ⟨t, fire⟩ := Option.isSome_iff_exists.mp enabled
  obtain ⟨call, here, archives⟩ := Option.bind_eq_some_iff.mp archives
  have run : Steps (Sys.step sampleDigest) AnyStep (.init taskBoard) s :=
    Steps.of_runWhile (fun _ _ _ => trivial) reached
  exact ⟨s, t, run, fire, fun sound => claimed ((sound call here).1 _ archives).idle⟩

end Reaper

end Opensquid.Loop
