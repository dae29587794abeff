import Opensquid.Ralph.Orchestrator

/-!
# The loop closes and stops with cause

What the result of a ralph loop says, checked against the calls the loop has made and
against the board it leaves. `Tally.Inv` holds between passes, and, while an item is
driven, up to that item.
-/

namespace Opensquid.Ralph

open Opensquid.Lib Opensquid.WorkGraph Opensquid.Loop

/-! ## What the trace shows -/

/-- The call drives the item. -/
def Seen.Drives (id : String) : Seen → Prop
  | ⟨.drive item, _⟩ => item.id = id
  | _ => False

/-- The item that the call parks: one that it escalates, not for a resource pause. -/
def Seen.parks : Seen → Option Parked
  | ⟨.escalate reason (some id), _⟩ => if (isResourcePause reason).isNone then some ⟨id, reason⟩ else none
  | _ => none

/-- The items escalated so far, the first one first. -/
def escalated (trace : List Seen) : List Parked := trace.reverse.filterMap Seen.parks

/-- The last drive of the item has shipped it. -/
def ShippedLast (trace : List Seen) (id : String) : Prop :=
  ∃ newer older item result, trace = newer ++ ⟨.drive item, some result⟩ :: older ∧ item.id = id ∧
    result.outcome = .shipped ∧ ∀ s ∈ newer, ¬ s.Drives id

/-- The tip of the target was read before any drive of the item. -/
def Based (target : Option String) (trace : List Seen) (id baseSha : String) : Prop :=
  ∃ newer older, trace = newer ++ ⟨.tip target, some baseSha⟩ :: older ∧ ∀ s ∈ older, ¬ s.Drives id

/-- After the last drive of the item, a durable commit was found since that tip. -/
def DurableSince (target : Option String) (trace : List Seen) (id : String) : Prop :=
  ∃ newer older baseSha, trace = newer ++ ⟨.durable baseSha target, some true⟩ :: older ∧
    Based target older id baseSha ∧ ∀ s ∈ newer, ¬ s.Drives id

/-- Why an item was closed. -/
inductive Grounds (deps : RalphDeps) (trace : List Seen) (id : String) : Prop
  | rolledUp (child : String) (ids : List String) (call : ⟨.rollUp child, some ids⟩ ∈ trace)
      (mem : id ∈ ids)
  | shipped (claimed : ⟨.wg (.claimIssue id), some true⟩ ∈ trace) (last : ShippedLast trace id)
      (durable : deps.git = true → DurableSince deps.target trace id)

/-- What the result of the loop promises. -/
structure Sound (deps : RalphDeps) (result : RalphResult) (w : World) : Prop where
  empty : result.stopped = .boardEmpty → ∀ id i, w.board.issue id = some i → i.status.terminal = true
  grounds : ∀ id ∈ result.closed, Grounds deps w.trace id
  once : result.closed.Nodup
  apart : ∀ p ∈ result.parked, p.id ∉ result.closed
  wedged : ∀ p ∈ result.parked, ∃ i, w.board.issue p.id = some i ∧ i.wedgeReason.isSome
  escalated : result.parked = escalated w.trace
  spent : result.spent = lapCosts w.laps

/-- No lap says that the board is empty; when an item is closed, no issue that the loop has
parked rolls up. -/
def Faithful (op : LoopCall) (a : Answer) (w : World) : Prop :=
  match op with
  | .drive _ => ∀ answer ∈ a.laps, answer.Honest
  | .rollUp child => ∀ p ∈ escalated w.trace, ¬ RollsUp w.board child p.id
  | _ => True

/-! ### One call more -/

section

variable {trace : List Seen} {s : Seen} {id baseSha : String} {target : Option String}

theorem escalated_cons : escalated (s :: trace) = escalated trace ++ s.parks.toList := by
  rw [escalated, List.reverse_cons, List.filterMap_append]
  cases parks : s.parks <;> simp only [List.filterMap_cons, parks, List.filterMap_nil] <;> rfl

theorem ShippedLast.cons (shipped : ShippedLast trace id) (other : ¬ s.Drives id) :
    ShippedLast (s :: trace) id := by
  obtain ⟨newer, older, item, result, rfl, same, outcome, last⟩ := shipped
  refine ⟨s :: newer, older, item, result, rfl, same, outcome, fun x mem => ?_⟩
  rcases List.mem_cons.mp mem with rfl | old
  · exact other
  · exact last x old

theorem Based.cons (based : Based target trace id baseSha) : Based target (s :: trace) id baseSha := by
  obtain ⟨newer, older, rfl, first⟩ := based
  exact ⟨s :: newer, older, rfl, first⟩

theorem DurableSince.cons (durable : DurableSince target trace id) (other : ¬ s.Drives id) :
    DurableSince target (s :: trace) id := by
  obtain ⟨newer, older, baseSha, rfl, based, last⟩ := durable
  refine ⟨s :: newer, older, baseSha, rfl, based, fun x mem => ?_⟩
  rcases List.mem_cons.mp mem with rfl | old
  · exact other
  · exact last x old

theorem Grounds.cons {deps : RalphDeps} (grounds : Grounds deps trace id) (other : ¬ s.Drives id) :
    Grounds deps (s :: trace) id := by
  cases grounds with
  | rolledUp child ids call mem => exact .rolledUp child ids (List.mem_cons_of_mem _ call) mem
  | shipped claimed last durable =>
      exact .shipped (List.mem_cons_of_mem _ claimed) (last.cons other) fun git =>
        (durable git).cons other

end

/-! ## The invariant -/

/-- The tally agrees with the board and the trace. `busy`: the item that is being driven. -/
structure Tally.Inv (deps : RalphDeps) (busy : Option String) (t : Tally) (w : World) : Prop where
  closed : ∀ id ∈ t.closed, ∃ i, w.board.issue id = some i ∧ i.status.terminal = true
  once : t.closed.Nodup
  parked : ∀ p ∈ t.parked, ∃ i, w.board.issue p.id = some i ∧ i.wedgeReason.isSome
  apart : ∀ p ∈ t.parked, p.id ∉ t.closed
  spent : t.spent = lapCosts w.laps
  listed : t.parked = escalated w.trace
  driven : ∀ s ∈ w.trace, ∀ id, s.Drives id →
    id ∈ t.closed ∨ id ∈ t.parked.map (·.id) ∨ id ∈ t.awaitingInputIds ∨ id ∈ busy
  grounds : ∀ id ∈ t.closed, Grounds deps w.trace id
  free : ∀ id ∈ busy, id ∉ t.closed ∧ id ∉ t.parked.map (·.id)

/-- The call neither drives nor parks an item. -/
def Seen.Plain (s : Seen) : Prop := (∀ id, ¬ s.Drives id) ∧ s.parks = none

section

variable {deps : RalphDeps} {busy : Option String} {t : Tally} {w : World}

/-- A plain call that keeps what the board says. -/
theorem Tally.Inv.plain (inv : t.Inv deps busy w) {v : LapWorld} {s : Seen}
    (keeps : Keeps w.board v.board) (laps : v.laps = w.laps) (plain : s.Plain) :
    t.Inv deps busy ⟨v, s :: w.trace⟩ where
  closed id mem := by
    obtain ⟨i, here, terminal⟩ := inv.closed id mem
    obtain ⟨j, there, still, _⟩ := keeps id i here
    exact ⟨j, there, still terminal⟩
  once := inv.once
  parked p mem := by
    obtain ⟨i, here, wedged⟩ := inv.parked p mem
    obtain ⟨j, there, _, still⟩ := keeps p.id i here
    exact ⟨j, there, still wedged⟩
  apart := inv.apart
  spent := inv.spent.trans (congrArg lapCosts laps.symm)
  listed := by
    rw [escalated_cons, plain.2]
    exact inv.listed.trans (List.append_nil _).symm
  driven x mem id drives := by
    rcases List.mem_cons.mp mem with rfl | old
    · exact absurd drives (plain.1 id)
    · exact inv.driven x old id drives
  grounds id mem := (inv.grounds id mem).cons (plain.1 id)
  free := inv.free

theorem Tally.Inv.sound (inv : t.Inv deps busy w) {stopped : RalphStop}
    (empty : stopped = .boardEmpty → ∀ id i, w.board.issue id = some i → i.status.terminal = true) :
    Sound deps (t.result stopped) w where
  empty := empty
  grounds := inv.grounds
  once := inv.once
  apart := inv.apart
  wedged := inv.parked
  escalated := inv.listed
  spent := inv.spent

end

/-! ## The calls -/

section

variable {digest : Digest} {deps : RalphDeps} {busy : Option String} {t : Tally} {w : World}

/-- The calls of the loop under the condition. -/
noncomputable abbrev calls (digest : Digest) (deps : RalphDeps) :=
  Program.guarded (LoopCall.exec digest deps) Faithful

/-- If the program returns, this holds. -/
def Returns {α : Type} (post : α → World → Prop) (o : Option α) (w : World) : Prop :=
  ∀ a ∈ o, post a w

theorem calls_await {op : LoopCall} {post : Option op.Reply → World → Prop}
    (next : ∀ a v reply, Faithful op a w → op.effect digest deps a w.toLapWorld = some (v, reply) →
      post reply ⟨v, ⟨op, reply⟩ :: w.trace⟩) :
    (Program.await op).Always (calls digest deps) (fun _ _ => True) post w := by
  refine @Program.Always.await_guarded _ _ _ _ _ _ (fun _ _ => True) w op post trivial
    fun a u reply faithful done => ?_
  obtain ⟨⟨v, reply⟩, moved, same⟩ := Option.map_eq_some_iff.mp done
  cases same
  exact next a v _ faithful moved

/-- Sequencing, where only what is returned matters. -/
theorem returns_bind {α β : Type} {p : Loop α} {f : α → Loop β} {m : α → World → Prop}
    {post : β → World → Prop}
    (first : p.Always (calls digest deps) (fun _ _ => True) (Returns m) w)
    (rest : ∀ a w, m a w → (f a).Always (calls digest deps) (fun _ _ => True) (Returns post) w) :
    (p.bind f).Always (calls digest deps) (fun _ _ => True) (Returns post) w := by
  refine Program.Always.bind (first.mono fun o t returned => ?_)
  cases o with
  | none => exact nofun
  | some a => exact rest a t (returned a rfl)

theorem returns_ret {α : Type} {a : α} {post : α → World → Prop} (here : post a w) :
    Returns post (some a) w := by
  rintro _ ⟨⟩
  exact here

/-- A call of which only the reply matters. -/
theorem quiet_always {op : LoopCall} {post : op.Reply → World → Prop}
    (quiet : ∀ a v reply, op.effect digest deps a w.toLapWorld = some (v, reply) → v = w.toLapWorld)
    (next : ∀ reply, post reply ⟨w.toLapWorld, ⟨op, some reply⟩ :: w.trace⟩) :
    (Program.await op).Always (calls digest deps) (fun _ _ => True) (Returns post) w := by
  refine calls_await fun a v reply _ done => ?_
  cases quiet a v reply done
  cases reply with
  | none => exact nofun
  | some reply => exact returns_ret (next reply)

/-- A work-graph call fails without effect, or takes effect. -/
theorem effect_wg {call : WgCall} {a : Answer} {w v : LapWorld} {reply : Option call.Reply}
    (done : (LoopCall.wg call).effect digest deps a w = some (v, reply)) :
    reply = none ∧ v = w ∨
      ∃ board, Board.exec digest call a.choice w.board = some (board, reply) ∧ v = { w with board } := by
  simp only [LoopCall.effect] at done
  split at done
  · cases done
    exact .inl ⟨rfl, rfl⟩
  · obtain ⟨⟨board, reply⟩, executed, same⟩ := Option.map_eq_some_iff.mp done
    cases same
    exact .inr ⟨board, executed, rfl⟩

/-- An update through the work-graph. -/
theorem update_always {call : WgCall} {id : String} {f : Issue → Issue} {keep : ∀ i, (f i).id = i.id}
    {post : call.Reply → World → Prop}
    (update : ∀ choice board reply, Board.exec digest call choice w.board = some (board, some reply) →
      (w.board.issue id).isSome ∧ board = w.board.modify id f keep)
    (next : ∀ reply, (w.board.issue id).isSome →
      post reply ⟨{ w.toLapWorld with board := w.board.modify id f keep },
        ⟨.wg call, some reply⟩ :: w.trace⟩) :
    (Program.await (LoopCall.wg call)).Always (calls digest deps) (fun _ _ => True)
      (Returns post) w := by
  refine calls_await fun a v reply _ done => ?_
  cases reply with
  | none => exact nofun
  | some reply =>
      obtain ⟨thrown, _⟩ | ⟨board, executed, rfl⟩ := effect_wg done
      · cases thrown
      · obtain ⟨present, rfl⟩ := update _ board reply executed
        exact returns_ret (next reply present)

theorem update_of_done {b t : Board} {id : String} {f : Issue → Issue} {keep : ∀ i, (f i).id = i.id}
    (done : some (b.update id f keep) = some (t, some ())) :
    (b.issue id).isSome ∧ t = b.modify id f keep := by
  rcases Board.of_update (Option.some.inj done) with ⟨_, present, updated⟩ | ⟨thrown, _⟩
  · exact ⟨present, updated⟩
  · cases thrown

theorem plain_wg {call : WgCall} {reply : Option call.Reply} : Seen.Plain ⟨.wg call, reply⟩ :=
  ⟨fun _ => id, rfl⟩

/-! ### Parking -/

theorem plain_escalate {reason : HumanRequiredReason} {item : Option String} {reply : Option Bool}
    (pause : item = none ∨ (isResourcePause reason).isSome) :
    Seen.Plain ⟨.escalate reason item, reply⟩ := by
  refine ⟨fun _ => id, ?_⟩
  rcases pause with rfl | pause
  · rfl
  · cases item with
    | none => rfl
    | some id => exact if_neg (by rw [Option.isNone_iff_eq_none]; intro none; rw [none] at pause; cases pause)

/-- An escalation that parks nothing, delivered or not. -/
theorem escalated_always {reason : HumanRequiredReason} {item : Option Issue}
    (pause : item = none ∨ (isResourcePause reason).isSome) (inv : t.Inv deps busy w) :
    (parkAndEscalate t reason item).Always (calls digest deps) (fun _ _ => True)
      (fun o u => u.board = w.board ∧ t.Inv deps busy u ∧ ∀ a ∈ o, a = t) w := by
  have unparked : park t reason item = return t := by
    rcases pause with rfl | pause
    · rfl
    · cases item with
      | none => rfl
      | some item =>
          exact if_neg (by rw [Option.isNone_iff_eq_none]; intro none; rw [none] at pause; cases pause)
  have plain : ∀ reply, Seen.Plain ⟨.escalate reason (item.map (·.id)), reply⟩ := fun reply =>
    plain_escalate (pause.imp_left fun none => by rw [none]; rfl)
  rw [parkAndEscalate, unparked]
  refine Program.Always.bind (Program.Always.bind (calls_await fun a v reply _ done => ?_))
  cases done
  have inv' := fun reply => inv.plain (.refl _) rfl (plain reply)
  cases delivered : a.flag with
  | none => exact ⟨rfl, inv' none, nofun⟩
  | some delivered =>
      dsimp only
      split
      · refine ⟨rfl, inv' _, ?_⟩
        rintro _ ⟨⟩
        rfl
      · exact ⟨rfl, inv' _, nofun⟩

theorem escalate_always {reason : HumanRequiredReason} {item : Option Issue}
    {post : Tally → World → Prop} (pause : item = none ∨ (isResourcePause reason).isSome)
    (inv : t.Inv deps busy w)
    (next : ∀ w', w'.board = w.board → t.Inv deps busy w' → post t w') :
    (parkAndEscalate t reason item).Always (calls digest deps) (fun _ _ => True) (Returns post) w := by
  refine (escalated_always pause inv).mono fun o u ⟨same, inv, returned⟩ a mem => ?_
  cases returned a mem
  exact next u same inv

/-- The item that is being driven is parked. -/
theorem Tally.Inv.park {id : String} {reason : HumanRequiredReason} {i : Issue} {reply : Option Bool}
    (residual : isResourcePause reason = none) (inv : t.Inv deps (some id) w)
    (here : w.board.issue id = some i) (wedged : i.wedgeReason.isSome) :
    Tally.Inv deps none { t with parked := t.parked ++ [⟨id, reason⟩] }
      ⟨w.toLapWorld, ⟨.escalate reason (some id), reply⟩ :: w.trace⟩ where
  closed := inv.closed
  once := inv.once
  parked p mem := by
    rcases List.mem_append.mp mem with old | new
    · exact inv.parked p old
    · cases List.mem_singleton.mp new
      exact ⟨i, here, wedged⟩
  apart p mem := by
    rcases List.mem_append.mp mem with old | new
    · exact inv.apart p old
    · cases List.mem_singleton.mp new
      exact (inv.free id rfl).1
  spent := inv.spent
  listed := by
    have parks : Seen.parks ⟨.escalate reason (some id), reply⟩ = some ⟨id, reason⟩ :=
      if_pos (by rw [residual]; rfl)
    rw [escalated_cons, parks, ← inv.listed]
    rfl
  driven s mem k drives := by
    rcases List.mem_cons.mp mem with rfl | old
    · exact drives.elim
    · rw [List.map_append, List.mem_append]
      rcases inv.driven s old k drives with closed | parked | waits | busy
      · exact .inl closed
      · exact .inr (.inl (.inl parked))
      · exact .inr (.inr (.inl waits))
      · cases busy
        exact .inr (.inl (.inr (List.mem_singleton_self _)))
  grounds k mem := (inv.grounds k mem).cons fun drives => drives
  free := nofun

/-- The wedge of the item that is being driven, and its escalation. -/
theorem parkItem_always {reason : HumanRequiredReason} {item : Issue} {post : Tally → World → Prop}
    (residual : isResourcePause reason = none) (inv : t.Inv deps (some item.id) w)
    (next : ∀ w', Tally.Inv deps none { t with parked := t.parked ++ [⟨item.id, reason⟩] } w' →
      post { t with parked := t.parked ++ [⟨item.id, reason⟩] } w') :
    (parkAndEscalate t reason (some item)).Always (calls digest deps) (fun _ _ => True)
      (Returns post) w := by
  refine returns_bind (m := fun a u => { t with parked := t.parked ++ [⟨item.id, reason⟩] } = a ∧
    t.Inv deps (some item.id) u ∧ ∃ i, u.board.issue item.id = some i ∧ i.wedgeReason.isSome) ?_ ?_
  · rw [park, if_pos (by rw [residual]; rfl)]
    refine returns_bind (m := fun _ u => t.Inv deps (some item.id) u ∧
        ∃ i, u.board.issue item.id = some i ∧ i.wedgeReason.isSome)
      (update_always (fun _ _ _ done => update_of_done done) fun _ present => ?_)
      fun _ u facts => returns_ret ⟨rfl, facts⟩
    obtain ⟨i, here⟩ := Option.isSome_iff_exists.mp present
    have keeps : Keeps w.board (w.board.modify item.id (·.wedge reason.name) (Issue.wedge_id _)) :=
      .modify (fun _ _ terminal => terminal) fun _ _ => rfl
    have marked : (w.board.modify item.id (·.wedge reason.name) (Issue.wedge_id _)).issue item.id =
        some (i.wedge reason.name) := by
      rw [Board.issue_modify_self, here]
      rfl
    exact ⟨inv.plain keeps rfl plain_wg, _, marked, rfl⟩
  · rintro _ u ⟨rfl, inv, i, here, wedged⟩
    refine returns_bind (m := fun _ u =>
        Tally.Inv deps none { t with parked := t.parked ++ [⟨item.id, reason⟩] } u)
      (quiet_always (fun _ _ _ done => by cases done; rfl) fun reply =>
        inv.park residual here wedged) fun delivered u inv => ?_
    · split
      · exact returns_ret (next u inv)
      · exact nofun

/-! ### Driving -/

theorem Tally.Inv.drive {item : Issue} {result : LapResult} {v : LapWorld}
    (inv : t.Inv deps (some item.id) w) (drove : Drove w.toLapWorld (0 + result.costUsd) v) :
    Tally.Inv deps (some item.id) { t with spent := t.spent + result.costUsd }
      ⟨v, ⟨.drive item, some result⟩ :: w.trace⟩ where
  closed id mem := by
    obtain ⟨i, here, terminal⟩ := inv.closed id mem
    obtain ⟨j, there, still, _⟩ := drove.keeps id i here
    exact ⟨j, there, still terminal⟩
  once := inv.once
  parked p mem := by
    obtain ⟨i, here, wedged⟩ := inv.parked p mem
    obtain ⟨j, there, _, still⟩ := drove.keeps p.id i here
    exact ⟨j, there, still wedged⟩
  apart := inv.apart
  spent := by
    have cost := drove.cost
    rw [zero_add] at cost
    exact (congrArg (· + result.costUsd) inv.spent).trans cost.symm
  listed := by
    rw [escalated_cons]
    exact inv.listed.trans (List.append_nil _).symm
  driven s mem id drives := by
    rcases List.mem_cons.mp mem with rfl | old
    · exact .inr (.inr (.inr (congrArg some drives)))
    · exact inv.driven s old id drives
  grounds id mem := (inv.grounds id mem).cons fun drives : item.id = id =>
    (inv.free item.id rfl).1 (drives ▸ mem)
  free := inv.free

theorem drive_always {item : Issue} {post : LapResult → World → Prop}
    (inv : t.Inv deps (some item.id) w)
    (next : ∀ result w', Tally.Inv deps (some item.id) { t with spent := t.spent + result.costUsd } w' →
      w'.trace = ⟨.drive item, some result⟩ :: w.trace →
      result.outcome ≠ .humanRequired .boardEmpty → post result w') :
    (Program.await (LoopCall.drive item)).Always (calls digest deps) (fun _ _ => True)
      (Returns post) w := by
  refine calls_await fun a v reply honest done => ?_
  cases reply with
  | none => exact nofun
  | some result =>
      have run : (driveClaimedItem deps.stageLoop deps.maxRetries (a.laps.length + 1) item).run
          drives a.laps w.toLapWorld = some (v, some result) :=
        (Program.run_guarded fun answer mem _ _ => honest answer mem).trans done
      rcases driveClaimedItem_always.of_run run with ⟨_, ended⟩ | ⟨none, _⟩
      · obtain ⟨drove, outcome⟩ := ended result rfl
        exact returns_ret (next result _ (inv.drive drove) rfl outcome)
      · cases none

/-- What is known of an item when its outcome is settled; nothing stands for an item that
has been parked for want of a commit. -/
def Gated (deps : RalphDeps) (item : Issue) (t : Tally) (w : World) : Option LapOutcome → Prop
  | none => t.Inv deps none w
  | some outcome => t.Inv deps (some item.id) w ∧
      ⟨.wg (.claimIssue item.id), some true⟩ ∈ w.trace ∧ outcome ≠ .humanRequired .boardEmpty ∧
      (outcome = .shipped → ShippedLast w.trace item.id ∧
        (deps.git = true → DurableSince deps.target w.trace item.id))

theorem shippedLast_drive {item : Issue} {result : LapResult} {trace : List Seen}
    (shipped : result.outcome = .shipped) :
    ShippedLast (⟨.drive item, some result⟩ :: trace) item.id :=
  ⟨[], trace, item, result, rfl, rfl, shipped, fun _ mem => absurd mem List.not_mem_nil⟩

theorem durable_always {item : Issue} {baseSha : String} {target : Option String}
    (inv : t.Inv deps (some item.id) w) :
    (Program.await (LoopCall.durable baseSha target)).Always (calls digest deps) (fun _ _ => True)
      (Returns fun durable u => t.Inv deps (some item.id) u ∧
        u.trace = ⟨.durable baseSha target, some durable⟩ :: w.trace) w := by
  refine quiet_always (fun a v reply done => ?_) fun durable =>
    ⟨inv.plain (.refl _) rfl ⟨fun _ => id, rfl⟩, rfl⟩
  obtain ⟨_, _, same⟩ := Option.map_eq_some_iff.mp done
  cases same
  rfl

theorem Gated.durable {item : Issue} {baseSha : String} {u : World}
    (inv : t.Inv deps (some item.id) u)
    (trace : u.trace = ⟨.durable baseSha deps.target, some true⟩ :: w.trace)
    (claimed : ⟨.wg (.claimIssue item.id), some true⟩ ∈ w.trace)
    (based : Based deps.target w.trace item.id baseSha) (shipped : ShippedLast w.trace item.id) :
    Gated deps item t u (some .shipped) := by
  refine ⟨inv, ?_, nofun, fun _ => ⟨?_, fun _ => ?_⟩⟩
  · rw [trace]
    exact List.mem_cons_of_mem _ claimed
  · rw [trace]
    exact shipped.cons id
  · exact ⟨[], w.trace, baseSha, trace, based, fun _ mem => absurd mem List.not_mem_nil⟩

theorem redrive_always {item : Issue} {baseSha : String} {left : Nat}
    (inv : t.Inv deps (some item.id) w)
    (claimed : ⟨.wg (.claimIssue item.id), some true⟩ ∈ w.trace)
    (based : Based deps.target w.trace item.id baseSha) (shipped : ShippedLast w.trace item.id) :
    (redrive deps item baseSha left t).Always (calls digest deps) (fun _ _ => True)
      (Returns fun a w => Gated deps item a.1 w a.2) w := by
  induction left generalizing t w with
  | zero =>
      rw [redrive]
      refine returns_bind (durable_always inv) fun durable u ⟨inv, trace⟩ => ?_
      split
      · rename_i found
        exact returns_ret (Gated.durable inv (found ▸ trace) claimed based shipped)
      · exact returns_bind (parkItem_always rfl inv fun _ inv => inv) fun _ _ inv => returns_ret inv
  | succ left ih =>
      rw [redrive]
      refine returns_bind (durable_always inv) fun durable u ⟨inv, trace⟩ => ?_
      split
      · rename_i found
        exact returns_ret (Gated.durable inv (found ▸ trace) claimed based shipped)
      · have claimed' : ⟨.wg (.claimIssue item.id), some true⟩ ∈ u.trace :=
          trace ▸ List.mem_cons_of_mem _ claimed
        refine returns_bind (m := fun re v =>
            Tally.Inv deps (some item.id) { t with spent := t.spent + re.costUsd } v ∧
              v.trace = ⟨.drive item, some re⟩ :: u.trace ∧ re.outcome ≠ .humanRequired .boardEmpty)
          (drive_always inv fun _ _ inv trace outcome => ⟨inv, trace, outcome⟩)
          fun re v ⟨inv, driven, outcome⟩ => ?_
        have claimed'' : ⟨.wg (.claimIssue item.id), some true⟩ ∈ v.trace :=
          driven ▸ List.mem_cons_of_mem _ claimed'
        dsimp only
        split
        · rename_i other
          exact returns_ret ⟨inv, claimed'', outcome, fun shipped => absurd shipped other⟩
        · rename_i again
          refine ih inv claimed'' ?_ ?_
          · rw [driven, trace]
            exact based.cons.cons
          · rw [driven]
            exact shippedLast_drive (not_not.mp again)

/-! ### Settling -/

/-- The next pass starts from a tally that agrees with the world; a result is right. -/
def Proper (deps : RalphDeps) : Next → World → Prop
  | .again t, w => t.Inv deps none w
  | .stop result, w => Sound deps result w

theorem checkBudget_always (inv : t.Inv deps none w) :
    (checkBudget deps t).Always (calls digest deps) (fun _ _ => True) (Returns (Proper deps)) w := by
  rw [checkBudget]
  split
  · exact returns_bind (escalate_always (.inl rfl) inv fun _ _ inv => inv)
      fun _ _ inv => returns_ret (inv.sound nofun)
  · exact returns_ret inv

theorem awaitInput_always {item : Issue} (inv : t.Inv deps (some item.id) w) :
    (awaitInput item t).Always (calls digest deps) (fun _ _ => True) (Returns (Proper deps)) w := by
  have waits : Tally.Inv deps none { t with awaitingInputIds := item.id :: t.awaitingInputIds } w :=
    { inv with
      driven := fun s mem id drives => by
        rcases inv.driven s mem id drives with closed | parked | waits | busy
        · exact .inl closed
        · exact .inr (.inl parked)
        · exact .inr (.inr (.inl (List.mem_cons_of_mem _ waits)))
        · cases busy
          exact .inr (.inr (.inl List.mem_cons_self))
      free := nofun }
  refine returns_bind (quiet_always (fun a v reply done => ?_) fun _ =>
    waits.plain (.refl _) rfl plain_wg) fun claimed u inv => ?_
  · rcases effect_wg done with ⟨_, same⟩ | ⟨board, executed, same⟩
    · exact same
    · cases executed
      exact same
  · have keeps : ∀ token, Keeps u.board
        (u.board.modify item.id (·.release token) (Issue.release_id token)) := fun token => by
      refine .modify (fun i _ terminal => ?_) fun i wedged => ?_
      · simp only [Issue.release]
        split <;> exact terminal
      · simp only [Issue.release]
        split <;> exact wedged
    exact returns_bind (update_always (fun _ _ _ done => update_of_done done) fun _ _ =>
      inv.plain (keeps _) rfl plain_wg) fun _ _ inv => returns_ret inv

theorem Tally.Inv.ship {id : String} {i : Issue} (inv : t.Inv deps (some id) w)
    (here : w.board.issue id = some i) (terminal : i.status.terminal = true)
    (grounds : Grounds deps w.trace id) :
    Tally.Inv deps none { t with closed := t.closed ++ [id] } w where
  closed k mem := by
    rcases List.mem_append.mp mem with old | new
    · exact inv.closed k old
    · cases List.mem_singleton.mp new
      exact ⟨i, here, terminal⟩
  once := by
    refine List.nodup_append.mpr ⟨inv.once, List.nodup_singleton _, fun x mem y new same => ?_⟩
    cases List.mem_singleton.mp new
    exact (inv.free id rfl).1 (same ▸ mem)
  parked := inv.parked
  apart p mem closed := by
    rcases List.mem_append.mp closed with old | new
    · exact inv.apart p mem old
    · exact (inv.free id rfl).2 (List.mem_singleton.mp new ▸ List.mem_map_of_mem mem)
  spent := inv.spent
  listed := inv.listed
  driven s mem k drives := by
    rcases inv.driven s mem k drives with closed | parked | waits | busy
    · exact .inl (List.mem_append_left _ closed)
    · exact .inr (.inl parked)
    · exact .inr (.inr (.inl waits))
    · cases busy
      exact .inl (List.mem_append_right _ (List.mem_singleton_self _))
  grounds k mem := by
    rcases List.mem_append.mp mem with old | new
    · exact inv.grounds k old
    · cases List.mem_singleton.mp new
      exact grounds
  free := nofun

theorem keeps_of_closedOn {b u : Board} {closed : List String} (on : ClosedOn b u closed) :
    Keeps b u := by
  intro id i here
  rw [on.issue, here]
  refine ⟨_, rfl, fun terminal => ?_, fun wedged => ?_⟩
  · dsimp only
    split
    · rfl
    · exact terminal
  · dsimp only
    split <;> exact wedged

/-- The parents that roll up are closed, none of them a parked one. -/
theorem Tally.Inv.rollUp {child : String} {rolled : List String} {board : Board}
    (inv : t.Inv deps none w) (walked : Walked w.board child rolled board)
    (unparked : ∀ p ∈ escalated w.trace, ¬ RollsUp w.board child p.id) :
    Tally.Inv deps none { t with closed := t.closed ++ rolled }
      ⟨{ w.toLapWorld with board }, ⟨.rollUp child, some rolled⟩ :: w.trace⟩ := by
  have plain : Seen.Plain ⟨.rollUp child, some rolled⟩ := ⟨fun _ => id, rfl⟩
  have inv' := inv.plain (v := { w.toLapWorld with board }) (keeps_of_closedOn walked.board) rfl plain
  have new : ∀ id ∈ rolled, id ∉ t.closed := fun id mem closed => by
    obtain ⟨i, here, terminal⟩ := inv.closed id closed
    obtain ⟨j, there, live⟩ := (walked.rolls id mem).live
    cases here.symm.trans there
    rw [terminal] at live
    cases live
  refine { inv' with
    closed := fun id mem => ?_
    once := List.nodup_append.mpr ⟨inv.once, walked.once, fun x mem y mem' same =>
      new y mem' (same ▸ mem)⟩
    apart := fun p mem closed => ?_
    driven := fun s mem id drives => ?_
    grounds := fun id mem => ?_
    free := nofun }
  · rcases List.mem_append.mp mem with old | new
    · exact inv'.closed id old
    · obtain ⟨i, here, _⟩ := (walked.rolls id new).live
      have key : i.id = id := Table.key_of_get here
      exact ⟨{ i with status := .closed }, by
        change board.issue id = _
        rw [walked.board.issue, here, Option.map_some, key, if_pos new], rfl⟩
  · rcases List.mem_append.mp closed with old | new
    · exact inv.apart p mem old
    · exact unparked p (inv.listed ▸ mem) (walked.rolls p.id new)
  · exact (inv'.driven s mem id drives).imp_left (List.mem_append_left _)
  · rcases List.mem_append.mp mem with old | new
    · exact inv'.grounds id old
    · exact .rolledUp child rolled List.mem_cons_self new

theorem rollUp_always {child : String} (inv : t.Inv deps none w) :
    ((Program.await (LoopCall.rollUp child)).orElse (return [])).Always (calls digest deps)
      (fun _ _ => True)
      (Returns fun rolled u => Tally.Inv deps none { t with closed := t.closed ++ rolled } u) w := by
  refine Program.Always.orElse (calls_await fun a v reply unparked done => ?_)
  obtain ⟨⟨board, reply⟩, ran, same⟩ := Option.map_eq_some_iff.mp done
  cases same
  have failed : ∀ closed, Walked w.board child closed board → ∀ reply,
      Tally.Inv deps none { t with closed := t.closed ++ [] }
        ⟨{ w.toLapWorld with board }, ⟨.rollUp child, reply⟩ :: w.trace⟩ := fun closed walked reply =>
    (List.append_nil t.closed).symm ▸
      inv.plain (keeps_of_closedOn walked.board) rfl ⟨fun _ => id, rfl⟩
  rcases rollUpParents_always.of_run ran with ⟨closed, rfl, walked⟩ | ⟨rfl, _, closed, walked⟩
  · exact returns_ret (inv.rollUp walked unparked)
  · exact returns_ret (failed closed walked none)

theorem ship_always {item : Issue} (inv : t.Inv deps (some item.id) w)
    (grounds : Grounds deps w.trace item.id) :
    (ship deps item t).Always (calls digest deps) (fun _ _ => True) (Returns (Proper deps)) w := by
  refine returns_bind (m := fun _ u => t.Inv deps (some item.id) u ∧ Grounds deps u.trace item.id ∧
      ∃ i, u.board.issue item.id = some i ∧ i.status.terminal = true)
    (update_always (fun _ _ _ done => update_of_done done) fun _ present => ?_) ?_
  · obtain ⟨i, here⟩ := Option.isSome_iff_exists.mp present
    have keeps : Keeps w.board (w.board.modify item.id
        (IssuePatch.apply { status := some .closed }) (IssuePatch.apply_id _)) :=
      .modify (fun _ _ _ => rfl) fun _ wedged => wedged
    have closed : (w.board.modify item.id (IssuePatch.apply { status := some .closed })
        (IssuePatch.apply_id _)).issue item.id =
          some (IssuePatch.apply { status := some .closed } i) := by
      rw [Board.issue_modify_self, here]
      rfl
    exact ⟨inv.plain keeps rfl plain_wg, grounds.cons (fun drives => drives), _, closed, rfl⟩
  · rintro _ u ⟨inv, grounds, i, here, terminal⟩
    refine returns_bind (m := fun _ u => Tally.Inv deps none { t with closed := t.closed ++ [item.id] } u)
      ?_ fun _ _ inv => returns_bind (rollUp_always inv) fun _ _ inv => checkBudget_always inv
    rw [clearStage]
    split
    · refine quiet_always (fun _ _ _ done => by cases done; rfl) fun _ => ?_
      exact (inv.plain (.refl _) rfl ⟨fun _ => id, rfl⟩).ship here terminal
        (grounds.cons fun drives => drives)
    · exact returns_ret (inv.ship here terminal grounds)

theorem parkOrPause_always {item : Issue} {reason : HumanRequiredReason}
    (inv : t.Inv deps (some item.id) w) (honest : reason ≠ .boardEmpty) :
    (do
      let t ← parkAndEscalate t reason (some item)
      match isResourcePause reason with
      | some stopped => return .stop (t.result stopped)
      | none => checkBudget deps t : Loop Next).Always (calls digest deps) (fun _ _ => True)
        (Returns (Proper deps)) w := by
  cases pause : isResourcePause reason with
  | none =>
      exact returns_bind (parkItem_always pause inv fun _ inv => inv) fun _ _ inv =>
        checkBudget_always inv
  | some stopped =>
      refine returns_bind (escalate_always (.inr (by rw [pause]; rfl)) inv fun _ _ inv => inv)
        fun _ _ inv => returns_ret (inv.sound ?_)
      rintro rfl
      cases reason <;> cases pause
      exact absurd rfl honest

theorem divert_always {item : Issue} {outcome : LapOutcome} (inv : t.Inv deps (some item.id) w)
    (honest : outcome ≠ .humanRequired .boardEmpty) :
    (divert deps item t outcome).Always (calls digest deps) (fun _ _ => True)
      (Returns (Proper deps)) w := by
  cases outcome with
  | humanRequired reason => exact parkOrPause_always inv fun same => honest (congrArg _ same)
  | _ => exact parkOrPause_always inv fun same => by cases same

theorem settle_always {item : Issue} {outcome : Option LapOutcome} (gated : Gated deps item t w outcome) :
    (settle deps item t outcome).Always (calls digest deps) (fun _ _ => True)
      (Returns (Proper deps)) w := by
  cases outcome with
  | none => exact returns_ret gated
  | some outcome =>
      obtain ⟨inv, claimed, honest, shipped⟩ := gated
      cases outcome with
      | awaitingInput stage => exact awaitInput_always inv
      | shipped =>
          obtain ⟨last, durable⟩ := shipped rfl
          exact ship_always inv (.shipped claimed last durable)
      | humanRequired reason => exact divert_always inv honest
      | wedge => exact divert_always inv honest
      | timeout => exact divert_always inv honest
      | crash => exact divert_always inv honest

/-- A claimed item that has not been driven before. -/
theorem driveItem_always {item : Issue} (inv : t.Inv deps (some item.id) w)
    (claimed : ⟨.wg (.claimIssue item.id), some true⟩ ∈ w.trace)
    (first : ∀ s ∈ w.trace, ¬ s.Drives item.id) :
    (driveItem deps item t).Always (calls digest deps) (fun _ _ => True)
      (Returns (Proper deps)) w := by
  refine returns_bind (m := fun baseSha u => t.Inv deps (some item.id) u ∧
      ⟨.wg (.claimIssue item.id), some true⟩ ∈ u.trace ∧
      (deps.git = true → ∃ sha, baseSha = some sha) ∧
      ∀ sha, baseSha = some sha → Based deps.target u.trace item.id sha) ?_ ?_
  · rw [baseTip]
    split
    · refine returns_bind (m := fun sha u => u = ⟨w.toLapWorld, ⟨.tip deps.target, some sha⟩ :: w.trace⟩)
        (quiet_always (fun _ _ _ done => by cases done; rfl) fun sha => rfl) ?_
      rintro sha _ rfl
      refine returns_ret ⟨inv.plain (.refl _) rfl ⟨fun _ => id, rfl⟩, List.mem_cons_of_mem _ claimed,
        fun _ => ⟨sha, rfl⟩, ?_⟩
      rintro _ ⟨⟩
      exact ⟨[], w.trace, rfl, first⟩
    · rename_i none
      exact returns_ret ⟨inv, claimed, fun git => absurd git none, nofun⟩
  · rintro baseSha u ⟨inv, claimed, given, based⟩
    refine returns_bind (m := fun result v =>
        Tally.Inv deps (some item.id) { t with spent := t.spent + result.costUsd } v ∧
          v.trace = ⟨.drive item, some result⟩ :: u.trace ∧ result.outcome ≠ .humanRequired .boardEmpty)
      (drive_always inv fun _ _ inv trace outcome => ⟨inv, trace, outcome⟩) ?_
    rintro result v ⟨inv, trace, honest⟩
    have claimed' : ⟨.wg (.claimIssue item.id), some true⟩ ∈ v.trace :=
      trace ▸ List.mem_cons_of_mem _ claimed
    refine returns_bind (m := fun a x => Gated deps item a.1 x a.2) ?_ fun _ _ gated => settle_always gated
    cases baseSha with
    | none =>
        refine returns_ret ⟨inv, claimed', honest, fun shipped => ⟨?_, fun git => ?_⟩⟩
        · rw [trace]
          exact shippedLast_drive shipped
        · obtain ⟨_, impossible⟩ := given git
          cases impossible
    | some sha =>
        dsimp only [gate]
        split
        · rename_i shipped
          refine redrive_always inv claimed' ?_ ?_
          · rw [trace]
            exact (based sha rfl).cons
          · rw [trace]
            exact shippedLast_drive shipped
        · rename_i other
          exact returns_ret ⟨inv, claimed', honest, fun shipped => absurd shipped other⟩

/-! ### The passes -/

/-- A reap keeps what the board says, also when it fails on the way. -/
theorem reap_always {b : Board} :
    reapOrphans.Always (Board.exec digest) (fun _ u => Keeps b u) (fun _ u => Keeps b u) b := by
  refine Program.Always.bind (Wg.listIssues_always (.refl b) ?_)
  refine Program.Always.bind (Wg.listEdges_always (.refl b) ?_)
  refine Program.Always.bind (Program.Always.forEach (fun _ u => Keeps b u)
    (fun o _ u keeps => Wg.archiveIssue_always keeps (fun _ => keeps) fun _ => ?_)
    (fun _ keeps => keeps) (.refl b))
  exact keeps.trans (.modify (fun _ _ _ => rfl) fun _ wedged => wedged)

theorem refreshBase_always (inv : t.Inv deps none w) :
    (refreshBase deps t).Always (calls digest deps) (fun _ _ => True)
      (Returns fun t' u => Tally.Inv deps none t' u) w := by
  rw [refreshBase]
  split
  · refine returns_bind (m := fun _ u => t.Inv deps none u) ?_ fun conflict u inv => ?_
    · refine Program.Always.orElse (calls_await fun a v reply _ done => ?_)
      cases done
      have inv' : ∀ reply, t.Inv deps none ⟨w.toLapWorld, ⟨.baseRefresh, reply⟩ :: w.trace⟩ :=
        fun _ => inv.plain (.refl _) rfl ⟨fun _ => id, rfl⟩
      cases a.flag with
      | none => exact returns_ret (inv' none)
      | some conflict => exact returns_ret (inv' _)
    · split
      · -- that the conflict is surfaced is no part of what the tally says
        have surfaced : Tally.Inv deps none { t with baseConflictSurfaced := true } u := { inv with }
        refine Program.Always.orElse ((escalated_always (.inl rfl) surfaced).mono ?_)
        rintro o v ⟨_, inv, returned⟩
        cases o with
        | none => exact returns_ret inv
        | some a => exact returns_ret (returned a rfl ▸ inv)
      · exact returns_ret inv
  · exact returns_ret inv

/-- What is picked is ready, and not one that waits for input. -/
theorem pick_always {ready : List Issue} {held : List String} (inv : t.Inv deps none w) :
    (pick deps t ready held).Always (calls digest deps) (fun _ _ => True)
      (Returns fun a u => u.board = w.board ∧ t.Inv deps none u ∧
        ∀ item ∈ a.1, item ∈ ready ∧ item.id ∉ t.awaitingInputIds) w := by
  induction ready generalizing held w with
  | nil => exact returns_ret ⟨rfl, inv, nofun⟩
  | cons cand rest ih =>
      refine returns_bind (m := fun hold u => u.board = w.board ∧ t.Inv deps none u ∧
        (hold = false → cand.id ∉ t.awaitingInputIds)) ?_ ?_
      · rw [isHeld]
        split
        · exact returns_ret ⟨rfl, inv, nofun⟩
        · rename_i free
          split
          · exact returns_bind (m := fun _ u => u.board = w.board ∧ t.Inv deps none u)
              (quiet_always (fun _ _ _ done => by cases done; rfl) fun _ =>
                ⟨rfl, inv.plain (.refl _) rfl ⟨fun _ => id, rfl⟩⟩)
              fun _ _ ⟨same, inv⟩ => returns_ret ⟨same, inv, fun _ => free⟩
          · exact returns_ret ⟨rfl, inv, fun _ => free⟩
      · rintro hold u ⟨same, inv, free⟩
        split
        · refine (ih inv).mono fun o v picked a mem => ?_
          obtain ⟨same', inv, found⟩ := picked a mem
          exact ⟨same'.trans same, inv, fun item here =>
            ⟨List.mem_cons_of_mem _ (found item here).1, (found item here).2⟩⟩
        · rename_i eligible
          refine returns_ret ⟨same, inv, ?_⟩
          rintro _ ⟨⟩
          exact ⟨List.mem_cons_self, free (Bool.eq_false_iff.mpr eligible)⟩

theorem stopDrained_always {availability : BoardAvailability} (inv : t.Inv deps none w)
    (empty : availability = .empty → ∀ id i, w.board.issue id = some i → i.status.terminal = true) :
    (stopDrained t availability).Always (calls digest deps) (fun _ _ => True)
      (Returns (Sound deps)) w := by
  cases availability with
  | waiting waiting =>
      refine returns_bind (escalate_always (.inl rfl) inv fun _ _ inv => inv) fun t u inv =>
        returns_ret ?_
      have sound : Sound deps (t.result .boardWaiting) u := inv.sound nofun
      exact { sound with }
  | empty =>
      exact returns_bind (m := fun t u => t.Inv deps none u ∧
          ∀ id i, u.board.issue id = some i → i.status.terminal = true)
        (escalate_always (.inl rfl) inv fun _ same inv => ⟨inv, same ▸ empty rfl⟩)
        fun _ _ ⟨inv, empty⟩ => returns_ret (inv.sound fun _ => empty)

theorem drained_always {held : List String} {passes : Nat} (inv : t.Inv deps none w)
    (again : ∀ {u}, t.Inv deps none u → (ralphPasses deps passes t).Always (calls digest deps)
      (fun _ _ => True) (Returns (Sound deps)) u) :
    (do
      let reaped ← (Program.await LoopCall.reap).orElse (return [])
      if reaped ≠ [] then ralphPasses deps passes t
      else do
        let availability ← (Program.await (LoopCall.inspect held)).orElse (return .waiting [])
        stopDrained t availability : Loop RalphResult).Always (calls digest deps)
      (fun _ _ => True) (Returns (Sound deps)) w := by
  refine returns_bind (m := fun _ u => t.Inv deps none u) ?_ fun reaped u inv => ?_
  · refine Program.Always.orElse (calls_await fun a v reply _ done => ?_)
    obtain ⟨⟨board, reply⟩, ran, same⟩ := Option.map_eq_some_iff.mp done
    cases same
    have keeps : Keeps w.board board := by
      rcases reap_always.of_run ran with keeps | ⟨_, _, keeps⟩ <;> exact keeps
    have inv' : t.Inv deps none ⟨{ w.toLapWorld with board }, ⟨.reap, reply⟩ :: w.trace⟩ :=
      inv.plain keeps rfl ⟨fun _ => id, rfl⟩
    cases reply with
    | none => exact returns_ret inv'
    | some _ => exact returns_ret inv'
  · split
    · exact again inv
    · refine returns_bind (m := fun availability v => t.Inv deps none v ∧ (availability = .empty →
          ∀ id i, v.board.issue id = some i → i.status.terminal = true)) ?_
        fun _ _ ⟨inv, empty⟩ => stopDrained_always inv empty
      refine Program.Always.orElse (calls_await fun a v reply _ done => ?_)
      obtain ⟨⟨board, reply⟩, ran, same⟩ := Option.map_eq_some_iff.mp done
      cases same
      rcases inspect_always.of_run ran with ⟨rfl, empty⟩ | ⟨rfl, _, rfl⟩
      · have inv' : t.Inv deps none ⟨u.toLapWorld, ⟨.inspect held, reply⟩ :: u.trace⟩ :=
          inv.plain (.refl _) rfl ⟨fun _ => id, rfl⟩
        cases reply with
        | none => exact returns_ret ⟨inv', nofun⟩
        | some availability => exact returns_ret ⟨inv', fun same => empty (congrArg some same)⟩
      · have inv' : t.Inv deps none ⟨u.toLapWorld, ⟨.inspect held, none⟩ :: u.trace⟩ :=
          inv.plain (.refl _) rfl ⟨fun _ => id, rfl⟩
        exact returns_ret ⟨inv', nofun⟩

/-- A ready item is open and not wedged, and it is claimed as it is. -/
theorem claim_always {item : Issue} (inv : t.Inv deps none w)
    (ready : w.board.issue item.id = some item) (live : item.status = .open)
    (unwedged : item.wedgeReason = none) (eligible : item.id ∉ t.awaitingInputIds) :
    (Program.await (LoopCall.wg (.claimIssue item.id))).Always (calls digest deps) (fun _ _ => True)
      (Returns fun won u => t.Inv deps none u ∧ (won = true → t.Inv deps (some item.id) u ∧
        ⟨.wg (.claimIssue item.id), some true⟩ ∈ u.trace ∧ ∀ s ∈ u.trace, ¬ s.Drives item.id)) w := by
  have unclosed : item.id ∉ t.closed := fun mem => by
    obtain ⟨i, here, terminal⟩ := inv.closed item.id mem
    cases ready.symm.trans here
    rw [live] at terminal
    cases terminal
  have unparked : item.id ∉ t.parked.map (·.id) := fun mem => by
    obtain ⟨p, listed, same⟩ := List.mem_map.mp mem
    obtain ⟨i, here, wedged⟩ := inv.parked p listed
    cases ready.symm.trans (same ▸ here)
    rw [unwedged] at wedged
    cases wedged
  have first : ∀ s ∈ w.trace, ¬ s.Drives item.id := fun s mem drives => by
    rcases inv.driven s mem item.id drives with closed | parked | waits | busy
    · exact unclosed closed
    · exact unparked parked
    · exact eligible waits
    · cases busy
  refine calls_await fun a v reply _ done => ?_
  cases reply with
  | none => exact fun _ same => by cases same
  | some won =>
      have after : t.Inv deps none ⟨v, ⟨.wg (.claimIssue item.id), some won⟩ :: w.trace⟩ := by
        rcases effect_wg done with ⟨thrown, _⟩ | ⟨board, executed, rfl⟩
        · cases thrown
        · have keeps : Keeps w.board board := by
            simp only [Board.exec] at executed
            split at executed
            · cases executed
            · obtain ⟨rfl, _⟩ := Prod.ext_iff.mp (Option.some.inj executed)
              have kept : Keeps w.board (w.board.modify item.id (·.claim a.choice)
                  (Issue.claim_id _)) := by
                refine .modify (fun i _ terminal => ?_) fun i wedged => ?_
                · simp only [Issue.claim]
                  split <;> exact terminal
                · simp only [Issue.claim]
                  split <;> exact wedged
              rw [Board.update]
              split
              · exact kept
              · exact .refl _
          exact inv.plain keeps rfl plain_wg
      refine returns_ret ⟨after, ?_⟩
      rintro rfl
      refine ⟨{ after with
        driven := fun s mem id drives => (after.driven s mem id drives).imp_right
          (Or.imp_right (Or.imp_right fun idle => by cases idle))
        free := ?_ }, List.mem_cons_self, fun s mem => ?_⟩
      · rintro _ ⟨⟩
        exact ⟨unclosed, unparked⟩
      · rcases List.mem_cons.mp mem with rfl | old
        · exact id
        · exact first s old

theorem ralphPasses_always {passes : Nat} (inv : t.Inv deps none w) :
    (ralphPasses deps passes t).Always (calls digest deps) (fun _ _ => True)
      (Returns (Sound deps)) w := by
  induction passes generalizing t w with
  | zero => exact nofun
  | succ passes ih =>
      rw [ralphPasses]
      refine returns_bind (refreshBase_always inv) fun t w inv => ?_
      refine returns_bind (m := fun ready u => t.Inv deps none u ∧ ∀ i ∈ ready,
        u.board.issue i.id = some i ∧ i.status = .open ∧ i.wedgeReason = none) ?_ ?_
      · refine calls_await fun a v reply _ done => ?_
        rcases effect_wg done with ⟨rfl, _⟩ | ⟨board, executed, rfl⟩
        · exact nofun
        · cases executed
          refine returns_ret ⟨inv.plain (.refl _) rfl plain_wg, fun i mem => ?_⟩
          obtain ⟨row, pass⟩ := List.mem_filter.mp mem
          simp only [Bool.and_eq_true, decide_eq_true_eq, Option.isNone_iff_eq_none] at pass
          exact ⟨Board.mem_issues.mp row, pass.1.1.1, pass.1.2⟩
      · rintro ready u ⟨inv, listed⟩
        refine returns_bind (pick_always inv) ?_
        rintro ⟨picked, held⟩ v ⟨same, inv, found⟩
        cases picked with
        | none => exact drained_always inv ih
        | some item =>
            obtain ⟨mem, eligible⟩ := found item rfl
            obtain ⟨ready, live, unwedged⟩ := listed item mem
            refine returns_bind (claim_always inv (same ▸ ready) live unwedged eligible) ?_
            rintro won x ⟨inv, claimed⟩
            split
            · exact ih inv
            · rename_i lost
              have won : won = true := by simpa using lost
              obtain ⟨inv, claimed, first⟩ := claimed won
              refine returns_bind (driveItem_always inv claimed first) fun next y proper => ?_
              cases next with
              | again t => exact ih proper
              | stop result => exact returns_ret proper

/-- In every run in which no lap says that the board is empty and no parked issue rolls
up, the loop returns what it has done. -/
theorem runRalphLoop_sound {passes : Nat} {board : Board} {result : RalphResult}
    (run : (runRalphLoop deps passes).Runs (LoopCall.exec digest deps) Faithful ⟨⟨board, []⟩, []⟩
      (some result) w) : Sound deps result w := by
  have start : Tally.Inv deps none {} ⟨⟨board, []⟩, []⟩ :=
    { closed := fun _ mem => absurd mem List.not_mem_nil
      once := List.nodup_nil
      parked := fun _ mem => absurd mem List.not_mem_nil
      apart := fun _ mem => absurd mem List.not_mem_nil
      spent := List.sum_nil.symm
      listed := rfl
      driven := fun _ mem => absurd mem List.not_mem_nil
      grounds := fun _ mem => absurd mem List.not_mem_nil
      free := nofun }
  exact (ralphPasses_always start).of_runs run result rfl

end

/-! ### Runs -/

/-- A run that passes a check of the condition. -/
def LoopCall.faithful (op : LoopCall) (a : Answer) (w : World) : Bool :=
  match op with
  | .drive _ => a.laps.all fun answer => answer.lap.all (·.outcome ≠ .humanRequired .boardEmpty)
  | .rollUp _ => escalated w.trace = []
  | _ => true

theorem LoopCall.faithful_sound {op : LoopCall} {a : Answer} {w : World}
    (check : op.faithful a w = true) : Faithful op a w := by
  cases op with
  | drive item =>
      intro answer mem r here
      have honest := List.all_eq_true.mp check answer mem
      rw [here] at honest
      exact of_decide_eq_true honest
  | rollUp child =>
      have none : escalated w.trace = [] := of_decide_eq_true check
      intro p mem
      rw [none] at mem
      cases mem
  | _ => trivial

/-- The loop closes the task and stops. -/
def shipTask : List Answer :=
  let lap : LapAnswer := { lap := some { outcome := .shipped, costUsd := 1 } }
  [{}, { choice := { claimToken := "lap" } }, { laps := [{}, lap] }, {}, { choices := [{}, {}] },
    {}, { choices := [{}, {}] }, { choices := [{}, {}] }, { flag := some true }]

theorem runRalphLoop_sound_ship : ∃ result w,
    (runRalphLoop {} 2).Runs (LoopCall.exec sampleDigest {}) Faithful ⟨⟨taskBoard, []⟩, []⟩
      (some result) w ∧ result.closed = ["wg-task"] ∧ result.stopped = .boardEmpty ∧
      Sound {} result w := by
  have replay : ((runRalphLoop {} 2).run (fun op a w => if op.faithful a w then
      op.exec sampleDigest {} a w else none) shipTask ⟨⟨taskBoard, []⟩, []⟩).any (fun (_, o) =>
        o.any fun r => r.closed = ["wg-task"] ∧ r.stopped = .boardEmpty) = true := by
    decide +kernel
  obtain ⟨⟨w, o⟩, ended, returned⟩ := (Option.any_eq_true _ _).mp replay
  obtain ⟨result, rfl, facts⟩ := (Option.any_eq_true _ _).mp returned
  obtain ⟨closed, stopped⟩ := of_decide_eq_true facts
  have runs := Program.Runs.of_run (fun _ _ _ => LoopCall.faithful_sound) ended
  exact ⟨result, w, runs, closed, stopped, runRalphLoop_sound runs⟩

/-- The task with a child. -/
def familyBoard : Board :=
  ((taskBoard.create "child" "" "wg-child" (by decide +kernel)).addEdge
    ⟨"wg-task", "wg-child", .parentChild⟩).1

/-- The task is parked, then its child is closed, and the roll-up closes the task. -/
def parkThenShip : List Answer :=
  let lap (outcome : LapOutcome) : LapAnswer := { lap := some { outcome, costUsd := 1 } }
  [{}, { choice := { claimToken := "lap-1" } }, { laps := [{}, lap .wedge] }, {},
    { flag := some true },
    {}, { choice := { claimToken := "lap-2" } }, { laps := [{}, lap .shipped] }, {},
    { choices := [{}, {}, {}] },
    {}, { choices := [{}, {}] }, { choices := [{}, {}] }, { flag := some true }]

theorem parkedParent_closed : ∃ result w,
    (runRalphLoop {} 3).Runs (LoopCall.exec sampleDigest {}) (fun _ _ _ => True)
      ⟨⟨familyBoard, []⟩, []⟩ (some result) w ∧ ¬ Sound {} result w := by
  have replay : ((runRalphLoop {} 3).run (fun op a w => if true then
      op.exec sampleDigest {} a w else none) parkThenShip ⟨⟨familyBoard, []⟩, []⟩).any
        (fun (_, o) => o.any fun r => r.parked.any (·.id ∈ r.closed)) = true := by
    decide +kernel
  obtain ⟨⟨w, o⟩, ended, returned⟩ := (Option.any_eq_true _ _).mp replay
  obtain ⟨result, rfl, both⟩ := (Option.any_eq_true _ _).mp returned
  obtain ⟨p, parked, closed⟩ := List.any_eq_true.mp both
  exact ⟨result, w, Program.Runs.of_run (fun _ _ _ _ => trivial) ended,
    fun sound => sound.apart p parked (of_decide_eq_true closed)⟩

/-- The lap of the task says that the board is empty. -/
def claimEmpty : List Answer :=
  [{}, { choice := { claimToken := "lap" } },
    { laps := [{}, { lap := some { outcome := .humanRequired .boardEmpty, costUsd := 1 } }] },
    { flag := some true }]

theorem lap_says_empty : ∃ result w,
    (runRalphLoop {} 1).Runs (LoopCall.exec sampleDigest {}) (fun _ _ _ => True)
      ⟨⟨taskBoard, []⟩, []⟩ (some result) w ∧ ¬ Sound {} result w := by
  have replay : ((runRalphLoop {} 1).run (fun op a w => if true then
      op.exec sampleDigest {} a w else none) claimEmpty ⟨⟨taskBoard, []⟩, []⟩).any
        (fun (w, o) => o.any fun r => r.stopped = .boardEmpty ∧
          (w.board.issue "wg-task").any (·.status.terminal = false)) = true := by
    decide +kernel
  obtain ⟨⟨w, o⟩, ended, returned⟩ := (Option.any_eq_true _ _).mp replay
  obtain ⟨result, rfl, facts⟩ := (Option.any_eq_true _ _).mp returned
  obtain ⟨stopped, unfinished⟩ := of_decide_eq_true facts
  obtain ⟨i, here, live⟩ := (Option.any_eq_true _ _).mp unfinished
  refine ⟨result, w, Program.Runs.of_run (fun _ _ _ _ => trivial) ended, fun sound => ?_⟩
  have terminal := sound.empty stopped "wg-task" i here
  rw [of_decide_eq_true live] at terminal
  cases terminal

end Opensquid.Ralph
