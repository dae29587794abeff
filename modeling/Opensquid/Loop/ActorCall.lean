import Opensquid.Loop.ObservedActor

/-!
# One call of the observed actor

`receive` with everything it leaves: the effects, the new state, and the history, which the
loop extends as it goes while the state is set once the loop is over. The evaluator of the
guards may throw, and may answer differently every time.

`receive_clean_iff`: the effects are a connected walk along declared transitions and a call
that throws leaves the actor alone exactly when every transition taken leads where the pack
declares one and nothing after the first link throws. `thrown_after_link` is a decision behind a
gate whose guard throws.
-/

namespace Opensquid.Loop

open Opensquid.Lib Opensquid.Lib.PathText
open Opensquid.Machine

/-! ## What a state decides -/

/-- Is the state one that a chain goes through? -/
def StateMeta.chains (entry : StateMeta) : Bool := entry.kind = .gate || entry.kind = .decision

/-- What a gate or a decision comes to, before the machine is asked where its event leads. -/
inductive Decision
  | act (action : FailAction) (message : String)
  | emit (event : String) (notice : Option String)
  deriving DecidableEq, Repr

section

variable {M : Type → Type} [Monad M] [Throws M]

def decideGate (eval : String → M Bool) (state : String) (entry : StateMeta) : M Decision := do
  if ← eval (entry.guard.getD "") then
    return .emit (← emitOf entry) none
  else if (entry.onFailAt state).action = .warn then
    return .emit (← emitOf entry) (some (entry.onFailAt state).message)
  else
    return .act (entry.onFailAt state).action (entry.onFailAt state).message

def decideBranches (eval : String → M Bool) : List DecisionBranch → M Decision
  | [] => throwing
  | .otherwise emits :: _ => return .emit emits none
  | .guarded guard emits :: rest => do
      if ← eval guard then return .emit emits none else decideBranches eval rest

def decideState (eval : String → M Bool) (state : String) (entry : StateMeta) : M Decision :=
  if entry.kind = .gate then decideGate eval state entry
  else decideBranches eval (entry.branches.getD [])

/-- Where a decision leads. -/
def Decision.follow (fsm : Fsm) (state : String) : Decision → M DriverStep
  | .act action message => return .action action message
  | .emit event notice => return .advance (← transitionOn fsm state event) notice

/-- The step of a gate or of a decision. -/
def dispatchState (eval : String → M Bool) (fsm : Fsm) (state : String) (entry : StateMeta) :
    M DriverStep :=
  if entry.kind = .gate then evalGate eval fsm state entry else evalDecision eval fsm state entry

variable [LawfulMonad M] {eval : String → M Bool} {fsm : Fsm} {state : String}
  {entry : StateMeta}

theorem evalGate_eq :
    evalGate eval fsm state entry = decideGate eval state entry >>= Decision.follow fsm state := by
  simp only [evalGate, decideGate, advanceOn, bind_assoc]
  refine bind_congr fun holds => ?_
  split
  · simp only [bind_assoc, pure_bind, Decision.follow]
  · split
    · simp only [bind_assoc, pure_bind, Decision.follow]
    · simp only [pure_bind, Decision.follow]

variable [LawfulThrows M]

theorem evalBranches_eq {branches : List DecisionBranch} : evalBranches eval fsm state branches =
    decideBranches eval branches >>= Decision.follow fsm state := by
  induction branches with
  | nil => rw [evalBranches, decideBranches, throwing_bind]
  | cons branch rest ih =>
      cases branch with
      | otherwise emits => simp only [evalBranches, decideBranches, pure_bind, Decision.follow]
      | guarded guard emits =>
          simp only [evalBranches, decideBranches, bind_assoc]
          refine bind_congr fun holds => ?_
          split
          · simp only [pure_bind, Decision.follow]
          · exact ih

theorem dispatchState_eq : dispatchState eval fsm state entry =
    decideState eval state entry >>= Decision.follow fsm state := by
  rw [dispatchState, decideState]
  split
  · exact evalGate_eq
  · exact evalBranches_eq

end

/-! ## The call -/

namespace V2ObservedActor

/-- A guard evaluator with a state of its own. -/
abbrev Evaluator (σ : Type) := String → StateT σ Option Bool

structure ActorState where
  current : String
  history : List String
  deriving DecidableEq, Repr

section

variable (actor : V2ObservedActor) {σ : Type} (eval : Evaluator σ)

/-- The loop, at most `fuel` links of it: the effects and the state in the end, none when it
throws, and the history. -/
def runChain : Nat → σ → String → List Effect → List String →
    Option (List Effect × String) × List String
  | 0, _, cur, effects, history => (some (effects, cur), history)
  | fuel + 1, g, cur, effects, history =>
      match actor.entryOf cur with
      | none => (none, history)
      | some entry =>
          if entry.chains then
            match dispatchState eval actor.fsm cur entry g with
            | none => (none, history)
            | some (.action action message, _) =>
                (some (effects ++ [.gateAction action cur message], cur), history)
            | some (.outcome _ _, _) => (some (effects, cur), history)
            | some (.advance next notice, g') =>
                if actor.isGate next then
                  (some (effects ++ advanceEffects cur next notice, next), history ++ [cur])
                else runChain fuel g' next (effects ++ advanceEffects cur next notice) (history ++ [cur])
          else (some (effects, cur), history)

/-- The current gate waits for other events. -/
def waits (kind cur : String) : Bool :=
  (actor.entryOf cur).any fun entry => entry.kind = .gate ∧ kind ∉ entry.trigger.getD []

/-- The effects, none when the call throws, and the actor that is left. -/
def receiveOn (kind : String) (g : σ) (s : ActorState) : Option (List Effect) × ActorState :=
  if actor.waits kind s.current then (some [], s)
  else
    let ended := actor.runChain eval MAX_CHAIN g s.current [] s.history
    match ended.1 with
    | none => (none, ⟨s.current, ended.2⟩)
    | some (effects, last) => (some effects, ⟨last, ended.2⟩)

end

/-! ## What is promised -/

def Effect.isMove : Effect → Bool
  | .writeState _ | .transition _ _ => true
  | .gateAction _ _ _ => false

def Effect.target : Effect → Option String
  | .transition _ target => some target
  | .writeState _ | .gateAction _ _ _ => none

/-- The states that the transitions of the effects lead to. -/
def targets (effects : List Effect) : List String := effects.filterMap Effect.target

/-- The writes and transitions of a walk: every transition behind the write of its target. -/
def moves : String → List String → List Effect
  | _, [] => []
  | cur, next :: rest => [.writeState next, .transition cur next] ++ moves next rest

/-- A walk from one state to another, along declared transitions, with the states it leaves. -/
structure Walks (actor : V2ObservedActor) (s : ActorState) (effects : List Effect) (t : ActorState) :
    Prop where
  moves : effects.filter Effect.isMove = moves s.current (targets effects)
  declared : List.IsChain (Declared actor.fsm) (s.current :: targets effects)
  current : t.current = (s.current :: targets effects).getLast (List.cons_ne_nil _ _)
  history : t.history = s.history ++ (s.current :: targets effects).dropLast
  decided : (targets effects).length < MAX_CHAIN → ∀ entry ∈ actor.entryOf t.current,
    entry.kind ≠ .decision

/-- A call that returns has walked; a call that throws has done nothing. -/
structure Clean (actor : V2ObservedActor) (s : ActorState)
    (result : Option (List Effect) × ActorState) : Prop where
  returned : ∀ effects, result.1 = some effects → Walks actor s effects result.2
  thrown : result.1 = none → result.2 = s

/-! ## When it holds -/

/-- The transition that the engine takes leads where the pack declares one from this state. -/
def LeadsDeclared (fsm : Fsm) (cur event : String) : Prop :=
  ∀ t i, firstTransition (enabled [cur] event none) fsm.transitions = some (t, i) →
    Declared fsm cur (if PATH_SEP ∈ t.to.toList then "" else t.to)

/-- From here on every transition leads where one is declared, and nothing throws but
perhaps at the first link. -/
def Fine (actor : V2ObservedActor) {σ : Type} (eval : Evaluator σ) :
    Bool → Nat → σ → String → Prop
  | _, 0, _, _ => True
  | first, fuel + 1, g, cur =>
      match actor.entryOf cur with
      | none => first = true
      | some entry => entry.chains = true →
          match decideState eval cur entry g with
          | none => first = true
          | some (.act _ _, _) => True
          | some (.emit event _, g') =>
              match (transitionOn actor.fsm cur event : Option String) with
              | none => first = true
              | some next => LeadsDeclared actor.fsm cur event ∧
                  (actor.isGate next = true ∨ Fine actor eval false fuel g' next)

variable {actor : V2ObservedActor} {σ : Type} {eval : Evaluator σ} {fsm : Fsm} {g : σ}
  {cur event kind : String} {entry : StateMeta} {path : List String} {effects : List Effect}

/-! ## One link -/

theorem transitionOn_state : (transitionOn fsm cur event : StateT σ Option String) g =
    (transitionOn fsm cur event : Option String).map fun next => (next, g) := by
  unfold transitionOn
  cases stepFlat fsm cur event none with
  | none => rfl
  | some r =>
      dsimp only
      split <;> rfl

theorem dispatchState_run : dispatchState eval fsm cur entry g =
    (decideState eval cur entry g).bind fun (decision, g') =>
      match decision with
      | .act action message => some (.action action message, g')
      | .emit event notice =>
          (transitionOn fsm cur event : Option String).map fun next => (.advance next notice, g') := by
  rw [dispatchState_eq]
  show (decideState eval cur entry g).bind _ = _
  refine Option.bind_congr fun result _ => ?_
  obtain ⟨decision, g'⟩ := result
  cases decision with
  | act action message => rfl
  | emit event notice =>
      show (Option.bind ((transitionOn fsm cur event : StateT σ Option String) g') _) = _
      rw [transitionOn_state]
      dsimp only
      cases (transitionOn fsm cur event : Option String) <;> rfl

theorem decideBranches_ne_act {branches : List DecisionBranch} {action : FailAction}
    {message : String} {g' : σ} : decideBranches eval branches g ≠ some (.act action message, g') := by
  induction branches generalizing g with
  | nil => exact fun same => by cases same
  | cons branch rest ih =>
      cases branch with
      | otherwise emits => exact fun same => by cases same
      | guarded guard emits =>
          intro same
          obtain ⟨⟨holds, next⟩, -, same⟩ := Option.bind_eq_some_iff.mp same
          dsimp only at same
          split at same
          · cases same
          · exact ih same

/-- Only a gate acts. -/
theorem kind_of_act {action : FailAction} {message : String} {g' : σ}
    (acts : decideState eval cur entry g = some (.act action message, g')) : entry.kind = .gate := by
  unfold decideState at acts
  split at acts
  · rename_i gate
    exact gate
  · exact absurd acts decideBranches_ne_act

theorem leadsDeclared_iff (valid : validateFsm fsm = []) {next : String}
    (leads : transitionOn fsm cur event = some next) :
    LeadsDeclared fsm cur event ↔ Declared fsm cur next := by
  unfold transitionOn at leads
  cases fires : firstTransition (enabled [cur] event none) fsm.transitions with
  | none =>
      rw [stepFlat_of_stays fires] at leads
      cases leads
  | some found =>
      obtain ⟨t, i⟩ := found
      have there : next = if PATH_SEP ∈ t.to.toList then "" else t.to := by
        rw [stepFlat_of_fires valid fires] at leads
        split at leads
        · rename_i r result
          split at leads
          · cases leads
            split at result
            · rename_i split'
              cases result
              rw [if_pos split']
            · rename_i plain
              cases result
              rw [if_neg plain]
          · cases leads
        · cases leads
      rw [there]
      constructor
      · intro declared
        exact declared t i fires
      · intro declared t' i' first
        cases fires.symm.trans first
        exact declared

/-! ## The loop -/

theorem targets_moves : targets (moves cur path) = path := by
  induction path generalizing cur with
  | nil => rfl
  | cons next rest ih => exact congrArg (next :: ·) ih

theorem targets_filter : targets (effects.filter Effect.isMove) = targets effects := by
  induction effects with
  | nil => rfl
  | cons effect effects ih =>
      cases effect with
      | writeState | gateAction => exact ih
      | transition source target => exact congrArg (target :: ·) ih

theorem filter_advanceEffects {next : String} {notice : Option String} :
    (advanceEffects cur next notice).filter Effect.isMove =
      [.writeState next, .transition cur next] := by
  cases notice <;> rfl

/-- How a loop has ended, with the states after the first and the effects it has added. -/
structure Ended (actor : V2ObservedActor) (eval : Evaluator σ) (fuel : Nat) (g : σ) (cur : String)
    (effects : List Effect) (history path : List String) (more : List Effect) : Prop where
  short : path.length ≤ fuel
  left : (actor.runChain eval fuel g cur effects history).2 = history ++ (cur :: path).dropLast
  result : (actor.runChain eval fuel g cur effects history).1 = none ∨
    (actor.runChain eval fuel g cur effects history).1 =
        some (effects ++ more, (cur :: path).getLast (List.cons_ne_nil _ _)) ∧
      more.filter Effect.isMove = moves cur path ∧
      (path.length < fuel → ∀ entry ∈ actor.entryOf ((cur :: path).getLast (List.cons_ne_nil _ _)),
        entry.kind ≠ .decision)
  fine : ∀ first, Fine actor eval first fuel g cur ↔
    List.IsChain (Declared actor.fsm) (cur :: path) ∧
      ((actor.runChain eval fuel g cur effects history).1 = none → first = true ∧ path = [])

variable {history : List String} {fuel : Nat}

/-- The loop throws at once. -/
theorem Ended.throw (ends : actor.runChain eval fuel g cur effects history = (none, history))
    (fine : ∀ first, Fine actor eval first fuel g cur ↔ first = true) :
    Ended actor eval fuel g cur effects history [] [] := by
  refine ⟨Nat.zero_le _, by rw [ends]; exact (List.append_nil _).symm, .inl (by rw [ends]), ?_⟩
  intro first
  rw [fine, ends]
  exact ⟨fun here => ⟨.singleton _, fun _ => ⟨here, rfl⟩⟩, fun both => (both.2 rfl).1⟩

/-- The loop stops where it is. -/
theorem Ended.stop {more : List Effect}
    (ends : actor.runChain eval fuel g cur effects history = (some (effects ++ more, cur), history))
    (quiet : more.filter Effect.isMove = [])
    (decided : 0 < fuel → ∀ entry ∈ actor.entryOf cur, entry.kind ≠ .decision)
    (fine : ∀ first, Fine actor eval first fuel g cur) :
    Ended actor eval fuel g cur effects history [] more := by
  refine ⟨Nat.zero_le _, by rw [ends]; exact (List.append_nil _).symm,
    .inr ⟨by rw [ends]; rfl, quiet, decided⟩, fun first => ?_⟩
  refine iff_of_true (fine first) ⟨.singleton _, fun none' => ?_⟩
  rw [ends] at none'
  cases none'

theorem runChain_succ (known : actor.entryOf cur = some entry) (chains : entry.chains = true) :
    actor.runChain eval (fuel + 1) g cur effects history =
      match decideState eval cur entry g with
      | none => (none, history)
      | some (.act action message, _) =>
          (some (effects ++ [.gateAction action cur message], cur), history)
      | some (.emit event notice, g') =>
          match (transitionOn actor.fsm cur event : Option String) with
          | none => (none, history)
          | some next =>
              if actor.isGate next then
                (some (effects ++ advanceEffects cur next notice, next), history ++ [cur])
              else actor.runChain eval fuel g' next (effects ++ advanceEffects cur next notice)
                (history ++ [cur]) := by
  rw [runChain, known]
  dsimp only
  rw [if_pos chains, dispatchState_run]
  rcases decideState eval cur entry g with _ | ⟨decision, g'⟩
  · rfl
  · cases decision with
    | act action message => rfl
    | emit event notice =>
        dsimp only [Option.bind]
        cases (transitionOn actor.fsm cur event : Option String) <;> rfl

theorem fine_succ {first : Bool} (known : actor.entryOf cur = some entry)
    (chains : entry.chains = true) : Fine actor eval first (fuel + 1) g cur ↔
      match decideState eval cur entry g with
      | none => first = true
      | some (.act _ _, _) => True
      | some (.emit event _, g') =>
          match (transitionOn actor.fsm cur event : Option String) with
          | none => first = true
          | some next => LeadsDeclared actor.fsm cur event ∧
              (actor.isGate next = true ∨ Fine actor eval false fuel g' next) := by
  rw [Fine, known]
  exact ⟨fun here => here chains, fun here _ => here⟩

/-- A link, and the loop from its target. -/
theorem Ended.link {next : String} {notice : Option String} {g' : σ} {more : List Effect}
    (valid : validateFsm actor.fsm = []) (known : actor.entryOf cur = some entry)
    (chains : entry.chains = true) (decided : decideState eval cur entry g = some (.emit event notice, g'))
    (leads : transitionOn actor.fsm cur event = some next) (free : ¬ actor.isGate next = true)
    (rest : Ended actor eval fuel g' next (effects ++ advanceEffects cur next notice)
      (history ++ [cur]) path more) :
    Ended actor eval (fuel + 1) g cur effects history (next :: path)
      (advanceEffects cur next notice ++ more) := by
  have same : actor.runChain eval (fuel + 1) g cur effects history =
      actor.runChain eval fuel g' next (effects ++ advanceEffects cur next notice)
        (history ++ [cur]) := by
    rw [runChain_succ known chains, decided]
    dsimp only
    rw [leads]
    exact if_neg free
  refine ⟨Nat.succ_le_succ rest.short, ?_, ?_, fun first => ?_⟩
  · rw [same, rest.left, List.append_assoc]
    rfl
  · rw [same]
    rcases rest.result with thrown | ⟨returned, moved, last⟩
    · exact .inl thrown
    · refine .inr ⟨?_, ?_, fun short => ?_⟩
      · rw [returned, List.append_assoc]
        rfl
      · rw [List.filter_append, filter_advanceEffects, moved]
        rfl
      · exact last (Nat.lt_of_succ_lt_succ short)
  · rw [fine_succ known chains, decided]
    dsimp only
    rw [leads, same, leadsDeclared_iff valid leads]
    dsimp only
    rw [rest.fine, List.isChain_cons_cons]
    constructor
    · intro ⟨declared, either⟩
      obtain ⟨chain, returned⟩ := either.resolve_left free
      exact ⟨⟨declared, chain⟩, fun thrown => by cases (returned thrown).1⟩
    · intro ⟨⟨declared, chain⟩, returned⟩
      exact ⟨declared, .inr ⟨chain, fun thrown => by cases (returned thrown).2⟩⟩

/-- A link to a gate. -/
theorem Ended.gate {next : String} {notice : Option String} {g' : σ}
    (valid : validateFsm actor.fsm = []) (known : actor.entryOf cur = some entry)
    (chains : entry.chains = true) (decided : decideState eval cur entry g = some (.emit event notice, g'))
    (leads : transitionOn actor.fsm cur event = some next) (gate : actor.isGate next = true) :
    Ended actor eval (fuel + 1) g cur effects history [next] (advanceEffects cur next notice) := by
  have ends : actor.runChain eval (fuel + 1) g cur effects history =
      (some (effects ++ advanceEffects cur next notice, next), history ++ [cur]) := by
    rw [runChain_succ known chains, decided]
    dsimp only
    rw [leads]
    exact if_pos gate
  refine ⟨Nat.succ_le_succ (Nat.zero_le _), by rw [ends]; rfl, .inr ⟨by rw [ends]; rfl,
    filter_advanceEffects, fun _ other same => ?_⟩, fun first => ?_⟩
  · have here : actor.entryOf next = some other := same
    rw [isGate, here] at gate
    have kind : other.kind = .gate := of_decide_eq_true gate
    rw [kind]
    exact fun same => by cases same
  · rw [fine_succ known chains, decided]
    dsimp only
    rw [leads, leadsDeclared_iff valid leads, ends]
    constructor
    · intro ⟨declared, _⟩
      exact ⟨.cons_cons declared (.singleton _), fun thrown => by cases thrown⟩
    · intro ⟨chain, _⟩
      exact ⟨(List.isChain_cons_cons.mp chain).1, .inl gate⟩

theorem exists_ended (valid : validateFsm actor.fsm = []) :
    ∃ path more, Ended actor eval fuel g cur effects history path more := by
  induction fuel generalizing g cur effects history with
  | zero => exact ⟨[], [], .stop (by rw [runChain, List.append_nil]) rfl
      (fun positive => absurd positive (Nat.lt_irrefl 0)) fun first => by cases first <;> trivial⟩
  | succ fuel ih =>
      rcases Option.eq_none_or_eq_some (actor.entryOf cur) with unknown | ⟨entry, known⟩
      · refine ⟨[], [], .throw (by rw [runChain, unknown]) fun first => ?_⟩
        rw [Fine, unknown]
      by_cases chains : entry.chains = true
      · rcases Option.eq_none_or_eq_some (decideState eval cur entry g) with
          thrown | ⟨⟨decision, g'⟩, decided⟩
        · refine ⟨[], [], .throw ?_ fun first => ?_⟩
          · rw [runChain_succ known chains, thrown]
          · rw [fine_succ known chains, thrown]
        cases decision with
        | act action message =>
            refine ⟨[], [.gateAction action cur message], .stop ?_ rfl (fun _ other same => ?_)
              fun first => ?_⟩
            · rw [runChain_succ known chains, decided]
            · cases known.symm.trans same
              rw [kind_of_act decided]
              exact fun same => by cases same
            · rw [fine_succ known chains, decided]
              trivial
        | emit event notice =>
            rcases Option.eq_none_or_eq_some (transitionOn actor.fsm cur event : Option String) with
              stuck | ⟨next, leads⟩
            · refine ⟨[], [], .throw ?_ fun first => ?_⟩
              · rw [runChain_succ known chains, decided]
                dsimp only
                rw [stuck]
              · rw [fine_succ known chains, decided]
                dsimp only
                rw [stuck]
            · by_cases gate : actor.isGate next = true
              · exact ⟨_, _, .gate valid known chains decided leads gate⟩
              · obtain ⟨path, more, rest⟩ := @ih g' next
                  (effects ++ advanceEffects cur next notice) (history ++ [cur])
                exact ⟨_, _, .link valid known chains decided leads gate rest⟩
      · refine ⟨[], [], .stop ?_ rfl (fun _ other same => ?_) fun first => ?_⟩
        · rw [runChain, known, List.append_nil]
          exact if_neg chains
        · cases known.symm.trans same
          exact fun decision => chains (by rw [StateMeta.chains, decision]; rfl)
        · rw [Fine, known]
          exact fun here => absurd here chains

/-! ## One call -/

/-- A call is clean exactly when the current gate waits for another event, or its chain is
fine. -/
theorem receive_clean_iff {actor : V2ObservedActor} {σ : Type} {eval : Evaluator σ} {g : σ}
    {s : ActorState} {kind : String} (valid : validateFsm actor.fsm = []) :
    Clean actor s (actor.receiveOn eval kind g s) ↔
      actor.waits kind s.current = true ∨ Fine actor eval true MAX_CHAIN g s.current := by
  by_cases waits : actor.waits kind s.current = true
  · refine iff_of_true ?_ (.inl waits)
    rw [receiveOn, if_pos waits]
    refine ⟨fun effects same => ?_, fun thrown => by cases thrown⟩
    cases same
    refine ⟨rfl, .singleton _, rfl, (List.append_nil _).symm, fun _ entry here => ?_⟩
    rw [V2ObservedActor.waits, Option.mem_def.mp here] at waits
    have gate : entry.kind = .gate := (of_decide_eq_true waits).1
    rw [gate]
    exact fun same => by cases same
  · obtain ⟨path, more, -, left, result, fine⟩ :=
      @exists_ended actor σ eval g s.current [] s.history MAX_CHAIN valid
    rw [or_iff_right waits, fine, receiveOn, if_neg waits]
    generalize actor.runChain eval MAX_CHAIN g s.current [] s.history = loop at left result
    obtain ⟨value, history⟩ := loop
    dsimp only at left
    subst left
    rcases result with thrown | ⟨returned, moved, decided⟩
    · dsimp only at thrown
      subst thrown
      constructor
      · intro clean
        have same : s.history ++ (s.current :: path).dropLast = s.history :=
          congrArg ActorState.history (clean.thrown rfl)
        have none' : path = [] := by
          have empty := List.append_right_eq_self.mp same
          cases path with
          | nil => rfl
          | cons next rest => cases empty
        rw [none']
        exact ⟨.singleton _, fun _ => ⟨rfl, rfl⟩⟩
      · intro ⟨_, first⟩
        obtain ⟨-, rfl⟩ := first rfl
        refine ⟨(fun effects same => by cases same), fun _ => ?_⟩
        show ActorState.mk s.current (s.history ++ []) = s
        rw [List.append_nil]
    · dsimp only at returned
      subst returned
      have path' : targets more = path := by rw [← targets_filter, moved, targets_moves]
      subst path'
      constructor
      · intro clean
        exact ⟨(clean.returned _ rfl).declared, fun thrown => by cases thrown⟩
      · intro ⟨declared, _⟩
        refine ⟨fun effects same => ?_, fun thrown => by cases thrown⟩
        cases same
        exact ⟨moved, declared, rfl, rfl, decided⟩

/-! ## Evaluators without a state -/

/-- An evaluator that answers every guard always in the same way. -/
def Evaluator.ofGuards (σ : Type) (guards : String → Option Bool) : Evaluator σ :=
  fun guard g => (guards guard).map fun holds => (holds, g)

variable {guards : String → Option Bool}

theorem emitOf_state : (emitOf entry : StateT σ Option String) g =
    (emitOf entry : Option String).map fun emits => (emits, g) := by
  unfold emitOf
  cases entry.emits <;> rfl

theorem decideGate_ofGuards : decideGate (Evaluator.ofGuards σ guards) cur entry g =
    (decideGate guards cur entry).map fun decision => (decision, g) := by
  have emits : ∀ notice, (do return Decision.emit (← emitOf entry) notice :
      StateT σ Option Decision) g =
      (do return Decision.emit (← emitOf entry) notice : Option Decision).map fun d => (d, g) := by
    intro notice
    show (Option.bind ((emitOf entry : StateT σ Option String) g) _) = _
    rw [emitOf_state]
    cases (emitOf entry : Option String) <;> rfl
  unfold decideGate
  show ((guards (entry.guard.getD "")).map fun holds => (holds, g)).bind _ = _
  cases guards (entry.guard.getD "") with
  | none => rfl
  | some holds =>
      cases holds with
      | true => exact emits none
      | false =>
          show (ite _ _ _ : StateT σ Option Decision) g = _
          by_cases warns : (entry.onFailAt cur).action = .warn
          · rw [if_pos warns, emits]
            simp only [Option.bind_eq_bind, Option.bind_some, Bool.false_eq_true, ↓reduceIte, warns]
          · rw [if_neg warns]
            simp only [Option.bind_eq_bind, Option.bind_some, Bool.false_eq_true, ↓reduceIte, warns]
            rfl

theorem decideBranches_ofGuards {branches : List DecisionBranch} :
    decideBranches (Evaluator.ofGuards σ guards) branches g =
      (decideBranches guards branches).map fun decision => (decision, g) := by
  induction branches with
  | nil => rfl
  | cons branch rest ih =>
      cases branch with
      | otherwise emits => rfl
      | guarded guard emits =>
          unfold decideBranches
          show ((guards guard).map fun holds => (holds, g)).bind _ = _
          cases guards guard with
          | none => rfl
          | some holds =>
              cases holds with
              | true => rfl
              | false => exact ih

theorem dispatchState_ofGuards :
    dispatchState (Evaluator.ofGuards σ guards) actor.fsm cur entry g =
      (actor.dispatch guards cur entry).map fun result => (result, g) := by
  have pure' : actor.dispatch guards cur entry = dispatchState guards actor.fsm cur entry := rfl
  have decided : decideState (Evaluator.ofGuards σ guards) cur entry g =
      (decideState guards cur entry).map fun decision => (decision, g) := by
    unfold decideState
    split
    · exact decideGate_ofGuards
    · exact decideBranches_ofGuards
  rw [pure', dispatchState_run, decided, dispatchState_eq]
  cases decideState guards cur entry with
  | none => rfl
  | some decision =>
      cases decision with
      | act action message => rfl
      | emit event notice =>
          show _ = Option.map _ (Option.bind (transitionOn actor.fsm cur event : Option String) _)
          simp only [Option.map_some, Option.bind_some]
          cases (transitionOn actor.fsm cur event : Option String) <;> rfl

/-- The effects and the end of a chain, as the chain without a history has them. -/
theorem runChain_ofGuards {history : List String} {fuel : Nat} :
    (actor.runChain (Evaluator.ofGuards σ guards) fuel g cur effects history).1 =
      (actor.chain guards fuel cur).map fun ended => (effects ++ ended.1, ended.2) := by
  induction fuel generalizing cur effects history with
  | zero => rw [runChain, chain, Option.map_some, List.append_nil]
  | succ fuel ih =>
      rw [runChain, chain]
      cases actor.entryOf cur with
      | none => rfl
      | some entry =>
          by_cases chains : entry.chains = true
          · have through : ¬ (entry.kind ≠ .gate ∧ entry.kind ≠ .decision) := by
              simpa [StateMeta.chains, imp_iff_not_or] using chains
            simp only [Option.bind_eq_bind, Option.bind_some, if_pos chains, if_neg through,
              dispatchState_ofGuards]
            cases actor.dispatch guards cur entry with
            | none => rfl
            | some result =>
                cases result with
                | action action message => rfl
                | outcome outcome reason => simp
                | advance next notice =>
                    simp only [Option.map_some, Option.bind_some]
                    by_cases gate : actor.isGate next = true
                    · simp only [if_pos gate]
                      rfl
                    · simp only [if_neg gate, ih]
                      cases actor.chain guards fuel next <;> simp
          · have stays : entry.kind ≠ .gate ∧ entry.kind ≠ .decision := by
              simpa [StateMeta.chains] using chains
            simp only [Option.bind_eq_bind, Option.bind_some, if_neg chains, if_pos stays]
            simp

/-- The call without its history is `receive`. -/
theorem receiveOn_ofGuards {s : ActorState} :
    (actor.receiveOn (Evaluator.ofGuards σ guards) kind g s).1.map (fun effects =>
        (effects, (actor.receiveOn (Evaluator.ofGuards σ guards) kind g s).2.current)) =
      actor.receive guards kind s.current := by
  have loop := @runChain_ofGuards actor σ g s.current [] guards s.history MAX_CHAIN
  rw [receiveOn, receive]
  by_cases waits : actor.waits kind s.current = true
  · have waits' := waits
    rw [V2ObservedActor.waits] at waits'
    rw [if_pos waits, if_pos waits']
    rfl
  · have waits' := waits
    rw [V2ObservedActor.waits] at waits'
    rw [if_neg waits, if_neg waits']
    dsimp only
    generalize actor.runChain (Evaluator.ofGuards σ guards) MAX_CHAIN g s.current [] s.history =
      ended at loop
    obtain ⟨value, history⟩ := ended
    dsimp only at loop ⊢
    subst loop
    cases actor.chain guards MAX_CHAIN s.current <;> rfl

/-! ## A guard that throws behind a gate -/

def reviewGate : StateMeta :=
  { kind := .gate, guard := some "approved", emits := some "reviewed", trigger := some ["stop"] }

def triageDecision : StateMeta :=
  { kind := .decision, branches := some [.guarded "is_small" "small", .otherwise "small"] }

/-- A gate in front of a decision. -/
def triageActor : V2ObservedActor :=
  { fsm :=
      { initial := "review"
        states := ["review", "triage", "done"]
        transitions := [{ «from» := "review", on := some "reviewed", «to» := "triage" },
          { «from» := "triage", on := some "small", «to» := "done" }] }
    entryOf := fun state =>
      if state = "review" then some reviewGate
      else if state = "triage" then some triageDecision
      else some { kind := .terminal, outcome := some .shipped } }

/-- Every guard holds. -/
def allHold : Evaluator Unit := fun _ => pure true

/-- The guard of the decision throws. -/
def oneThrows : Evaluator Unit := fun guard => if guard = "is_small" then throwing else pure true

theorem receive_clean_iff_triage :
    Clean triageActor ⟨"review", []⟩ (triageActor.receiveOn allHold "stop" () ⟨"review", []⟩) := by
  have valid : validateFsm triageActor.fsm = [] := by decide +kernel
  have reviewed : transitionOn triageActor.fsm "review" "reviewed" = some "triage" := by
    decide +kernel
  have small : transitionOn triageActor.fsm "triage" "small" = some "done" := by decide +kernel
  have passes : decideState allHold "review" reviewGate () = some (.emit "reviewed" none, ()) := by
    decide +kernel
  have branches : decideState allHold "triage" triageDecision () = some (.emit "small" none, ()) := by
    decide +kernel
  -- the gate, the decision, and the terminal at which the chain stops
  have stops : triageActor.Fine allHold false 9998 () "done" := fun chains => by cases chains
  have decides : triageActor.Fine allHold false 9999 () "triage" := by
    rw [fine_succ rfl rfl, branches]
    dsimp only
    rw [small]
    refine ⟨(leadsDeclared_iff valid small).mpr ?_, .inr stops⟩
    exact ⟨_, List.mem_cons_of_mem _ List.mem_cons_self, .inl rfl, rfl⟩
  refine (receive_clean_iff valid).mpr (.inr ?_)
  rw [MAX_CHAIN, fine_succ rfl rfl, passes]
  dsimp only
  rw [reviewed]
  refine ⟨(leadsDeclared_iff valid reviewed).mpr ?_, .inr decides⟩
  exact ⟨_, List.mem_cons_self, .inl rfl, rfl⟩

/-- The gate is left for the history, and the actor is still at it. -/
theorem thrown_after_link : ¬ Clean triageActor ⟨"review", []⟩
    (triageActor.receiveOn oneThrows "stop" () ⟨"review", []⟩) := by
  have result : triageActor.receiveOn oneThrows "stop" () ⟨"review", []⟩ =
      (none, ⟨"review", ["review"]⟩) := by
    decide +kernel
  intro clean
  rw [result] at clean
  exact absurd (clean.thrown rfl) (by decide)

end V2ObservedActor

end Opensquid.Loop
