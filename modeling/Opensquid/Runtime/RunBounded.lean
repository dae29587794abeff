import Mathlib.Data.List.Perm.Basic
import Mathlib.Data.Rat.Floor
import Opensquid.Lib.Steps

/-!
# Bounded execution

`runBounded` starts a number of workers that take the items one after the other. A worker checks the
two signals, calls `run`, waits for its promise and goes on; the first failure aborts the controller
that the workers share.

`step` is one turn: a worker enters, its call of `run` returns a promise or throws, a promise settles,
the continuation of the one that settled first goes on, the caller aborts, the settled workers let
`runBounded` end. `runBounded_all_or_nothing` says what holds in every run in which the first failure
can be made an error.
-/

namespace Opensquid.Subagents

open Opensquid.Lib

/-! ## Failures -/

/-- An `Error`; `ε` are those of other code. -/
inductive RunError (ε : Type)
  | subagentAbort (message : String)
  | other (e : ε)
  | ofText (text : String)
  deriving DecidableEq, Repr

/-- `new SubagentAbortError()`. -/
def abortError {ε : Type} : RunError ε := .subagentAbort "subagent execution aborted"

/-- What is thrown: an `Error`, or another value with its text, none where `String(value)` throws. -/
inductive Reason (ε : Type)
  | error (e : RunError ε)
  | value (text : Option String)
  deriving DecidableEq, Repr

namespace Reason

variable {ε : Type}

def isSubagentAbort : Reason ε → Bool
  | error (.subagentAbort _) => true
  | _ => false

/-- `error instanceof Error ? error : new Error(String(error))`. -/
def toError : Reason ε → Option (RunError ε)
  | error e => some e
  | value text => text.map .ofText

end Reason

/-! ## The state -/

/-- An invocation that has completed, by the index of its item. -/
abbrev Completion (ρ ε : Type) := Nat × Except (Reason ε) ρ

inductive Ending (ρ ε : Type)
  | resolved (results : List (Option ρ))
  | rejected (e : RunError ε)
  deriving DecidableEq, Repr

structure Pool (α ρ ε : Type) where
  /-- The workers that have not begun. -/
  idle : Nat
  /-- The item that `run` is being called with. -/
  calling : Option Nat := none
  /-- The promises that have not settled. -/
  flying : List Nat := []
  /-- Those that have, while the continuation waits for its turn. -/
  queue : List (Completion ρ ε) := []
  nextIndex : Nat := 0
  results : List (Option ρ)
  firstError : Option (RunError ε) := none
  /-- `controller.signal.aborted` -/
  aborted : Bool := false
  /-- `signal.aborted` -/
  signal : Bool
  ended : Option (Ending ρ ε)
  /-- The calls of `run`, and their completions in order. -/
  invoked : List (α × Nat) := []
  completed : List (Completion ρ ε) := []
  /-- The completions that a worker has gone on from. -/
  seen : List (Completion ρ ε) := []

inductive Event (ρ ε : Type)
  | enter
  | returns
  | throws (reason : Reason ε)
  | settle (index : Nat) (outcome : Except (Reason ε) ρ)
  | resume
  | abort
  | finish

variable {α ρ ε : Type}

def limit (concurrency : ℚ) (length : Nat) : Nat :=
  ⌊max 1 (min concurrency (if length = 0 then 1 else length))⌋₊

/-- The call of `runBounded`, before the first worker enters. -/
def begin (items : List α) (concurrency : ℚ) (signal : Bool) : Pool α ρ ε where
  idle := if signal then 0 else limit concurrency items.length
  results := List.replicate items.length none
  signal := signal
  ended := if signal then some (.rejected abortError) else none

namespace Pool

def inFlight (s : Pool α ρ ε) : List Nat := s.calling.toList ++ s.flying

/-- The workers that have not returned. -/
def working (s : Pool α ρ ε) : Nat := s.idle + s.inFlight.length + s.queue.length

/-! ## The workers -/

/-- The head of the loop: the worker returns, throws, or calls `run`. -/
def takeNext (items : List α) (s : Pool α ρ ε) : Pool α ρ ε :=
  if s.signal || s.aborted then s
  else match items[s.nextIndex]? with
    | none => { s with nextIndex := s.nextIndex + 1 }
    | some item =>
        { s with
          nextIndex := s.nextIndex + 1
          calling := some s.nextIndex
          invoked := s.invoked ++ [(item, s.nextIndex)] }

/-- The catch clause. Where `toError` has no value the clause itself throws. -/
def caught (error : Reason ε) (s : Pool α ρ ε) : Pool α ρ ε :=
  let alreadyAborted := s.signal || s.aborted
  let s := { s with aborted := true }
  if s.signal then s
  else if error.isSubagentAbort && alreadyAborted then s
  else { s with firstError := s.firstError.or error.toError }

/-- After the `await`. -/
def goOn (items : List α) (s : Pool α ρ ε) : Completion ρ ε → Pool α ρ ε
  | (_, .error reason) => s.caught reason
  | (index, .ok result) =>
      if s.signal || s.aborted then s.caught (.error abortError)
      else takeNext items { s with results := s.results.set index (some result) }

def verdict (s : Pool α ρ ε) : Ending ρ ε :=
  if s.signal then .rejected abortError
  else match s.firstError with
    | some e => .rejected e
    | none => .resolved s.results

def step (items : List α) (s : Pool α ρ ε) (event : Event ρ ε) : Option (Pool α ρ ε) :=
  if s.ended.isSome then none
  else match event with
    | .enter =>
        if s.idle ≠ 0 ∧ s.calling = none then some (takeNext items { s with idle := s.idle - 1 })
        else none
    | .returns => s.calling.map fun index => { s with calling := none, flying := s.flying ++ [index] }
    | .throws reason => s.calling.map fun index =>
        caught reason
          { s with
            calling := none
            completed := s.completed ++ [(index, .error reason)]
            seen := s.seen ++ [(index, .error reason)] }
    | .settle index outcome =>
        if index ∈ s.flying then
          some { s with
            flying := s.flying.erase index
            queue := s.queue ++ [(index, outcome)]
            completed := s.completed ++ [(index, outcome)] }
        else none
    | .resume =>
        match s.queue with
        | completion :: rest =>
            if s.idle = 0 ∧ s.calling = none then
              some (goOn items { s with queue := rest, seen := s.seen ++ [completion] } completion)
            else none
        | [] => none
    | .abort => some { s with signal := true, aborted := true }
    | .finish =>
        if s.working = 0 then some { s with ended := some s.verdict } else none

/-! ## What the functions do -/

theorem takeNext_cases (items : List α) (s : Pool α ρ ε) :
    (s.signal || s.aborted) = true ∧ takeNext items s = s ∨
    s.signal = false ∧ s.aborted = false ∧
      ((items.length ≤ s.nextIndex ∧ takeNext items s = { s with nextIndex := s.nextIndex + 1 }) ∨
      ∃ item, items[s.nextIndex]? = some item ∧
        takeNext items s =
          { s with
            nextIndex := s.nextIndex + 1
            calling := some s.nextIndex
            invoked := s.invoked ++ [(item, s.nextIndex)] }) := by
  by_cases stop : (s.signal || s.aborted) = true
  · exact .inl ⟨stop, if_pos stop⟩
  · have off : s.signal = false ∧ s.aborted = false := by simpa using stop
    refine .inr ⟨off.1, off.2, ?_⟩
    rw [takeNext, if_neg stop]
    cases next : items[s.nextIndex]? with
    | none => exact .inl ⟨List.getElem?_eq_none_iff.mp next, rfl⟩
    | some item => exact .inr ⟨item, rfl, rfl⟩

theorem caught_eq (reason : Reason ε) (s : Pool α ρ ε) :
    ∃ e, s.caught reason = { s with aborted := true, firstError := e } := by
  unfold caught
  dsimp only
  split
  · exact ⟨_, rfl⟩
  · split <;> exact ⟨_, rfl⟩

theorem goOn_cases (items : List α) (s : Pool α ρ ε) (c : Completion ρ ε) :
    (∃ reason, c.2 = .error reason ∧ goOn items s c = s.caught reason) ∨
    ∃ result, c.2 = .ok result ∧
      ((s.signal || s.aborted) = true ∧ goOn items s c = s.caught (.error abortError) ∨
        s.signal = false ∧ s.aborted = false ∧
          goOn items s c = takeNext items { s with results := s.results.set c.1 (some result) }) := by
  obtain ⟨index, reason | result⟩ := c
  · exact .inl ⟨reason, rfl, rfl⟩
  · refine .inr ⟨result, rfl, ?_⟩
    by_cases stop : (s.signal || s.aborted) = true
    · exact .inl ⟨stop, if_pos stop⟩
    · have off : s.signal = false ∧ s.aborted = false := by simpa using stop
      exact .inr ⟨off.1, off.2, if_neg stop⟩

/-- What a step does, event by event. -/
inductive Fires (items : List α) (s : Pool α ρ ε) : Event ρ ε → Pool α ρ ε → Prop
  | enter : s.idle ≠ 0 → s.calling = none → Fires items s .enter (takeNext items { s with idle := s.idle - 1 })
  | returns {index : Nat} : s.calling = some index →
      Fires items s .returns { s with calling := none, flying := s.flying ++ [index] }
  | throws {index : Nat} {reason : Reason ε} : s.calling = some index →
      Fires items s (.throws reason) (caught reason
        { s with
          calling := none
          completed := s.completed ++ [(index, .error reason)]
          seen := s.seen ++ [(index, .error reason)] })
  | settle {index : Nat} {outcome : Except (Reason ε) ρ} : index ∈ s.flying →
      Fires items s (.settle index outcome)
        { s with
          flying := s.flying.erase index
          queue := s.queue ++ [(index, outcome)]
          completed := s.completed ++ [(index, outcome)] }
  | resume {completion : Completion ρ ε} {rest : List (Completion ρ ε)} : s.queue = completion :: rest →
      s.calling = none →
      Fires items s .resume (goOn items { s with queue := rest, seen := s.seen ++ [completion] } completion)
  | abort : Fires items s .abort { s with signal := true, aborted := true }
  | finish : s.working = 0 → Fires items s .finish { s with ended := some s.verdict }

theorem step_fires {items : List α} {s t : Pool α ρ ε} {event : Event ρ ε}
    (fire : step items s event = some t) : s.ended = none ∧ Fires items s event t := by
  unfold step at fire
  split at fire
  · cases fire
  refine ⟨by simpa using ‹¬ s.ended.isSome = true›, ?_⟩
  cases event with
  | enter =>
      obtain ⟨⟨idle, free⟩, eq⟩ := Option.ite_none_right_eq_some.mp fire
      cases eq
      exact .enter idle free
  | returns =>
      obtain ⟨index, call, eq⟩ := Option.map_eq_some_iff.mp fire
      subst eq
      exact .returns call
  | throws reason =>
      obtain ⟨index, call, eq⟩ := Option.map_eq_some_iff.mp fire
      subst eq
      exact .throws call
  | settle index outcome =>
      obtain ⟨mem, eq⟩ := Option.ite_none_right_eq_some.mp fire
      cases eq
      exact .settle mem
  | resume =>
      dsimp only at fire
      split at fire
      · obtain ⟨⟨_, free⟩, eq⟩ := Option.ite_none_right_eq_some.mp fire
        cases eq
        exact .resume ‹_› free
      · cases fire
  | abort =>
      cases fire
      exact .abort
  | finish =>
      obtain ⟨finished, eq⟩ := Option.ite_none_right_eq_some.mp fire
      cases eq
      exact .finish finished

/-! ## What every run keeps -/

/-- The counts, while `busy` workers are in the middle of a turn. -/
structure Counted (items : List α) (limit busy : Nat) (s : Pool α ρ ε) : Prop where
  working_le : s.working + busy ≤ limit
  invoked_eq : s.invoked = items.zipIdx.take s.nextIndex
  accounted : (s.invoked.map Prod.snd).Perm (s.inFlight ++ s.completed.map Prod.fst)
  waiting : s.completed.Perm (s.seen ++ s.queue)
  length_eq : s.results.length = items.length

/-- Before a failure or an abort every completion is recorded, and no worker has returned while there
are items. -/
structure Quiet (items : List α) (limit busy : Nat) (s : Pool α ρ ε) : Prop where
  firstError_eq : s.firstError = none
  recorded : ∀ c ∈ s.seen, ∃ r, c.2 = .ok r ∧ s.results[c.1]? = some (some r)
  exhausted : s.working + busy = limit ∨ items.length ≤ s.nextIndex

def Sound (items : List α) (limit busy : Nat) (s : Pool α ρ ε) : Prop :=
  s.Counted items limit busy ∧ (s.signal = false → s.aborted = false → s.Quiet items limit busy)

variable {items : List α} {limit busy : Nat} {s : Pool α ρ ε}

theorem Counted.nodup (counted : s.Counted items limit busy) :
    (s.inFlight ++ s.completed.map Prod.fst).Nodup := by
  refine counted.accounted.nodup_iff.mp ?_
  rw [counted.invoked_eq, List.map_take, List.zipIdx_map_snd]
  exact (List.nodup_range').sublist (List.take_sublist _ _)

theorem Counted.lt_length (counted : s.Counted items limit busy) {c : Completion ρ ε}
    (mem : c ∈ s.completed) : c.1 < items.length := by
  have known : c.1 ∈ s.invoked.map Prod.snd :=
    counted.accounted.mem_iff.mpr (List.mem_append_right _ (List.mem_map_of_mem mem))
  rw [counted.invoked_eq, List.map_take, List.zipIdx_map_snd] at known
  simpa using List.mem_of_mem_take known

theorem Counted.takeNext (counted : s.Counted items limit 1) (free : s.calling = none) :
    (takeNext items s).Counted items limit 0 := by
  have room := counted.working_le
  rcases takeNext_cases items s with ⟨_, eq⟩ | ⟨_, _, ⟨past, eq⟩ | ⟨item, here, eq⟩⟩
  · rw [eq]
    exact { counted with working_le := by omega }
  · rw [eq]
    refine { counted with working_le := ?_, invoked_eq := ?_ }
    · simp only [working, inFlight] at room ⊢
      omega
    · rw [counted.invoked_eq, List.take_of_length_le (by simpa using past),
        List.take_of_length_le (by simp; omega)]
  · rw [eq]
    refine { counted with working_le := ?_, invoked_eq := ?_, accounted := ?_ }
    · simp only [working, inFlight, free, Option.toList_none, Option.toList_some, List.nil_append,
        List.length_append, List.length_singleton] at room ⊢
      omega
    · rw [counted.invoked_eq, List.take_add_one]
      simp [here]
    · have before := counted.accounted
      simp only [inFlight, free, Option.toList_none, Option.toList_some, List.nil_append] at before ⊢
      rw [List.map_append, List.append_assoc]
      exact (List.perm_append_comm).trans (before.append_left _)

theorem Sound.takeNext (sound : s.Sound items limit 1) (free : s.calling = none) :
    (takeNext items s).Sound items limit 0 := by
  refine ⟨sound.1.takeNext free, fun signal aborted => ?_⟩
  rcases takeNext_cases items s with ⟨stop, eq⟩ | ⟨on, running, ⟨past, eq⟩ | ⟨item, here, eq⟩⟩
  · rw [eq] at signal aborted
    simp [signal, aborted] at stop
  · have quiet := sound.2 on running
    rw [eq]
    exact { quiet with exhausted := .inr (by simp only; omega) }
  · have quiet := sound.2 on running
    rw [eq]
    refine { quiet with exhausted := ?_ }
    rcases quiet.exhausted with all | past
    · left
      simp only [working, inFlight, free, Option.toList_none, Option.toList_some, List.nil_append,
        List.length_append, List.length_singleton] at all ⊢
      omega
    · have inside := (List.getElem?_eq_some_iff.mp here).1
      omega

theorem Counted.caught (counted : s.Counted items limit 1) (reason : Reason ε) :
    (s.caught reason).Sound items limit 0 := by
  obtain ⟨e, eq⟩ := caught_eq reason s
  rw [eq]
  refine ⟨{ counted with working_le := ?_ }, fun _ on => by simp at on⟩
  have room := counted.working_le
  simp only [working, inFlight] at room ⊢
  omega

/-- The continuation of the completion at the head of the queue. -/
theorem Sound.goOn {completion : Completion ρ ε} {rest : List (Completion ρ ε)}
    (sound : s.Sound items limit 0) (head : s.queue = completion :: rest) (free : s.calling = none) :
    (goOn items { s with queue := rest, seen := s.seen ++ [completion] } completion).Sound
      items limit 0 := by
  obtain ⟨counted, quiet⟩ := sound
  have counts : Pool.working { s with queue := rest, seen := s.seen ++ [completion] } + 1 = s.working := by
    simp only [working, inFlight, head, List.length_cons]
    omega
  have moved : Counted items limit 1 { s with queue := rest, seen := s.seen ++ [completion] } := by
    refine { counted with working_le := ?_, waiting := ?_ }
    · rw [counts]
      exact counted.working_le
    · simpa [head] using counted.waiting
  rcases goOn_cases items { s with queue := rest, seen := s.seen ++ [completion] } completion with
    ⟨reason, _, eq⟩ | ⟨result, outcome, ⟨_, eq⟩ | ⟨on, running, eq⟩⟩
  · rw [eq]
    exact moved.caught reason
  · rw [eq]
    exact moved.caught _
  · rw [eq]
    have quiet := quiet on running
    have here : completion ∈ s.completed := counted.waiting.mem_iff.mpr (by simp [head])
    refine Sound.takeNext ⟨{ moved with length_eq := by simp [counted.length_eq] },
      fun _ _ => ⟨quiet.firstError_eq, fun c mem => ?_, ?_⟩⟩ free
    · rcases List.mem_append.mp mem with before | new
      · obtain ⟨r, ok, slot⟩ := quiet.recorded c before
        have apart : completion.1 ≠ c.1 := by
          intro same
          have nodup := (counted.waiting.map Prod.fst).nodup_iff.mp
            (counted.nodup.sublist (List.sublist_append_right _ _))
          simp only [head, List.map_append, List.map_cons] at nodup
          have distinct := (List.nodup_append.mp nodup).2.2 c.1 (List.mem_map_of_mem before) completion.1
          exact distinct List.mem_cons_self same.symm
        exact ⟨r, ok, by rw [List.getElem?_set_ne apart, slot]⟩
      · obtain rfl := List.mem_singleton.mp new
        refine ⟨result, outcome, ?_⟩
        rw [List.getElem?_set_self (by rw [counted.length_eq]; exact counted.lt_length here)]
    · rcases quiet.exhausted with all | past
      · left
        rw [← all]
        exact counts
      · exact .inr past

/-! ## One step -/

theorem step_keeps {event : Event ρ ε} {t : Pool α ρ ε} (sound : s.Sound items limit 0)
    (fire : step items s event = some t) : t.Sound items limit 0 := by
  obtain ⟨counted, quiet⟩ := sound
  cases (step_fires fire).2 with
  | enter idle free =>
      have counts : Pool.working { s with idle := s.idle - 1 } + 1 = s.working := by
        simp only [working, inFlight]
        omega
      refine Sound.takeNext ⟨{ counted with working_le := ?_ }, fun signal aborted => ?_⟩ free
      · rw [counts]
        exact counted.working_le
      · refine { quiet signal aborted with exhausted := ?_ }
        rw [counts]
        exact (quiet signal aborted).exhausted
  | @returns index call =>
      have counts : Pool.working { s with calling := none, flying := s.flying ++ [index] } = s.working := by
        simp only [working, inFlight, call, Option.toList_none, Option.toList_some, List.nil_append,
          List.length_append, List.length_singleton]
        omega
      refine ⟨{ counted with working_le := ?_, accounted := ?_ }, fun signal aborted => ?_⟩
      · rw [counts]
        exact counted.working_le
      · refine counted.accounted.trans (List.Perm.append_right _ ?_)
        simp only [inFlight, call, Option.toList_none, Option.toList_some, List.nil_append]
        exact List.perm_append_comm
      · refine { quiet signal aborted with exhausted := ?_ }
        rw [counts]
        exact (quiet signal aborted).exhausted
  | @throws index reason call =>
      have thrown : Counted items limit 1
          { s with
            calling := none
            completed := s.completed ++ [(index, .error reason)]
            seen := s.seen ++ [(index, .error reason)] } := by
        refine { counted with working_le := ?_, accounted := ?_, waiting := ?_ }
        · have room := counted.working_le
          simp only [working, inFlight, call, Option.toList_none, Option.toList_some, List.nil_append,
            List.length_append, List.length_singleton] at room ⊢
          omega
        · refine counted.accounted.trans ?_
          simp only [inFlight, call, Option.toList_none, Option.toList_some, List.nil_append, List.map_append,
            List.map_cons, List.map_nil, List.cons_append]
          rw [← List.append_assoc]
          exact (List.perm_append_singleton _ _).symm
        · simp only [List.append_assoc]
          refine (counted.waiting.append_right _).trans ?_
          rw [List.append_assoc]
          exact List.perm_append_comm.append_left _
      exact thrown.caught reason
  | @settle index outcome mem =>
      have counts : Pool.working
          { s with
            flying := s.flying.erase index
            queue := s.queue ++ [(index, outcome)]
            completed := s.completed ++ [(index, outcome)] } = s.working := by
        have one := List.length_erase_add_one mem
        simp only [working, inFlight, List.length_append, List.length_singleton]
        omega
      refine ⟨{ counted with working_le := ?_, accounted := ?_, waiting := ?_ }, fun signal aborted => ?_⟩
      · rw [counts]
        exact counted.working_le
      · refine counted.accounted.trans ?_
        simp only [inFlight, List.map_append, List.map_cons, List.map_nil, List.append_assoc]
        refine List.Perm.append_left _ (((List.perm_cons_erase mem).append_right _).trans ?_)
        rw [← List.append_assoc]
        exact (List.perm_append_singleton _ _).symm
      · rw [← List.append_assoc]
        exact counted.waiting.append_right _
      · refine { quiet signal aborted with exhausted := ?_ }
        rw [counts]
        exact (quiet signal aborted).exhausted
  | resume head free => exact Sound.goOn ⟨counted, quiet⟩ head free
  | abort => exact ⟨{ counted with }, fun off => by simp at off⟩
  | finish finished =>
      exact ⟨{ counted with }, fun signal aborted => { quiet signal aborted with }⟩

theorem takeNext_frame (items : List α) (s : Pool α ρ ε) :
    ((takeNext items s).ended = s.ended ∧ (takeNext items s).completed = s.completed ∧
      (takeNext items s).queue = s.queue) ∧ (takeNext items s).firstError = s.firstError ∧
      (takeNext items s).signal = s.signal ∧ (takeNext items s).aborted = s.aborted := by
  rcases takeNext_cases items s with ⟨_, eq⟩ | ⟨_, _, ⟨_, eq⟩ | ⟨_, _, eq⟩⟩ <;> simp [eq]

/-- A call of `run` comes from a worker that has found neither signal aborted. -/
theorem takeNext_invoked (items : List α) (s : Pool α ρ ε) :
    (takeNext items s).invoked = s.invoked ∨
      (takeNext items s).signal = false ∧ (takeNext items s).aborted = false := by
  rcases takeNext_cases items s with ⟨_, eq⟩ | ⟨on, running, ⟨_, eq⟩ | ⟨item, _, eq⟩⟩
  · exact .inl (by rw [eq])
  · exact .inl (by rw [eq])
  · exact .inr (by rw [eq]; exact ⟨on, running⟩)

theorem caught_frame (reason : Reason ε) (s : Pool α ρ ε) :
    (s.caught reason).ended = s.ended ∧ (s.caught reason).completed = s.completed ∧
      (s.caught reason).signal = s.signal ∧ (s.caught reason).invoked = s.invoked := by
  obtain ⟨e, eq⟩ := caught_eq reason s
  simp [eq]

theorem step_invoked {event : Event ρ ε} {t : Pool α ρ ε} (fire : step items s event = some t) :
    t.invoked = s.invoked ∨ t.signal = false ∧ t.aborted = false := by
  cases (step_fires fire).2 with
  | enter _ _ => exact takeNext_invoked items _
  | returns _ => exact .inl rfl
  | throws _ => exact .inl (caught_frame _ _).2.2.2
  | settle _ => exact .inl rfl
  | @resume completion rest _ _ =>
      rcases goOn_cases items { s with queue := rest, seen := s.seen ++ [completion] } completion with
        ⟨reason, _, eq⟩ | ⟨result, _, ⟨_, eq⟩ | ⟨_, _, eq⟩⟩
      · exact .inl (by rw [eq, (caught_frame _ _).2.2.2])
      · exact .inl (by rw [eq, (caught_frame _ _).2.2.2])
      · rw [eq]
        exact takeNext_invoked items _
  | abort => exact .inl rfl
  | finish _ => exact .inl rfl

/-! ## The end -/

def Closed (s : Pool α ρ ε) : Prop := ∀ e, s.ended = some e → s.working = 0 ∧ e = s.verdict

theorem Closed.running (running : s.ended = none) : s.Closed := fun e ended => by
  rw [running] at ended
  cases ended

theorem step_closed {event : Event ρ ε} {t : Pool α ρ ε} (fire : step items s event = some t) :
    t.Closed := by
  obtain ⟨running, fires⟩ := step_fires fire
  cases fires with
  | enter _ _ => exact .running (by rw [(takeNext_frame _ _).1.1, running])
  | returns _ => exact .running running
  | throws _ => exact .running (by rw [(caught_frame _ _).1, running])
  | settle _ => exact .running running
  | @resume completion rest _ _ =>
      refine .running ?_
      rcases goOn_cases items { s with queue := rest, seen := s.seen ++ [completion] } completion with
        ⟨reason, _, eq⟩ | ⟨result, _, ⟨_, eq⟩ | ⟨_, _, eq⟩⟩
      · rw [eq, (caught_frame _ _).1, running]
      · rw [eq, (caught_frame _ _).1, running]
      · rw [eq, (takeNext_frame _ _).1.1, running]
  | abort => exact .running running
  | finish finished =>
      intro e ended
      cases ended
      exact ⟨finished, rfl⟩

/-! ## The first failure -/

def firstFailure (completions : List (Completion ρ ε)) : Option (Reason ε) :=
  completions.findSome? fun c => match c.2 with
    | .error reason => some reason
    | .ok _ => none

/-- A failure that comes first can be made an error, and a throw does not overtake a failure that waits
in the queue. -/
def clean (s : Pool α ρ ε) : Event ρ ε → Bool
  | .throws reason =>
      s.signal || s.firstError.isSome || reason.toError.isSome && (firstFailure s.queue).isNone
  | .resume =>
      match s.queue with
      | (_, .error reason) :: _ => s.signal || s.firstError.isSome || reason.toError.isSome
      | _ => true
  | _ => true

/-- The slot has the first failure, or there is none but in the queue. -/
def Ordered (s : Pool α ρ ε) : Prop :=
  s.signal = false → match s.firstError with
    | some e => (firstFailure s.completed).bind Reason.toError = some e
    | none => s.aborted = false ∧ firstFailure s.completed = firstFailure s.queue

theorem firstFailure_concat (completions : List (Completion ρ ε)) (c : Completion ρ ε) :
    firstFailure (completions ++ [c]) = (firstFailure completions).or (firstFailure [c]) :=
  List.findSome?_append

/-- The catch clause, with the first failure at hand. -/
theorem Ordered.caught {reason : Reason ε} (on : s.signal = false)
    (converts : s.firstError.isSome = true ∨ reason.toError.isSome = true)
    (first : match s.firstError with
      | some e => (firstFailure s.completed).bind Reason.toError = some e
      | none => s.aborted = false ∧ firstFailure s.completed = some reason) :
    (s.caught reason).Ordered := by
  intro _
  have slot : (s.caught reason).firstError = s.firstError.or reason.toError := by
    unfold Pool.caught
    dsimp only
    rw [if_neg (by simp [on])]
    split
    · cases held : s.firstError with
      | some e => simp
      | none =>
          rw [held] at first
          simp_all
    · rfl
  rw [slot, (caught_frame reason s).2.1]
  cases held : s.firstError with
  | some e =>
      rw [held] at first
      exact first
  | none =>
      rw [held] at first converts
      obtain ⟨e, made⟩ := Option.isSome_iff_exists.mp (converts.resolve_left (by simp))
      simp [made, first.2]

theorem Ordered.takeNext (ordered : s.Ordered) : (takeNext items s).Ordered := by
  obtain ⟨⟨_, completed, queue⟩, firstError, signal, aborted⟩ := takeNext_frame items s
  unfold Ordered
  rw [completed, queue, firstError, signal, aborted]
  exact ordered

theorem Ordered.of_caught {reason : Reason ε} (on : s.signal = false → (s.caught reason).Ordered) :
    (s.caught reason).Ordered := fun off => by
  have signal := (caught_frame reason s).2.2.1
  exact on (signal.symm.trans off) off

/-- What `Ordered` says of the slot, by the first failure and the first one in the queue. -/
def Slotted (slot : Option (RunError ε)) (aborted : Bool) (failure queued : Option (Reason ε)) :
    Prop :=
  match slot with
  | some e => failure.bind Reason.toError = some e
  | none => aborted = false ∧ failure = queued

/-- One more failure comes last. -/
theorem Slotted.or {slot : Option (RunError ε)} {aborted : Bool}
    {failure queued queued' more : Option (Reason ε)} (slotted : Slotted slot aborted failure queued)
    (next : slot = none → queued.or more = queued') :
    Slotted slot aborted (failure.or more) queued' := by
  cases slot with
  | some e =>
      obtain ⟨reason, failed, made⟩ := Option.bind_eq_some_iff.mp slotted
      simp [Slotted, failed, made]
  | none => exact ⟨slotted.1, by rw [slotted.2, next rfl]⟩

theorem Slotted.mono {slot : Option (RunError ε)} {aborted : Bool}
    {failure queued queued' : Option (Reason ε)} (slotted : Slotted slot aborted failure queued)
    (next : aborted = false → queued = queued') : Slotted slot aborted failure queued' := by
  cases slot with
  | some e => exact slotted
  | none => exact ⟨slotted.1, slotted.2.trans (next slotted.1)⟩

theorem Ordered.slotted (ordered : s.Ordered) (on : s.signal = false) :
    Slotted s.firstError s.aborted (firstFailure s.completed) (firstFailure s.queue) := ordered on

theorem Ordered.step {event : Event ρ ε} {t : Pool α ρ ε} (ordered : s.Ordered)
    (ok : s.clean event = true) (fire : step items s event = some t) : t.Ordered := by
  cases (step_fires fire).2 with
  | enter _ _ => exact Ordered.takeNext ordered
  | returns _ => exact ordered
  | @throws index reason call =>
      refine Ordered.of_caught fun on => ?_
      have on : s.signal = false := on
      simp only [clean, on, Bool.false_or, Bool.or_eq_true, Bool.and_eq_true,
        Option.isNone_iff_eq_none] at ok
      refine Ordered.caught on (ok.imp_right And.left) ?_
      dsimp only
      rw [firstFailure_concat]
      refine (ordered.slotted on).or fun held => ?_
      rw [(ok.resolve_left (by simp [held])).2]
      rfl
  | @settle index outcome mem =>
      intro on
      dsimp only
      rw [firstFailure_concat, firstFailure_concat]
      exact (ordered.slotted on).or fun _ => rfl
  | @resume completion rest head free =>
      rcases goOn_cases items { s with queue := rest, seen := s.seen ++ [completion] } completion with
        ⟨reason, failed, eq⟩ | ⟨result, fine, ⟨stop, eq⟩ | ⟨_, running, eq⟩⟩
      · rw [eq]
        refine Ordered.of_caught fun off => ?_
        have on : s.signal = false := off
        obtain ⟨index, outcome⟩ := completion
        dsimp only at failed
        subst failed
        simp only [clean, head, Bool.or_eq_true] at ok
        refine Ordered.caught on (ok.imp_left fun held => held.resolve_left (by simp [on])) ?_
        refine (ordered.slotted on).mono fun _ => ?_
        rw [head]
        rfl
      · rw [eq]
        refine Ordered.of_caught fun on => Ordered.caught on (.inr rfl) ?_
        have on : s.signal = false := on
        refine (ordered.slotted on).mono fun running => ?_
        have stop : (s.signal || s.aborted) = true := stop
        simp [on, running] at stop
      · rw [eq]
        refine Ordered.takeNext fun on => (ordered.slotted on).mono fun _ => ?_
        rw [head]
        simp [firstFailure, fine]
  | abort => exact fun off => by simp at off
  | finish _ => exact ordered

end Pool

/-! ## Runs -/

open Pool

theorem limit_le {concurrency : ℚ} (atLeastOne : 1 ≤ concurrency) (length : Nat) :
    (limit concurrency length : ℚ) ≤ concurrency := by
  refine (Nat.floor_le (zero_le_one.trans (le_max_left _ _))).trans ?_
  exact max_le atLeastOne (min_le_left _ _)

theorem one_le_limit (concurrency : ℚ) (length : Nat) : 1 ≤ limit concurrency length := by
  refine Nat.le_floor ?_
  rw [Nat.cast_one]
  exact le_max_left _ _

section

variable {items : List α} {concurrency : ℚ} {signal : Bool} {s : Pool α ρ ε}

theorem sound_begin : (begin items concurrency signal : Pool α ρ ε).Sound items
    (limit concurrency items.length) 0 := by
  refine ⟨⟨?_, ?_, ?_, ?_, ?_⟩, fun off _ => ⟨rfl, ?_, .inl ?_⟩⟩
  · cases signal <;> simp [begin, working, inFlight]
  · simp [begin]
  · simp [begin, inFlight]
  · simp [begin]
  · simp [begin]
  · simp [begin]
  · have off : signal = false := off
    simp [begin, working, inFlight, off]

theorem reached_sound (run : Steps (step items) AnyStep (begin items concurrency signal) s) :
    s.Sound items (limit concurrency items.length) 0 :=
  run.invariant sound_begin fun _ _ _ sound _ fire => step_keeps sound fire

theorem reached_closed (run : Steps (step items) AnyStep (begin items concurrency signal) s) :
    s.Closed := by
  refine run.invariant (fun e ended => ?_) fun _ _ _ _ _ fire => step_closed fire
  cases signal with
  | false => cases ended
  | true =>
      cases ended
      exact ⟨rfl, rfl⟩

/-- The events that `clean` lets pass. -/
def Clean (s : Pool α ρ ε) (event : Event ρ ε) : Prop := s.clean event = true

theorem reached_ordered (run : Steps (step items) Clean (begin items concurrency signal) s) : s.Ordered := by
  refine run.invariant (fun _ => And.intro rfl rfl) fun _ _ _ ordered ok fire => ordered.step ok fire

/-- What `runBounded` promises of a state that it reaches. -/
structure AllOrNothing (items : List α) (concurrency : ℚ) (s : Pool α ρ ε) : Prop where
  once : (s.invoked.map Prod.snd).Nodup ∧ ∀ call ∈ s.invoked, items[call.2]? = some call.1
  bounded : (s.inFlight.length : ℚ) ≤ concurrency
  /-- No step calls `run` after a failure or an abort. -/
  stops : ∀ event t, step items s event = some t → t.invoked ≠ s.invoked →
    t.signal = false ∧ ∀ c ∈ t.seen, ∃ r, c.2 = .ok r
  settles : s.ended.isSome = true →
    s.inFlight = [] ∧ ∀ call ∈ s.invoked, ∃ outcome, (call.2, outcome) ∈ s.completed
  resolves : ∀ results, s.ended = some (.resolved results) → s.signal = false ∧
    results.length = items.length ∧
    ∀ index < items.length, ∃ r, (index, .ok r) ∈ s.completed ∧ results[index]? = some (some r)
  rejects : ∀ e, s.ended = some (.rejected e) →
    if s.signal then e = abortError else (firstFailure s.completed).bind Reason.toError = some e

theorem runBounded_all_or_nothing (atLeastOne : 1 ≤ concurrency)
    (run : Steps (step items) Clean (begin items concurrency signal) s) :
    AllOrNothing items concurrency s := by
  have sound := reached_sound run.any
  obtain ⟨counted, quiet⟩ := sound
  have closed := reached_closed run.any
  have ordered := reached_ordered run
  have finished (e : Ending ρ ε) (ended : s.ended = some e) :
      s.idle = 0 ∧ s.inFlight = [] ∧ s.queue = [] ∧ e = s.verdict := by
    obtain ⟨none, verdict⟩ := closed e ended
    simp only [working] at none
    exact ⟨by omega, List.eq_nil_of_length_eq_zero (by omega), List.eq_nil_of_length_eq_zero (by omega),
      verdict⟩
  refine ⟨⟨?_, ?_⟩, ?_, fun event t fire new => ?_, ?_, ?_, ?_⟩
  · exact counted.accounted.nodup_iff.mpr counted.nodup
  · intro call mem
    rw [counted.invoked_eq] at mem
    obtain ⟨item, index⟩ := call
    simpa [List.mem_zipIdx_iff_getElem?] using List.mem_of_mem_take mem
  · refine le_trans ?_ (limit_le atLeastOne items.length)
    have room := counted.working_le
    simp only [working] at room
    exact_mod_cast (by omega : s.inFlight.length ≤ limit concurrency items.length)
  · obtain ⟨on, running⟩ := (step_invoked fire).resolve_left new
    refine ⟨on, fun c mem => ?_⟩
    obtain ⟨r, ok, _⟩ := ((step_keeps ⟨counted, quiet⟩ fire).2 on running).recorded c mem
    exact ⟨r, ok⟩
  · intro ended
    obtain ⟨e, ended⟩ := Option.isSome_iff_exists.mp ended
    obtain ⟨_, landed, _, _⟩ := finished e ended
    refine ⟨landed, fun call mem => ?_⟩
    have known := counted.accounted.mem_iff.mp (List.mem_map_of_mem mem)
    rw [landed, List.nil_append] at known
    obtain ⟨⟨index, outcome⟩, mem, eq⟩ := List.mem_map.mp known
    exact ⟨outcome, by rw [← eq]; exact mem⟩
  · intro results ended
    obtain ⟨idle, landed, empty, eq⟩ := finished _ ended
    obtain ⟨on, held, rfl⟩ : s.signal = false ∧ s.firstError = none ∧ results = s.results := by
      unfold verdict at eq
      split at eq
      · cases eq
      · split at eq <;> cases eq
        exact ⟨by simpa using ‹¬ s.signal = true›, ‹_›, rfl⟩
    have running : s.aborted = false := by
      have first := ordered on
      rw [held] at first
      exact first.1
    obtain ⟨_, recorded, exhausted⟩ := quiet on running
    have past : items.length ≤ s.nextIndex := by
      have some := one_le_limit concurrency items.length
      simp only [working, idle, landed, empty, List.length_nil] at exhausted
      omega
    refine ⟨on, counted.length_eq, fun index inside => ?_⟩
    have known : index ∈ s.invoked.map Prod.snd := by
      rw [counted.invoked_eq, List.take_of_length_le (by simpa using past), List.zipIdx_map_snd]
      simpa using inside
    have done := counted.accounted.mem_iff.mp known
    rw [landed, List.nil_append] at done
    obtain ⟨c, mem, rfl⟩ := List.mem_map.mp done
    have seen : c ∈ s.seen := by simpa [empty] using counted.waiting.mem_iff.mp mem
    obtain ⟨r, ok, slot⟩ := recorded c seen
    exact ⟨r, by rw [← ok]; exact mem, slot⟩
  · intro e ended
    obtain ⟨_, landed, empty, eq⟩ := finished _ ended
    unfold verdict at eq
    split at eq
    · cases eq
      rw [if_pos ‹_›]
    · rename_i on
      have on : s.signal = false := by simpa using on
      have first := ordered on
      split at eq
      · rename_i held
        rw [held] at first
        cases eq
        rw [if_neg (by simp [on])]
        exact first
      · cases eq

end

/-- Two workers for three items. The second fails after the first has gone on. -/
def failingRun : List (Event String String) :=
  [.enter, .returns, .enter, .returns, .settle 0 (.ok "a"), .resume, .returns,
    .settle 1 (.error (.value (some "broken"))), .settle 2 (.ok "c"), .resume, .resume, .finish]

theorem runBounded_all_or_nothing_failing :
    ∃ s : Pool Nat String String,
      runWhile (step [10, 20, 30]) Pool.clean (begin [10, 20, 30] 2 false) failingRun = some s ∧
      s.ended = some (.rejected (.ofText "broken")) ∧ AllOrNothing [10, 20, 30] 2 s := by
  obtain ⟨s, replay, ended⟩ : ∃ s : Pool Nat String String,
      runWhile (step [10, 20, 30]) Pool.clean (begin [10, 20, 30] 2 false) failingRun = some s ∧
      s.ended = some (.rejected (.ofText "broken")) := ⟨_, rfl, rfl⟩
  exact ⟨s, replay, ended,
    runBounded_all_or_nothing (by norm_num) (Steps.of_runWhile (fun _ _ ok => ok) replay)⟩

/-- The only invocation fails with a value that has no text, such as an object without a prototype. -/
def untoldRun : List (Event Unit Unit) :=
  [.enter, .returns, .settle 0 (.error (.value none)), .resume, .finish]

theorem failure_resolves :
    ¬ ∀ (items : List Unit) (concurrency : ℚ) (s : Pool Unit Unit Unit), 1 ≤ concurrency →
      Steps (step items) AnyStep (begin items concurrency false) s → AllOrNothing items concurrency s := by
  intro promised
  obtain ⟨s, replay, ended⟩ : ∃ s : Pool Unit Unit Unit,
      runWhile (step [()]) (fun _ _ => true) (begin [()] 1 false) untoldRun = some s ∧
      s.ended = some (.resolved [none]) := ⟨_, rfl, rfl⟩
  have kept := promised [()] 1 s le_rfl (Steps.of_runWhile (fun _ _ _ => trivial) replay)
  obtain ⟨_, _, slots⟩ := kept.resolves [none] ended
  obtain ⟨r, _, slot⟩ := slots 0 (by simp)
  cases slot

/-- A second call of `run` throws while the rejection of the first one waits in the queue. -/
theorem throw_overtakes :
    ∃ s : Pool Unit Unit String,
      runWhile (step [(), ()]) (fun _ _ => true) (begin [(), ()] 2 false)
        [.enter, .returns, .settle 0 (.error (.error (.other "a"))), .enter,
          .throws (.error (.other "b")), .resume, .finish] = some s ∧
      s.ended = some (.rejected (.other "b")) ∧
      (firstFailure s.completed).bind Reason.toError = some (.other "a") := ⟨_, rfl, rfl, rfl⟩

end Opensquid.Subagents
