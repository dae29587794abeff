import Opensquid.Runtime.StreamingCli

/-!
# When a callback decides

The close event ends the session, and a session that has ended takes no decision: a callback
that completes or fails after the close counts as one that continues. The records are
dispatched in order, one at a time, in every run; the outcome is that of the first deciding
callback exactly when that callback has settled before the close (`outcome_iff`).
-/

namespace Opensquid.StreamingCli

open Opensquid.Lib Opensquid.Lib.Utf8 Opensquid.Lib.Lines

/-! ## What is promised of a run -/

/-- The records of a stream: the text between the line feeds, less one trailing CR. -/
def records (bytes : List UInt8) : List (List Char) :=
  (completeLines (10 : UInt8) bytes).map fun line => stripCr (text line)

def Call.started (c : Call) : Bool := c.status ≠ .waiting

/-- The records that `onRecord` has been called with. -/
def Run.calls (s : Run) : List (List Char) := (s.chain.filter Call.started).map Call.record

/-- The outcome of a callback that does not just continue. -/
def Call.decision (c : Call) : Option Outcome :=
  match c.status with
  | .settled .continues | .waiting | .opened => none
  | .settled outcome => some outcome

/-- The first decision, in the order of the records. -/
def firstDecision (chain : List Call) : Option Outcome := chain.findSome? Call.decision

/-- The decision is to fail, or the callback has thrown. -/
def Outcome.failing : Outcome → Prop
  | .fails _ | .throws _ => True
  | .continues | .completes => False

/-- Calls are made one at a time, with the records in their order, and the promise settles as
the first decision says. -/
structure Meets (opts : Options) (s : Run) : Prop where
  oneOpen : s.chain.countP (fun c => c.status = .opened) ≤ 1
  inOrder : s.calls <+: records s.sent
  allCalled : s.result.isSome → (∀ c ∈ s.chain, ∀ o, c.status = .settled o → ¬ o.failing) →
    s.calls = records s.sent
  rejects : ∀ r, s.result = some r →
    ((∃ error, r = .error error) ↔ ∃ o, firstDecision s.chain = some o ∧ o.failing)
  completes : ∀ r, s.result = some (.ok r) →
    (r.completed = true ↔ ∃ c ∈ s.chain, c.status = .settled .completes)
  /-- After the close nothing but the callbacks holds the promise back. -/
  settles : s.closed.isSome → s.chain.all Call.isSettled → s.result = none →
    ∀ treeExited, ∃ t, step opts s (.finish treeExited) = some t ∧ t.result.isSome

/-- The first callback that decides has settled before the close. -/
def Timely (s : Run) : Prop :=
  firstDecision (s.chain.take s.settledAtClose) = firstDecision s.chain

/-- Exit code 0, no timeout, no spawn error and no cap exceeded. -/
def Quiet (opts : Options) (s : Run) : Event → Prop
  | .stdout bytes => s.shutdownPending ∨
      (opts.retainStdout → s.stdoutBytes + bytes.length ≤ opts.captureCap) ∧
        (countRecord opts.recordCap s.currentRecordBytes bytes).2 = false
  | .stderr bytes => s.shutdownPending ∨ s.stderrBytes + bytes.length ≤ opts.captureCap
  | .timeout | .spawnError _ => False
  | .close code => code = some 0
  | _ => True

/-! ## The chain -/

/-- A chain whose first call may be open and whose other calls wait. -/
inductive Unsettled : List Call → Prop
  | nil : Unsettled []
  | cons {c : Call} {rest : List Call} : c.isSettled = false → (∀ d ∈ rest, d.status = .waiting) →
      Unsettled (c :: rest)

theorem Unsettled.append {todo more : List Call} (unsettled : Unsettled todo)
    (waiting : ∀ d ∈ more, d.status = .waiting) : Unsettled (todo ++ more) := by
  cases unsettled with
  | nil =>
      cases more with
      | nil => exact .nil
      | cons c rest =>
          have first := waiting c List.mem_cons_self
          exact .cons (by rw [Call.isSettled, first]) fun d mem => waiting d (List.mem_cons_of_mem _ mem)
  | cons open' rest =>
      exact .cons open' fun d mem => (List.mem_append.mp mem).elim (rest d) (waiting d)

/-- The call that starts or settles is the first that is not settled. -/
theorem Unsettled.first {done todo : List Call} (settled : ∀ c ∈ done, c.isSettled = true)
    (unsettled : Unsettled todo) {i : Nat} {c : Call} (here : (done ++ todo)[i]? = some c)
    (open' : c.isSettled = false)
    (next : c.status = .opened ∨ ((done ++ todo).take i).all Call.isSettled) :
    i = done.length ∧ ∃ rest, todo = c :: rest := by
  rcases Nat.lt_or_ge i done.length with early | late
  · rw [List.getElem?_append_left early] at here
    exact absurd (settled c (List.mem_of_getElem? here)) (by rw [open']; decide)
  · rw [List.getElem?_append_right late] at here
    cases unsettled with
    | nil => cases here
    | cons headOpen waiting =>
        rename_i head rest
        rcases Nat.eq_zero_or_pos (i - done.length) with zero | later
        · rw [zero] at here
          cases here
          exact ⟨by omega, rest, rfl⟩
        · obtain ⟨k, shift⟩ := Nat.exists_eq_succ_of_ne_zero (Nat.pos_iff_ne_zero.mp later)
          rw [shift] at here
          have waits := waiting c (List.mem_of_getElem? here)
          rcases next with opened | before
          · cases waits.symm.trans opened
          · have head' : head ∈ (done ++ head :: rest).take i := by
              rw [List.take_append]
              refine List.mem_append_right _ ?_
              rw [shift, List.take_succ_cons]
              exact List.mem_cons_self
            have settledHead := List.all_eq_true.mp before head head'
            rw [headOpen] at settledHead
            cases settledHead

theorem set_done (done rest : List Call) (c d : Call) :
    (done ++ c :: rest).set done.length d = done ++ d :: rest := by
  rw [List.set_append_right _ _ le_rfl, Nat.sub_self]
  rfl

theorem Unsettled.isSettled {todo : List Call} (unsettled : Unsettled todo) {c : Call}
    (mem : c ∈ todo) : c.isSettled = false := by
  cases unsettled with
  | nil => cases mem
  | cons head waiting =>
      rcases List.mem_cons.mp mem with rfl | later
      · exact head
      · rw [Call.isSettled, waiting c later]

theorem Unsettled.decision {todo : List Call} (unsettled : Unsettled todo) :
    ∀ c ∈ todo, c.decision = none := by
  intro c mem
  have open' := unsettled.isSettled mem
  cases status : c.status with
  | waiting | opened => rw [Call.decision, status]
  | settled o =>
      rw [Call.isSettled, status] at open'
      cases open'

/-! ## The invariant -/

/-- The session, the owner and the errors after the decisions that have been taken. -/
inductive Decided (completed : Bool) (callbackError shutdownError : Option CliError)
    (owner : LifecyclePhase) (session : SessionPhase) (closed : Option (Option Int)) :
    Option Outcome → Prop
  | undecided : completed = false → callbackError = none → shutdownError = none →
      owner = .running ∨ owner = .closed → (closed = none → session = .running) →
      Decided completed callbackError shutdownError owner session closed none
  | completed : completed = true → callbackError = none → shutdownError = none →
      owner = .running ∨ owner = .closed → session ≠ .running →
      Decided completed callbackError shutdownError owner session closed (some .completes)
  | failed {o : Outcome} : o.failing → callbackError.isSome → shutdownError.isSome →
      owner ≠ .running → session ≠ .running →
      Decided completed callbackError shutdownError owner session closed (some o)

structure Inv (s : Run) : Prop where
  /-- The chain is what has settled before the close, what has settled since, and the rest. -/
  chain : ∃ timely late todo, s.chain = timely ++ late ++ todo ∧
    (∀ c ∈ timely ++ late, c.isSettled = true) ∧ Unsettled todo ∧ (s.closed = none → late = []) ∧
    (s.closed.isSome → s.settledAtClose = timely.length) ∧
    Decided s.completed s.callbackError s.shutdownError s.owner s.session s.closed
      (firstDecision timely)
  /-- What the framer has been given. -/
  fed : ∃ bytes, s.out = (Framer.start.write bytes).1 ∧
    s.chain.map Call.record = (Framer.start.write bytes).2.map stripCr ∧ bytes <+: s.sent ∧
    (s.callbackError = none → bytes = s.sent)
  terminal : s.terminal = s.closed.isSome
  session : s.closed.isSome → s.session = .closed
  code : ∀ code, s.closed = some code → code = some 0
  owner : s.result = none → s.owner ≠ .closed
  /-- How the promise has settled. -/
  result : ∀ r, s.result = some r → s.closed.isSome ∧ s.chain.all Call.isSettled ∧
    ((∃ error, r = .error error) ↔ s.callbackError.isSome) ∧
    ∀ value, r = .ok value → value.completed = s.completed

theorem inv_init : Inv {} where
  chain := by
    refine ⟨[], [], [], rfl, (fun c mem => by cases mem), .nil, fun _ => rfl, (fun h => by cases h), ?_⟩
    exact .undecided rfl rfl rfl (.inl rfl) fun _ => rfl
  fed := ⟨[], rfl, rfl, List.nil_prefix, fun _ => rfl⟩
  terminal := rfl
  session h := by cases h
  code c h := by cases h
  owner _ := by decide
  result r h := by cases h

section

variable {completed : Bool} {callbackError shutdownError : Option CliError}
  {owner : LifecyclePhase} {session : SessionPhase} {closed : Option (Option Int)}
  {d : Option Outcome}

/-- Where the owner is still running, nothing has failed. -/
theorem Decided.of_running
    (decided : Decided completed callbackError shutdownError owner session closed d)
    (running : owner = .running) : callbackError = none := by
  cases decided with
  | undecided _ none' _ _ _ => exact none'
  | completed _ none' _ _ _ => exact none'
  | failed _ _ _ other _ => exact absurd running other

theorem Decided.of_pending
    (decided : Decided completed callbackError shutdownError owner session closed d)
    (pending : owner = .termSent ∨ owner = .treeKilled) : callbackError.isSome := by
  have apart : ¬ (owner = .running ∨ owner = .closed) := by
    rcases pending with rfl | rfl <;> decide
  cases decided with
  | undecided _ _ _ other _ => exact absurd other apart
  | completed _ _ _ other _ => exact absurd other apart
  | failed _ some' _ _ _ => exact some'

/-- The grace period is over. -/
theorem Decided.killed
    (decided : Decided completed callbackError shutdownError owner session closed d)
    (pending : owner = .termSent) :
    Decided completed callbackError shutdownError .treeKilled session closed d := by
  subst pending
  cases decided with
  | undecided _ _ _ other _ => rcases other with other | other <;> cases other
  | completed _ _ _ other _ => rcases other with other | other <;> cases other
  | failed failing some' some'' _ ended => exact .failed failing some' some'' (by decide) ended

/-- The close ends the session. -/
theorem Decided.ended
    (decided : Decided completed callbackError shutdownError owner session closed d)
    (code : Option Int) :
    Decided completed callbackError shutdownError owner .closed (some code) d := by
  cases decided with
  | undecided notYet none' none'' going _ =>
      exact .undecided notYet none' none'' going fun open' => by cases open'
  | completed done none' none'' going _ => exact .completed done none' none'' going (by decide)
  | failed failing some' some'' other _ => exact .failed failing some' some'' other (by decide)

/-- The owner has handled the close. -/
theorem Decided.handled
    (decided : Decided completed callbackError shutdownError owner session closed d) :
    Decided completed callbackError shutdownError .closed session closed d := by
  cases decided with
  | undecided notYet none' none'' _ going => exact .undecided notYet none' none'' (.inr rfl) going
  | completed done none' none'' _ ended => exact .completed done none' none'' (.inr rfl) ended
  | failed failing some' some'' _ ended => exact .failed failing some' some'' (by decide) ended

end

variable {opts : Options} {s t : Run}

theorem Inv.callbackError_of_running (inv : Inv s) (running : s.owner = .running) :
    s.callbackError = none := by
  obtain ⟨timely, late, todo, -, -, -, -, -, decided⟩ := inv.chain
  exact decided.of_running running

theorem Inv.callbackError_of_pending (inv : Inv s) (pending : s.shutdownPending) :
    s.callbackError.isSome := by
  obtain ⟨timely, late, todo, -, -, -, -, -, decided⟩ := inv.chain
  exact decided.of_pending pending

theorem Inv.result_of_open (inv : Inv s) (open' : s.closed = none) : s.result = none := by
  cases result : s.result with
  | none => rfl
  | some r =>
      have closed := (inv.result r result).1
      rw [open'] at closed
      cases closed

theorem Inv.terminal_of_open (inv : Inv s) (open' : s.closed = none) : s.terminal = false := by
  rw [inv.terminal, open']
  rfl

theorem Inv.running_of_not_pending (inv : Inv s) (open' : s.closed = none)
    (idle : ¬ s.shutdownPending) : s.owner = .running := by
  have other := inv.owner (inv.result_of_open open')
  cases owner : s.owner with
  | running => rfl
  | termSent => exact absurd (.inl owner) idle
  | treeKilled => exact absurd (.inr owner) idle
  | closed => exact absurd owner other

theorem Inv.onStdout {bytes : List UInt8} (inv : Inv s) (quiet : Quiet opts s (.stdout bytes))
    (open' : s.closed = none) : Inv { s.onStdout opts bytes with sent := s.sent ++ bytes } := by
  have terminal := inv.terminal_of_open open'
  obtain ⟨fed, out, records, start, whole⟩ := inv.fed
  by_cases pending : s.shutdownPending
  · have ignored : s.onStdout opts bytes = s := if_pos (.inr pending)
    rw [ignored]
    refine ⟨inv.chain, ⟨fed, out, records, start.trans (List.prefix_append _ _), fun none' => ?_⟩,
      inv.terminal, inv.session, inv.code, inv.owner, inv.result⟩
    have some' := inv.callbackError_of_pending pending
    rw [show s.callbackError = none from none'] at some'
    cases some'
  · have running := inv.running_of_not_pending open' pending
    have noError := inv.callbackError_of_running running
    obtain ⟨timely, late, todo, chain, settled, unsettled, early, count, decided⟩ := inv.chain
    obtain ⟨stdout, stdoutBytes, same⟩ : ∃ stdout stdoutBytes, s.onStdout opts bytes =
        { s with
          stdout := stdout
          stdoutBytes := stdoutBytes
          currentRecordBytes := (countRecord opts.recordCap s.currentRecordBytes bytes).1
          out := (s.out.write bytes).1
          chain := s.chain ++ (s.out.write bytes).2.map fun line => ⟨stripCr line, .waiting⟩ } := by
      obtain ⟨within, small⟩ := quiet.resolve_left pending
      by_cases retain : opts.retainStdout = true
      · have cap : ¬ s.stdoutBytes + bytes.length > opts.captureCap := Nat.not_lt.mpr (within retain)
        simp only [Run.onStdout, terminal, pending, retain, cap, small, Bool.false_eq_true, or_self,
          ↓reduceIte, and_false]
        exact ⟨_, _, rfl⟩
      · simp only [Run.onStdout, terminal, pending, retain, small, Bool.false_eq_true, or_self,
          ↓reduceIte, false_and]
        exact ⟨_, _, rfl⟩
    have waiting : ∀ c ∈ (s.out.write bytes).2.map fun line => (⟨stripCr line, .waiting⟩ : Call),
        c.status = .waiting := fun c mem => by
      obtain ⟨line, -, rfl⟩ := List.mem_map.mp mem
      rfl
    have both := Framer.write_append .start fed bytes
    rw [same]
    refine ⟨⟨timely, late, _, ?_, settled, unsettled.append waiting, early, count, decided⟩,
      ⟨fed ++ bytes, ?_, ?_, ?_, fun _ => ?_⟩, inv.terminal, inv.session, inv.code, inv.owner, ?_⟩
    · rw [chain, List.append_assoc]
    · rw [both, out]
    · rw [both, List.map_append, List.map_append, records, out, List.map_map]
      rfl
    · rw [whole noError]
    · rw [whole noError]
    · intro r result
      cases (inv.result_of_open open').symm.trans result

theorem Inv.onStderr {bytes : List UInt8} (inv : Inv s) (quiet : Quiet opts s (.stderr bytes)) :
    Inv (s.onStderr opts bytes) := by
  obtain ⟨stderr, stderrBytes, err, lines, same⟩ : ∃ stderr stderrBytes err lines,
      s.onStderr opts bytes =
        { s with stderr := stderr, stderrBytes := stderrBytes, err := err, stderrLines := lines } := by
    rw [Run.onStderr]
    split
    · exact ⟨_, _, _, _, rfl⟩
    · rename_i read
      have cap : ¬ s.stderrBytes + bytes.length > opts.captureCap :=
        Nat.not_lt.mpr (quiet.resolve_left fun pending => read (.inr pending))
      simp only [cap, ↓reduceIte]
      exact ⟨_, _, _, _, rfl⟩
  rw [same]
  exact ⟨inv.chain, inv.fed, inv.terminal, inv.session, inv.code, inv.owner, inv.result⟩

theorem Inv.grace (inv : Inv s) (pending : s.owner = .termSent) :
    Inv { s with owner := .treeKilled } := by
  obtain ⟨timely, late, todo, chain, settled, unsettled, early, count, decided⟩ := inv.chain
  exact ⟨⟨timely, late, todo, chain, settled, unsettled, early, count, decided.killed pending⟩,
    inv.fed, inv.terminal, inv.session, inv.code, (fun _ same => by cases same), inv.result⟩

theorem unsettled_of_waiting {rest : List Call} (waiting : ∀ d ∈ rest, d.status = .waiting) :
    Unsettled rest := Unsettled.nil.append waiting

theorem Unsettled.tail {c : Call} {rest : List Call} (unsettled : Unsettled (c :: rest)) :
    ∀ d ∈ rest, d.status = .waiting := by
  cases unsettled with
  | cons _ waiting => exact waiting

/-- A call that changes its status keeps its record. -/
theorem map_record_set {chain : List Call} {i : Nat} {c d : Call} (here : chain[i]? = some c)
    (same : d.record = c.record) : (chain.set i d).map Call.record = chain.map Call.record := by
  obtain ⟨inside, rfl⟩ := List.getElem?_eq_some_iff.mp here
  have bound : i < (chain.map Call.record).length := by rwa [List.length_map]
  have old : chain[i].record = (chain.map Call.record)[i] := (List.getElem_map _).symm
  rw [List.map_set, same, old, List.set_getElem_self]

theorem not_all_settled {chain : List Call} {i : Nat} {c : Call} (here : chain[i]? = some c)
    (open' : c.isSettled = false) : ¬ chain.all Call.isSettled := fun all => by
  have settled := List.all_eq_true.mp all c (List.mem_of_getElem? here)
  rw [open'] at settled
  cases settled

theorem Inv.start {i : Nat} {record : List Char} (inv : Inv s)
    (here : s.chain[i]? = some ⟨record, .waiting⟩)
    (before : (s.chain.take i).all Call.isSettled) :
    Inv (s.setCall i ⟨record, .opened⟩) := by
  obtain ⟨timely, late, todo, chain, settled, unsettled, early, count, decided⟩ := inv.chain
  obtain ⟨fed, out, records, start, whole⟩ := inv.fed
  obtain ⟨rfl, rest, rfl⟩ := unsettled.first settled (chain ▸ here) rfl (.inr (chain ▸ before))
  refine ⟨⟨timely, late, ⟨record, .opened⟩ :: rest, ?_, settled, .cons rfl unsettled.tail, early,
    count, decided⟩, ⟨fed, out, ?_, start, whole⟩, inv.terminal, inv.session, inv.code, inv.owner,
    fun r result => ?_⟩
  · exact (congrArg (List.set · _ _) chain).trans (set_done _ _ _ _)
  · exact (map_record_set (d := ⟨record, .opened⟩) here rfl).trans records
  · exact absurd (inv.result r result).2.1 (not_all_settled here rfl)

theorem Inv.onClose (inv : Inv s) (open' : s.closed = none) :
    Inv (s.onClose opts (some 0)) := by
  have terminal := inv.terminal_of_open open'
  obtain ⟨timely, late, todo, chain, settled, unsettled, early, count, decided⟩ := inv.chain
  cases early open'
  obtain ⟨stdout, stderr, same⟩ : ∃ stdout stderr, s.onClose opts (some 0) =
      { s with
        closed := some (some 0)
        settledAtClose := s.chain.countP Call.isSettled
        terminal := true
        stdout := stdout
        stderr := stderr
        session := .closed } := by
    simp only [Run.onClose, terminal, Bool.false_eq_true, ↓reduceIte]
    exact ⟨_, _, rfl⟩
  have settledCount : s.chain.countP Call.isSettled = timely.length := by
    have all : timely.countP Call.isSettled = timely.length :=
      List.countP_eq_length.mpr fun c mem => settled c (List.mem_append_left _ mem)
    have none' : todo.countP Call.isSettled = 0 := List.countP_eq_zero.mpr fun c mem => by
      rw [unsettled.isSettled mem]
      decide
    rw [chain, List.countP_append, List.append_nil, all, none', Nat.add_zero]
  rw [same]
  refine ⟨⟨timely, [], todo, chain, settled, unsettled, fun _ => rfl, fun _ => settledCount,
    decided.ended _⟩, inv.fed, rfl, fun _ => rfl, fun code closed => ?_, inv.owner, fun r result => ?_⟩
  · cases closed
    rfl
  · cases (inv.result_of_open open').symm.trans result

theorem complete_of_running (running : s.session = .running) :
    s.complete = { s with session := .inputClosed, completed := true } := by
  rw [Run.complete, if_pos running, Run.closeInput, if_pos running]

theorem beginShutdown_of_ended {error : CliError} (ended : s.session ≠ .running)
    (open' : s.terminal = false) (owner : s.owner = .running) :
    s.beginShutdown error = { s with
      callbackError := s.callbackError.or (some error)
      owner := .termSent
      shutdownError := some error } := by
  rw [Run.beginShutdown, if_neg (by rw [open']; decide), Run.requestShutdown, if_pos owner]
  exact if_neg ended

theorem fail_of_running {error : CliError} (running : s.session = .running)
    (open' : s.terminal = false) (owner : s.owner = .running) :
    s.fail error = { s with
      session := .failed
      callbackError := (s.callbackError.or (some error)).or (some error)
      owner := .termSent
      shutdownError := some error } := by
  rw [Run.fail, if_pos running]
  exact beginShutdown_of_ended (fun same => by cases same) open' owner

/-- A session that has ended takes no decision. -/
theorem decide_of_ended (ended : s.session ≠ .running) (outcome : Outcome) :
    s.decide outcome = s := by
  cases outcome with
  | continues => rfl
  | completes => exact if_neg ended
  | fails error => exact if_neg ended
  | throws error => exact if_neg ended

theorem firstDecision_concat (done : List Call) (c : Call) :
    firstDecision (done ++ [c]) = (firstDecision done).or c.decision := by
  rw [firstDecision, List.findSome?_append]
  cases decision : c.decision <;> simp [firstDecision, decision]

/-- A call settles while the stream is open. -/
theorem Decided.settle {d : Option Outcome} (outcome : Outcome) (record : List Char)
    (open' : s.closed = none) (terminal : s.terminal = false) (notClosed : s.owner ≠ .closed)
    (decided : Decided s.completed s.callbackError s.shutdownError s.owner s.session s.closed d) :
    ∃ session completed callbackError owner shutdownError,
      s.decide outcome = { s with
        session := session
        completed := completed
        callbackError := callbackError
        owner := owner
        shutdownError := shutdownError } ∧
      owner ≠ .closed ∧ (callbackError = none → s.callbackError = none) ∧
      Decided completed callbackError shutdownError owner session s.closed
        (d.or (Call.decision ⟨record, .settled outcome⟩)) := by
  cases decided with
  | completed notYet none' none'' owner ended =>
      rw [decide_of_ended ended]
      exact ⟨_, _, _, _, _, rfl, notClosed, id, .completed notYet none' none'' owner ended⟩
  | failed failing some' some'' other ended =>
      rw [decide_of_ended ended]
      exact ⟨_, _, _, _, _, rfl, notClosed, id, .failed failing some' some'' other ended⟩
  | undecided notYet none' none'' owner going =>
      have running := going open'
      have owner := owner.resolve_right notClosed
      have failure : ∀ o : Outcome, o.failing → ∀ error, ∃ session completed callbackError owner
          shutdownError, s.fail error = { s with
            session := session
            completed := completed
            callbackError := callbackError
            owner := owner
            shutdownError := shutdownError } ∧
          owner ≠ .closed ∧ (callbackError = none → s.callbackError = none) ∧
          Decided completed callbackError shutdownError owner session s.closed (some o) := by
        intro o failing error
        rw [fail_of_running running terminal owner, none']
        exact ⟨_, _, _, _, _, rfl, (fun same => by cases same), (fun same => by cases same),
          .failed failing rfl rfl (fun same => by cases same) fun same => by cases same⟩
      rw [Option.none_or]
      cases outcome with
      | continues =>
          exact ⟨_, _, _, _, _, rfl, notClosed, id, .undecided notYet none' none'' (.inl owner) going⟩
      | completes =>
          rw [Run.decide, complete_of_running running]
          exact ⟨_, _, _, _, _, rfl, notClosed, id,
            .completed rfl none' none'' (.inl owner) fun same => by cases same⟩
      | fails error => exact failure (.fails error) trivial error
      | throws error => exact failure (.throws error) trivial error

theorem Inv.settle {i : Nat} {record : List Char} {outcome : Outcome} (inv : Inv s)
    (here : s.chain[i]? = some ⟨record, .opened⟩) :
    Inv ((s.setCall i ⟨record, .settled outcome⟩).decide outcome) := by
  obtain ⟨timely, late, todo, chain, settled, unsettled, early, count, decided⟩ := inv.chain
  obtain ⟨fed, out, records, start, whole⟩ := inv.fed
  obtain ⟨rfl, rest, rfl⟩ := unsettled.first settled (chain ▸ here) rfl (.inl rfl)
  have chain' : s.chain.set (timely ++ late).length ⟨record, .settled outcome⟩ =
      timely ++ late ++ ⟨record, .settled outcome⟩ :: rest := by
    rw [chain]
    exact set_done _ _ _ _
  have records' := (map_record_set (d := ⟨record, .settled outcome⟩) here rfl).trans records
  have unfinished : s.result = none := by
    cases result : s.result with
    | none => rfl
    | some r => exact absurd (inv.result r result).2.1 (not_all_settled here rfl)
  have all : ∀ c ∈ timely ++ late ++ [⟨record, .settled outcome⟩], c.isSettled = true := fun c mem => by
    rcases List.mem_append.mp mem with old | new
    · exact settled c old
    · rw [List.mem_singleton.mp new]
      rfl
  rcases Option.eq_none_or_eq_some s.closed with closed | ⟨code, closed⟩
  · cases early closed
    have still : ¬ s.closed.isSome = true := by rw [closed]; decide
    obtain ⟨_, _, _, _, _, same, notClosed, fine, decided'⟩ :=
      Decided.settle (s := s.setCall (timely ++ []).length ⟨record, .settled outcome⟩) outcome record
        closed (inv.terminal_of_open closed) (inv.owner unfinished) decided
    rw [same]
    refine ⟨⟨timely ++ [⟨record, .settled outcome⟩], [], rest, ?_, ?_, unsettled_of_waiting
      unsettled.tail, fun _ => rfl, fun some' => ?_, ?_⟩, ⟨fed, out, records', start, fun none' =>
      whole (fine none')⟩, inv.terminal, fun some' => ?_, inv.code, fun _ => notClosed,
      fun r result => ?_⟩
    · exact chain'.trans (by simp only [List.append_nil, List.append_assoc, List.singleton_append])
    · rw [List.append_nil] at all ⊢
      exact all
    · exact absurd some' still
    · rw [firstDecision_concat]
      exact decided'
    · exact absurd some' still
    · cases unfinished.symm.trans result
  · have ended : s.session ≠ .running := by
      rw [inv.session (by rw [closed]; rfl)]
      decide
    rw [decide_of_ended (s := s.setCall (timely ++ late).length ⟨record, .settled outcome⟩) ended]
    refine ⟨⟨timely, late ++ [⟨record, .settled outcome⟩], rest, ?_, ?_, unsettled_of_waiting
      unsettled.tail, fun open' => ?_, count, decided⟩, ⟨fed, out, records', start, whole⟩,
      inv.terminal, inv.session, inv.code, inv.owner, fun r result => ?_⟩
    · rw [← List.append_assoc, List.append_assoc _ [_]]
      exact chain'
    · rwa [← List.append_assoc]
    · cases closed.symm.trans open'
    · cases unfinished.symm.trans result

/-- The promise rejects where a failure has been decided. -/
theorem Inv.settlePromise (inv : Inv s) (treeExited : Bool) :
    ((∃ error, s.settlePromise (some 0) treeExited = .error error) ↔ s.callbackError.isSome) ∧
      ∀ value, s.settlePromise (some 0) treeExited = .ok value → value.completed = s.completed := by
  obtain ⟨timely, late, todo, -, -, -, -, -, decided⟩ := inv.chain
  have fine : s.shutdownError = none → s.callbackError = none →
      s.owner = .running ∨ s.owner = .closed →
      s.settlePromise (some 0) treeExited = .ok ⟨s.stdout, s.stderr, some 0, s.completed⟩ := by
    intro none' none'' owner
    have idle : ¬ s.shutdownPending := by
      rintro (pending | pending) <;> rcases owner with other | other <;>
        cases pending.symm.trans other
    rw [Run.settlePromise, Run.handleClose, if_neg fun both => idle both.1, none', none'']
    rfl
  generalize firstDecision timely = d at decided
  cases decided with
  | undecided _ none' none'' owner _ =>
      rw [fine none'' none' owner, none']
      exact ⟨by simp, fun value same => by cases same; rfl⟩
  | completed _ none' none'' owner _ =>
      rw [fine none'' none' owner, none']
      exact ⟨by simp, fun value same => by cases same; rfl⟩
  | failed _ some' some'' _ _ =>
      obtain ⟨error, stopped⟩ := Option.isSome_iff_exists.mp some''
      obtain ⟨error', handled⟩ : ∃ error', s.handleClose treeExited = some error' := by
        rw [Run.handleClose, stopped]
        split <;> exact ⟨_, rfl⟩
      have rejected : s.settlePromise (some 0) treeExited = .error error' := by
        rw [Run.settlePromise, handled]
        rfl
      rw [rejected]
      exact ⟨by simp [some'], fun value same => by cases same⟩

theorem Inv.finish {treeExited : Bool} (inv : Inv s) (closed : s.closed = some (some 0))
    (all : s.chain.all Call.isSettled) :
    Inv { s with owner := .closed, result := some (s.settlePromise (some 0) treeExited) } := by
  obtain ⟨timely, late, todo, chain, settled, unsettled, early, count, decided⟩ := inv.chain
  refine ⟨⟨timely, late, todo, chain, settled, unsettled, early, count, decided.handled⟩, inv.fed,
    inv.terminal, inv.session, inv.code, (fun none' => by cases none'), fun r result => ?_⟩
  cases result
  exact ⟨by rw [closed]; rfl, all, inv.settlePromise treeExited⟩

theorem Inv.step {e : Event} (inv : Inv s) (quiet : Quiet opts s e) (fire : step opts s e = some t) :
    Inv t := by
  cases e with
  | stdout bytes =>
      rw [StreamingCli.step] at fire
      split at fire
      · rename_i open'
        cases fire
        exact inv.onStdout quiet open'
      · cases fire
  | stderr bytes =>
      rw [StreamingCli.step] at fire
      split at fire
      · cases fire
        exact inv.onStderr quiet
      · cases fire
  | timeout => cases quiet
  | spawnError message => cases quiet
  | grace =>
      rw [StreamingCli.step] at fire
      split at fire
      · rename_i pending
        cases fire
        exact inv.grace pending
      · cases fire
  | start i =>
      rw [StreamingCli.step] at fire
      split at fire
      · split at fire
        · rename_i here before
          cases fire
          exact inv.start here before
        · cases fire
      · cases fire
  | settle i outcome =>
      rw [StreamingCli.step] at fire
      split at fire
      · rename_i here
        cases fire
        exact inv.settle here
      · cases fire
  | close code =>
      cases quiet
      rw [StreamingCli.step] at fire
      split at fire
      · rename_i open'
        cases fire
        exact inv.onClose open'
      · cases fire
  | finish treeExited =>
      rw [StreamingCli.step] at fire
      split at fire
      · cases fire
      · rename_i code closed
        split at fire
        · rename_i ready
          cases fire
          cases inv.code code closed
          exact inv.finish closed ready.2
        · cases fire

/-! ## The outcome -/

theorem records_eq {bytes : List UInt8} :
    records bytes = (Framer.start.write bytes).2.map stripCr := by
  obtain ⟨lines, last, rfl, free, lastFree⟩ := @exists_unlines_append _ _ (10 : UInt8) bytes
  rw [records, completeLines_unlines_append free, completeLines_of_not_mem lastFree,
    List.append_nil, Framer.write_unlines_append free lastFree, List.map_map]
  rfl

theorem started_of_settled {c : Call} (settled : c.isSettled = true) : c.started = true := by
  cases status : c.status with
  | waiting =>
      rw [Call.isSettled, status] at settled
      cases settled
  | opened | settled =>
      rw [Call.started, status]
      rfl

theorem Unsettled.filter_started {todo : List Call} (unsettled : Unsettled todo) :
    todo.filter Call.started <+: todo ∧ todo.countP (fun c => c.status = .opened) ≤ 1 := by
  cases unsettled with
  | nil => exact ⟨List.prefix_rfl, Nat.zero_le _⟩
  | cons head waiting =>
      rename_i c rest
      have noneStarted : rest.filter Call.started = [] := List.filter_eq_nil_iff.mpr fun d mem => by
        rw [Call.started, waiting d mem]
        decide
      have noneOpen : rest.countP (fun c => c.status = .opened) = 0 :=
        List.countP_eq_zero.mpr fun d mem => by
          rw [waiting d mem]
          decide
      constructor
      · rw [List.filter_cons, noneStarted]
        split
        · exact List.cons_prefix_cons.mpr ⟨rfl, List.nil_prefix⟩
        · exact List.nil_prefix
      · rw [List.countP_cons, noneOpen]
        split <;> decide

/-- The calls that have been made are the first of the chain, and at most one is open. -/
theorem Inv.started (inv : Inv s) : s.chain.filter Call.started <+: s.chain ∧
    s.chain.countP (fun c => c.status = .opened) ≤ 1 := by
  obtain ⟨timely, late, todo, chain, settled, unsettled, -⟩ := inv.chain
  obtain ⟨start, one⟩ := unsettled.filter_started
  have done : (timely ++ late).filter Call.started = timely ++ late :=
    List.filter_eq_self.mpr fun c mem => started_of_settled (settled c mem)
  have noneOpen : (timely ++ late).countP (fun c => c.status = .opened) = 0 :=
    List.countP_eq_zero.mpr fun c mem => by
      have known := settled c mem
      rw [Call.isSettled] at known
      cases status : c.status with
      | settled o => exact of_decide_eq_false rfl
      | waiting | opened =>
          rw [status] at known
          cases known
  rw [chain, List.filter_append, List.countP_append, done, noneOpen, Nat.zero_add]
  exact ⟨(List.prefix_append_right_inj _).mpr start, one⟩

theorem Framer.write_prefix {bytes more : List UInt8} (start : bytes <+: more) :
    (Framer.start.write bytes).2 <+: (Framer.start.write more).2 := by
  obtain ⟨rest, rfl⟩ := start
  rw [Framer.write_append]
  exact List.prefix_append _ _

theorem Inv.calls_prefix (inv : Inv s) : s.calls <+: records s.sent := by
  obtain ⟨fed, -, known, start, -⟩ := inv.fed
  have dispatched := inv.started.1.map Call.record
  rw [known] at dispatched
  rw [records_eq]
  exact dispatched.trans ((Framer.write_prefix start).map stripCr)

/-- Once every call has settled and nothing has failed, every record has been called with. -/
theorem Inv.calls_all (inv : Inv s) (all : s.chain.all Call.isSettled)
    (none' : s.callbackError = none) : s.calls = records s.sent := by
  obtain ⟨fed, -, known, -, whole⟩ := inv.fed
  have every : s.chain.filter Call.started = s.chain := List.filter_eq_self.mpr fun c mem =>
    started_of_settled (List.all_eq_true.mp all c mem)
  rw [Run.calls, every, known, whole none', records_eq]

theorem decision_of_mem {chain : List Call} {o : Outcome} (first : firstDecision chain = some o) :
    ∃ c ∈ chain, c.status = .settled o ∧ o ≠ .continues := by
  obtain ⟨c, mem, decision⟩ := List.exists_of_findSome?_eq_some first
  refine ⟨c, mem, ?_⟩
  cases status : c.status with
  | waiting | opened =>
      rw [Call.decision, status] at decision
      cases decision
  | settled outcome =>
      rw [Call.decision, status] at decision
      cases outcome with
      | continues => cases decision
      | completes | fails | throws =>
          cases decision
          exact ⟨rfl, fun same => by cases same⟩

theorem decision_of_completes {chain : List Call} {c : Call} (mem : c ∈ chain)
    (completes : c.status = .settled .completes) : firstDecision chain ≠ none := by
  intro none'
  have other := List.findSome?_eq_none_iff.mp none' c mem
  rw [Call.decision, completes] at other
  cases other

/-- What the promise comes to, from the decisions before the close. -/
theorem Inv.outcome (inv : Inv s) {r : Except CliError StreamingCliResult}
    (result : s.result = some r) : ∃ timely late, s.chain = timely ++ late ∧
      (Timely s ↔ firstDecision timely = firstDecision s.chain) ∧
      Decided s.completed s.callbackError s.shutdownError s.owner s.session s.closed
        (firstDecision timely) := by
  obtain ⟨timely, late, todo, chain, settled, unsettled, early, count, decided⟩ := inv.chain
  obtain ⟨closed, all, -⟩ := inv.result r result
  refine ⟨timely, late ++ todo, by rw [chain, List.append_assoc], ?_, decided⟩
  rw [Timely, count closed, chain, List.append_assoc, List.take_left]

/-- A decision after the close is not taken. -/
theorem Inv.timely_of_meets (inv : Inv s) (meets : Meets opts s) (some' : s.result.isSome) : Timely s := by
  obtain ⟨r, result⟩ := Option.isSome_iff_exists.mp some'
  obtain ⟨timely, late, chain, iff, decided⟩ := inv.outcome result
  obtain ⟨-, -, error, value⟩ := inv.result r result
  rw [iff]
  cases first : firstDecision timely with
  | some o =>
      have before : timely.findSome? Call.decision = some o := first
      rw [chain, firstDecision, List.findSome?_append, before, Option.some_or]
  | none =>
      rw [first] at decided
      cases decided with
      | undecided notYet none' _ _ _ =>
          cases whole : firstDecision s.chain with
          | none => rfl
          | some o =>
              exfalso
              obtain ⟨c, mem, status, other⟩ := decision_of_mem whole
              have resolved : ¬ ∃ e, r = .error e := fun rejected => by
                have some'' := error.mp rejected
                rw [none'] at some''
                cases some''
              cases o with
              | continues => exact other rfl
              | fails e => exact resolved ((meets.rejects r result).mpr ⟨_, whole, trivial⟩)
              | throws e => exact resolved ((meets.rejects r result).mpr ⟨_, whole, trivial⟩)
              | completes =>
                  cases r with
                  | error e => exact resolved ⟨e, rfl⟩
                  | ok v =>
                      have done := (meets.completes v result).mpr ⟨c, mem, status⟩
                      rw [value v rfl, notYet] at done
                      cases done

theorem Inv.meets_of_timely (inv : Inv s) (timely : s.result.isSome → Timely s) :
    Meets opts s := by
  refine ⟨inv.started.2, inv.calls_prefix, fun some' fine => ?_, fun r result => ?_,
    fun v result => ?_, fun closed all none' treeExited => ?_⟩
  · obtain ⟨r, result⟩ := Option.isSome_iff_exists.mp some'
    obtain ⟨before, late, chain, -, decided⟩ := inv.outcome result
    refine inv.calls_all (inv.result r result).2.1 ?_
    generalize first : firstDecision before = d at decided
    cases decided with
    | undecided _ none' _ _ _ => exact none'
    | completed _ none' _ _ _ => exact none'
    | failed failing _ _ _ _ =>
        obtain ⟨c, mem, status, -⟩ := decision_of_mem first
        exact absurd failing (fine c (chain ▸ List.mem_append_left _ mem) _ status)
  · obtain ⟨before, late, chain, iff, decided⟩ := inv.outcome result
    have same := iff.mp (timely (by rw [result]; rfl))
    rw [(inv.result r result).2.2.1, ← same]
    generalize firstDecision before = d at decided
    cases decided with
    | undecided _ none' _ _ _ => simp [none']
    | completed _ none' _ _ _ => simp [none', Outcome.failing]
    | failed failing some' _ _ _ => simp [some', failing]
  · obtain ⟨before, late, chain, iff, decided⟩ := inv.outcome result
    have same := iff.mp (timely (by rw [result]; rfl))
    obtain ⟨-, -, error, value⟩ := inv.result (.ok v) result
    rw [value v rfl]
    generalize first : firstDecision before = d at decided same
    cases decided with
    | undecided notYet _ _ _ _ =>
        rw [notYet]
        refine ⟨(fun done => by cases done), ?_⟩
        rintro ⟨c, mem, status⟩
        exact absurd same.symm (decision_of_completes mem status)
    | completed done _ _ _ _ =>
        obtain ⟨c, mem, status, -⟩ := decision_of_mem same.symm
        exact ⟨fun _ => ⟨c, mem, status⟩, fun _ => done⟩
    | failed _ some' _ _ _ =>
        obtain ⟨e, rejected⟩ := error.mpr some'
        cases rejected
  · obtain ⟨code, closed⟩ := Option.isSome_iff_exists.mp closed
    have ready : s.result.isNone ∧ s.chain.all Call.isSettled := ⟨by rw [none']; rfl, all⟩
    refine ⟨{ s with owner := .closed, result := some (s.settlePromise code treeExited) }, ?_, rfl⟩
    rw [StreamingCli.step, closed]
    exact if_pos ready

theorem inv_of_run (run : Steps (step opts) (Quiet opts) {} s) : Inv s :=
  run.invariant inv_init fun _ _ _ inv quiet fire => inv.step quiet fire

/-- In every run with exit code 0, no timeout and no cap exceeded, the calls are made as
promised, and the outcome is that of the first decision exactly when it is timely. -/
theorem outcome_iff {opts : Options} {s : Run} (run : Steps (step opts) (Quiet opts) {} s) :
    Meets opts s ↔ (s.result.isSome → Timely s) :=
  ⟨(inv_of_run run).timely_of_meets, (inv_of_run run).meets_of_timely⟩

/-! ## Two runs of one record -/

def smallCaps : Options := ⟨100, 100, true⟩

def isQuiet (opts : Options) (s : Run) : Event → Bool
  | .stdout bytes => decide s.shutdownPending ||
      (!opts.retainStdout || decide (s.stdoutBytes + bytes.length ≤ opts.captureCap)) &&
        !(countRecord opts.recordCap s.currentRecordBytes bytes).2
  | .stderr bytes =>
      decide s.shutdownPending || decide (s.stderrBytes + bytes.length ≤ opts.captureCap)
  | .timeout | .spawnError _ => false
  | .close code => code = some 0
  | _ => true

theorem quiet_of_isQuiet (s : Run) (e : Event) (check : isQuiet opts s e = true) : Quiet opts s e := by
  cases e with
  | stdout bytes => simpa [isQuiet, Quiet, imp_iff_not_or] using check
  | stderr bytes => simpa [isQuiet, Quiet] using check
  | timeout | spawnError => cases check
  | close code =>
      have zero : code = some 0 := of_decide_eq_true check
      exact zero
  | grace | start | settle | finish => trivial

/-- The record is an "x". -/
def oneRecord : List UInt8 := [120, 10]

def inTime : List Event :=
  [.stdout oneRecord, .start 0, .settle 0 .completes, .close (some 0), .finish true]

def afterClose : List Event :=
  [.stdout oneRecord, .start 0, .close (some 0), .settle 0 .completes, .finish true]

/-- The settled promise, the decisions before the close and all of them. -/
def Run.summary (s : Run) : Bool × Option Outcome × Option Outcome :=
  (s.result.isSome, firstDecision (s.chain.take s.settledAtClose), firstDecision s.chain)

theorem inTime_run : (runWhile (step smallCaps) (isQuiet smallCaps) {} inTime).map Run.summary =
    some (true, some .completes, some .completes) := by
  decide +kernel

theorem afterClose_run : (runWhile (step smallCaps) (isQuiet smallCaps) {} afterClose).map
    Run.summary = some (true, none, some .completes) := by
  decide +kernel

theorem outcome_iff_inTime : ∃ s, s.result.isSome ∧ Meets smallCaps s := by
  obtain ⟨s, replay, summary⟩ := Option.map_eq_some_iff.mp inTime_run
  obtain ⟨settled, decisions⟩ := Prod.mk.inj summary
  obtain ⟨before, all⟩ := Prod.mk.inj decisions
  exact ⟨s, settled, (outcome_iff (Steps.of_runWhile quiet_of_isQuiet replay)).mpr
    fun _ => before.trans all.symm⟩

/-- A callback that completes the stream after the close is not counted. -/
theorem late_decision_lost : ∃ s, Steps (step smallCaps) (Quiet smallCaps) {} s ∧
    ¬ Meets smallCaps s := by
  obtain ⟨s, replay, summary⟩ := Option.map_eq_some_iff.mp afterClose_run
  obtain ⟨settled, decisions⟩ := Prod.mk.inj summary
  obtain ⟨before, all⟩ := Prod.mk.inj decisions
  have run := Steps.of_runWhile quiet_of_isQuiet replay
  refine ⟨s, run, fun meets => ?_⟩
  have timely := (inv_of_run run).timely_of_meets meets settled
  rw [Timely, before, all] at timely
  cases timely

end Opensquid.StreamingCli
