import Opensquid.AgentBridge.SessionPersistence

/-!
# The session manager

Warm sessions are objects that a cache holds under the session's slug; the cache may drop any of
them at any time. A call runs up to its first file access and goes on when that has completed, with
other sessions' calls between; the calls of one session run one after another.

`agrees_of_steps` says when the history of a warm session is the one in its file, and when both are
what the turns of the session have appended: the files of the sessions have to be different.
-/

namespace Opensquid.AgentBridge

open Opensquid.Lib

/-! ## State -/

structure SessionState where
  key : SessionKey
  history : List ChatHistoryEntry
  lastActivityMs : Int
  projectUuid : String
  packId : String
  modelAlias : String
  turnInFlight : Bool

structure SessionManagerOptions where
  defaultPackId : String
  defaultModelAlias : String

/-- A call that awaits a file access, or that goes on after it. -/
inductive SessionCall
  | loading (key : SessionKey) (projectUuid : String)
  | loaded (key : SessionKey) (projectUuid : String) (raw : Option (List Char))
  | appending (key : SessionKey) (state : Nat) (entries : List ChatHistoryEntry)
  | appended (key : SessionKey) (state : Nat) (entries : List ChatHistoryEntry)

/-- The manager, the files and, for every session, the entries of its successful calls of
`appendTurn` on a warm session. -/
structure Manager where
  states : List SessionState := []
  /-- By slug, the place of the state. -/
  cache : String → Option Nat := fun _ => none
  files : String → Option (List Char) := fun _ => none
  calls : String → Option SessionCall := fun _ => none
  turns : SessionKey → List ChatHistoryEntry := fun _ => []

/-! ## Steps -/

inductive SessionAction
  | getOrCreate (projectUuid : String) (now : Int)
  | readFile
  | readFails
  | create (now : Int)
  | appendTurn (entries : List ChatHistoryEntry)
  | appendFile
  /-- `none`: the file is not touched. -/
  | appendFails (written : Option (List Char))
  | finish (now : Int)
  | evict
  | beginTurn

structure SessionEvent where
  key : SessionKey
  action : SessionAction

/-- `state.history.push(...entries)` and what follows. -/
def SessionState.push (st : SessionState) (entries : List ChatHistoryEntry) (now : Int) :
    SessionState :=
  { st with history := st.history ++ entries, lastActivityMs := now, turnInFlight := false }

namespace Manager

section

variable (isDatetime : String → Bool) (opts : SessionManagerOptions)

def write (m : Manager) (key : SessionKey) (text : List Char) : Manager :=
  { m with files := Function.update m.files key.path (some ((m.files key.path).getD [] ++ text)) }

def setCall (m : Manager) (key : SessionKey) (call : Option SessionCall) : Manager :=
  { m with calls := Function.update m.calls (sessionKeyString key) call }

def getOrCreate (m : Manager) (key : SessionKey) (projectUuid : String) (now : Int) : Manager :=
  match m.cache (sessionKeyString key) with
  | some state => { m with states := m.states.modify state fun st => { st with lastActivityMs := now } }
  | none => m.setCall key (some (.loading key projectUuid))

/-- The end of `getOrCreate` after the history is loaded. -/
def create (m : Manager) (key : SessionKey) (projectUuid : String) (raw : Option (List Char))
    (now : Int) : Manager :=
  let state : SessionState :=
    { key, history := historyOf isDatetime raw, lastActivityMs := now, projectUuid,
      packId := opts.defaultPackId, modelAlias := opts.defaultModelAlias, turnInFlight := false }
  { m with
    states := m.states ++ [state]
    cache := Function.update m.cache (sessionKeyString key) (some m.states.length) }

/-- Without a warm state nothing happens; without entries nothing is written. -/
def appendTurn (m : Manager) (key : SessionKey) (entries : List ChatHistoryEntry) : Manager :=
  match m.cache (sessionKeyString key) with
  | none => m
  | some state =>
      m.setCall key (some (if entries.isEmpty then .appended key state entries
        else .appending key state entries))

def finish (m : Manager) (key : SessionKey) (state : Nat) (entries : List ChatHistoryEntry)
    (now : Int) : Manager :=
  { m with
    states := m.states.modify state (·.push entries now)
    turns := Function.update m.turns key (m.turns key ++ entries) }

def evict (m : Manager) (key : SessionKey) : Manager :=
  { m with cache := Function.update m.cache (sessionKeyString key) none }

def beginTurn (m : Manager) (key : SessionKey) : Manager :=
  match m.cache (sessionKeyString key) with
  | some state => { m with states := m.states.modify state fun st => { st with turnInFlight := true } }
  | none => m

/-- One step of the session of `e.key`; none: the step is not possible. -/
def step (m : Manager) (e : SessionEvent) : Option Manager :=
  match e.action, m.calls (sessionKeyString e.key) with
  | .getOrCreate projectUuid now, none => some (m.getOrCreate e.key projectUuid now)
  | .appendTurn entries, none => some (m.appendTurn e.key entries)
  | .readFile, some (.loading key projectUuid) =>
      some (m.setCall key (some (.loaded key projectUuid (m.files key.path))))
  | .readFails, some (.loading key projectUuid) =>
      some (m.setCall key (some (.loaded key projectUuid none)))
  | .create now, some (.loaded key projectUuid raw) =>
      some ((m.create isDatetime opts key projectUuid raw now).setCall key none)
  | .appendFile, some (.appending key state entries) =>
      some ((m.write key (payload entries)).setCall key (some (.appended key state entries)))
  | .appendFails written, some (.appending key _ entries) =>
      match written with
      | none => some (m.setCall key none)
      | some text =>
          if text <+: payload entries then some ((m.write key text).setCall key none) else none
  | .finish now, some (.appended key state entries) =>
      some ((m.finish key state entries now).setCall key none)
  | .evict, _ => some (m.evict e.key)
  | .beginTurn, _ => some (m.beginTurn e.key)
  | _, _ => none

end

/-! ## What has to hold -/

section

variable (isDatetime : String → Bool)

/-- The history of the session, when it is warm, is the one in its file and that of its turns, up to
`cacheMark`. -/
def Agrees (m : Manager) (key : SessionKey) : Prop :=
  ∀ state st, m.cache (sessionKeyString key) = some state → m.states[state]? = some st →
    st.history.map stripCacheMark =
        (historyOf isDatetime (m.files key.path)).map stripCacheMark ∧
      st.history.map stripCacheMark = (m.turns key).map stripCacheMark

/-- A step of one of the sessions in which no read fails, no append fails with a part of its rows
written, and no entry is appended that the schema does not accept. -/
def Meets (sessions : Set SessionKey) (_ : Manager) (e : SessionEvent) : Prop :=
  e.key ∈ sessions ∧
    match e.action with
    | .readFails => False
    | .appendTurn entries => ∀ entry ∈ entries, entry.Valid isDatetime
    | .appendFails written => written.getD [] = []
    | _ => True

end

/-! ## The invariant of a session -/

section

variable (isDatetime : String → Bool)

/-- The file holds the rows of the session's turns, and of `more`. -/
structure Stored (m : Manager) (key : SessionKey) (more : List ChatHistoryEntry) : Prop where
  text : (m.files key.path).getD [] = fileText (m.turns key ++ more)
  valid : ∀ entry ∈ m.turns key ++ more, entry.Valid isDatetime

/-- The state is one of the session, and no other one is warm for it. -/
structure Owns (m : Manager) (key : SessionKey) (state : Nat) : Prop where
  here : ∃ st, m.states[state]? = some st ∧ sessionKeyString st.key = sessionKeyString key
  only : ∀ other, m.cache (sessionKeyString key) = some other → other = state

def CallGood (m : Manager) (key : SessionKey) : Option SessionCall → Prop
  | none => Stored isDatetime m key []
  | some (.loading k _) => k = key ∧ m.cache (sessionKeyString key) = none ∧ Stored isDatetime m key []
  | some (.loaded k _ raw) => k = key ∧ m.cache (sessionKeyString key) = none ∧
      Stored isDatetime m key [] ∧ historyOf isDatetime raw = (m.turns key).map stripCacheMark
  | some (.appending k state entries) => k = key ∧ Owns m key state ∧ Stored isDatetime m key [] ∧
      entries ≠ [] ∧ ∀ entry ∈ entries, entry.Valid isDatetime
  | some (.appended k state entries) => k = key ∧ Owns m key state ∧ Stored isDatetime m key entries

structure Good (m : Manager) (key : SessionKey) : Prop where
  call : CallGood isDatetime m key (m.calls (sessionKeyString key))
  warm : ∀ state, m.cache (sessionKeyString key) = some state → ∃ st, m.states[state]? = some st ∧
    sessionKeyString st.key = sessionKeyString key ∧
      st.history.map stripCacheMark = (m.turns key).map stripCacheMark

/-- What a step leaves of a session that it is not one of, beside its call. -/
structure Keeps (m n : Manager) (key : SessionKey) : Prop where
  cache : n.cache (sessionKeyString key) = m.cache (sessionKeyString key)
  file : n.files key.path = m.files key.path
  turns : n.turns key = m.turns key
  states : ∀ (state : Nat) (st : SessionState), m.states[state]? = some st →
    sessionKeyString st.key = sessionKeyString key →
      ∃ st', n.states[state]? = some st' ∧ st'.key = st.key ∧ st'.history = st.history

end

section

variable {isDatetime : String → Bool} {opts : SessionManagerOptions} {m n : Manager}
  {key : SessionKey} {entries : List ChatHistoryEntry} {state : Nat}

theorem Stored.of_eq (stored : Stored isDatetime m key entries)
    (file : n.files key.path = m.files key.path) (turns : n.turns key = m.turns key) :
    Stored isDatetime n key entries := by
  refine ⟨?_, ?_⟩
  · rw [file, turns]
    exact stored.text
  · rw [turns]
    exact stored.valid

theorem Stored.history (stored : Stored isDatetime m key []) :
    historyOf isDatetime (m.files key.path) = (m.turns key).map stripCacheMark := by
  have text := stored.text
  have valid := stored.valid
  rw [List.append_nil] at text valid
  rw [← historyOf_fileText valid, ← text]
  cases m.files key.path <;> rfl

theorem Owns.kept (owns : Owns m key state) (keeps : Keeps m n key) : Owns n key state := by
  obtain ⟨st, here, own⟩ := owns.here
  obtain ⟨st', here', same, -⟩ := keeps.states state st here own
  refine ⟨⟨st', here', by rw [same]; exact own⟩, ?_⟩
  rw [keeps.cache]
  exact owns.only

theorem CallGood.kept {call : Option SessionCall} (good : CallGood isDatetime m key call)
    (keeps : Keeps m n key) : CallGood isDatetime n key call := by
  have kept : ∀ {more}, Stored isDatetime m key more → Stored isDatetime n key more :=
    fun stored => stored.of_eq keeps.file keeps.turns
  cases call with
  | none => exact kept good
  | some call =>
      cases call with
      | loading k _ =>
          obtain ⟨same, cold, stored⟩ := good
          exact ⟨same, keeps.cache.trans cold, kept stored⟩
      | loaded k _ raw =>
          obtain ⟨same, cold, stored, history⟩ := good
          refine ⟨same, keeps.cache.trans cold, kept stored, ?_⟩
          rw [keeps.turns]
          exact history
      | appending k state entries =>
          obtain ⟨same, owns, stored, rest⟩ := good
          exact ⟨same, owns.kept keeps, kept stored, rest⟩
      | appended k state entries =>
          obtain ⟨same, owns, stored⟩ := good
          exact ⟨same, owns.kept keeps, kept stored⟩

theorem Good.kept (good : Good isDatetime m key) (keeps : Keeps m n key)
    (calls : n.calls (sessionKeyString key) = m.calls (sessionKeyString key)) :
    Good isDatetime n key := by
  refine ⟨?_, fun state warm => ?_⟩
  · rw [calls]
    exact good.call.kept keeps
  · rw [keeps.cache] at warm
    obtain ⟨st, here, own, history⟩ := good.warm state warm
    obtain ⟨st', here', same, same'⟩ := keeps.states state st here own
    refine ⟨st', here', by rw [same]; exact own, ?_⟩
    rw [keeps.turns, same']
    exact history

/-- A session agrees when none of its calls is in progress. -/
theorem Good.agrees (good : Good isDatetime m key) (idle : m.calls (sessionKeyString key) = none) :
    Agrees isDatetime m key := by
  intro state st warm here
  have stored : Stored isDatetime m key [] := by
    have call := good.call
    rw [idle] at call
    exact call
  obtain ⟨st', here', -, history⟩ := good.warm state warm
  cases here.symm.trans here'
  refine ⟨?_, history⟩
  rw [stored.history, List.map_map, history]
  rfl

end

/-! ### Steps -/

section

variable {isDatetime : String → Bool} {opts : SessionManagerOptions} {m n : Manager}
  {key own : SessionKey} {entries : List ChatHistoryEntry} {state : Nat}

theorem Keeps.refl (m : Manager) (key : SessionKey) : Keeps m m key :=
  ⟨rfl, rfl, rfl, fun _ st here _ => ⟨st, here, rfl, rfl⟩⟩

theorem Keeps.setCall {call : Option SessionCall} (keeps : Keeps m n key) :
    Keeps m (n.setCall own call) key := ⟨keeps.cache, keeps.file, keeps.turns, keeps.states⟩

theorem keeps_write {text : List Char} (other : key.path ≠ own.path) :
    Keeps m (m.write own text) key :=
  { Keeps.refl m key with file := Function.update_of_ne other _ _ }

theorem keeps_evict (other : sessionKeyString key ≠ sessionKeyString own) :
    Keeps m (m.evict own) key :=
  { Keeps.refl m key with cache := Function.update_of_ne other _ _ }

/-- A field beside the key and the history is set. -/
theorem keeps_touch {f : SessionState → SessionState}
    (keeps : ∀ st, (f st).key = st.key ∧ (f st).history = st.history) :
    Keeps m { m with states := m.states.modify state f } key where
  cache := rfl
  file := rfl
  turns := rfl
  states place st here _ := by
    rw [List.getElem?_modify, here]
    split
    · exact ⟨f st, rfl, keeps st⟩
    · exact ⟨st, rfl, rfl, rfl⟩

theorem keeps_finish {now : Int} (owns : Owns m own state)
    (other : sessionKeyString key ≠ sessionKeyString own) :
    Keeps m (m.finish own state entries now) key where
  cache := rfl
  file := rfl
  turns := Function.update_of_ne (fun same => other (by rw [same])) _ _
  states place st here its := by
    refine ⟨st, ?_, rfl, rfl⟩
    obtain ⟨st', here', own'⟩ := owns.here
    have apart : state ≠ place := by
      rintro rfl
      cases here.symm.trans here'
      exact other (its.symm.trans own')
    exact (List.getElem?_modify_ne _ _ apart).trans here

theorem getElem?_create {projectUuid : String} {raw : Option (List Char)} {now : Int} {place : Nat}
    {st : SessionState} (here : m.states[place]? = some st) :
    (m.create isDatetime opts own projectUuid raw now).states[place]? = some st := by
  have inside : place < m.states.length := (List.getElem?_eq_some_iff.mp here).1
  exact (List.getElem?_append_left inside).trans here

theorem keeps_create {projectUuid : String} {raw : Option (List Char)} {now : Int}
    (other : sessionKeyString key ≠ sessionKeyString own) :
    Keeps m (m.create isDatetime opts own projectUuid raw now) key where
  cache := Function.update_of_ne other _ _
  file := rfl
  turns := rfl
  states _ st here _ := ⟨st, getElem?_create here, rfl, rfl⟩

theorem Good.setCall {call : Option SessionCall} (good : CallGood isDatetime m key call)
    (warm : ∀ state, m.cache (sessionKeyString key) = some state → ∃ st, m.states[state]? = some st ∧
      sessionKeyString st.key = sessionKeyString key ∧
        st.history.map stripCacheMark = (m.turns key).map stripCacheMark) :
    Good isDatetime (m.setCall key call) key := by
  refine ⟨?_, warm⟩
  have here : (m.setCall key call).calls (sessionKeyString key) = call := Function.update_self ..
  rw [here]
  exact good.kept (Keeps.refl m key).setCall

theorem Good.owns (good : Good isDatetime m key) (warm : m.cache (sessionKeyString key) = some state) :
    Owns m key state := by
  obtain ⟨st, here, own, -⟩ := good.warm state warm
  exact ⟨⟨st, here, own⟩, fun other warm' => Option.some.inj (warm'.symm.trans warm)⟩

/-! ### The session's own steps -/

theorem good_getOrCreate {projectUuid : String} {now : Int} (good : Good isDatetime m key)
    (stored : Stored isDatetime m key []) :
    Good isDatetime (m.getOrCreate key projectUuid now) key := by
  unfold getOrCreate
  split
  · exact good.kept (keeps_touch fun _ => ⟨rfl, rfl⟩) rfl
  · next cold => exact Good.setCall ⟨rfl, cold, stored⟩ good.warm

theorem good_beginTurn (good : Good isDatetime m key) : Good isDatetime (m.beginTurn key) key := by
  unfold beginTurn
  split
  · exact good.kept (keeps_touch fun _ => ⟨rfl, rfl⟩) rfl
  · exact good

theorem good_appendTurn (good : Good isDatetime m key) (stored : Stored isDatetime m key [])
    (valid : ∀ entry ∈ entries, entry.Valid isDatetime) :
    Good isDatetime (m.appendTurn key entries) key := by
  unfold appendTurn
  split
  · exact good
  · next state warm =>
      refine Good.setCall ?_ good.warm
      cases entries with
      | nil => exact ⟨rfl, good.owns warm, stored⟩
      | cons entry entries => exact ⟨rfl, good.owns warm, stored, List.cons_ne_nil _ _, valid⟩

theorem good_create {projectUuid : String} {raw : Option (List Char)} {now : Int}
    (stored : Stored isDatetime m key [])
    (history : historyOf isDatetime raw = (m.turns key).map stripCacheMark) :
    Good isDatetime ((m.create isDatetime opts key projectUuid raw now).setCall key none) key := by
  have plain : Stored isDatetime (m.create isDatetime opts key projectUuid raw now) key [] :=
    stored.of_eq rfl rfl
  refine Good.setCall plain fun state warm => ?_
  have place : m.states.length = state := by
    have here : (m.create isDatetime opts key projectUuid raw now).cache (sessionKeyString key) =
        some m.states.length := Function.update_self ..
    exact Option.some.inj (here.symm.trans warm)
  subst place
  refine ⟨_, List.getElem?_concat_length, rfl, ?_⟩
  dsimp only
  rw [history, List.map_map]
  rfl

theorem Stored.write (stored : Stored isDatetime m key []) (some_entry : entries ≠ [])
    (valid : ∀ entry ∈ entries, entry.Valid isDatetime) :
    Stored isDatetime (m.write key (payload entries)) key entries := by
  have text := stored.text
  have before := stored.valid
  rw [List.append_nil] at text before
  refine ⟨?_, List.forall_mem_append.mpr ⟨before, valid⟩⟩
  have here : (m.write key (payload entries)).files key.path =
      some ((m.files key.path).getD [] ++ payload entries) := Function.update_self ..
  rw [here, Option.getD_some, text, payload_eq some_entry, ← fileText_append]
  rfl

theorem Stored.write_nil (stored : Stored isDatetime m key []) :
    Stored isDatetime (m.write key []) key [] := by
  refine ⟨?_, stored.valid⟩
  have here : (m.write key []).files key.path = some ((m.files key.path).getD [] ++ []) :=
    Function.update_self ..
  rw [here, Option.getD_some, List.append_nil]
  exact stored.text

theorem good_finish {now : Int} (good : Good isDatetime m key) (owns : Owns m key state)
    (stored : Stored isDatetime m key entries) :
    Good isDatetime ((m.finish key state entries now).setCall key none) key := by
  have turns : (m.finish key state entries now).turns key = m.turns key ++ entries :=
    Function.update_self ..
  refine Good.setCall ⟨?_, ?_⟩ fun state' warm => ?_
  · rw [turns, List.append_nil]
    exact stored.text
  · rw [turns, List.append_nil]
    exact stored.valid
  · obtain ⟨st, here, own, history⟩ := good.warm state' warm
    cases owns.only state' warm
    refine ⟨st.push entries now, ?_, own, ?_⟩
    · have pushed : (m.states.modify state (·.push entries now))[state]? = some (st.push entries now) := by
        rw [List.getElem?_modify_eq, here]
        rfl
      exact pushed
    · rw [turns, SessionState.push, List.map_append, history, List.map_append]

theorem good_evict (good : Good isDatetime m key) : Good isDatetime (m.evict key) key := by
  have cold : (m.evict key).cache (sessionKeyString key) = none := Function.update_self ..
  refine ⟨?_, fun state warm => nomatch cold.symm.trans warm⟩
  have call := good.call
  change CallGood isDatetime (m.evict key) key (m.calls (sessionKeyString key))
  have owns : ∀ {state}, Owns m key state → Owns (m.evict key) key state := fun owns =>
    ⟨owns.here, fun other warm => nomatch cold.symm.trans warm⟩
  have kept : ∀ {more}, Stored isDatetime m key more → Stored isDatetime (m.evict key) key more :=
    fun stored => stored.of_eq rfl rfl
  cases running : m.calls (sessionKeyString key) with
  | none =>
      rw [running] at call
      exact kept call
  | some call' =>
      rw [running] at call
      cases call' with
      | loading k _ => exact ⟨call.1, cold, kept call.2.2⟩
      | loaded k _ raw => exact ⟨call.1, cold, kept call.2.2.1, call.2.2.2⟩
      | appending k state entries => exact ⟨call.1, owns call.2.1, kept call.2.2.1, call.2.2.2⟩
      | appended k state entries => exact ⟨call.1, owns call.2.1, kept call.2.2⟩

theorem Stored.of_call (good : Good isDatetime m key) (idle : m.calls (sessionKeyString key) = none) :
    Stored isDatetime m key [] := by
  have call := good.call
  rw [idle] at call
  exact call

/-- The other session is left as it is. -/
def Leaves (m n : Manager) (key : SessionKey) : Prop :=
  Keeps m n key ∧ n.calls (sessionKeyString key) = m.calls (sessionKeyString key)

theorem Keeps.leaves {call : Option SessionCall} (keeps : Keeps m n key) (calls : n.calls = m.calls)
    (other : sessionKeyString key ≠ sessionKeyString own) : Leaves m (n.setCall own call) key :=
  ⟨keeps.setCall, (Function.update_of_ne other _ _).trans (congrFun calls _)⟩

/-- What a step does: its own session stays good, and the sessions of other files are left. -/
theorem step_good {sessions : Set SessionKey} {e : SessionEvent} (good : Good isDatetime m e.key)
    (meets : Meets isDatetime sessions m e) (fire : step isDatetime opts m e = some n) :
    Good isDatetime n e.key ∧ ∀ key : SessionKey, key.path ≠ e.key.path → Leaves m n key := by
  obtain ⟨own, action⟩ := e
  obtain ⟨-, meets⟩ := meets
  have slugs : ∀ {key : SessionKey}, key.path ≠ own.path →
      sessionKeyString key ≠ sessionKeyString own := fun other same =>
    other (congrArg pathFor same)
  have call := good.call
  dsimp only at good call meets ⊢
  unfold step at fire
  dsimp only at fire
  cases running : m.calls (sessionKeyString own) with
  | none =>
      rw [running] at fire call
      cases action with
      | getOrCreate projectUuid now =>
          cases fire
          refine ⟨good_getOrCreate good call, fun key other => ?_⟩
          unfold getOrCreate
          split
          · exact ⟨keeps_touch fun _ => ⟨rfl, rfl⟩, rfl⟩
          · exact (Keeps.refl m key).leaves rfl (slugs other)
      | appendTurn entries =>
          cases fire
          refine ⟨good_appendTurn good call meets, fun key other => ?_⟩
          unfold appendTurn
          split
          · exact ⟨Keeps.refl m key, rfl⟩
          · exact (Keeps.refl m key).leaves rfl (slugs other)
      | evict =>
          cases fire
          exact ⟨good_evict good, fun key other => ⟨keeps_evict (slugs other), rfl⟩⟩
      | beginTurn =>
          cases fire
          refine ⟨good_beginTurn good, fun key other => ?_⟩
          unfold beginTurn
          split
          · exact ⟨keeps_touch fun _ => ⟨rfl, rfl⟩, rfl⟩
          · exact ⟨Keeps.refl m key, rfl⟩
      | readFile | readFails | create _ | appendFile | appendFails _ | finish _ => cases fire
  | some current =>
      rw [running] at fire call
      cases action with
      | evict =>
          cases fire
          exact ⟨good_evict good, fun key other => ⟨keeps_evict (slugs other), rfl⟩⟩
      | beginTurn =>
          cases fire
          refine ⟨good_beginTurn good, fun key other => ?_⟩
          unfold beginTurn
          split
          · exact ⟨keeps_touch fun _ => ⟨rfl, rfl⟩, rfl⟩
          · exact ⟨Keeps.refl m key, rfl⟩
      | getOrCreate _ _ | appendTurn _ => cases fire
      | readFails => exact meets.elim
      | readFile =>
          cases current with
          | loading key projectUuid =>
              obtain ⟨rfl, cold, stored⟩ := call
              cases fire
              refine ⟨Good.setCall ⟨rfl, cold, stored, stored.history⟩ good.warm, fun key other => ?_⟩
              exact (Keeps.refl m key).leaves rfl (slugs other)
          | loaded _ _ _ | appending _ _ _ | appended _ _ _ => cases fire
      | create now =>
          cases current with
          | loaded key projectUuid raw =>
              obtain ⟨rfl, cold, stored, history⟩ := call
              cases fire
              exact ⟨good_create stored history,
                fun key other => (keeps_create (slugs other)).leaves rfl (slugs other)⟩
          | loading _ _ | appending _ _ _ | appended _ _ _ => cases fire
      | appendFile =>
          cases current with
          | appending key state entries =>
              obtain ⟨rfl, owns, stored, some_entry, valid⟩ := call
              cases fire
              refine ⟨Good.setCall ⟨rfl, ⟨owns.here, owns.only⟩, stored.write some_entry valid⟩ good.warm,
                fun key other => (keeps_write other).leaves rfl (slugs other)⟩
          | loading _ _ | loaded _ _ _ | appended _ _ _ => cases fire
      | appendFails written =>
          cases current with
          | appending key state entries =>
              obtain ⟨rfl, -, stored, -⟩ := call
              cases written with
              | none =>
                  cases fire
                  exact ⟨Good.setCall stored good.warm,
                    fun key other => (Keeps.refl m key).leaves rfl (slugs other)⟩
              | some text =>
                  dsimp only at fire
                  split at fire
                  · cases fire
                    have empty : text = [] := meets
                    subst empty
                    exact ⟨Good.setCall stored.write_nil good.warm,
                      fun key other => (keeps_write other).leaves rfl (slugs other)⟩
                  · cases fire
          | loading _ _ | loaded _ _ _ | appended _ _ _ => cases fire
      | finish now =>
          cases current with
          | appended key state entries =>
              obtain ⟨rfl, owns, stored⟩ := call
              cases fire
              exact ⟨good_finish good owns stored,
                fun key other => (keeps_finish owns (slugs other)).leaves rfl (slugs other)⟩
          | loading _ _ | loaded _ _ _ | appending _ _ _ => cases fire

/-! ## Runs -/

variable {sessions : Set SessionKey}

theorem good_of_steps (apart : Set.InjOn SessionKey.path sessions)
    (run : Steps (step isDatetime opts) (Meets isDatetime sessions) {} m) :
    ∀ key ∈ sessions, Good isDatetime m key := by
  have start : ∀ key ∈ sessions, Good isDatetime {} key := fun key _ => ⟨⟨rfl, nofun⟩, nofun⟩
  have keep : ∀ m e n, (∀ key ∈ sessions, Good isDatetime m key) → Meets isDatetime sessions m e →
      step isDatetime opts m e = some n → ∀ key ∈ sessions, Good isDatetime n key := by
    intro m e n good meets fire key mem
    obtain ⟨own, others⟩ := step_good (good e.key meets.1) meets fire
    by_cases same : key = e.key
    · exact same ▸ own
    · obtain ⟨keeps, calls⟩ := others key fun shared => same (apart mem meets.1 shared)
      exact (good key mem).kept keeps calls
  exact run.invariant start keep

theorem historyOf_write_nil (path : String) :
    historyOf isDatetime ((m.write own []).files path) = historyOf isDatetime (m.files path) := by
  rw [write]
  dsimp only
  by_cases same : path = own.path
  · subst same
    rw [Function.update_self, List.append_nil]
    cases m.files own.path <;> rfl
  · rw [Function.update_of_ne same]

/-- An append that fails changes neither the warm sessions nor what is read. -/
theorem step_appendFails {written : Option (List Char)} (nothing : written.getD [] = [])
    (fire : step isDatetime opts m ⟨own, .appendFails written⟩ = some n) :
    n.states = m.states ∧ n.cache = m.cache ∧
      ∀ path, historyOf isDatetime (n.files path) = historyOf isDatetime (m.files path) := by
  unfold step at fire
  dsimp only at fire
  cases running : m.calls (sessionKeyString own) with
  | none =>
      rw [running] at fire
      cases fire
  | some call =>
      rw [running] at fire
      cases call with
      | appending key state entries =>
          cases written with
          | none =>
              cases fire
              exact ⟨rfl, rfl, fun _ => rfl⟩
          | some text =>
              have empty : text = [] := nothing
              subst empty
              dsimp only at fire
              rw [if_pos (List.nil_prefix)] at fire
              cases fire
              exact ⟨rfl, rfl, historyOf_write_nil⟩
      | loading _ _ | loaded _ _ _ | appended _ _ _ => cases fire

/-! ### Two sessions with one file -/

/-- A cold session is loaded. -/
theorem steps_load {m₀ : Manager} (mem : key ∈ sessions)
    (run : Steps (step isDatetime opts) (Meets isDatetime sessions) m₀ m)
    (idle : m.calls (sessionKeyString key) = none) (cold : m.cache (sessionKeyString key) = none) :
    Steps (step isDatetime opts) (Meets isDatetime sessions) m₀
      ((m.create isDatetime opts key "" (m.files key.path) 0).setCall key none) := by
  have first : step isDatetime opts m ⟨key, .getOrCreate "" 0⟩ =
      some (m.setCall key (some (.loading key ""))) := by
    simp [step, idle, getOrCreate, cold]
  have second : step isDatetime opts (m.setCall key (some (.loading key ""))) ⟨key, .readFile⟩ =
      some (m.setCall key (some (.loaded key "" (m.files key.path)))) := by
    simp [step, setCall]
  have third : step isDatetime opts (m.setCall key (some (.loaded key "" (m.files key.path))))
      ⟨key, .create 0⟩ =
      some ((m.create isDatetime opts key "" (m.files key.path) 0).setCall key none) := by
    simp [step, setCall, create]
  exact ((run.tail ⟨mem, trivial⟩ first).tail ⟨mem, trivial⟩ second).tail ⟨mem, trivial⟩ third

/-- A turn of a warm session is stored. -/
theorem steps_turn {m₀ : Manager} (mem : key ∈ sessions)
    (run : Steps (step isDatetime opts) (Meets isDatetime sessions) m₀ m)
    (idle : m.calls (sessionKeyString key) = none)
    (warm : m.cache (sessionKeyString key) = some state) (some_entry : entries ≠ [])
    (valid : ∀ entry ∈ entries, entry.Valid isDatetime) :
    Steps (step isDatetime opts) (Meets isDatetime sessions) m₀
      (((m.write key (payload entries)).finish key state entries 0).setCall key none) := by
  have first : step isDatetime opts m ⟨key, .appendTurn entries⟩ =
      some (m.setCall key (some (.appending key state entries))) := by
    simp [step, idle, appendTurn, warm, some_entry]
  have second : step isDatetime opts (m.setCall key (some (.appending key state entries)))
      ⟨key, .appendFile⟩ =
      some ((m.write key (payload entries)).setCall key (some (.appended key state entries))) := by
    simp [step, setCall, write]
  have third : step isDatetime opts
      ((m.write key (payload entries)).setCall key (some (.appended key state entries)))
      ⟨key, .finish 0⟩ =
      some (((m.write key (payload entries)).finish key state entries 0).setCall key none) := by
    simp [step, setCall, finish]
  exact ((run.tail ⟨mem, valid⟩ first).tail ⟨mem, trivial⟩ second).tail ⟨mem, trivial⟩ third

/-- Where two sessions have one file, a turn of the one shows up in the history of the other. -/
theorem exists_steps_not_agrees {other : SessionKey} {date : String} (dated : isDatetime date = true)
    (mem : key ∈ sessions) (mem' : other ∈ sessions) (apart : key ≠ other)
    (shared : key.path = other.path) :
    ∃ m, Steps (step isDatetime opts) (Meets isDatetime sessions) {} m ∧
      m.calls (sessionKeyString other) = none ∧ ¬ Agrees isDatetime m other := by
  obtain ⟨entry, valid⟩ : ∃ entry : ChatHistoryEntry, entry.Valid isDatetime :=
    ⟨{ role := .user, content := [], timestamp := date }, nofun, dated⟩
  have each : ∀ e ∈ [entry], e.Valid isDatetime := List.forall_mem_singleton.mpr valid
  have loaded := @steps_load isDatetime opts {} key sessions {} mem .refl rfl rfl
  have warm : (({} : Manager).create isDatetime opts key "" none 0).cache (sessionKeyString key) =
      some 0 := Function.update_self ..
  have turned := steps_turn mem loaded (Function.update_self ..) warm (List.cons_ne_nil entry []) each
  generalize turn : Manager.setCall _ key none = m at turned
  have turns : m.turns other = [] := by
    rw [← turn]
    exact Function.update_of_ne apart.symm _ _
  have files : m.files other.path = some (fileText [entry]) := by
    rw [← turn, ← shared, ← payload_eq (List.cons_ne_nil _ _)]
    exact Function.update_self ..
  have states : ∃ st, m.states = [st] ∧ st.history = [entry] := by
    rw [← turn]
    exact ⟨_, rfl, rfl⟩
  have idle : m.calls (sessionKeyString other) = none := by
    rw [← turn]
    by_cases same : sessionKeyString other = sessionKeyString key
    · rw [same]
      exact Function.update_self ..
    · exact (Function.update_of_ne same _ _).trans (Function.update_of_ne same _ _)
  by_cases same : sessionKeyString other = sessionKeyString key
  · refine ⟨m, turned, idle, fun agrees => ?_⟩
    obtain ⟨st, only, history⟩ := states
    have here : m.cache (sessionKeyString other) = some 0 := by
      rw [same, ← turn]
      exact warm
    have equal := (agrees 0 st here (by rw [only]; rfl)).2
    rw [history, turns] at equal
    cases equal
  · have cold : m.cache (sessionKeyString other) = none := by
      rw [← turn]
      exact Function.update_of_ne same _ _
    refine ⟨_, steps_load mem' turned idle cold, Function.update_self .., fun agrees => ?_⟩
    have equal := (agrees m.states.length _ (Function.update_self ..) List.getElem?_concat_length).2
    have read : historyOf isDatetime (m.files other.path) = [stripCacheMark entry] := by
      rw [files, historyOf_fileText each]
      rfl
    dsimp only at equal
    rw [read] at equal
    change _ = (m.turns other).map stripCacheMark at equal
    rw [turns] at equal
    cases equal

/-- The warm histories agree with the files and the turns, in every run, just when the sessions have
different files; an append that fails changes neither. -/
theorem warm_history_iff (some_date : ∃ date, isDatetime date = true) :
    (∀ m, Steps (step isDatetime opts) (Meets isDatetime sessions) {} m →
      (∀ key ∈ sessions, m.calls (sessionKeyString key) = none → Agrees isDatetime m key) ∧
        ∀ own written n, Meets isDatetime sessions m ⟨own, .appendFails written⟩ →
          step isDatetime opts m ⟨own, .appendFails written⟩ = some n →
          n.states = m.states ∧ n.cache = m.cache ∧
            ∀ path, historyOf isDatetime (n.files path) = historyOf isDatetime (m.files path)) ↔
      Set.InjOn SessionKey.path sessions := by
  constructor
  · intro all key mem other mem' shared
    by_contra apart
    obtain ⟨date, dated⟩ := some_date
    obtain ⟨m, run, idle, differs⟩ := @exists_steps_not_agrees isDatetime opts key sessions other date
      dated mem mem' apart shared
    exact differs ((all m run).1 other mem' idle)
  · intro apart m run
    refine ⟨fun key mem idle => (good_of_steps apart run key mem).agrees idle, ?_⟩
    intro own written n meets fire
    exact step_appendFails meets.2 fire

end

/-- The date of the two examples. -/
def someDate : String := "2026-01-01T00:00:00Z"

def ofChat (chatId : String) : SessionKey := ⟨.telegram, chatId, none⟩

theorem warm_history_iff_two_chats :
    ofChat "1" ≠ ofChat "2" ∧
      ∀ m, Steps (step (· == someDate) ⟨"", ""⟩)
          (Meets (· == someDate) {ofChat "1", ofChat "2"}) {} m →
        ∀ key ∈ ({ofChat "1", ofChat "2"} : Set SessionKey),
          m.calls (sessionKeyString key) = none → Agrees (· == someDate) m key := by
  have apart : Set.InjOn SessionKey.path {ofChat "1", ofChat "2"} := by
    rintro _ (rfl | rfl) _ (rfl | rfl) same
    · rfl
    · exact absurd same (by decide +kernel)
    · exact absurd same (by decide +kernel)
    · rfl
  have dated : ∃ date, (date == someDate) = true := ⟨someDate, rfl⟩
  exact ⟨by decide, fun m run => ((warm_history_iff dated).mpr apart m run).1⟩

/-- Two chats whose ids differ in a character that is replaced. -/
theorem chats_share_history :
    ofChat "a.b" ≠ ofChat "a_b" ∧
      ∃ m, Steps (step (· == someDate) ⟨"", ""⟩)
          (Meets (· == someDate) {ofChat "a.b", ofChat "a_b"}) {} m ∧
        m.calls (sessionKeyString (ofChat "a_b")) = none ∧
          ¬ Agrees (· == someDate) m (ofChat "a_b") := by
  have apart : ofChat "a.b" ≠ ofChat "a_b" := by decide
  have dated : (someDate == someDate) = true := rfl
  have shared : (ofChat "a.b").path = (ofChat "a_b").path := by decide +kernel
  exact ⟨apart, exists_steps_not_agrees dated (.inl rfl) (.inr rfl) apart shared⟩

end Manager

end Opensquid.AgentBridge
