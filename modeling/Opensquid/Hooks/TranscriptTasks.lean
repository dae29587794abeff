import Opensquid.Lib.JsonText
import Opensquid.Lib.Lists
import Opensquid.Lib.PathText
import Opensquid.Lib.Table
import Opensquid.Lib.Whitespace

/-!
# The tasks of a transcript

The task list is read off the session's transcript: creates, their results and updates are
gathered line by line, then the updates are replayed over the created tasks, the update in
flight last. `JSON.parse` is the parameter `parse`.

The active task is the one most recently set `in_progress` and neither completed nor deleted
since (`activeId_iff`). So a task that is set back to `pending` stays the active one
(`pending_task_named`).
-/

namespace Opensquid.Hooks

open Opensquid.Lib

/-! ## Reading a line -/

/-- `value.key`; the last field of a name counts. -/
def property (key : String) : Json → Option Json
  | .obj fields => (fields.reverse.find? (·.1 = key)).map (·.2)
  | _ => none

/-- `value.key` when it is a string. -/
def textProperty (key : String) (value : Json) : Option String :=
  match property key value with
  | some (.str s) => some s
  | _ => none

/-- The properties of an object, in the order of their assignment. -/
abbrev Metadata := List (String × Json)

/-- `value.key` when it is an object, as what a spread copies of it. -/
def recordProperty (key : String) (value : Json) : Option Metadata :=
  match property key value with
  | some (.obj fields) => some fields
  | some (.arr items) => some (items.zipIdx.map fun (item, i) => (toString i, item))
  | _ => none

/-- `metadata[key]` when it is a string. -/
def Metadata.text (metadata : Metadata) (key : String) : Option String :=
  textProperty key (.obj metadata)

def resultText : Json → String
  | .str s => s
  | .arr items => String.join (items.map fun c =>
      if (textProperty "type" c).isSome then (textProperty "text" c).getD "" else "")
  | _ => ""

/-- `/Task #(\S+) created/`, with the group. -/
def createdId : List Char → Option String
  | [] => none
  | c :: rest =>
      let word := ((c :: rest).drop 6).takeWhile (!isSpace ·)
      if "Task #".toList.isPrefixOf (c :: rest) ∧ word ≠ [] ∧
          " created".toList.isPrefixOf ((c :: rest).drop (6 + word.length)) then
        some (String.ofList word)
      else createdId rest

structure PendingUpdate where
  taskId : String
  status : Option String := none
  metadata : Option Metadata := none

structure TaskCreate where
  toolUse : String
  subject : String
  metadata : Metadata

/-- What the walk over the lines has gathered. -/
structure Gathered where
  createByToolUse : Table TaskCreate.toolUse
  idByToolUse : Table (Prod.fst : String × String → String)
  updates : List PendingUpdate

def Gathered.none : Gathered := ⟨.empty, .empty, []⟩

def Gathered.block (g : Gathered) (b : Json) : Gathered :=
  let input := (property "input" b).getD .null
  if textProperty "type" b = some "tool_use" ∧ textProperty "name" b = some "TaskCreate" ∧
      (textProperty "id" b).isSome then
    match textProperty "subject" input with
    | some subject =>
        let create : TaskCreate :=
          ⟨(textProperty "id" b).getD "", subject, (recordProperty "metadata" input).getD []⟩
        { g with createByToolUse := g.createByToolUse.put create }
    | Option.none => g
  else if textProperty "type" b = some "tool_use" ∧ textProperty "name" b = some "TaskUpdate" then
    let status := textProperty "status" input
    let metadata := recordProperty "metadata" input
    match textProperty "taskId" input with
    | some taskId =>
        if status.isSome ∨ metadata.isSome then
          { g with updates := g.updates ++ [⟨taskId, status, metadata⟩] }
        else g
    | Option.none => g
  else if textProperty "type" b = some "tool_result" then
    match textProperty "tool_use_id" b,
        createdId (resultText ((property "content" b).getD .null)).toList with
    | some toolUse, some id => { g with idByToolUse := g.idByToolUse.put (toolUse, id) }
    | _, _ => g
  else g

section

variable (parse : String → Option Json)

/-- One line. None: the line is `null`, which has no property `message`. -/
def Gathered.line (g : Gathered) (line : String) : Option Gathered :=
  if trim line.toList = [] then some g
  else
    match parse line with
    | Option.none => some g
    | some .null => Option.none
    | some entry =>
        match (property "message" entry).bind (property "content") with
        | some (.arr blocks) => some (blocks.foldl Gathered.block g)
        | _ => some g

def gather (raw : String) : Option Gathered :=
  (PathText.segs '\n' raw).foldlM (Gathered.line parse) .none

end

/-! ## Replaying the updates -/

/-- An entry of `taskById`. -/
structure TaskState where
  id : String
  subject : String := ""
  status : String := "pending"
  metadata : Metadata := []

abbrev Tasks := Table TaskState.id

/-- The created tasks whose id is known, all pending. -/
def Gathered.created (g : Gathered) : Tasks :=
  g.createByToolUse.rows.foldl (fun tasks c =>
    match g.idByToolUse.get c.toolUse with
    | some (_, id) => tasks.put { id, subject := c.subject, metadata := c.metadata }
    | Option.none => tasks) .empty

def TaskState.update (t : TaskState) (u : PendingUpdate) : TaskState :=
  { t with
    metadata := t.metadata ++ u.metadata.getD []
    status := u.status.getD t.status }

def Tasks.update (tasks : Tasks) (u : PendingUpdate) : Tasks :=
  tasks.put (((tasks.get u.taskId).getD { id := u.taskId }).update u)

def isClosedStatus (status : String) : Bool := status = "completed" || status = "deleted"

/-- `activeId` after an update. -/
def activate (activeId : Option String) (u : PendingUpdate) : Option String :=
  match u.status with
  | none => activeId
  | some status =>
      if status = "in_progress" then some u.taskId
      else if isClosedStatus status ∧ activeId = some u.taskId then none
      else activeId

/-- The tasks and the active id. The walk throws on some lines; an unreadable transcript has
neither tasks nor updates. -/
def parseTranscriptTasks (parse : String → Option Json) (raw : Option String)
    (pending : Option PendingUpdate) : Option (Tasks × Option String) :=
  match raw with
  | none => some (.empty, none)
  | some raw => (gather parse raw).map fun g =>
      let updates := g.updates ++ pending.toList
      (updates.foldl Tasks.update g.created, updates.foldl activate none)

structure ActiveTask where
  id : String
  subject : String
  startedAt : String
  taskId : Option String
  spec : Option String
  deriving DecidableEq, Repr

def readActiveTaskFromTranscript (parse : String → Option Json) (raw : Option String)
    (pending : Option PendingUpdate) (now : String) : Option (Option ActiveTask) :=
  (parseTranscriptTasks parse raw pending).map fun (tasks, activeId) => do
    let id ← activeId
    let t ← tasks.get id
    return ⟨id, t.subject, now, t.metadata.text "taskId", t.metadata.text "spec"⟩

structure OpenTask where
  id : String
  status : String
  taskId : Option String
  deriving DecidableEq, Repr

def readOpenTasksFromTranscript (parse : String → Option Json) (raw : Option String)
    (pending : Option PendingUpdate) : Option (List OpenTask) :=
  (parseTranscriptTasks parse raw pending).map fun (tasks, _) =>
    (tasks.rows.filter fun t => !isClosedStatus t.status).map fun t =>
      ⟨t.id, t.status, t.metadata.text "taskId"⟩

/-! ## What the replay ends with -/

/-- The last status that the updates give a task. -/
def lastStatus (updates : List PendingUpdate) (id : String) : Option String :=
  (updates.filter (·.taskId = id)).reverse.findSome? (·.status)

/-- An update sets the task `in_progress`; no later one sets any task `in_progress`, and none
completes or deletes this one. -/
structure Activated (updates : List PendingUpdate) (id : String) (later : List PendingUpdate) :
    Prop where
  split : ∃ before u, updates = before ++ u :: later ∧ u.taskId = id ∧ u.status = some "in_progress"
  latest : ∀ w ∈ later, w.status ≠ some "in_progress"
  running : ∀ w ∈ later, w.taskId = id → ∀ status ∈ w.status, isClosedStatus status = false

section

variable {updates later : List PendingUpdate} {u : PendingUpdate} {id : String}

theorem lastStatus_append (more : List PendingUpdate) :
    lastStatus (updates ++ more) id = (lastStatus more id).or (lastStatus updates id) := by
  rw [lastStatus, List.filter_append, List.reverse_append, List.findSome?_append]
  rfl

theorem lastStatus_cons : lastStatus (u :: updates) id =
    (lastStatus updates id).or (if u.taskId = id then u.status else none) := by
  rw [← List.singleton_append, lastStatus_append]
  congr 1
  by_cases mine : u.taskId = id
  · have here : [u].filter (·.taskId = id) = [u] := List.filter_cons_of_pos (decide_eq_true mine)
    rw [if_pos mine, lastStatus, here, List.reverse_singleton, List.findSome?_cons]
    cases u.status <;> rfl
  · have none : [u].filter (·.taskId = id) = [] := List.filter_cons_of_neg (by simpa using mine)
    rw [if_neg mine, lastStatus, none]
    rfl

theorem exists_of_lastStatus {status : String} (last : lastStatus updates id = some status) :
    ∃ w ∈ updates, w.taskId = id ∧ w.status = some status := by
  obtain ⟨w, mem, sets⟩ := List.exists_of_findSome?_eq_some last
  have both := List.mem_filter.mp (List.mem_reverse.mp mem)
  exact ⟨w, both.1, of_decide_eq_true both.2, sets⟩

theorem status_of_lastStatus_eq_none (silent : lastStatus updates id = none) {w : PendingUpdate}
    (mem : w ∈ updates) (mine : w.taskId = id) : w.status = none :=
  List.findSome?_eq_none_iff.mp silent w
    (List.mem_reverse.mpr (List.mem_filter.mpr ⟨mem, decide_eq_true mine⟩))

/-- One more update: it activates the task itself, or leaves it activated. -/
theorem activated_concat_iff : (∃ later, Activated (updates ++ [u]) id later) ↔
    u.taskId = id ∧ u.status = some "in_progress" ∨
      (∃ later, Activated updates id later) ∧ u.status ≠ some "in_progress" ∧
        (u.taskId = id → ∀ status ∈ u.status, isClosedStatus status = false) := by
  constructor
  · rintro ⟨later, ⟨before, w, split, mine, sets⟩, latest, running⟩
    rcases concat_eq_append_cons_iff.mp split with ⟨rfl, rfl, rfl⟩ | ⟨init, rfl, same⟩
    · exact .inl ⟨mine, sets⟩
    · have final : u ∈ init ++ [u] := List.mem_append_right _ (List.mem_singleton_self u)
      refine .inr ⟨⟨init, ⟨before, w, same, mine, sets⟩, fun x mem => ?_, fun x mem => ?_⟩,
        latest u final, running u final⟩
      · exact latest x (List.mem_append_left _ mem)
      · exact running x (List.mem_append_left _ mem)
  · rintro (⟨mine, sets⟩ | ⟨⟨later, ⟨before, w, rfl, mine, sets⟩, latest, running⟩, other, open'⟩)
    · exact ⟨[], ⟨updates, u, rfl, mine, sets⟩, List.forall_mem_nil _, List.forall_mem_nil _⟩
    · refine ⟨later ++ [u], ⟨before, w, ?_, mine, sets⟩, ?_, ?_⟩
      · rw [List.append_assoc, List.cons_append]
      · exact List.forall_mem_append.mpr ⟨latest, List.forall_mem_singleton.mpr other⟩
      · exact List.forall_mem_append.mpr ⟨running, List.forall_mem_singleton.mpr open'⟩

theorem activate_eq_some_iff {activeId : Option String} : activate activeId u = some id ↔
    u.taskId = id ∧ u.status = some "in_progress" ∨ activeId = some id ∧
      u.status ≠ some "in_progress" ∧
        (u.taskId = id → ∀ status ∈ u.status, isClosedStatus status = false) := by
  unfold activate
  cases u.status with
  | none => simp
  | some status =>
      by_cases sets : status = "in_progress"
      · simp [sets]
      · cases closed : isClosedStatus status with
        | false => simp [sets, closed]
        | true =>
            by_cases mine : activeId = some u.taskId
            · simp [sets, closed, mine]
            · have other : activeId = some id → u.taskId ≠ id := by
                rintro active rfl
                exact mine active
              simpa [sets, closed, mine] using other

/-- The active id is that of the task activated last. -/
theorem activeId_iff :
    updates.foldl activate none = some id ↔ ∃ later, Activated updates id later := by
  induction updates using List.reverseRecOn generalizing id with
  | nil =>
      refine iff_of_false nofun ?_
      rintro ⟨_, ⟨before, u, split, _⟩, _⟩
      cases before <;> cases split
  | append_singleton updates u ih =>
      rw [List.foldl_append, List.foldl_cons, List.foldl_nil, activate_eq_some_iff, ih,
        activated_concat_iff]

/-- The replay gives every task its last status. -/
theorem status_of_replay {tasks : Tasks} {status : String}
    (last : lastStatus updates id = some status) :
    ∃ t, (updates.foldl Tasks.update tasks).get id = some t ∧ t.status = status := by
  induction updates using List.reverseRecOn generalizing status with
  | nil => cases last
  | append_singleton updates u ih =>
      rw [lastStatus_append, lastStatus_cons] at last
      rw [List.foldl_append, List.foldl_cons, List.foldl_nil]
      generalize updates.foldl Tasks.update tasks = replayed at ih ⊢
      have key : ∀ t : TaskState, t.id = u.taskId → (t.update u).id = u.taskId := fun t same => same
      have place : ((replayed.get u.taskId).getD { id := u.taskId }).id = u.taskId := by
        cases there : replayed.get u.taskId with
        | none => rfl
        | some t => exact Table.key_of_get there
      by_cases mine : u.taskId = id
      · subst mine
        rw [if_pos rfl] at last
        change u.status.or _ = _ at last
        refine ⟨((replayed.get u.taskId).getD { id := u.taskId }).update u, ?_, ?_⟩
        · have here := @Table.get_put_self _ _ TaskState.id _ replayed
            (((replayed.get u.taskId).getD { id := u.taskId }).update u)
          rwa [key _ place] at here
        · change u.status.getD _ = status
          cases sets : u.status with
          | some s =>
              rw [sets] at last
              exact Option.some.inj last
          | none =>
              rw [sets, Option.none_or] at last
              obtain ⟨t, there, same⟩ := ih last
              rw [there]
              exact same
      · rw [if_neg mine] at last
        change lastStatus updates id = _ at last
        obtain ⟨t, there, same⟩ := ih last
        refine ⟨t, ?_, same⟩
        rw [Tasks.update, Table.get_put_of_ne, there]
        rw [key _ place]
        exact fun here => mine here.symm

theorem Activated.lastStatus (activated : Activated updates id later) :
    ∃ status, Hooks.lastStatus updates id = some status ∧ isClosedStatus status = false := by
  obtain ⟨before, u, rfl, mine, sets⟩ := activated.split
  rw [lastStatus_append, lastStatus_cons, if_pos mine, sets]
  cases last : Hooks.lastStatus later id with
  | none => exact ⟨"in_progress", rfl, rfl⟩
  | some status =>
      obtain ⟨w, mem, here, gives⟩ := exists_of_lastStatus last
      exact ⟨status, rfl, activated.running w mem here status gives⟩

/-- The most recent update to `in_progress` has activated its task if it is the last of the task. -/
theorem activated_of_lastStatus {before : List PendingUpdate}
    (split : updates = before ++ u :: later) (mine : u.taskId = id)
    (sets : u.status = some "in_progress") (latest : ∀ w ∈ later, w.status ≠ some "in_progress")
    (last : lastStatus updates id = some "in_progress") : Activated updates id later := by
  refine ⟨⟨before, u, split, mine, sets⟩, latest, fun w mem here status gives => ?_⟩
  rw [split, lastStatus_append, lastStatus_cons] at last
  cases after : lastStatus later id with
  | none =>
      rw [status_of_lastStatus_eq_none after mem here] at gives
      cases gives
  | some final =>
      obtain ⟨x, mem', _, gives'⟩ := exists_of_lastStatus after
      rw [after, Option.some_or, Option.some_or] at last
      exact absurd (gives'.trans last) (latest x mem')

end

/-! ## The active task -/

/-- For every transcript and update in flight. A returned task has been set `in_progress`, no
task has been since, and the task is open, with its last status. When none is returned, the most
recent update to `in_progress` is not the last of its task. -/
theorem active_task_running (parse : String → Option Json) (raw : String)
    (pending : Option PendingUpdate) (now : String) {result : Option ActiveTask}
    (returned : readActiveTaskFromTranscript parse (some raw) pending now = some result) :
    ∃ g, gather parse raw = some g ∧
      (∀ task, result = some task →
        (∃ later, Activated (g.updates ++ pending.toList) task.id later) ∧
        ∃ open', readOpenTasksFromTranscript parse (some raw) pending = some open' ∧
          ∃ o ∈ open', o.id = task.id ∧
            lastStatus (g.updates ++ pending.toList) task.id = some o.status) ∧
      (result = none → ∀ before u later, g.updates ++ pending.toList = before ++ u :: later →
        u.status = some "in_progress" → (∀ w ∈ later, w.status ≠ some "in_progress") →
        lastStatus (g.updates ++ pending.toList) u.taskId ≠ some "in_progress") := by
  obtain ⟨⟨tasks, activeId⟩, walked, found⟩ := Option.map_eq_some_iff.mp returned
  obtain ⟨g, gathered, replayed⟩ := Option.map_eq_some_iff.mp walked
  refine ⟨g, gathered, ?_⟩
  generalize updates_eq : g.updates ++ pending.toList = updates at replayed ⊢
  obtain ⟨rfl, rfl⟩ := Prod.mk.inj replayed
  -- an active task has its entry
  have entry : ∀ {id later}, Activated updates id later → ∃ status t,
      lastStatus updates id = some status ∧ isClosedStatus status = false ∧
        (updates.foldl Tasks.update g.created).get id = some t ∧ t.status = status := by
    intro id later activated
    obtain ⟨status, last, open'⟩ := activated.lastStatus
    obtain ⟨t, there, same⟩ := @status_of_replay updates id g.created status last
    exact ⟨status, t, last, open', there, same⟩
  constructor
  · rintro task rfl
    obtain ⟨id, active, found⟩ := Option.bind_eq_some_iff.mp found
    obtain ⟨t, there, same⟩ := Option.bind_eq_some_iff.mp found
    cases same
    obtain ⟨later, activated⟩ := activeId_iff.mp active
    refine ⟨⟨later, activated⟩, ?_⟩
    obtain ⟨status, t', last, open', there', rfl⟩ := entry activated
    cases there.symm.trans there'
    have opens : readOpenTasksFromTranscript parse (some raw) pending =
        some (((updates.foldl Tasks.update g.created).rows.filter fun t =>
          !isClosedStatus t.status).map fun t => ⟨t.id, t.status, t.metadata.text "taskId"⟩) := by
      rw [readOpenTasksFromTranscript, walked, Option.map_some]
    have listed : t ∈ (updates.foldl Tasks.update g.created).rows.filter fun t =>
        !isClosedStatus t.status :=
      List.mem_filter.mpr ⟨Table.mem_of_get there, by rw [open']; rfl⟩
    have key : t.id = id := Table.key_of_get there
    exact ⟨_, opens, _, List.mem_map_of_mem listed, key, last⟩
  · rintro rfl before u later split sets latest last
    have activated := activated_of_lastStatus split rfl sets latest last
    obtain ⟨_, t, _, _, there, _⟩ := entry activated
    have active := activeId_iff.mpr ⟨later, activated⟩
    rw [active] at found
    change (Table.get _ u.taskId).bind _ = none at found
    rw [there] at found
    cases found

/-! ## A task that is set back -/

/-- A line that updates task 7, and what it parses to. -/
def updateLine (status : String) : String × Json :=
  ("\x7b\"message\":\x7b\"content\":[\x7b\"type\":\"tool_use\",\"name\":\"TaskUpdate\"," ++
      "\"input\":\x7b\"taskId\":\"7\",\"status\":\"" ++ status ++ "\"\x7d\x7d]\x7d\x7d",
    .obj [("message", .obj [("content", .arr [.obj [("type", .str "tool_use"),
      ("name", .str "TaskUpdate"),
      ("input", .obj [("taskId", .str "7"), ("status", .str status)])]])])])

/-- `JSON.parse` on these lines; any other line is malformed. -/
def parseUpdate (line : String) : Option Json :=
  (["in_progress", "pending"].find? fun status => (updateLine status).1 = line).map fun status =>
    (updateLine status).2

theorem segs_updateLine (rest : String) :
    PathText.segs '\n' ((updateLine "in_progress").1 ++ "\n" ++ rest) =
      (updateLine "in_progress").1 :: PathText.segs '\n' rest := by
  have plain : '\n' ∉ (updateLine "in_progress").1.toList := by decide +kernel
  change PathText.segs '\n' ((updateLine "in_progress").1 ++ String.singleton '\n' ++ rest) = _
  rw [PathText.segs_append_sep, PathText.segs_of_not_mem plain]
  rfl

/-- The task has been set `in_progress`, a malformed line follows. -/
theorem active_task_running_started :
    ∃ g, gather parseUpdate ((updateLine "in_progress").1 ++ "\n" ++ "\x7b") = some g ∧
      ∃ later, Activated (g.updates ++ []) "7" later := by
  have returned : readActiveTaskFromTranscript parseUpdate
      (some ((updateLine "in_progress").1 ++ "\n" ++ "\x7b")) none "now" =
        some (some ⟨"7", "", "now", none, none⟩) := by
    rw [readActiveTaskFromTranscript, parseTranscriptTasks, gather, segs_updateLine]
    decide +kernel
  obtain ⟨g, gathered, named, _⟩ := active_task_running parseUpdate _ none "now" returned
  exact ⟨g, gathered, (named _ rfl).1⟩

/-- The task has been set back to `pending`, and is still the active one. -/
theorem pending_task_named :
    let raw := (updateLine "in_progress").1 ++ "\n" ++ (updateLine "pending").1
    readActiveTaskFromTranscript parseUpdate (some raw) none "now" =
        some (some ⟨"7", "", "now", none, none⟩) ∧
      (gather parseUpdate raw).map (fun g => lastStatus g.updates "7") = some (some "pending") ∧
      readOpenTasksFromTranscript parseUpdate (some raw) none = some [⟨"7", "pending", none⟩] := by
  have plain : '\n' ∉ (updateLine "pending").1.toList := by decide +kernel
  dsimp only
  rw [readActiveTaskFromTranscript, readOpenTasksFromTranscript, parseTranscriptTasks, gather,
    segs_updateLine, PathText.segs_of_not_mem plain]
  decide +kernel

end Opensquid.Hooks
