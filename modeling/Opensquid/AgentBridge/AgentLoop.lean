import Opensquid.Lib.Whitespace
import Opensquid.AgentBridge.SessionPersistence

/-!
# The turns of a chat agent

A turn sends the history of its session to the model, lap by lap: a reply that stops for tools is
answered with their results and sent again, any other reply ends the turn, and so does a floor
under the number of laps. What a stored turn appended is history for all turns to come.

The model takes a request only if every tool call in it is answered in the next message and every
answer is to a call of the message before, no message is without content, the user has the first
and the last word, and four blocks at most are marked for its cache (`Accepted`).

* `accepted_iff_sound`: the requests of a session are so exactly as long as no reply in its history asks
  for tools without stopping for them, or stops for them without asking, or is empty.
* `session_stuck`: after such a reply no turn of the session succeeds any more. The loop keeps the
  reply, cut off in the middle of a tool call say, and answers only what stops for tools.
-/

namespace Opensquid.AgentBridge

open Opensquid.Lib

/-! ## The resource floor -/

inductive ResourceAction
  | pass
  | warn
  | halt
  deriving DecidableEq, Repr

structure ResourceFloor where
  cap : Nat
  warnOffset : Nat
  count : Nat := 0

def DEFAULT_WARN_OFFSET : Nat := 1

def ResourceFloor.observe (floor : ResourceFloor) : ResourceAction × ResourceFloor :=
  let count := floor.count + 1
  (if floor.cap ≤ count then .halt
    else if floor.cap - floor.warnOffset ≤ count then .warn else .pass, { floor with count })

theorem ResourceFloor.observe_halt (floor : ResourceFloor) :
    floor.observe.1 = .halt ↔ floor.cap ≤ floor.count + 1 := by
  unfold observe
  dsimp only
  split
  · simp [*]
  · split <;> simp [*]

/-! ## Requests and responses -/

def MAX_TOOL_ITERATIONS : Nat := 8

def DEFAULT_MAX_TOKENS : Nat := 1024

def CACHE_BREAKPOINT_USER_MSGS : Nat := 2

/-- A block of a request, and whether it carries `cache_control`. -/
structure RequestBlock where
  block : ContentBlock
  cacheControl : Bool

structure MessageParam where
  role : ChatRole
  content : List RequestBlock

structure SystemBlock where
  text : String
  cacheControl : Bool

structure ToolSpec where
  name : String
  description : String
  inputSchema : Json

structure MessageCreateParams where
  model : String
  maxTokens : Nat
  system : List SystemBlock
  tools : List ToolSpec
  messages : List MessageParam

inductive ResponseBlock
  | text (value : String)
  | toolUse (id name : String) (input : Option Json)

inductive StopReason
  | endTurn
  | maxTokens
  | stopSequence
  | toolUse
  deriving DecidableEq, Repr

def StopReason.text : StopReason → String
  | endTurn => "end_turn"
  | maxTokens => "max_tokens"
  | stopSequence => "stop_sequence"
  | toolUse => "tool_use"

structure MessageResponse where
  content : List ResponseBlock
  stopReason : Option StopReason

structure RunAgentTurnOptions where
  model : String
  systemPrompt : String
  tools : List ToolSpec
  maxTokens : Option Nat := none
  maxToolIterations : Option Nat := none
  warnOffset : Option Nat := none

/-- What a turn meets, lap by lap: the model's replies, the results of the tools in the blocks of
a reply, and the clock at each new entry. -/
structure TurnEnv where
  client : Nat → MessageCreateParams → Except String MessageResponse
  tool : Nat → Nat → String → Option Json → Except String String
  nowIso : Nat → String

structure RunAgentTurnResult where
  assistantEntries : List ChatHistoryEntry
  replyText : String
  /-- The reason, where the floor halted the turn. -/
  halted : Option String

/-! ## The loop -/

def ContentBlock.isText : ContentBlock → Bool
  | .text _ => true
  | .toolUse _ _ _ | .toolResult _ _ => false

/-- The indices of the last user entries with a text. -/
def pickCacheTargets (working : List ChatHistoryEntry) : List Nat :=
  let userTextIdx := (List.range working.length).filter fun i =>
    (working[i]?).any fun entry => entry.role = .user && entry.content.any ContentBlock.isText
  userTextIdx.drop (userTextIdx.length - CACHE_BREAKPOINT_USER_MSGS)

/-- The blocks of an entry, the last of them marked if `mark`. -/
def markLast (mark : Bool) : List ContentBlock → List RequestBlock
  | [] => []
  | [block] => [⟨block, mark⟩]
  | block :: next :: rest => ⟨block, false⟩ :: markLast mark (next :: rest)

def toRequestMessage (entry : ChatHistoryEntry) (mark : Bool) : MessageParam :=
  ⟨entry.role, markLast mark entry.content⟩

def fromResponseBlock : ResponseBlock → ContentBlock
  | .text text => .text text
  | .toolUse id name input => .toolUse id name input

def ResponseBlock.textOf : ResponseBlock → Option String
  | .text value => some value
  | .toolUse _ _ _ => none

def extractTextReply (response : MessageResponse) : String :=
  String.ofList (trim ("\n".intercalate (response.content.filterMap ResponseBlock.textOf)).toList)

/-- What a turn has gathered: the working history, the new entries, the replies, and the requests
with the replies that came before each. -/
structure TurnState where
  working : List ChatHistoryEntry
  newEntries : List ChatHistoryEntry
  replies : List MessageResponse := []
  sent : List (List MessageResponse × MessageCreateParams) := []

def TurnState.push (st : TurnState) (entry : ChatHistoryEntry) : TurnState :=
  { st with working := st.working ++ [entry], newEntries := st.newEntries ++ [entry] }

section

variable (env : TurnEnv) (opts : RunAgentTurnOptions)

def createParams (working : List ChatHistoryEntry) : MessageCreateParams where
  model := opts.model
  maxTokens := opts.maxTokens.getD DEFAULT_MAX_TOKENS
  system := [⟨opts.systemPrompt, true⟩]
  tools := opts.tools
  messages := working.zipIdx.map fun (entry, i) =>
    toRequestMessage entry (i ∈ pickCacheTargets working)

/-- The result of a tool call; what the tool throws is a result as well. -/
def toolResult (lap index : Nat) : ResponseBlock → Option ContentBlock
  | .text _ => none
  | .toolUse id name input =>
      some (.toolResult id (match env.tool lap index name input with
        | .ok text => text
        | .error message => "tool error: " ++ message))

def toolResults (lap : Nat) (blocks : List ResponseBlock) : List ContentBlock :=
  blocks.zipIdx.filterMap fun (block, index) => toolResult env lap index block

def haltReason (cap : Nat) (last : Option MessageResponse) : String :=
  "resource floor: reached MAX_TOOL_ITERATIONS=" ++ toString cap ++ " (last stop_reason=" ++
    ((last.bind MessageResponse.stopReason).elim "never-called" StopReason.text) ++ ")"

def inboundEntry (inboundText : String) : ChatHistoryEntry :=
  { role := .user, content := [.text inboundText], timestamp := env.nowIso 0 }

def assistantEntry (st : TurnState) (response : MessageResponse) : ChatHistoryEntry :=
  { role := .assistant
    content := response.content.map fromResponseBlock
    timestamp := env.nowIso st.newEntries.length }

def toolResultEntry (st : TurnState) (lap : Nat) (response : MessageResponse) :
    ChatHistoryEntry :=
  { role := .user
    content := toolResults env lap response.content
    timestamp := env.nowIso st.newEntries.length }

/-- The laps of a turn; with the fuel of `runAgentTurn` they end (`runAgentTurn_ends`). -/
def turnLaps : Nat → ResourceFloor → TurnState →
    Option (Except String RunAgentTurnResult × TurnState)
  | 0, _, _ => none
  | fuel + 1, floor, st =>
      if floor.observe.1 = .halt then
        let reason := haltReason floor.cap st.replies.getLast?
        some (.ok ⟨st.newEntries, "Stopped: " ++ reason ++ ".", some reason⟩, st)
      else
        let request := createParams opts st.working
        let asked := { st with sent := st.sent ++ [(st.replies, request)] }
        match env.client floor.count request with
        | .error error => some (.error error, asked)
        | .ok response =>
            let replied := { asked with replies := st.replies ++ [response] }.push
              (assistantEntry env st response)
            if response.stopReason ≠ some .toolUse then
              some (.ok ⟨replied.newEntries, extractTextReply response, none⟩, replied)
            else
              turnLaps fuel floor.observe.2
                (replied.push (toolResultEntry env replied floor.count response))

def maxIterations : Nat := opts.maxToolIterations.getD MAX_TOOL_ITERATIONS

def runAgentTurn (history : List ChatHistoryEntry) (inboundText : String) :
    Option (Except String RunAgentTurnResult × TurnState) :=
  turnLaps env opts (maxIterations opts + 1)
    { cap := maxIterations opts, warnOffset := opts.warnOffset.getD DEFAULT_WARN_OFFSET }
    { working := history ++ [inboundEntry env inboundText]
      newEntries := [inboundEntry env inboundText] }

end

/-! ## A session -/

/-- A turn of a session. It is not stored if the session has left the cache meanwhile, or if the
append to its file fails. -/
structure SessionTurn where
  text : String
  opts : RunAgentTurnOptions
  env : TurnEnv
  stored : Bool

/-- The history of a session, the replies in it, and all requests, each with the replies in the
history it sent. -/
structure ChatSession where
  history : List ChatHistoryEntry := []
  replies : List MessageResponse := []
  sent : List (List MessageResponse × MessageCreateParams) := []

def SessionTurn.run (turn : SessionTurn) (session : ChatSession) :
    Option (Except String RunAgentTurnResult × TurnState) :=
  runAgentTurn turn.env turn.opts session.history turn.text

def ChatSession.turn (session : ChatSession) (turn : SessionTurn) : ChatSession :=
  match turn.run session with
  | none => session
  | some (result, st) =>
      let asked := { session with
        sent := session.sent ++ st.sent.map fun asked =>
          (session.replies ++ asked.1, asked.2) }
      match result with
      | .error _ => asked
      | .ok result =>
          if turn.stored then
            { asked with
              history := session.history ++ result.assistantEntries
              replies := session.replies ++ st.replies }
          else asked

def ChatSession.run (session : ChatSession) (turns : List SessionTurn) : ChatSession :=
  turns.foldl ChatSession.turn session

/-! ## What the model accepts -/

def ContentBlock.call : ContentBlock → Option String
  | .toolUse id _ _ => some id
  | .text _ | .toolResult _ _ => none

def ContentBlock.answer : ContentBlock → Option String
  | .toolResult id _ => some id
  | .text _ | .toolUse _ _ _ => none

def calls (content : List ContentBlock) : List String := content.filterMap ContentBlock.call

def answers (content : List ContentBlock) : List String := content.filterMap ContentBlock.answer

/-- The tool calls that are still to be answered after some messages; none, if a message does not
answer the calls of the one before or answers others. -/
def pendingAfter : List String → List (List ContentBlock) → Option (List String)
  | pending, [] => some pending
  | pending, content :: rest =>
      if pending ⊆ answers content ∧ answers content ⊆ pending then
        pendingAfter (calls content) rest
      else none

def MessageParam.blocks (message : MessageParam) : List ContentBlock :=
  message.content.map RequestBlock.block

def MessageCreateParams.marks (request : MessageCreateParams) : Nat :=
  request.system.countP SystemBlock.cacheControl +
    (request.messages.flatMap MessageParam.content).countP RequestBlock.cacheControl

/-- Contents in which all tool calls are answered. -/
def Answered (contents : List (List ContentBlock)) : Prop :=
  pendingAfter [] contents = some [] ∧ ∀ content ∈ contents, content ≠ []

instance (contents : List (List ContentBlock)) : Decidable (Answered contents) :=
  inferInstanceAs (Decidable (_ ∧ _))

def MessageCreateParams.Accepted (request : MessageCreateParams) : Prop :=
  Answered (request.messages.map MessageParam.blocks) ∧
    request.messages.head?.map MessageParam.role = some .user ∧
    request.messages.getLast?.map MessageParam.role = some .user ∧
    request.marks ≤ 4

instance (request : MessageCreateParams) : Decidable request.Accepted :=
  inferInstanceAs (Decidable (_ ∧ _ ∧ _ ∧ _))

/-- A reply that asks for tools exactly if it stops for them, and is not empty. -/
def MessageResponse.Sound (response : MessageResponse) : Prop :=
  response.content ≠ [] ∧
    (response.stopReason = some .toolUse ↔ calls (response.content.map fromResponseBlock) ≠ [])

/-! ## Messages -/

section

variable {contents : List (List ContentBlock)} {content reply results : List ContentBlock}

theorem pendingAfter_append (pending : List String) (contents more : List (List ContentBlock)) :
    pendingAfter pending (contents ++ more) =
      (pendingAfter pending contents).bind fun pending => pendingAfter pending more := by
  induction contents generalizing pending with
  | nil => rfl
  | cons content rest ih =>
      rw [List.cons_append, pendingAfter, pendingAfter]
      split
      · exact ih _
      · rfl

/-- A message that answers nothing keeps the calls before it answered if there are none. -/
theorem answered_append (silent : answers content = []) :
    Answered (contents ++ [content]) ↔
      Answered contents ∧ content ≠ [] ∧ calls content = [] := by
  unfold Answered
  rw [pendingAfter_append]
  cases pendingAfter [] contents with
  | none => simp
  | some pending =>
      cases pending with
      | nil =>
        simp [pendingAfter, silent, or_imp, forall_and]
        grind
      | cons id pending => simp [pendingAfter, silent]

/-- A round keeps the calls before it answered if there are none. -/
theorem answered_round (silent : answers reply = []) (answer : answers results = calls reply)
    (final : calls results = []) :
    Answered (contents ++ [reply, results]) ↔
      Answered contents ∧ reply ≠ [] ∧ results ≠ [] := by
  unfold Answered
  rw [pendingAfter_append]
  cases pendingAfter [] contents with
  | none => simp
  | some pending =>
      cases pending with
      | nil =>
        simp [pendingAfter, silent, answer, final, or_imp, forall_and]
      | cons id pending => simp [pendingAfter, silent]

theorem answers_reply (blocks : List ResponseBlock) :
    answers (blocks.map fromResponseBlock) = [] := by
  unfold answers
  rw [List.filterMap_map, List.filterMap_eq_nil_iff]
  intro block _
  cases block with
  | text value => rfl
  | toolUse id name input => rfl

/-- The results of a round answer its calls one by one. -/
theorem map_answer_toolResults (env : TurnEnv) (lap : Nat) (blocks : List ResponseBlock) :
    (toolResults env lap blocks).map ContentBlock.answer =
      (calls (blocks.map fromResponseBlock)).map some := by
  unfold toolResults
  generalize 0 = index
  induction blocks generalizing index with
  | nil => rfl
  | cons block rest ih =>
      cases block with
      | text value => exact ih (index + 1)
      | toolUse id name input => exact congrArg (some id :: ·) (ih (index + 1))

theorem answers_toolResults (env : TurnEnv) (lap : Nat) (blocks : List ResponseBlock) :
    answers (toolResults env lap blocks) = calls (blocks.map fromResponseBlock) := by
  have one := congrArg (List.filterMap id) (map_answer_toolResults env lap blocks)
  simpa [List.filterMap_map, answers] using one

theorem toolResults_eq_nil (env : TurnEnv) (lap : Nat) (blocks : List ResponseBlock) :
    toolResults env lap blocks = [] ↔ calls (blocks.map fromResponseBlock) = [] := by
  have one := congrArg List.length (map_answer_toolResults env lap blocks)
  rw [List.length_map, List.length_map] at one
  rw [← List.length_eq_zero_iff, ← List.length_eq_zero_iff, one]

theorem calls_toolResults (env : TurnEnv) (lap : Nat) (blocks : List ResponseBlock) :
    calls (toolResults env lap blocks) = [] := by
  unfold calls
  rw [List.filterMap_eq_nil_iff]
  intro block held
  have some_answer : block.answer ∈ (toolResults env lap blocks).map ContentBlock.answer :=
    List.mem_map_of_mem held
  rw [map_answer_toolResults] at some_answer
  obtain ⟨id, -, answer⟩ := List.mem_map.1 some_answer
  cases block with
  | toolResult id content => rfl
  | text value => cases answer
  | toolUse id name input => cases answer

end

/-! ## Requests -/

section

variable {working : List ChatHistoryEntry}

theorem map_block_markLast (mark : Bool) (content : List ContentBlock) :
    (markLast mark content).map RequestBlock.block = content := by
  induction content with
  | nil => rfl
  | cons block rest ih =>
      cases rest with
      | nil => rfl
      | cons next rest => rw [markLast, List.map_cons, ih]

theorem countP_markLast (mark : Bool) (content : List ContentBlock) :
    (markLast mark content).countP RequestBlock.cacheControl ≤ mark.toNat := by
  induction content with
  | nil => exact Nat.zero_le _
  | cons block rest ih =>
      cases rest with
      | nil => cases mark <;> exact Nat.le_refl _
      | cons next rest => simpa [markLast] using ih

theorem length_pickCacheTargets (working : List ChatHistoryEntry) :
    (pickCacheTargets working).length ≤ CACHE_BREAKPOINT_USER_MSGS := by
  unfold pickCacheTargets
  rw [List.length_drop]
  omega

theorem countP_le_split (index : Nat) (targets : List Nat) :
    targets.countP (index ≤ ·) =
      targets.countP (· = index) + targets.countP (index + 1 ≤ ·) := by
  induction targets with
  | nil => rfl
  | cons target rest ih =>
      simp only [List.countP_cons, ih, decide_eq_true_eq]
      split <;> split <;> split <;> omega

/-- From each index on there are as many marks as targets, at most. -/
theorem countP_marks_le (targets : List Nat) (working : List ChatHistoryEntry) (index : Nat) :
    (((working.zipIdx index).map fun (entry, i) => toRequestMessage entry (i ∈ targets)).flatMap
      MessageParam.content).countP RequestBlock.cacheControl ≤ targets.countP (index ≤ ·) := by
  induction working generalizing index with
  | nil => exact Nat.zero_le _
  | cons entry rest ih =>
      have marked : (toRequestMessage entry (decide (index ∈ targets))).content.countP
          RequestBlock.cacheControl ≤ targets.countP (· = index) := by
        refine Nat.le_trans (countP_markLast _ _) ?_
        by_cases target : index ∈ targets
        · have once : 0 < targets.countP (· = index) :=
            List.countP_pos_iff.2 ⟨index, target, by simp⟩
          rwa [decide_eq_true target]
        · simp [target]
      have below := ih (index + 1)
      rw [List.zipIdx_cons, List.map_cons, List.flatMap_cons, List.countP_append, countP_le_split]
      exact Nat.add_le_add marked below

/-- A request is accepted exactly if the tool calls of the history it sends are answered. -/
theorem createParams_accepted (opts : RunAgentTurnOptions)
    (opens : working.head?.map ChatHistoryEntry.role = some .user)
    (closes : working.getLast?.map ChatHistoryEntry.role = some .user) :
    (createParams opts working).Accepted ↔ Answered (working.map ChatHistoryEntry.content) := by
  have blocks : (createParams opts working).messages.map MessageParam.blocks =
      working.map ChatHistoryEntry.content := by
    unfold createParams
    rw [List.map_map, ← List.zipIdx_map_fst 0 working, List.map_map, List.zipIdx_map_fst]
    exact List.map_congr_left fun (entry, i) _ => map_block_markLast _ entry.content
  have roles : (createParams opts working).messages.map MessageParam.role =
      working.map ChatHistoryEntry.role := by
    unfold createParams
    rw [List.map_map, ← List.zipIdx_map_fst 0 working, List.map_map, List.zipIdx_map_fst]
    rfl
  have marks : (createParams opts working).marks ≤ 4 := by
    have few := countP_marks_le (pickCacheTargets working) working 0
    have all : (pickCacheTargets working).countP (0 ≤ ·) ≤ CACHE_BREAKPOINT_USER_MSGS :=
      Nat.le_trans List.countP_le_length (length_pickCacheTargets working)
    have system : (createParams opts working).system.countP SystemBlock.cacheControl = 1 := rfl
    have two : CACHE_BREAKPOINT_USER_MSGS = 2 := rfl
    unfold MessageCreateParams.marks
    rw [system]
    exact Nat.le_trans (Nat.add_le_add_left (Nat.le_trans few all) 1) (by decide)
  unfold MessageCreateParams.Accepted
  rw [blocks, ← List.head?_map, ← List.getLast?_map, roles, List.head?_map, List.getLast?_map]
  exact ⟨fun accepted => accepted.1, fun answered => ⟨answered, opens, closes, marks⟩⟩

end

/-! ## A turn -/

section

variable {env : TurnEnv} {opts : RunAgentTurnOptions} {floor : ResourceFloor} {st st' : TurnState}
  {history : List ChatHistoryEntry} {kept : List MessageResponse}

/-- What holds of a turn on a history with the replies `kept`. -/
structure TurnState.Fair (history : List ChatHistoryEntry) (kept : List MessageResponse)
    (st : TurnState) : Prop where
  grown : st.working = history ++ st.newEntries
  opens : st.working.head?.map ChatHistoryEntry.role = some .user
  answered : Answered (st.working.map ChatHistoryEntry.content) ↔
    ∀ reply ∈ kept ++ st.replies, reply.Sound
  sent : ∀ asked ∈ st.sent, asked.2.Accepted ↔ ∀ reply ∈ kept ++ asked.1, reply.Sound

theorem TurnState.Fair.ask (opts : RunAgentTurnOptions) (fair : st.Fair history kept)
    (closes : st.working.getLast?.map ChatHistoryEntry.role = some .user) :
    { st with sent := st.sent ++ [(st.replies, createParams opts st.working)] }.Fair
      history kept := by
  refine ⟨fair.grown, fair.opens, fair.answered, fun asked held => ?_⟩
  rcases List.mem_append.1 held with held | held
  · exact fair.sent asked held
  · obtain rfl := List.mem_singleton.1 held
    exact (createParams_accepted opts fair.opens closes).trans fair.answered

theorem head?_push {working : List ChatHistoryEntry} (more : List ChatHistoryEntry)
    (opens : working.head?.map ChatHistoryEntry.role = some .user) :
    (working ++ more).head?.map ChatHistoryEntry.role = some .user := by
  cases working with
  | nil => cases opens
  | cons entry rest => exact opens

theorem forall_sound_append (replies : List MessageResponse) (response : MessageResponse) :
    (∀ reply ∈ kept ++ (replies ++ [response]), reply.Sound) ↔
      (∀ reply ∈ kept ++ replies, reply.Sound) ∧ response.Sound := by
  rw [← List.append_assoc, List.forall_mem_append, List.forall_mem_singleton]

/-- A reply that ends the turn. -/
theorem TurnState.Fair.reply {response : MessageResponse} (fair : st.Fair history kept)
    (ends : response.stopReason ≠ some .toolUse) (entry : ChatHistoryEntry)
    (content : entry.content = response.content.map fromResponseBlock) :
    ({ st with replies := st.replies ++ [response] }.push entry).Fair history kept where
  grown := by
    show st.working ++ [entry] = history ++ (st.newEntries ++ [entry])
    rw [fair.grown, List.append_assoc]
  opens := head?_push [entry] fair.opens
  answered := by
    have sound : response.Sound ↔ entry.content ≠ [] ∧ calls entry.content = [] := by
      simp [MessageResponse.Sound, ends, content]
    show Answered ((st.working ++ [entry]).map ChatHistoryEntry.content) ↔ _
    rw [List.map_append, List.map_singleton,
      answered_append (by rw [content]; exact answers_reply _), fair.answered, ← sound]
    exact (forall_sound_append st.replies response).symm
  sent := fair.sent

/-- A reply that stops for tools, and their results. -/
theorem TurnState.Fair.round {response : MessageResponse} (fair : st.Fair history kept)
    (stops : response.stopReason = some .toolUse) (entry results : ChatHistoryEntry) (lap : Nat)
    (content : entry.content = response.content.map fromResponseBlock)
    (resulted : results.content = toolResults env lap response.content) :
    (({ st with replies := st.replies ++ [response] }.push entry).push results).Fair
      history kept where
  grown := by
    show st.working ++ [entry] ++ [results] = history ++ (st.newEntries ++ [entry] ++ [results])
    rw [fair.grown, List.append_assoc, List.append_assoc, List.append_assoc]
  opens := head?_push [results] (head?_push [entry] fair.opens)
  answered := by
    have sound : response.Sound ↔ entry.content ≠ [] ∧ results.content ≠ [] := by
      simp [MessageResponse.Sound, stops, content, resulted, toolResults_eq_nil]
    have answer : answers results.content = calls entry.content := by
      rw [resulted, content, answers_toolResults]
    show Answered ((st.working ++ [entry] ++ [results]).map ChatHistoryEntry.content) ↔ _
    rw [List.append_assoc, List.map_append, List.singleton_append, List.map_cons, List.map_cons,
      List.map_nil, answered_round (by rw [content]; exact answers_reply _) answer
        (by rw [resulted]; exact calls_toolResults env lap _), fair.answered, ← sound]
    exact (forall_sound_append st.replies response).symm
  sent := fair.sent

theorem getLast?_push (working : List ChatHistoryEntry) (entry : ChatHistoryEntry)
    (user : entry.role = .user) :
    (working ++ [entry]).getLast?.map ChatHistoryEntry.role = some .user := by
  rw [List.getLast?_concat, Option.map_some, user]

/-- All laps of a turn keep what one of them keeps. -/
theorem turnLaps_fair {result : Except String RunAgentTurnResult} (fuel : Nat)
    (fair : st.Fair history kept)
    (closes : st.working.getLast?.map ChatHistoryEntry.role = some .user)
    (ran : turnLaps env opts fuel floor st = some (result, st')) :
    st'.Fair history kept ∧ ∀ ok, result = .ok ok → ok.assistantEntries = st'.newEntries := by
  induction fuel generalizing floor st with
  | zero => cases ran
  | succ fuel ih =>
      have asked := fair.ask opts closes
      unfold turnLaps at ran
      split at ran
      · obtain ⟨rfl, rfl⟩ := Prod.mk.inj (Option.some.inj ran)
        exact ⟨fair, fun ok eq => by rw [← Except.ok.inj eq]⟩
      · dsimp only at ran
        split at ran
        · obtain ⟨rfl, rfl⟩ := Prod.mk.inj (Option.some.inj ran)
          exact ⟨asked, fun ok eq => by cases eq⟩
        next response replied =>
          split at ran
          next ends =>
            obtain ⟨rfl, rfl⟩ := Prod.mk.inj (Option.some.inj ran)
            exact ⟨asked.reply ends _ rfl, fun ok eq => by rw [← Except.ok.inj eq]⟩
          next stops =>
            exact ih (asked.round (not_not.1 stops) _ _ _ rfl rfl) (getLast?_push _ _ rfl) ran

/-- Every turn ends, and it sends fewer requests than the floor allows laps. -/
theorem turnLaps_ends (env : TurnEnv) (opts : RunAgentTurnOptions) (floor : ResourceFloor)
    (st : TurnState) (fuel : Nat) (enough : floor.cap ≤ fuel + floor.count) :
    ∃ result st', turnLaps env opts (fuel + 1) floor st = some (result, st') ∧
      st'.sent.length ≤ st.sent.length + (floor.cap - 1 - floor.count) := by
  induction fuel generalizing floor st with
  | zero =>
      have halts := floor.observe_halt.2 (by omega)
      rw [turnLaps, if_pos halts]
      exact ⟨_, _, rfl, Nat.le_add_right _ _⟩
  | succ fuel ih =>
      by_cases halts : floor.observe.1 = .halt
      · rw [turnLaps, if_pos halts]
        exact ⟨_, _, rfl, Nat.le_add_right _ _⟩
      · have room : floor.count + 1 < floor.cap := by
          rw [floor.observe_halt] at halts
          omega
        have one (request : List MessageResponse × MessageCreateParams) :
            (st.sent ++ [request]).length ≤ st.sent.length + (floor.cap - 1 - floor.count) := by
          rw [List.length_append, List.length_singleton]
          omega
        rw [turnLaps, if_neg halts]
        dsimp only
        split
        · exact ⟨_, _, rfl, one _⟩
        next response replied =>
          split
          · exact ⟨_, _, rfl, one _⟩
          · have next_enough : floor.observe.2.cap ≤ fuel + floor.observe.2.count := by
              show floor.cap ≤ fuel + (floor.count + 1)
              omega
            obtain ⟨result, st', ran, few⟩ := ih _ _ next_enough
            refine ⟨result, st', ran, Nat.le_trans few ?_⟩
            show (st.sent ++ [_]).length + (floor.cap - 1 - (floor.count + 1)) ≤ _
            rw [List.length_append, List.length_singleton]
            omega

theorem runAgentTurn_ends (env : TurnEnv) (opts : RunAgentTurnOptions)
    (history : List ChatHistoryEntry) (text : String) :
    ∃ result st, runAgentTurn env opts history text = some (result, st) ∧
      st.sent.length ≤ maxIterations opts - 1 := by
  obtain ⟨result, st, ran, few⟩ := turnLaps_ends env opts
    { cap := maxIterations opts, warnOffset := opts.warnOffset.getD DEFAULT_WARN_OFFSET }
    ⟨history ++ [inboundEntry env text], [inboundEntry env text], [], []⟩
    (maxIterations opts) (Nat.le_refl _)
  exact ⟨result, st, ran, by simpa using few⟩

end

/-! ## All turns of a session -/

section

variable {session : ChatSession} {turns later : List SessionTurn}

structure ChatSession.Fair (session : ChatSession) : Prop where
  opens : ∀ entry ∈ session.history.head?, entry.role = .user
  answered : Answered (session.history.map ChatHistoryEntry.content) ↔
    ∀ reply ∈ session.replies, reply.Sound
  sent : ∀ asked ∈ session.sent, asked.2.Accepted ↔ ∀ reply ∈ asked.1, reply.Sound

theorem answered_inbound (env : TurnEnv) (text : String) (history : List ChatHistoryEntry) :
    Answered ((history ++ [inboundEntry env text]).map ChatHistoryEntry.content) ↔
      Answered (history.map ChatHistoryEntry.content) := by
  rw [List.map_append, List.map_singleton, answered_append rfl]
  exact and_iff_left ⟨List.cons_ne_nil _ _, rfl⟩

theorem inbound_opens (fair : session.Fair) (env : TurnEnv) (text : String) :
    (session.history ++ [inboundEntry env text]).head?.map ChatHistoryEntry.role = some .user := by
  have opens := fair.opens
  cases history : session.history with
  | nil => rfl
  | cons entry rest =>
      rw [history] at opens
      exact congrArg some (opens entry rfl)

theorem ChatSession.Fair.turn (fair : session.Fair) (turn : SessionTurn) :
    (session.turn turn).Fair := by
  have opens := inbound_opens fair turn.env turn.text
  obtain ⟨result, st, ran, -⟩ :=
    runAgentTurn_ends turn.env turn.opts session.history turn.text
  have start : TurnState.Fair session.history session.replies
      ⟨session.history ++ [inboundEntry turn.env turn.text], [inboundEntry turn.env turn.text],
        [], []⟩ :=
    ⟨rfl, opens, by rw [answered_inbound, List.append_nil]; exact fair.answered,
      List.forall_mem_nil _⟩
  obtain ⟨laps, stored⟩ := turnLaps_fair _ start (getLast?_push _ _ rfl) ran
  have sent : ∀ asked ∈ session.sent ++ st.sent.map fun asked =>
      (session.replies ++ asked.1, asked.2), asked.2.Accepted ↔ ∀ reply ∈ asked.1, reply.Sound := by
    intro asked held
    rcases List.mem_append.1 held with held | held
    · exact fair.sent asked held
    · obtain ⟨own, owned, rfl⟩ := List.mem_map.1 held
      exact laps.sent own owned
  have ran : turn.run session = some (result, st) := ran
  unfold ChatSession.turn
  rw [ran]
  cases result with
  | error error => exact ⟨fair.opens, fair.answered, sent⟩
  | ok result =>
      dsimp only
      split
      · have grown : session.history ++ result.assistantEntries = st.working := by
          rw [stored result rfl, laps.grown]
        rw [grown]
        refine ⟨fun entry first => ?_, laps.answered, sent⟩
        have opens := laps.opens
        rw [Option.mem_def.1 first] at opens
        exact Option.some.inj opens
      · exact ⟨fair.opens, fair.answered, sent⟩

theorem run_fair (fair : session.Fair) (turns : List SessionTurn) : (session.run turns).Fair := by
  induction turns generalizing session with
  | nil => exact fair
  | cons turn rest ih => exact ih (fair.turn turn)

theorem start_fair : ChatSession.Fair {} :=
  ⟨fun _ first => (Option.not_mem_none _ first).elim,
    ⟨fun _ => List.forall_mem_nil _, fun _ => ⟨rfl, List.forall_mem_nil _⟩⟩,
    List.forall_mem_nil _⟩

/-- Each request of a session is accepted exactly if all replies in the history it sends are
sound. -/
theorem accepted_iff_sound (turns : List SessionTurn) :
    ∀ asked ∈ (ChatSession.run {} turns).sent,
      asked.2.Accepted ↔ ∀ reply ∈ asked.1, reply.Sound :=
  (run_fair start_fair turns).sent

/-- A model that cuts its first reply off after a tool call. -/
def cutOffClient (request : MessageCreateParams) : Except String MessageResponse :=
  if request.Accepted then .ok ⟨[.toolUse "call_1" "recall" none], some .maxTokens⟩
  else .error "tool_use ids were found without tool_result blocks"

def cutOffTurn : SessionTurn where
  text := "hi"
  opts := { model := "m", systemPrompt := "p", tools := [] }
  env := { client := fun _ => cutOffClient, tool := fun _ _ _ _ => .ok "", nowIso := fun _ => "" }
  stored := true

/-- The second turn sends the call of the first without an answer. -/
theorem accepted_iff_sound_cutOff :
    ∃ asked ∈ (ChatSession.run {} [cutOffTurn, cutOffTurn]).sent, ¬ asked.2.Accepted := by
  have second : 1 < (ChatSession.run {} [cutOffTurn, cutOffTurn]).sent.length := by decide
  refine ⟨_, List.getElem_mem second, ?_⟩
  rw [accepted_iff_sound _ _ (List.getElem_mem second)]
  intro sound
  exact nomatch (sound ⟨[.toolUse "call_1" "recall" none], some .maxTokens⟩
    (List.mem_singleton.2 rfl)).2.2 (List.cons_ne_nil _ _)

/-- The model refuses what it does not accept. -/
def TurnEnv.Refuses (env : TurnEnv) : Prop :=
  ∀ lap request, ¬ request.Accepted → ∃ error, env.client lap request = .error error

/-- The first request of a turn on an unsound history is refused. -/
theorem run_refused (fair : session.Fair) (turn : SessionTurn)
    (unsound : ∃ reply ∈ session.replies, ¬ reply.Sound) (refuses : turn.env.Refuses)
    (budget : 2 ≤ maxIterations turn.opts) :
    ∃ error st, turn.run session = some (.error error, st) := by
  have refused : ¬ (createParams turn.opts
      (session.history ++ [inboundEntry turn.env turn.text])).Accepted := by
    rw [createParams_accepted turn.opts (inbound_opens fair _ _) (getLast?_push _ _ rfl),
      answered_inbound, fair.answered]
    obtain ⟨reply, held, bad⟩ := unsound
    exact fun sound => bad (sound reply held)
  obtain ⟨error, refusal⟩ := refuses 0 _ refused
  have goes : ¬ (ResourceFloor.observe
      { cap := maxIterations turn.opts
        warnOffset := turn.opts.warnOffset.getD DEFAULT_WARN_OFFSET }).1 = .halt := by
    rw [ResourceFloor.observe_halt]
    exact Nat.not_le.2 budget
  unfold SessionTurn.run runAgentTurn
  rw [turnLaps, if_neg goes]
  dsimp only
  rw [refusal]
  exact ⟨error, _, rfl⟩

theorem turn_refused {turn : SessionTurn}
    (refused : ∃ error st, turn.run session = some (.error error, st)) :
    (session.turn turn).history = session.history ∧
      (session.turn turn).replies = session.replies := by
  obtain ⟨error, st, ran⟩ := refused
  unfold ChatSession.turn
  rw [ran]
  exact ⟨rfl, rfl⟩

/-- Refused turns leave the session as it is, but for the requests. -/
theorem run_stuck (fair : session.Fair) (unsound : ∃ reply ∈ session.replies, ¬ reply.Sound)
    (refuses : ∀ turn ∈ later, turn.env.Refuses)
    (budget : ∀ turn ∈ later, 2 ≤ maxIterations turn.opts) :
    (session.run later).history = session.history ∧
      (session.run later).replies = session.replies := by
  induction later generalizing session with
  | nil => exact ⟨rfl, rfl⟩
  | cons turn rest ih =>
      obtain ⟨history, replies⟩ := turn_refused (run_refused fair turn unsound
        (refuses turn List.mem_cons_self) (budget turn List.mem_cons_self))
      obtain ⟨history', replies'⟩ := ih (fair.turn turn) (by rwa [replies])
        (fun turn held => refuses turn (List.mem_cons_of_mem _ held))
        (fun turn held => budget turn (List.mem_cons_of_mem _ held))
      exact ⟨history'.trans history, replies'.trans replies⟩

/-- After an unsound reply in the history no turn of a session succeeds. -/
theorem session_stuck (unsound : ∃ reply ∈ (ChatSession.run {} turns).replies, ¬ reply.Sound)
    (refuses : ∀ turn ∈ later, turn.env.Refuses)
    (budget : ∀ turn ∈ later, 2 ≤ maxIterations turn.opts) :
    (ChatSession.run {} (turns ++ later)).history = (ChatSession.run {} turns).history ∧
      ∀ before turn after, later = before ++ turn :: after →
        ∃ error st, turn.run (ChatSession.run {} (turns ++ before)) = some (.error error, st) := by
  have fair := run_fair start_fair turns
  constructor
  · rw [ChatSession.run, List.foldl_append]
    exact (run_stuck fair unsound refuses budget).1
  · rintro before turn after rfl
    have fair' := run_fair start_fair (turns ++ before)
    rw [List.forall_mem_append] at refuses budget
    have replies : (ChatSession.run {} (turns ++ before)).replies =
        (ChatSession.run {} turns).replies := by
      rw [ChatSession.run, List.foldl_append]
      exact (run_stuck fair unsound refuses.1 budget.1).2
    rw [← replies] at unsound
    exact run_refused fair' turn unsound (refuses.2 turn List.mem_cons_self)
      (budget.2 turn List.mem_cons_self)

theorem cutOffTurn_refuses : cutOffTurn.env.Refuses := by
  intro lap request refused
  exact ⟨_, if_neg refused⟩

theorem session_stuck_cutOff :
    (ChatSession.run {} ([cutOffTurn] ++ [cutOffTurn])).history =
      (ChatSession.run {} [cutOffTurn]).history := by
  have unsound : ∃ reply ∈ (ChatSession.run {} [cutOffTurn]).replies, ¬ reply.Sound :=
    ⟨⟨[.toolUse "call_1" "recall" none], some .maxTokens⟩, List.mem_singleton.2 rfl,
      fun sound => nomatch sound.2.2 (List.cons_ne_nil _ _)⟩
  exact (session_stuck unsound
    (List.forall_mem_singleton.2 cutOffTurn_refuses)
    (List.forall_mem_singleton.2 (by decide))).1

end

end Opensquid.AgentBridge
