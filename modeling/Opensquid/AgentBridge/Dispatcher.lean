import Opensquid.Lib.PathText
import Opensquid.Lib.Steps

/-!
# The chat dispatcher

Inbound texts of a session are collected in a batch until a timer fires. The
flush of a batch asks for the session's lease, which is an asynchronous read, and
is then skipped or admitted: it starts a turn, or waits in a queue of depth one
behind the turn in flight, or is dropped when the queue has been filled up.

Sessions are independent of each other (`Sys.step`). The events of a session are
the arrival of a text, a timer that comes due, the queued timer callback, the
completion of a lease check, the end of a turn and the continuation that runs
after it. `clearTimeout` removes a timer and leaves a callback that is already
queued.
-/

namespace Opensquid.AgentBridge

open Opensquid.Lib

/-! ## Sessions and their texts -/

inductive SessionPlatform
  | telegram
  | discord
  | slack
  deriving DecidableEq, Repr

def SessionPlatform.text : SessionPlatform → String
  | .telegram => "telegram"
  | .discord => "discord"
  | .slack => "slack"

structure SessionKey where
  platform : SessionPlatform
  chatId : String
  threadId : Option String := none
  deriving DecidableEq, Repr

def sessionKeyString (k : SessionKey) : String :=
  match k.threadId with
  | some threadId => k.platform.text ++ ":" ++ k.chatId ++ ":" ++ threadId
  | none => k.platform.text ++ ":" ++ k.chatId

structure InboundChatEvent where
  sessionKey : SessionKey
  text : String
  projectUuid : String
  umbrellaId : Option String := none
  deriving Repr

/-- An ingested text with its place in the ingestion order of its session. -/
structure Chunk where
  seq : Nat
  text : String
  deriving DecidableEq, Repr

/-- A coalesced text with the ingested texts it is made of. -/
structure Batch where
  text : String
  chunks : List Chunk
  nonempty : chunks ≠ []
  joined : text = PathText.joinSegs '\n' (chunks.map (·.text))
  deriving DecidableEq

def Batch.single (chunk : Chunk) : Batch where
  text := chunk.text
  chunks := [chunk]
  nonempty := List.cons_ne_nil _ _
  joined := String.intercalate_singleton.symm

/-- `${text}\n${next}`. -/
def Batch.append (batch next : Batch) : Batch where
  text := batch.text ++ "\n" ++ next.text
  chunks := batch.chunks ++ next.chunks
  nonempty := List.append_ne_nil_of_left_ne_nil batch.nonempty _
  joined := by
    rw [List.map_append, PathText.joinSegs_append (List.map_eq_nil_iff.not.mpr batch.nonempty)
      (List.map_eq_nil_iff.not.mpr next.nonempty), ← batch.joined, ← next.joined]
    rfl

/-- A batch that the coordinator has handed to `onFlush`, numbered by that order. -/
structure Flush where
  number : Nat
  batch : Batch
  deriving DecidableEq

structure QueuedBatch where
  batch : Batch
  attempts : Nat

/-- The coordinator's and the dispatcher's state for one session, with the history
of its texts and flushes. -/
structure Session where
  projectUuid : Option String := none
  umbrellaId : Option String := none
  /-- The batch that is being collected. -/
  pending : Option Batch := none
  /-- The batch's timer is running. -/
  timer : Bool := false
  /-- Timer callbacks that are queued and have not run. -/
  callbacks : Nat := 0
  /-- Flushes whose lease check has not completed. -/
  checking : List Flush := []
  inFlight : Bool := false
  pendingQueue : Option QueuedBatch := none
  /-- Executions of `runTurnOnce` that have not ended. -/
  executing : Nat := 0
  /-- Executions that have ended and whose `runTurnChain` has not gone on. -/
  ended : Nat := 0
  ingested : List Chunk := []
  flushes : List Flush := []
  /-- The flushes that went into a turn or into the queue, in that order. -/
  admitted : List Flush := []
  skipped : List Flush := []
  dropped : List Flush := []
  /-- The texts given to `runTurnOnce`, in order. -/
  turns : List Batch := []

namespace Session

/-! ## Turns -/

def maxQueueCoalesceAttempts : Nat := 2

/-- The synchronous start of `runTurnChain`. -/
def runTurnChain (s : Session) (batch : Batch) : Session :=
  { s with inFlight := true, executing := s.executing + 1, turns := s.turns ++ [batch] }

/-- The queue has taken as many flushes as it may. -/
def full (s : Session) : Bool :=
  s.inFlight && s.pendingQueue.any fun queued => maxQueueCoalesceAttempts ≤ queued.attempts

/-- `handleFlush` after the lease check. -/
def admitFlush (s : Session) (flush : Flush) : Session :=
  if s.full then { s with dropped := s.dropped ++ [flush] }
  else
    let s := { s with admitted := s.admitted ++ [flush] }
    if s.inFlight then
      match s.pendingQueue with
      | none => { s with pendingQueue := some ⟨flush.batch, 1⟩ }
      | some queued =>
          { s with pendingQueue := some ⟨queued.batch.append flush.batch, queued.attempts + 1⟩ }
    else s.runTurnChain flush.batch

/-- The rest of `runTurnChain` once its turn has ended. -/
def drain (s : Session) : Session :=
  let s := { s with inFlight := false }
  match s.pendingQueue with
  | none => s
  | some queued => { s with pendingQueue := none }.runTurnChain queued.batch

/-! ## Batches -/

/-- `BatchCoordinator.ingest`; the timer is cleared and installed anew. -/
def ingest (s : Session) (text : String) : Session :=
  if text = "" then s
  else
    let chunk : Chunk := ⟨s.ingested.length, text⟩
    { s with
      pending := some <| match s.pending with
        | none => .single chunk
        | some batch => batch.append (.single chunk)
      timer := true
      ingested := s.ingested ++ [chunk] }

def handleInbound (s : Session) (event : InboundChatEvent) : Session :=
  { s with
    projectUuid := some event.projectUuid
    umbrellaId := event.umbrellaId.or s.umbrellaId }.ingest event.text

/-- The flush asks whether another session holds the lease. -/
def asksLease (s : Session) : Bool :=
  (s.projectUuid.any (· ≠ "")) || s.umbrellaId.isSome

/-- `BatchCoordinator.flush`, up to the first `await` of `handleFlush`. -/
def flush (s : Session) : Session :=
  match s.pending with
  | none => s
  | some batch =>
      let flush : Flush := ⟨s.flushes.length, batch⟩
      let s := { s with pending := none, flushes := s.flushes ++ [flush] }
      if s.asksLease then { s with checking := s.checking ++ [flush] } else s.admitFlush flush

end Session

/-! ## Events -/

inductive Event
  | inbound (event : InboundChatEvent)
  | timerDue (slug : String)
  | flush (slug : String)
  | leaseChecked (slug : String) (number : Nat) (skip : Bool)
  | turnEnded (slug : String)
  | chainResumed (slug : String)
  deriving Repr

def Event.slug : Event → String
  | .inbound event => sessionKeyString event.sessionKey
  | .timerDue slug => slug
  | .flush slug => slug
  | .leaseChecked slug _ _ => slug
  | .turnEnded slug => slug
  | .chainResumed slug => slug

/-- One event of a session; `none` when it is not enabled. -/
def Session.step (s : Session) : Event → Option Session
  | .inbound event => some (s.handleInbound event)
  | .timerDue _ =>
      if s.timer then some { s with timer := false, callbacks := s.callbacks + 1 } else none
  | .flush _ => if 0 < s.callbacks then some { s with callbacks := s.callbacks - 1 }.flush else none
  | .leaseChecked _ number skip =>
      match s.checking.find? (·.number = number) with
      | none => none
      | some flush =>
          let s := { s with checking := s.checking.erase flush }
          some (if skip then { s with skipped := s.skipped ++ [flush] } else s.admitFlush flush)
  | .turnEnded _ =>
      if 0 < s.executing then some { s with executing := s.executing - 1, ended := s.ended + 1 }
      else none
  | .chainResumed _ => if 0 < s.ended then some { s with ended := s.ended - 1 }.drain else none

/-- The sessions by their key string. -/
abbrev Sys := String → Session

def Sys.init : Sys := fun _ => {}

def Sys.step : Sys → Event → Option Sys := onComponent Event.slug Session.step

end Opensquid.AgentBridge
