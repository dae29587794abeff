import Mathlib.Data.List.Sort

/-!
# Work-graph types

The op-log vocabulary of the work-graph store: issues and edges are projections,
`WgOp` is the record that is appended, hashed and folded. A payload is modelled
by one constructor for each op type, carrying exactly the fields that type's
fold reads; the display timestamp `ts` is a field of the op.

SHA-256 is the parameter `Digest`: `digest n text` is the first `n` hex digits
of the hash of `text`. Nothing below assumes that it is free of collisions.
-/

namespace Opensquid.WorkGraph

inductive EdgeType
  | blocks
  | parentChild
  | discoveredFrom
  | related
  deriving DecidableEq, Repr

/-- The stored name of an edge type. -/
def EdgeType.name : EdgeType → String
  | .blocks => "blocks"
  | .parentChild => "parent-child"
  | .discoveredFrom => "discovered-from"
  | .related => "related"

inductive IssueStatus
  | «open»
  | inProgress
  | closed
  | archived
  deriving DecidableEq, Repr

/-- The stored name of a status. -/
def IssueStatus.name : IssueStatus → String
  | .open => "open"
  | .inProgress => "in_progress"
  | .closed => "closed"
  | .archived => "archived"

inductive ClaimSource
  | claudecode
  | codex
  | unknown
  deriving DecidableEq, Repr

def ClaimSource.name : ClaimSource → String
  | .claudecode => "claudecode"
  | .codex => "codex"
  | .unknown => "unknown"

/-- Who claimed an item. Informational: no fold reads into it. -/
structure ClaimAudience where
  source : ClaimSource
  threadId : Option String := none
  version : Option String := none
  deriving DecidableEq, Repr

/-- An op's type together with its payload. -/
inductive WgPayload
  | issueCreated (title body : String)
  | issueSet (title body : Option String) (status : Option IssueStatus)
  | depAdded (fromId toId : String) (type : EdgeType)
  | depRemoved (fromId toId : String)
  | issueArchived (reason : Option String)
  | issueUnarchived
  | claimAcquired (claimToken : String) (audience : ClaimAudience) (expiresAt : String)
  | claimRenewed (expectedToken expiresAt : String)
  | wedgeMarked (reason : String)
  | wedgeCleared
  | claimReleased (expectedToken : Option String)
  deriving DecidableEq, Repr

/-- `WgOpType`: the stored name of the op's type. -/
def WgPayload.type : WgPayload → String
  | .issueCreated .. => "issue_created"
  | .issueSet .. => "issue_set"
  | .depAdded .. => "dep_added"
  | .depRemoved .. => "dep_removed"
  | .issueArchived .. => "issue_archived"
  | .issueUnarchived => "issue_unarchived"
  | .claimAcquired .. => "claim_acquired"
  | .claimRenewed .. => "claim_renewed"
  | .wedgeMarked .. => "wedge_marked"
  | .wedgeCleared => "wedge_cleared"
  | .claimReleased .. => "claim_released"

/-- One op of the log. For a dependency op `issueId` is the `from` issue. -/
structure WgOp where
  id : String
  issueId : String
  lamport : Nat
  payload : WgPayload
  ts : String
  project : String
  actorId : String
  deriving DecidableEq, Repr

/-- A row of `wg_issues`; a nullable column is an `Option`. The audience column
holds the JSON text of the record kept here. -/
structure IssueRow where
  id : String
  title : String
  body : String
  status : IssueStatus
  createdAt : String
  updatedAt : String
  lww : Nat
  claimToken : Option String
  claimAudience : Option ClaimAudience
  claimExpiresAt : Option String
  wedgeReason : Option String
  archiveReason : Option String
  project : String
  createdLamport : Nat
  actorId : String
  deriving DecidableEq, Repr

/-- A row of `wg_edges`. -/
structure EdgeRow where
  edgeKey : String
  fromId : String
  toId : String
  type : EdgeType
  project : String
  deriving DecidableEq, Repr

/-! ## Canonical payload text and content-derived ids -/

/-- The first `n` hex digits of the SHA-256 of a text. -/
abbrev Digest := Nat → String → String

/-- One character inside a `JSON.stringify`d string. -/
def jsonChar (c : Char) : String :=
  match c.toNat with
  | 0x22 => "\\\""
  | 0x5C => "\\\\"
  | 0x08 => "\\b"
  | 0x09 => "\\t"
  | 0x0A => "\\n"
  | 0x0C => "\\f"
  | 0x0D => "\\r"
  | n =>
      if n < 0x20 then
        "\\u00" ++ String.ofList [Nat.digitChar (n / 16), Nat.digitChar (n % 16)]
      else String.ofList [c]

/-- `JSON.stringify` of a string. -/
def jsonString (text : String) : String :=
  "\"" ++ String.join (text.toList.map jsonChar) ++ "\""

/-- `canonicalJson` of an object whose values are already rendered: keys in
sorted order. -/
def canonicalObject (fields : List (String × String)) : String :=
  let sorted := fields.insertionSort fun a b => a.1 ≤ b.1
  "\x7b" ++ ",".intercalate (sorted.map fun (k, v) => jsonString k ++ ":" ++ v) ++ "\x7d"

/-- A field that is present only when its value is defined. -/
def optionalField (key : String) : Option String → List (String × String)
  | none => []
  | some v => [(key, jsonString v)]

def ClaimAudience.canonicalJson (a : ClaimAudience) : String :=
  canonicalObject <|
    ("source", jsonString a.source.name) ::
      (optionalField "threadId" a.threadId ++ optionalField "version" a.version)

/-- `canonicalJson` of an op's payload as it is hashed: without `ts`. -/
def WgPayload.canonicalJson : WgPayload → String
  | .issueCreated title body =>
      canonicalObject [("title", jsonString title), ("body", jsonString body)]
  | .issueSet title body status =>
      canonicalObject <| optionalField "title" title ++ optionalField "body" body ++
        optionalField "status" (status.map IssueStatus.name)
  | .depAdded fromId toId type =>
      canonicalObject
        [("from", jsonString fromId), ("to", jsonString toId), ("type", jsonString type.name)]
  | .depRemoved fromId toId =>
      canonicalObject [("from", jsonString fromId), ("to", jsonString toId)]
  | .issueArchived reason => canonicalObject (optionalField "reason" reason)
  | .issueUnarchived => canonicalObject []
  | .claimAcquired claimToken audience expiresAt =>
      canonicalObject
        [("claimToken", jsonString claimToken), ("audience", audience.canonicalJson),
          ("expiresAt", jsonString expiresAt)]
  | .claimRenewed expectedToken expiresAt =>
      canonicalObject
        [("expectedToken", jsonString expectedToken), ("expiresAt", jsonString expiresAt)]
  | .wedgeMarked reason => canonicalObject [("reason", jsonString reason)]
  | .wedgeCleared => canonicalObject []
  | .claimReleased expectedToken =>
      canonicalObject (optionalField "expectedToken" expectedToken)

/-- Deterministic edge identity: the two ends around a unit separator, the type
excluded. -/
def edgeKey (digest : Digest) (fromId toId : String) : String :=
  digest 16 (fromId ++ "\x1f" ++ toId)

/-- Content-addressed op id. The timestamp and the issue id are not hashed. -/
def makeOpId (digest : Digest) (payload : WgPayload) (lamport : Nat) (actorId : String) :
    String :=
  "op-" ++ digest 16
    (payload.type ++ "\n" ++ toString lamport ++ "\n" ++ actorId ++ "\n" ++
      payload.canonicalJson)

/-- Content-addressed issue id, a function of the lamport of its creation. -/
def newIssueId (digest : Digest) (title body : String) (lamport : Nat) (actorId : String) :
    String :=
  "wg-" ++ digest 12
    ((WgPayload.issueCreated title body).canonicalJson ++ "\n" ++ toString lamport ++ "\n" ++
      actorId)

end Opensquid.WorkGraph
