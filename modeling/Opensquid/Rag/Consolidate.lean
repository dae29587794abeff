import Opensquid.Lib.JsonText
import Opensquid.Lib.Lists
import Opensquid.Lib.PathText
import Opensquid.Lib.Program
import Opensquid.Lib.Whitespace
import Opensquid.Rag.MemoryStore

/-!
# Consolidation

`consolidate` compresses memories into a new one, probes that every predecessor still recalls it,
and only then demotes the predecessors that are neither the user's nor cited. What is injected
answers the calls, in any way; the events of a run are recorded.

A memory is demoted only after all the probes, and only as it was last read
(`failClosed_iff`). But a read that fails after a demotion ends the call, with that demotion
done (`reload_fails_after_demotion`).
-/

namespace Opensquid.Rag.Memory

open Opensquid.Lib

/-! ## What is injected -/

def MemoryRow.id (m : MemoryRow) : String := m.lesson.id

def MemoryRow.derivedFrom (m : MemoryRow) : List String := m.lesson.derivedFrom.get m.required.1

def MemoryRow.consumedByUserLessons (m : MemoryRow) : Nat :=
  m.lesson.consumedByUserLessons.get m.required.2

/-- A prompt is given by its block of memories, an embedding by whether there is one. -/
inductive ConsolidateCall
  | getMemoryById (id : String)
  | summarize (block : String)
  | embed (text : String)
  | insertMemory (m : MemoryRow)
  | recallIds (query : String) (k : Int)
  | demoteMemory (id : String)

@[reducible] def ConsolidateCall.Reply : ConsolidateCall → Type
  | .getMemoryById _ => Option MemoryRow
  | .summarize _ => String
  | .embed _ => Bool
  | .recallIds .. => List String
  | .insertMemory _ | .demoteMemory _ => Unit

abbrev Consolidation := Program ConsolidateCall ConsolidateCall.Reply

/-- What is injected besides the calls: `JSON.parse`, SHA-256 in hexadecimal digits and two
readings of the clock, one of them as ISO text. -/
structure Injected where
  parse : String → Option Json
  sha256Hex : String → String
  mintedAtMs : Int
  createdAt : String

/-! ## Compression -/

def getMemoryById (id : String) : Consolidation (Option MemoryRow) :=
  Program.await (ConsolidateCall.getMemoryById id)

def compressionMaxChainDepth : Nat := 16

/-- `detectCycleInWindow` from one frame: its path may grow by `depth` ids. The parents are
pushed in their order, so the last one is walked first. -/
def walkChain : Nat → List String → String → Consolidation Unit
  | 0, _, _ => .throw
  | depth + 1, path, id => do
      match ← getMemoryById id with
      | none => return ()
      | some m =>
          if m.derivedFrom.any (· ∈ path) then .throw
          else
            Program.forEach (fun parent => walkChain depth (path ++ [parent]) parent)
              m.derivedFrom.reverse

def detectCycleInWindow (rootIds : List String) : Consolidation Unit :=
  Program.forEach (fun root => walkChain compressionMaxChainDepth [root] root) rootIds

/-- Every predecessor; it throws when one is not found. -/
def loadAll : List String → Consolidation (List MemoryRow)
  | [] => return []
  | id :: ids => do
      match ← getMemoryById id with
      | none => .throw
      | some m => do
          let preds ← loadAll ids
          return m :: preds

def scopeOf (m : MemoryRow) : Option String :=
  m.lesson.tags.find? fun tag => PathText.startsWith tag "scope:"

def trimmed (text : String) : String := String.ofList (trim text.toList)

/-- The text that stands for `{MEMORIES_BLOCK}`. -/
def memoriesBlock (preds : List MemoryRow) : String :=
  trimmed (String.join (preds.map fun m =>
    "--- MEMORY " ++ m.id ++ " ---\ncontent:\n" ++ trimmed m.lesson.content ++ "\n\n"))

structure CompressedDraft where
  description : String
  content : String

/-- `obj[key]`, the last of its fields, when it is a string. -/
def textField (fields : List (String × Json)) (key : String) : Option String :=
  match fields.reverse.find? (·.1 = key) with
  | some (_, .str s) => some s
  | _ => none

/-- None: it throws, on a refusal or another shape. -/
def discriminateCompressOutput : Json → Option CompressedDraft
  | .obj fields =>
      if fields.any (·.1 = "error") then none
      else do return ⟨← textField fields "description", ← textField fields "content"⟩
  | _ => none

def validCompressed (draft : CompressedDraft) (predecessorIds : List String) : Bool :=
  trim draft.description.toList ≠ [] && trim draft.content.toList ≠ [] &&
    draft.description.length ≤ 200 && draft.content.length ≤ 4000 &&
    predecessorIds ≠ [] && predecessorIds.length ≤ 64

def u32Max : Nat := 0xffffffff

/-- The minted memory. -/
def mint (inj : Injected) (unique : List String) (preds : List MemoryRow)
    (draft : CompressedDraft) (embedded : Bool) : MemoryRow where
  lesson :=
    { id := "mem-c-" ++ ((inj.sha256Hex
        (toString inj.mintedAtMs ++ "\n" ++ ",".intercalate unique)).take 16).toString
      content := draft.description ++ "\n\n" ++ draft.content
      tags := (preds.head?.bind scopeOf).toList
      source := "memory"
      author := .agent
      createdAt := inj.createdAt
      derivedFrom := some unique
      consumedByUserLessons :=
        some (preds.foldl (fun acc m => min (acc + m.consumedByUserLessons) u32Max) 0)
      tier := none
      ns := none
      retiredAt := none
      durability := none }
  embedded
  required := ⟨rfl, rfl⟩

def compress (inj : Injected) (ids : List String) : Consolidation MemoryRow := do
  let unique := ids.eraseDups
  Program.ensure (unique ≠ [])
  let preds ← loadAll unique
  detectCycleInWindow unique
  Program.ensure (∀ m ∈ preds, scopeOf m = preds.head?.bind scopeOf)
  let raw ← Program.await (ConsolidateCall.summarize (memoriesBlock preds))
  match (inj.parse raw).bind discriminateCompressOutput with
  | none => .throw
  | some draft => do
      Program.ensure (validCompressed draft unique)
      let embedded ← Program.await (ConsolidateCall.embed (draft.description ++ "\n\n" ++ draft.content))
      let mc := mint inj unique preds draft embedded
      Program.await (ConsolidateCall.insertMemory mc)
      return mc

/-! ## Consolidation -/

/-- `text.slice(0, n)`; a character outside the BMP counts twice, and half of one is dropped. -/
def sliceTo : Nat → List Char → List Char
  | _, [] => []
  | n, c :: rest =>
      let units := if c.toNat < 0x10000 then 1 else 2
      if units ≤ n then c :: sliceTo (n - units) rest else []

def recallQueryFor (m : MemoryRow) : String :=
  let content := trim m.lesson.content.toList
  let head := trim (content.takeWhile (· ≠ '\n'))
  String.ofList (sliceTo 200 (if head ≠ [] then head else content))

/-- The recall-replay; it is cut short by the first miss. -/
def verify (mcId : String) (recallK : Int) : List String → Consolidation Bool
  | [] => return true
  | pid :: rest => do
      match ← getMemoryById pid with
      | none => return false
      | some pred => do
          let hits ← (Program.await
            (ConsolidateCall.recallIds (recallQueryFor pred) recallK)).attempt
          if hits.any (mcId ∈ ·) then verify mcId recallK rest else return false

/-- Without a `recallK` there is no probe, and nothing is verified. -/
def recallReplay (mcId : String) (recallK : Int) (unique : List String) : Consolidation Bool :=
  if 0 < recallK then verify mcId recallK unique else return false

def immune : Option MemoryRow → Bool
  | none => true
  | some m => m.lesson.author = .user || 0 < m.consumedByUserLessons

/-- The gated demotion of the predecessors, with the ids demoted and kept so far. -/
def demoteAll : List String → List String → List String → Consolidation (List String × List String)
  | deleted, keptImmune, [] => return (deleted, keptImmune)
  | deleted, keptImmune, pid :: rest => do
      let reloaded ← getMemoryById pid
      if immune reloaded then demoteAll deleted (keptImmune ++ [pid]) rest
      else do
        let demoted ← (Program.await (ConsolidateCall.demoteMemory pid)).attempt
        if demoted.isSome then demoteAll (deleted ++ [pid]) keptImmune rest
        else demoteAll deleted (keptImmune ++ [pid]) rest

structure ConsolidateOutcome where
  mcId : String
  deleted : List String
  keptImmune : List String
  verified : Bool
  deriving DecidableEq, Repr

def consolidate (inj : Injected) (ids : List String) (recallK : Int) :
    Consolidation ConsolidateOutcome := do
  let unique := ids.eraseDups
  let mc ← compress inj unique
  let verified ← recallReplay mc.id recallK unique
  if verified then do
    let (deleted, keptImmune) ← demoteAll [] [] unique
    return ⟨mc.id, deleted, keptImmune, true⟩
  else return ⟨mc.id, [], [], false⟩

/-! ## Runs -/

/-- A call and its reply; none: it has failed. -/
structure ConsolidateEvent where
  call : ConsolidateCall
  reply : Option call.Reply

abbrev ConsolidateLog := List ConsolidateEvent

/-- The environment chooses the reply, and the event is recorded. -/
def ConsolidateCall.exec (op : ConsolidateCall)
    (replies : (op : ConsolidateCall) → Option op.Reply) (log : ConsolidateLog) :
    Option (ConsolidateLog × Option op.Reply) :=
  some (log ++ [⟨op, replies op⟩], replies op)

/-- A demotion of the memory has succeeded. -/
def Demoted (log : ConsolidateLog) (pid : String) : Prop :=
  (⟨.demoteMemory pid, some ()⟩ : ConsolidateEvent) ∈ log

/-- The predecessor was found, and its probe recalled the new memory. -/
def Probed (log : ConsolidateLog) (mcId : String) (recallK : Int) (pid : String) : Prop :=
  ∃ m hits, (⟨.getMemoryById pid, some (some m)⟩ : ConsolidateEvent) ∈ log ∧
    (⟨.recallIds (recallQueryFor m) recallK, some hits⟩ : ConsolidateEvent) ∈ log ∧ mcId ∈ hits

/-- The new memory is inserted, and all the predecessors are probed. -/
def Verified (log : ConsolidateLog) (ids : List String) (recallK : Int) : Prop :=
  ∃ mc, (⟨.insertMemory mc, some ()⟩ : ConsolidateEvent) ∈ log ∧
    ∀ pid ∈ ids, Probed log mc.id recallK pid

/-- The memory was last loaded as one that is neither the user's nor cited. -/
def Demotable (log : ConsolidateLog) (pid : String) : Prop :=
  ∃ before m after, log = before ++ ⟨.getMemoryById pid, some (some m)⟩ :: after ∧
    (∀ reply, (⟨.getMemoryById pid, reply⟩ : ConsolidateEvent) ∉ after) ∧
    m.lesson.author ≠ .user ∧ m.consumedByUserLessons = 0

/-- What holds of a call of `consolidate` that has ended. -/
structure FailClosed (ids : List String) (recallK : Int) (out : Option ConsolidateOutcome)
    (log : ConsolidateLog) : Prop where
  verified : ∀ before pid reply after, log = before ++ ⟨.demoteMemory pid, reply⟩ :: after →
    Verified before ids recallK
  demotable : ∀ before pid reply after, log = before ++ ⟨.demoteMemory pid, reply⟩ :: after →
    Demotable before pid
  partition : ∀ o ∈ out, o.verified = true →
    o.deleted.Disjoint o.keptImmune ∧ (o.deleted ++ o.keptImmune).Perm ids.eraseDups ∧
      ∀ pid, pid ∈ o.deleted ↔ Demoted log pid
  untouched : (∀ o ∈ out, o.verified = false) → ∀ pid, ¬Demoted log pid

/-- After a demotion no read of a memory fails. -/
def ReadsHold (log : ConsolidateLog) : Prop :=
  ∀ before pid after, log = before ++ ⟨.getMemoryById pid, none⟩ :: after →
    ∀ demoted, ¬Demoted before demoted

/-- No demotion has been tried. -/
def Quiet (log : ConsolidateLog) : Prop :=
  ∀ pid reply, (⟨.demoteMemory pid, reply⟩ : ConsolidateEvent) ∉ log

/-! ## Before the demotions -/

section

variable {log : ConsolidateLog}

/-- Always, with the events recorded. -/
abbrev Recorded {α : Type} (p : Consolidation α) (post : Option α → ConsolidateLog → Prop)
    (log : ConsolidateLog) : Prop :=
  p.Always ConsolidateCall.exec (fun _ _ => True) post log

theorem recorded_await {op : ConsolidateCall} {post : Option op.Reply → ConsolidateLog → Prop}
    (next : ∀ reply, post reply (log ++ [⟨op, reply⟩])) : Recorded (Program.await op) post log := by
  refine Program.Always.await trivial fun replies t reply done => ?_
  cases done
  exact next _

theorem Quiet.concat (quiet : Quiet log) {op : ConsolidateCall} (other : ∀ pid, op ≠ .demoteMemory pid)
    (reply : Option op.Reply) : Quiet (log ++ [⟨op, reply⟩]) := by
  intro pid reply' mem
  rcases List.mem_append.mp mem with old | new
  · exact quiet pid reply' old
  · exact other pid (congrArg ConsolidateEvent.call (List.mem_singleton.mp new)).symm

theorem Quiet.not_demoted (quiet : Quiet log) (pid : String) : ¬Demoted log pid := quiet pid _

theorem Quiet.not_split (quiet : Quiet log) {before after : ConsolidateLog} {pid : String}
    {reply : Option Unit} (split : log = before ++ ⟨.demoteMemory pid, reply⟩ :: after) : False :=
  quiet pid reply (split ▸ List.mem_append_right _ List.mem_cons_self)

theorem Quiet.readsHold (quiet : Quiet log) : ReadsHold log := by
  rintro before pid after rfl demoted done
  exact quiet.not_demoted demoted (List.mem_append_left _ done)

theorem walkChain_quiet {depth : Nat} {path : List String} {id : String} (quiet : Quiet log) :
    Recorded (walkChain depth path id) (fun _ t => Quiet t) log := by
  induction depth generalizing path id log with
  | zero => exact quiet
  | succ depth ih =>
      refine Program.Always.bind (recorded_await fun reply => ?_)
      have next := quiet.concat (nofun : ∀ pid, ConsolidateCall.getMemoryById id ≠ _) reply
      rcases reply with _ | _ | m
      · exact next
      · exact next
      · dsimp only
        split
        · exact next
        · exact Program.Always.forEach (fun _ t => Quiet t)
            (fun x rest t quiet => (ih quiet).mono fun o u quiet => by cases o <;> exact quiet)
            (fun t quiet => quiet) next

theorem detectCycle_quiet {ids : List String} (quiet : Quiet log) :
    Recorded (detectCycleInWindow ids) (fun _ t => Quiet t) log :=
  Program.Always.forEach (fun _ t => Quiet t)
    (fun _ _ _ quiet => (walkChain_quiet quiet).mono fun o _ quiet => by cases o <;> exact quiet)
    (fun _ quiet => quiet) quiet

theorem loadAll_quiet {ids : List String} (quiet : Quiet log) :
    Recorded (loadAll ids) (fun _ t => Quiet t) log := by
  induction ids generalizing log with
  | nil => exact quiet
  | cons id ids ih =>
      refine Program.Always.bind (recorded_await fun reply => ?_)
      have next := quiet.concat (nofun : ∀ pid, ConsolidateCall.getMemoryById id ≠ _) reply
      rcases reply with _ | _ | m
      · exact next
      · exact next
      · refine Program.Always.bind ((ih next).mono fun o t quiet => ?_)
        cases o <;> exact quiet

/-- `compress` demotes nothing, and what it returns is inserted. -/
theorem compress_quiet {inj : Injected} {ids : List String} (quiet : Quiet log) :
    Recorded (compress inj ids) (fun o t => Quiet t ∧ ∀ mc ∈ o,
      (⟨.insertMemory mc, some ()⟩ : ConsolidateEvent) ∈ t) log := by
  have thrown : ∀ {t : ConsolidateLog}, Quiet t → Quiet t ∧ ∀ mc ∈ (none : Option MemoryRow),
      (⟨.insertMemory mc, some ()⟩ : ConsolidateEvent) ∈ t := fun quiet =>
    ⟨quiet, fun _ returned => by cases returned⟩
  refine Program.Always.bind (Program.Always.ensure (fun _ => ?_) fun _ => thrown quiet)
  refine Program.Always.bind ((loadAll_quiet quiet).mono fun preds t quiet => ?_)
  cases preds with
  | none => exact thrown quiet
  | some preds =>
      refine Program.Always.bind ((detectCycle_quiet quiet).mono fun walked t quiet => ?_)
      cases walked with
      | none => exact thrown quiet
      | some _ =>
          refine Program.Always.bind (Program.Always.ensure (fun _ => ?_) fun _ => thrown quiet)
          refine Program.Always.bind (recorded_await fun raw => ?_)
          have summarized := quiet.concat (nofun : ∀ pid, ConsolidateCall.summarize _ ≠ _) raw
          cases raw with
          | none => exact thrown summarized
          | some raw =>
              dsimp only
              split
              · exact thrown summarized
              · rename_i draft _
                refine Program.Always.bind (Program.Always.ensure (fun _ => ?_) fun _ =>
                  thrown summarized)
                refine Program.Always.bind (recorded_await fun embedded => ?_)
                have embeds := summarized.concat (nofun : ∀ pid, ConsolidateCall.embed _ ≠ _) embedded
                cases embedded with
                | none => exact thrown embeds
                | some embedded =>
                    refine Program.Always.bind (recorded_await fun inserted => ?_)
                    have inserts := embeds.concat
                      (nofun : ∀ pid, ConsolidateCall.insertMemory _ ≠ _) inserted
                    cases inserted with
                    | none => exact thrown inserts
                    | some _ =>
                        refine ⟨inserts, fun mc same => ?_⟩
                        cases same
                        exact List.mem_append_right _ (List.mem_singleton_self _)

theorem Probed.mono {log more : ConsolidateLog} {mcId pid : String} {recallK : Int}
    (probed : Probed log mcId recallK pid) (grows : log ⊆ more) : Probed more mcId recallK pid := by
  obtain ⟨m, hits, found, recalled, hit⟩ := probed
  exact ⟨m, hits, grows found, grows recalled, hit⟩

/-- `verify` demotes nothing, and when it succeeds every id is probed. -/
theorem verify_quiet {mcId : String} {recallK : Int} {ids : List String} (quiet : Quiet log) :
    Recorded (verify mcId recallK ids) (fun o t => Quiet t ∧ log ⊆ t ∧
      (o = some true → ∀ pid ∈ ids, Probed t mcId recallK pid)) log := by
  induction ids generalizing log with
  | nil => exact ⟨quiet, List.Subset.refl _, fun _ => List.forall_mem_nil _⟩
  | cons pid rest ih =>
      refine Program.Always.bind (recorded_await fun reply => ?_)
      have loaded := quiet.concat (nofun : ∀ p, ConsolidateCall.getMemoryById pid ≠ _) reply
      rcases reply with _ | _ | m
      · exact ⟨loaded, List.subset_append_left _ _, nofun⟩
      · exact ⟨loaded, List.subset_append_left _ _, nofun⟩
      · refine Program.Always.bind (Program.Always.attempt (recorded_await fun hits => ?_))
        have probed := loaded.concat
          (nofun : ∀ p, ConsolidateCall.recallIds (recallQueryFor m) recallK ≠ _) hits
        have grows : log ⊆ (log ++ [⟨.getMemoryById pid, some (some m)⟩]) ++
            [⟨.recallIds (recallQueryFor m) recallK, hits⟩] := fun e mem =>
          List.mem_append_left _ (List.mem_append_left _ mem)
        dsimp only
        split
        · rename_i hit
          cases hits with
          | none => cases hit
          | some hits =>
              have found : mcId ∈ hits := of_decide_eq_true hit
              refine (ih probed).mono ?_
              rintro o t ⟨quiet, more, all⟩
              refine ⟨quiet, fun e mem => more (grows mem), fun done => ?_⟩
              refine List.forall_mem_cons.mpr ⟨⟨m, hits, more ?_, more ?_, found⟩, all done⟩
              · exact List.mem_append_left _ (List.mem_append_right _ (List.mem_singleton_self _))
              · exact List.mem_append_right _ (List.mem_singleton_self _)
        · exact ⟨probed, grows, nofun⟩

/-! ## The demotions -/

theorem Verified.mono {more : ConsolidateLog} {ids : List String} {recallK : Int}
    (verified : Verified log ids recallK) (grows : log ⊆ more) : Verified more ids recallK := by
  obtain ⟨mc, inserted, probed⟩ := verified
  exact ⟨mc, grows inserted, fun pid mem => (probed pid mem).mono grows⟩

/-- What the demotions keep. -/
structure Demoting (ids : List String) (recallK : Int) (deleted : List String)
    (log : ConsolidateLog) : Prop where
  verified : Verified log ids recallK
  justified : ∀ before pid reply after, log = before ++ ⟨.demoteMemory pid, reply⟩ :: after →
    Verified before ids recallK ∧ Demotable before pid
  held : ReadsHold log
  demoted : ∀ pid, pid ∈ deleted ↔ Demoted log pid

theorem demoted_concat_iff {e : ConsolidateEvent} {pid : String} :
    Demoted (log ++ [e]) pid ↔ Demoted log pid ∨ e = ⟨.demoteMemory pid, some ()⟩ := by
  rw [Demoted, List.mem_append, List.mem_singleton, eq_comm (b := e)]
  rfl

theorem readsHold_concat_iff {e : ConsolidateEvent} : ReadsHold (log ++ [e]) ↔
    ReadsHold log ∧ ∀ pid, e = ⟨.getMemoryById pid, none⟩ → ∀ demoted, ¬Demoted log demoted := by
  constructor
  · intro held
    constructor
    · rintro before pid after rfl
      exact held before pid (after ++ [e]) (by rw [List.append_assoc, List.cons_append])
    · rintro pid rfl
      exact held log pid [] rfl
  · rintro ⟨held, last⟩ before pid after split
    rcases concat_eq_append_cons_iff.mp split with ⟨rfl, same, rfl⟩ | ⟨init, rfl, earlier⟩
    · exact last pid same.symm
    · exact held before pid init earlier

section

variable {ids deleted : List String} {recallK : Int}

/-- An event that is no demotion and no failed read. -/
theorem Demoting.concat {op : ConsolidateCall} {reply : Option op.Reply}
    (demoting : Demoting ids recallK deleted log) (other : ∀ pid, op ≠ .demoteMemory pid)
    (held : reply.isSome) : Demoting ids recallK deleted (log ++ [⟨op, reply⟩]) := by
  have event : ∀ pid r, (⟨op, reply⟩ : ConsolidateEvent) ≠ ⟨.demoteMemory pid, r⟩ := fun pid r same =>
    other pid (congrArg ConsolidateEvent.call same)
  refine ⟨demoting.verified.mono (List.subset_append_left _ _), ?_, ?_, fun pid => ?_⟩
  · intro before pid r after split
    rcases concat_eq_append_cons_iff.mp split with ⟨_, same, _⟩ | ⟨init, _, split⟩
    · exact absurd same.symm (event pid r)
    · exact demoting.justified before pid r init split
  · refine readsHold_concat_iff.mpr ⟨demoting.held, fun pid same => ?_⟩
    cases same
    cases held
  · rw [demoting.demoted pid, demoted_concat_iff, or_iff_left (event pid _)]

/-- A demotion of a memory that may be demoted. -/
theorem Demoting.demote {pid : String} {reply : Option Unit}
    (demoting : Demoting ids recallK deleted log) (demotable : Demotable log pid) :
    Demoting ids recallK (if reply.isSome then deleted ++ [pid] else deleted)
      (log ++ [⟨.demoteMemory pid, reply⟩]) := by
  refine ⟨demoting.verified.mono (List.subset_append_left _ _), ?_, ?_, fun p => ?_⟩
  · intro before p r after split
    rcases concat_eq_append_cons_iff.mp split with ⟨rfl, same, _⟩ | ⟨init, _, split⟩
    · cases same
      exact ⟨demoting.verified, demotable⟩
    · exact demoting.justified before p r init split
  · exact readsHold_concat_iff.mpr ⟨demoting.held, nofun⟩
  · rw [demoted_concat_iff, ← demoting.demoted p]
    cases reply with
    | none => exact (or_iff_left nofun).symm
    | some _ =>
        rw [Option.isSome_some, if_pos rfl, List.mem_append, List.mem_singleton]
        refine or_congr_right ⟨?_, ?_⟩
        · rintro rfl
          rfl
        · intro same
          cases same
          rfl

/-- How the demotions end: each id is demoted or kept; or a read has failed. -/
theorem demoteAll_always {rest kept : List String} (demoting : Demoting ids recallK deleted log) :
    Recorded (demoteAll deleted kept rest) (fun o t =>
      (∃ d k, o = some (d, k) ∧ Demoting ids recallK d t ∧
        (d ++ k).Perm (deleted ++ kept ++ rest)) ∨
      o = none ∧ ∃ d before pid, Demoting ids recallK d before ∧
        t = before ++ [⟨.getMemoryById pid, none⟩]) log := by
  induction rest generalizing deleted kept log with
  | nil => exact .inl ⟨deleted, kept, rfl, demoting, by rw [List.append_nil]⟩
  | cons pid rest ih =>
      have keepPerm : ((deleted ++ (kept ++ [pid])) ++ rest).Perm (deleted ++ kept ++ pid :: rest) := by
        rw [List.append_assoc, List.append_assoc, List.append_assoc, List.singleton_append]
      have dropPerm : (((deleted ++ [pid]) ++ kept) ++ rest).Perm (deleted ++ kept ++ pid :: rest) := by
        rw [List.append_assoc, List.append_assoc, List.append_assoc, List.singleton_append]
        exact List.perm_middle.symm.append_left deleted
      refine Program.Always.bind (recorded_await fun reply => ?_)
      cases reply with
      | none => exact .inr ⟨rfl, deleted, log, pid, demoting, rfl⟩
      | some reloaded =>
          have loaded : Demoting ids recallK deleted
              (log ++ [⟨.getMemoryById pid, some reloaded⟩]) := demoting.concat nofun rfl
          dsimp only
          split
          · refine (ih loaded).mono fun o t ended => ended.imp_left ?_
            rintro ⟨d, k, same, demoting, perm⟩
            exact ⟨d, k, same, demoting, perm.trans keepPerm⟩
          · rename_i mortal
            have demotable : Demotable (log ++ [⟨.getMemoryById pid, some reloaded⟩]) pid := by
              cases reloaded with
              | none => exact absurd rfl mortal
              | some m =>
                  obtain ⟨agent, uncited⟩ : m.lesson.author ≠ .user ∧
                      ¬0 < m.consumedByUserLessons := by simpa [immune] using mortal
                  exact ⟨log, m, [], rfl, fun _ => List.not_mem_nil, agent, by omega⟩
            refine Program.Always.bind (Program.Always.attempt (recorded_await fun reply => ?_))
            have next := fun reply => @Demoting.demote _ _ _ _ _ reply loaded demotable
            cases reply with
            | none =>
                refine (ih (next none)).mono fun o t ended => ended.imp_left ?_
                rintro ⟨d, k, same, demoting, perm⟩
                exact ⟨d, k, same, demoting, perm.trans keepPerm⟩
            | some _ =>
                refine (ih (next (some ()))).mono fun o t ended => ended.imp_left ?_
                rintro ⟨d, k, same, demoting, perm⟩
                exact ⟨d, k, same, demoting, perm.trans dropPerm⟩

end

end

/-! ## The whole call -/

theorem Quiet.failClosed {log : ConsolidateLog} {ids : List String} {recallK : Int}
    {out : Option ConsolidateOutcome} (quiet : Quiet log)
    (unverified : ∀ o ∈ out, o.verified = false) : FailClosed ids recallK out log where
  verified _ _ _ _ split := (quiet.not_split split).elim
  demotable _ _ _ _ split := (quiet.not_split split).elim
  partition o mem verified := absurd (verified.symm.trans (unverified o mem)) nofun
  untouched _ := quiet.not_demoted

theorem Quiet.demoting {log : ConsolidateLog} {ids : List String} {recallK : Int} (quiet : Quiet log)
    (verified : Verified log ids recallK) : Demoting ids recallK [] log where
  verified := verified
  justified _ _ _ _ split := (quiet.not_split split).elim
  held := quiet.readsHold
  demoted pid := iff_of_false List.not_mem_nil (quiet.not_demoted pid)

theorem Demoting.failClosed {log : ConsolidateLog} {ids d k : List String} {recallK : Int}
    {mcId : String} (demoting : Demoting ids recallK d log) (perm : (d ++ k).Perm ids.eraseDups) :
    FailClosed ids recallK (some ⟨mcId, d, k, true⟩) log := by
  refine ⟨fun before pid reply after split => (demoting.justified before pid reply after split).1,
    fun before pid reply after split => (demoting.justified before pid reply after split).2, ?_, ?_⟩
  · rintro _ ⟨⟩ _
    have apart : (d ++ k).Nodup := perm.nodup_iff.mpr (nodup_eraseDups ids)
    exact ⟨(List.nodup_append'.mp apart).2.2, perm, demoting.demoted⟩
  · intro unverified
    cases unverified _ rfl

/-- A read that fails ends the call; this is a failure to be closed if something was demoted. -/
theorem Demoting.failClosed_iff_held {log : ConsolidateLog} {ids d : List String} {recallK : Int}
    {pid : String} (demoting : Demoting ids recallK d log) :
    FailClosed ids recallK none (log ++ [⟨.getMemoryById pid, none⟩]) ↔
      ReadsHold (log ++ [⟨.getMemoryById pid, none⟩]) := by
  have silent : ∀ p, Demoted (log ++ [⟨.getMemoryById pid, none⟩]) p ↔ Demoted log p := fun p => by
    rw [demoted_concat_iff, or_iff_left nofun]
  rw [readsHold_concat_iff]
  constructor
  · intro closed
    exact ⟨demoting.held, fun _ _ p done => closed.untouched nofun p ((silent p).mpr done)⟩
  · rintro ⟨_, untouched⟩
    have justified : ∀ before p reply after, log ++ [⟨.getMemoryById pid, none⟩] =
        before ++ ⟨.demoteMemory p, reply⟩ :: after → Verified before ids recallK ∧
          Demotable before p := by
      intro before p reply after split
      rcases concat_eq_append_cons_iff.mp split with ⟨_, same, _⟩ | ⟨init, _, earlier⟩
      · cases same
      · exact demoting.justified before p reply init earlier
    exact ⟨fun before p reply after split => (justified before p reply after split).1,
      fun before p reply after split => (justified before p reply after split).2, nofun,
      fun _ p done => untouched pid rfl p ((silent p).mp done)⟩

theorem consolidate_always (inj : Injected) (ids : List String) (recallK : Int) :
    Recorded (consolidate inj ids recallK)
      (fun o t => FailClosed ids recallK o t ↔ ReadsHold t) [] := by
  -- what has demoted nothing is closed, and its reads need not hold
  have closed : ∀ {t : ConsolidateLog} {out : Option ConsolidateOutcome}, Quiet t →
      (∀ o ∈ out, o.verified = false) → (FailClosed ids recallK out t ↔ ReadsHold t) :=
    fun quiet unverified => iff_of_true (quiet.failClosed unverified) quiet.readsHold
  have nothing : Quiet [] := fun _ _ => List.not_mem_nil
  refine Program.Always.bind ((compress_quiet nothing).mono fun mc t quiet => ?_)
  obtain ⟨quiet, inserted⟩ := quiet
  cases mc with
  | none => exact closed quiet nofun
  | some mc =>
      refine Program.Always.bind ?_
      have probed : Recorded (recallReplay mc.id recallK ids.eraseDups) (fun o u => Quiet u ∧ t ⊆ u ∧
          (o = some true → ∀ pid ∈ ids.eraseDups, Probed u mc.id recallK pid)) t := by
        unfold recallReplay
        split
        · exact verify_quiet quiet
        · exact ⟨quiet, List.Subset.refl _, nofun⟩
      refine Program.Always.mono ?_ probed
      rintro o u ⟨quiet, grows, probed⟩
      cases o with
      | none => exact closed quiet nofun
      | some verified =>
          cases verified with
          | false =>
              refine closed quiet ?_
              rintro _ ⟨⟩
              rfl
          | true =>
              have verified : Verified u ids recallK := ⟨mc, grows (inserted mc rfl), fun pid mem =>
                probed rfl pid (List.mem_eraseDups.mpr mem)⟩
              refine Program.Always.bind ((demoteAll_always (quiet.demoting verified)).mono ?_)
              rintro o t (⟨d, k, rfl, demoting, perm⟩ | ⟨rfl, d, before, pid, demoting, rfl⟩)
              · exact iff_of_true (demoting.failClosed perm) demoting.held
              · exact demoting.failClosed_iff_held

/-- For every list of ids and whatever the calls answer: `consolidate` is closed on failure
exactly if no read of a memory fails after a demotion. -/
theorem failClosed_iff {inj : Injected} {ids : List String} {recallK : Int}
    {out : Option ConsolidateOutcome} {log : ConsolidateLog}
    (runs : (consolidate inj ids recallK).Runs ConsolidateCall.exec (fun _ _ _ => True) [] out log) :
    FailClosed ids recallK out log ↔ ReadsHold log :=
  (consolidate_always inj ids recallK).of_complete runs

/-! ## A read that fails late -/

def memoryOf (id : String) : MemoryRow where
  lesson :=
    { id, content := "note " ++ id, tags := [], source := "memory", author := .agent
      createdAt := "2026-06-01T00:00:00.000Z", derivedFrom := some []
      consumedByUserLessons := some 0, tier := none, ns := none, retiredAt := none
      durability := none }
  embedded := true
  required := ⟨rfl, rfl⟩

def draftText : String := "\x7b\"description\":\"two notes\",\"content\":\"a and b\"\x7d"

def sampleInjected : Injected where
  parse raw := if raw = draftText then
    some (.obj [("description", .str "two notes"), ("content", .str "a and b")]) else none
  sha256Hex _ := "8a6e01b89f17278f765dc9b0e5cc7499626d5db09ddd15a2539026dc4837ecb2"
  mintedAtMs := 1780876800000
  createdAt := "2026-06-08T00:00:00.000Z"

def ConsolidateEvent.demotes (pid : String) : ConsolidateEvent → Bool
  | ⟨.demoteMemory id, some ()⟩ => id = pid
  | _ => false

def ConsolidateEvent.readFails : ConsolidateEvent → Bool
  | ⟨.getMemoryById _, none⟩ => true
  | _ => false

theorem demoted_of_demotes {log : ConsolidateLog} {pid : String}
    (done : log.any (·.demotes pid) = true) : Demoted log pid := by
  obtain ⟨e, mem, demotes⟩ := List.any_eq_true.mp done
  unfold ConsolidateEvent.demotes at demotes
  split at demotes
  · cases of_decide_eq_true demotes
    exact mem
  · cases demotes

/-- Every call succeeds, but a read after a demotion when `fails` is set. -/
def answers (fails : Bool) (log : ConsolidateLog) : (op : ConsolidateCall) → Option op.Reply
  | .getMemoryById id => if fails && log.any (·.demotes "a") then none else some (some (memoryOf id))
  | .summarize _ => some draftText
  | .embed _ => some true
  | .insertMemory _ => some ()
  | .recallIds .. => some ["a", "mem-c-8a6e01b89f17278f", "b"]
  | .demoteMemory _ => some ()

/-- Both memories are demoted when all the calls succeed. -/
theorem failClosed_iff_demoted : ∃ log, FailClosed ["a", "b", "a"] 5
    (some ⟨"mem-c-8a6e01b89f17278f", ["a", "b"], [], true⟩) log := by
  have ended : ((consolidate sampleInjected ["a", "b", "a"] 5).play ConsolidateCall.exec
      (answers false) []).map (fun run => (run.1.any (·.readFails), run.2)) =
        some (false, some ⟨"mem-c-8a6e01b89f17278f", ["a", "b"], [], true⟩) := by
    decide +kernel
  obtain ⟨⟨log, out⟩, played, facts⟩ := Option.map_eq_some_iff.mp ended
  obtain ⟨reads, rfl⟩ := Prod.mk.inj facts
  have runs : (consolidate sampleInjected ["a", "b", "a"] 5).Runs ConsolidateCall.exec
      (fun _ _ _ => True) [] _ log := .of_play played
  refine ⟨log, (failClosed_iff runs).mpr ?_⟩
  rintro before pid after rfl demoted _
  exact absurd reads (by simp [ConsolidateEvent.readFails])

/-- The second memory cannot be read any more after the first is demoted: the call throws. -/
theorem reload_fails_after_demotion : ∃ log,
    (consolidate sampleInjected ["a", "b"] 5).Runs ConsolidateCall.exec (fun _ _ _ => True) [] none log ∧
      Demoted log "a" ∧ ¬FailClosed ["a", "b"] 5 none log := by
  have ended : ((consolidate sampleInjected ["a", "b"] 5).play ConsolidateCall.exec
      (answers true) []).map (fun run => (run.1.any (·.demotes "a"), run.2)) =
        some (true, none) := by
    decide +kernel
  obtain ⟨⟨log, out⟩, played, facts⟩ := Option.map_eq_some_iff.mp ended
  obtain ⟨done, rfl⟩ := Prod.mk.inj facts
  have demoted := demoted_of_demotes done
  exact ⟨log, .of_play played, demoted, fun closed => closed.untouched nofun "a" demoted⟩

end Opensquid.Rag.Memory
