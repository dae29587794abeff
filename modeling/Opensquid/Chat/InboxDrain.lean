import Mathlib
import Opensquid.Lib.Steps

/-!
# Draining an umbrella's inbox

The inbox of an umbrella is one append-only file for each chat platform. A drain
reads the three files and the ledger of acknowledgements, injects the oldest rows
without an acknowledgement, as many as fit the envelope, appends their
acknowledgements, and rewrites the ledger without the acknowledgements that are
more than seven days old.

The rewrite starts from the ledger as it was read, so it also drops what the same
drain has just appended, and the rows of every purged acknowledgement are still in
the inbox (`purge_injects_again`). While nothing ages out of the ledger every row is
injected once (`injected_once`).
-/

namespace Opensquid.Chat

open Opensquid.Lib

/-! ## Rows -/

inductive Platform
  | telegram
  | discord
  | slack
  deriving DecidableEq, Repr

def Platform.text : Platform → String
  | .telegram => "telegram"
  | .discord => "discord"
  | .slack => "slack"

inductive MediaKind
  | photo
  | document
  deriving DecidableEq, Repr

def MediaKind.text : MediaKind → String
  | .photo => "photo"
  | .document => "document"

structure InboxMedia where
  kind : MediaKind
  path : String
  deriving DecidableEq, Repr

/-- A row that the schema of the inbox accepts. -/
structure InboxRow where
  id : String
  platform : Platform
  sender : String
  text : String
  receivedAt : String
  media : List InboxMedia := []
  id_ne : id ≠ "" := by decide
  deriving DecidableEq

/-- What the daemon keeps distinct. -/
def InboxRow.key (row : InboxRow) : Platform × String := (row.platform, row.id)

/-- A row of the ledger; the timestamp is the instant of its ISO text. -/
structure AckRow where
  messageId : String
  platform : Platform
  injectedAtSessionId : String
  injectedAtTimestamp : Int
  deriving DecidableEq, Repr

def AckRow.key (ack : AckRow) : Platform × String := (ack.platform, ack.messageId)

/-- The rows of the ledger that its schema accepts; the others are skipped. -/
def readAcked (ledger : List AckRow) : List AckRow :=
  ledger.filter fun ack => ack.messageId ≠ "" ∧ ack.injectedAtSessionId ≠ ""

def ackKey (platform : Platform) (messageId : String) : String :=
  platform.text ++ "::" ++ messageId

theorem ackKey_inj {p q : Platform} {a b : String} :
    ackKey p a = ackKey q b ↔ (p, a) = (q, b) := by
  constructor
  · intro same
    have chars := congrArg String.toList same
    cases p <;> cases q <;>
      simp only [ackKey, Platform.text, String.toList_append, String.reduceToList,
        List.cons_append, List.nil_append, List.cons.injEq, Char.reduceEq, false_and, true_and,
        String.toList_inj] at chars
    all_goals rw [chars]
  · rintro ⟨⟩
    rfl

/-! ## The envelope -/

section

variable (collate : String → String → Bool)

/-- The rows without an acknowledgement, oldest first; `collate a b` is
`a.localeCompare(b) <= 0` in the locale of the process. -/
def computeUnackedRows (rows : List InboxRow) (acked : List AckRow) : List InboxRow :=
  let ackedKeys := acked.map fun ack => ackKey ack.platform ack.messageId
  (rows.filter fun row => ackKey row.platform row.id ∉ ackedKeys).mergeSort
    fun a b => collate a.receivedAt b.receivedAt

/-- `s.length`: UTF-16 code units. -/
def utf16Length (s : String) : Nat :=
  (s.toList.map fun c => if c.toNat < 0x10000 then 1 else 2).sum

def envelopeBudgetBytes : Nat := 8 * 1024

def InboxMedia.line (m : InboxMedia) : String :=
  "📎 " ++ m.kind.text ++ ": " ++ m.path ++ " — Read this file to view"

def InboxRow.block (row : InboxRow) : String :=
  let line := row.sender ++ " (" ++ row.platform.text ++ "): " ++ row.text
  "\n".intercalate (line :: row.media.map InboxMedia.line)

/-- The loop of `buildInjectionEnvelope` after `injected` rows of `bytes` units. -/
def injectFrom (bytes injected : Nat) : List InboxRow → List InboxRow
  | [] => []
  | row :: rest =>
      let projected := bytes + utf16Length row.block + 1
      if envelopeBudgetBytes < projected ∧ 0 < injected then []
      else row :: injectFrom projected (injected + 1) rest

structure Injection where
  envelope : String
  injectedRows : List InboxRow
  deriving DecidableEq

def buildInjectionEnvelope (rows : List InboxRow) : Injection :=
  if rows.isEmpty then ⟨"", []⟩
  else
    let injected := injectFrom 0 0 rows
    let header := "📨 Inbound messages (" ++ toString injected.length ++ ")"
    ⟨header ++ "\n" ++ "\n".intercalate (injected.map InboxRow.block), injected⟩

def sevenDaysMs : Int := 7 * 24 * 60 * 60 * 1000

def purgeOldAcks (acked : List AckRow) (now : Int) : List AckRow :=
  acked.filter fun ack => now - sevenDaysMs ≤ ack.injectedAtTimestamp

def buildAckRowsForInjected (injected : List InboxRow) (sessionId : String) (now : Int) :
    List AckRow :=
  injected.map fun row => ⟨row.id, row.platform, sessionId, now⟩

/-! ## The system -/

/-- A call in progress: the inbox files it has read so far, and the rows that no
envelope had injected when it was made. -/
structure Drain where
  sessionId : String
  reads : Platform → Option (List InboxRow)
  waiting : List InboxRow

/-- A call that has returned. -/
structure Drained where
  waiting : List InboxRow
  envelope : String
  injectedRows : List InboxRow

structure Umbrella where
  clock : Int
  inbox : Platform → List InboxRow
  ledger : List AckRow
  drain : Option Drain
  /-- The calls that have returned, latest first. -/
  drained : List Drained

def Umbrella.init (now : Int) : Umbrella where
  clock := now
  inbox _ := []
  ledger := []
  drain := none
  drained := []

/-- The platforms in the order in which their rows are collected. -/
def inboxPlatforms : List Platform := [.telegram, .slack, .discord]

def Umbrella.rows (u : Umbrella) : List InboxRow := inboxPlatforms.flatMap u.inbox

def Umbrella.injected (u : Umbrella) : List InboxRow := u.drained.flatMap (·.injectedRows)

/-- The rows that no envelope has injected. -/
def Umbrella.waiting (u : Umbrella) : List InboxRow := u.rows.filter (· ∉ u.injected)

inductive Event
  | tick (ms : Nat)
  /-- The daemon appends a row to the inbox file of a platform. -/
  | rowAppended (file : Platform) (row : InboxRow)
  /-- A session calls `drainUmbrellaInbox`. -/
  | drainBegun (sessionId : String)
  | inboxRead (file : Platform)
  /-- The call reads the ledger, builds the envelope, appends the acknowledgements,
  purges `ms` later, and returns. -/
  | drainReturned (ms : Nat)

def Umbrella.append (u : Umbrella) (file : Platform) (row : InboxRow) : Umbrella :=
  { u with inbox := Function.update u.inbox file (u.inbox file ++ [row]) }

/-- What a call does once it has read the inbox. -/
def drainUmbrellaInbox (u : Umbrella) (d : Drain) (allRows : List InboxRow) (ms : Nat) :
    Umbrella :=
  let acked := readAcked u.ledger
  let built := buildInjectionEnvelope (computeUnackedRows collate allRows acked)
  let appended := u.ledger ++ buildAckRowsForInjected built.injectedRows d.sessionId u.clock
  let now := u.clock + ms
  let kept := purgeOldAcks acked now
  { u with
    clock := now
    ledger := if kept.length ≠ acked.length then kept else appended
    drain := none
    drained := ⟨d.waiting, built.envelope, built.injectedRows⟩ :: u.drained }

/-- One event; `none` when it is not enabled. Calls do not overlap, and appended rows
have a new platform and id. -/
def Umbrella.step (u : Umbrella) : Event → Option Umbrella
  | .tick ms => some { u with clock := u.clock + ms }
  | .rowAppended file row =>
      if row.key ∈ u.rows.map InboxRow.key then none
      else some (u.append file row)
  | .drainBegun sessionId =>
      if u.drain.isSome then none
      else some { u with drain := some ⟨sessionId, fun _ => none, u.waiting⟩ }
  | .inboxRead file =>
      u.drain.map fun d =>
        { u with drain := some { d with
          reads := Function.update d.reads file (some (u.inbox file)) } }
  | .drainReturned ms =>
      u.drain.bind fun d =>
        (inboxPlatforms.mapM d.reads).map fun platformReads =>
          drainUmbrellaInbox collate u d platformReads.flatten ms

end

/-! ## What is promised -/

/-- Every row is injected at most once and comes from the inbox, and a call made while
rows were waiting has injected one that no earlier call had injected. -/
structure Umbrella.Exact (u : Umbrella) : Prop where
  once : (u.injected.map InboxRow.key).Nodup
  fromInbox : ∀ row ∈ u.injected, row ∈ u.rows
  progress : ∀ call earlier, call :: earlier <:+ u.drained → call.waiting ≠ [] →
    ∃ row ∈ call.injectedRows, row ∉ earlier.flatMap (·.injectedRows)

/-- A call that returns has a session id, and when it purges no acknowledgement in the
ledger is more than seven days old. -/
def LedgerYoung (u : Umbrella) : Event → Prop
  | .drainReturned ms =>
      (∀ d ∈ u.drain, d.sessionId ≠ "") ∧
        ∀ ack ∈ u.ledger, u.clock + ms - ack.injectedAtTimestamp ≤ sevenDaysMs
  | _ => True

instance (u : Umbrella) (e : Event) : Decidable (LedgerYoung u e) := by
  cases e <;> unfold LedgerYoung <;> infer_instance

/-! ## One envelope -/

section

variable {collate : String → String → Bool} {rows : List InboxRow} {acked : List AckRow}

theorem mem_computeUnackedRows {row : InboxRow} :
    row ∈ computeUnackedRows collate rows acked ↔
      row ∈ rows ∧ row.key ∉ acked.map AckRow.key := by
  simp only [computeUnackedRows, List.mem_mergeSort, List.mem_filter, decide_eq_true_eq,
    List.mem_map, ackKey_inj, AckRow.key, InboxRow.key]

theorem computeUnackedRows_nodup (distinct : (rows.map InboxRow.key).Nodup) :
    ((computeUnackedRows collate rows acked).map InboxRow.key).Nodup := by
  refine (((List.mergeSort_perm _ _).map _).nodup_iff).mpr (distinct.sublist ?_)
  exact List.filter_sublist.map _

theorem injectFrom_prefix (bytes injected : Nat) (rows : List InboxRow) :
    injectFrom bytes injected rows <+: rows := by
  induction rows generalizing bytes injected with
  | nil => exact List.prefix_rfl
  | cons row rest ih =>
      simp only [injectFrom]
      split
      · exact List.nil_prefix
      · exact List.prefix_cons_inj row |>.mpr (ih _ _)

theorem buildInjectionEnvelope_prefix (rows : List InboxRow) :
    (buildInjectionEnvelope rows).injectedRows <+: rows := by
  rw [buildInjectionEnvelope]
  split
  · exact List.nil_prefix
  · exact injectFrom_prefix 0 0 rows

/-- The first row is injected whatever its length. -/
theorem buildInjectionEnvelope_ne_nil (some : rows ≠ []) :
    (buildInjectionEnvelope rows).injectedRows ≠ [] := by
  cases rows with
  | nil => exact absurd rfl some
  | cons row rest =>
      have first : ¬(envelopeBudgetBytes < 0 + utf16Length row.block + 1 ∧ 0 < 0) := by omega
      simp only [buildInjectionEnvelope, List.isEmpty_cons, Bool.false_eq_true, ↓reduceIte,
        injectFrom, first]
      exact List.cons_ne_nil _ _

theorem buildAckRowsForInjected_keys (injected : List InboxRow) (sessionId : String) (now : Int) :
    (buildAckRowsForInjected injected sessionId now).map AckRow.key =
      injected.map InboxRow.key := by
  simp only [buildAckRowsForInjected, List.map_map]
  rfl

theorem purgeOldAcks_eq_self {now : Int}
    (young : ∀ ack ∈ acked, now - ack.injectedAtTimestamp ≤ sevenDaysMs) :
    purgeOldAcks acked now = acked := by
  refine List.filter_eq_self.mpr fun ack mem => decide_eq_true ?_
  have := young ack mem
  omega

/-! ## Every run -/

/-- What a call in progress has read is in the inbox, and contains the rows that were
waiting in that file. -/
structure Drain.Reading (d : Drain) (u : Umbrella) : Prop where
  read : ∀ file rows, d.reads file = some rows → List.Sublist rows (u.inbox file)
  complete : ∀ file rows, d.reads file = some rows →
    ∀ row ∈ d.waiting, row ∈ u.inbox file → row ∈ rows
  waiting : ∀ row ∈ d.waiting, row ∈ u.rows
  fresh : ∀ row ∈ d.waiting, row ∉ u.injected

/-- The ledger holds exactly the keys of the injected rows, and all of it is readable. -/
structure Umbrella.Inv (u : Umbrella) : Prop where
  distinct : (u.rows.map InboxRow.key).Nodup
  readable : readAcked u.ledger = u.ledger
  recorded : ∀ key, key ∈ u.ledger.map AckRow.key ↔ key ∈ u.injected.map InboxRow.key
  once : (u.injected.map InboxRow.key).Nodup
  fromInbox : ∀ row ∈ u.injected, row ∈ u.rows
  progress : ∀ call ∈ u.drained, call.waiting ≠ [] → call.injectedRows ≠ []
  reading : ∀ d ∈ u.drain, d.Reading u

theorem Umbrella.Inv.init (now : Int) : (Umbrella.init now).Inv where
  distinct := List.nodup_nil
  readable := rfl
  recorded _ := Iff.rfl
  once := List.nodup_nil
  fromInbox := nofun
  progress := nofun
  reading := nofun

theorem Umbrella.rows_append (u : Umbrella) (file : Platform) (row : InboxRow) :
    List.Perm (u.append file row).rows (row :: u.rows) := by
  rw [List.perm_iff_count]
  intro a
  cases file <;>
    simp [append, rows, inboxPlatforms, List.count_append, List.count_cons] <;> omega

theorem Umbrella.inbox_append (u : Umbrella) (file p : Platform) (row : InboxRow) :
    (u.append file row).inbox p = u.inbox p ∨ (u.append file row).inbox p = u.inbox p ++ [row] := by
  by_cases same : p = file
  · subst same
    exact .inr (Function.update_self _ _ _)
  · exact .inl (Function.update_of_ne same _ _)

theorem Umbrella.Inv.append {u : Umbrella} (inv : u.Inv) {file : Platform} {row : InboxRow}
    (new : row.key ∉ u.rows.map InboxRow.key) : (u.append file row).Inv where
  distinct := by
    rw [((u.rows_append file row).map _).nodup_iff]
    exact List.nodup_cons.mpr ⟨new, inv.distinct⟩
  readable := inv.readable
  recorded := inv.recorded
  once := inv.once
  fromInbox old injected :=
    (u.rows_append file row).mem_iff.mpr (List.mem_cons_of_mem _ (inv.fromInbox old injected))
  progress := inv.progress
  reading d present := by
    have reading := inv.reading d present
    refine ⟨fun p rows read => ?_, fun p rows read old waits mem => ?_,
      fun old waits => ?_, reading.fresh⟩
    · refine (reading.read p rows read).trans ?_
      rcases u.inbox_append file p row with same | longer
      · rw [same]
      · rw [longer]
        exact List.sublist_append_left _ _
    · refine reading.complete p rows read old waits ?_
      rcases u.inbox_append file p row with same | longer
      · rwa [same] at mem
      · rw [longer] at mem
        rcases List.mem_append.mp mem with before | added
        · exact before
        · cases List.mem_singleton.mp added
          exact absurd (List.mem_map_of_mem (reading.waiting _ waits)) new
    · exact (u.rows_append file row).mem_iff.mpr
        (List.mem_cons_of_mem _ (reading.waiting old waits))

theorem Umbrella.Inv.begin {u : Umbrella} (inv : u.Inv) (sessionId : String) :
    Umbrella.Inv { u with drain := some ⟨sessionId, fun _ => none, u.waiting⟩ } :=
  { inv with
    reading := by
      rintro d ⟨⟩
      refine ⟨nofun, nofun, fun row waits => (List.mem_filter.mp waits).1, fun row waits => ?_⟩
      exact of_decide_eq_true (List.mem_filter.mp waits).2 }

theorem Umbrella.Inv.read {u : Umbrella} (inv : u.Inv) {d : Drain} (present : u.drain = some d)
    (file : Platform) :
    Umbrella.Inv { u with drain := some { d with
      reads := Function.update d.reads file (some (u.inbox file)) } } :=
  { inv with
    reading := by
      rintro d' ⟨⟩
      have reading := inv.reading d present
      refine ⟨fun p rows read => ?_, fun p rows read => ?_, reading.waiting, reading.fresh⟩
      · by_cases same : p = file
        · subst same
          cases (Function.update_self p (some (u.inbox p)) d.reads).symm.trans read
          exact List.Sublist.refl _
        · exact reading.read p rows ((Function.update_of_ne same _ _).symm.trans read)
      · by_cases same : p = file
        · subst same
          cases (Function.update_self p (some (u.inbox p)) d.reads).symm.trans read
          exact fun _ _ mem => mem
        · exact reading.complete p rows ((Function.update_of_ne same _ _).symm.trans read) }

/-- The rows a call has read: distinct rows of the inbox, the waiting ones among them. -/
theorem Drain.Reading.collected {d : Drain} {u : Umbrella} (reading : d.Reading u)
    {platformReads : List (List InboxRow)}
    (done : inboxPlatforms.mapM d.reads = some platformReads) :
    List.Sublist platformReads.flatten u.rows ∧
      ∀ row ∈ d.waiting, row ∈ platformReads.flatten := by
  simp only [inboxPlatforms, List.mapM_cons, List.mapM_nil, Option.bind_eq_bind,
    Option.bind_eq_some_iff, Option.pure_def, Option.some.injEq] at done
  obtain ⟨telegram, readT, _, ⟨slack, readS, _, ⟨discord, readD, _, rfl, rfl⟩, rfl⟩, rfl⟩ := done
  constructor
  · exact (reading.read _ _ readT).append ((reading.read _ _ readS).append
      ((reading.read _ _ readD).append (List.Sublist.refl _)))
  · intro row waits
    have mem := reading.waiting row waits
    simp only [Umbrella.rows, inboxPlatforms, List.flatMap_cons, List.flatMap_nil,
      List.append_nil, List.mem_append] at mem
    simp only [List.flatten_cons, List.flatten_nil, List.append_nil, List.mem_append]
    rcases mem with mem | mem | mem
    · exact .inl (reading.complete _ _ readT row waits mem)
    · exact .inr (.inl (reading.complete _ _ readS row waits mem))
    · exact .inr (.inr (reading.complete _ _ readD row waits mem))

theorem readAcked_append {ledger : List AckRow} (readable : readAcked ledger = ledger)
    {sessionId : String} (named : sessionId ≠ "") (injected : List InboxRow) (now : Int) :
    readAcked (ledger ++ buildAckRowsForInjected injected sessionId now) =
      ledger ++ buildAckRowsForInjected injected sessionId now := by
  rw [readAcked, List.filter_append]
  refine congrArg₂ _ readable (List.filter_eq_self.mpr fun ack mem => decide_eq_true ?_)
  obtain ⟨row, _, rfl⟩ := List.mem_map.mp mem
  exact ⟨row.id_ne, named⟩

/-- A call that purges nothing keeps the invariant. -/
theorem Umbrella.Inv.drain {u : Umbrella} (inv : u.Inv) {d : Drain} (present : u.drain = some d)
    {platformReads : List (List InboxRow)}
    (done : inboxPlatforms.mapM d.reads = some platformReads) {ms : Nat}
    (young : LedgerYoung u (.drainReturned ms)) :
    (drainUmbrellaInbox collate u d platformReads.flatten ms).Inv := by
  obtain ⟨collected, complete⟩ := (inv.reading d present).collected done
  have fresh := (inv.reading d present).fresh
  generalize platformReads.flatten = allRows at collected complete ⊢
  simp only [drainUmbrellaInbox, inv.readable, purgeOldAcks_eq_self young.2, ne_eq,
    not_true_eq_false, ↓reduceIte]
  have front := buildInjectionEnvelope_prefix (computeUnackedRows collate allRows u.ledger)
  have unacked : ∀ row ∈ (buildInjectionEnvelope
      (computeUnackedRows collate allRows u.ledger)).injectedRows,
      row ∈ u.rows ∧ row.key ∉ u.injected.map InboxRow.key := fun row mem => by
    obtain ⟨mem, free⟩ := mem_computeUnackedRows.mp (front.subset mem)
    exact ⟨collected.subset mem, fun again => free ((inv.recorded _).mpr again)⟩
  refine ⟨inv.distinct, readAcked_append inv.readable (young.1 d present) _ _, fun key => ?_, ?_,
    ?_, ?_, nofun⟩
  · rw [List.map_append, buildAckRowsForInjected_keys, List.mem_append, inv.recorded, injected,
      injected, List.flatMap_cons, List.map_append, List.mem_append]
    exact or_comm
  · rw [injected, List.flatMap_cons, List.map_append]
    refine List.Nodup.append ?_ inv.once fun key new old => ?_
    · refine List.Nodup.sublist (front.sublist.map _) (computeUnackedRows_nodup ?_)
      exact inv.distinct.sublist (collected.map _)
    · obtain ⟨row, mem, rfl⟩ := List.mem_map.mp new
      exact (unacked row mem).2 old
  · intro row mem
    rcases List.mem_append.mp mem with new | old
    · exact (unacked row new).1
    · exact inv.fromInbox row old
  · intro call mem waits
    rcases List.mem_cons.mp mem with rfl | before
    · obtain ⟨row, waiting⟩ := List.exists_mem_of_ne_nil _ waits
      refine buildInjectionEnvelope_ne_nil (List.ne_nil_of_mem (a := row) ?_)
      refine mem_computeUnackedRows.mpr ⟨complete row waiting, fun acked => ?_⟩
      obtain ⟨other, mem, same⟩ := List.mem_map.mp ((inv.recorded _).mp acked)
      have : other = row := List.inj_on_of_nodup_map inv.distinct (inv.fromInbox other mem)
        ((inv.reading d present).waiting row waiting) same
      exact fresh row waiting (this ▸ mem)
    · exact inv.progress call before waits

theorem Umbrella.Inv.step {u v : Umbrella} {e : Event} (inv : u.Inv) (young : LedgerYoung u e)
    (fire : u.step collate e = some v) : v.Inv := by
  cases e with
  | tick ms =>
      cases fire
      exact { inv with reading := fun d present => { inv.reading d present with } }
  | rowAppended file row =>
      simp only [Umbrella.step] at fire
      split at fire
      · cases fire
      · rename_i new
        cases fire
        exact inv.append new
  | drainBegun sessionId =>
      simp only [Umbrella.step] at fire
      split at fire <;> cases fire
      exact inv.begin sessionId
  | inboxRead file =>
      obtain ⟨d, present, rfl⟩ := Option.map_eq_some_iff.mp fire
      exact inv.read present file
  | drainReturned ms =>
      obtain ⟨d, present, fire⟩ := Option.bind_eq_some_iff.mp fire
      obtain ⟨platformReads, done, rfl⟩ := Option.map_eq_some_iff.mp fire
      exact inv.drain present done young

theorem Umbrella.Inv.exact {u : Umbrella} (inv : u.Inv) : u.Exact where
  once := inv.once
  fromInbox := inv.fromInbox
  progress call earlier within waits := by
    obtain ⟨later, history⟩ := within
    have injects := inv.progress call (history ▸ List.mem_append_right _ List.mem_cons_self) waits
    obtain ⟨row, mem⟩ := List.exists_mem_of_ne_nil _ injects
    refine ⟨row, mem, fun again => ?_⟩
    have once := inv.once
    rw [injected, ← history, List.flatMap_append, List.flatMap_cons, List.map_append,
      List.map_append] at once
    exact List.disjoint_of_nodup_append once.of_append_right (List.mem_map_of_mem mem)
      (List.mem_map_of_mem again)

/-- In every run whose calls purge nothing, every row is injected at most once, and every
call made while rows were waiting injects a new one. -/
theorem injected_once {collate : String → String → Bool} {start : Int} {u : Umbrella}
    (run : Steps (Umbrella.step collate) LedgerYoung (Umbrella.init start) u) : u.Exact :=
  (run.invariant (Umbrella.Inv.init start) fun _ _ _ inv young fire => inv.step young fire).exact

end

/-! ## Two runs -/

def firstRow : InboxRow where
  id := "1"
  platform := .telegram
  sender := "ada"
  text := "hello"
  receivedAt := "2026-05-01T00:00:00.000Z"

def secondRow : InboxRow where
  id := "1"
  platform := .slack
  sender := "ada"
  text := "again"
  receivedAt := "2026-05-02T00:00:00.000Z"
  media := [⟨.photo, "/tmp/photo.jpg"⟩]

/-- A whole call. -/
def drainCall (sessionId : String) : List Event :=
  [.drainBegun sessionId, .inboxRead .telegram, .inboxRead .slack, .inboxRead .discord,
    .drainReturned 0]

/-- Two rows, two sessions, a week in between. -/
def weeklyCalls : List Event :=
  [.rowAppended .telegram firstRow] ++ drainCall "a" ++
    [.rowAppended .slack secondRow, .tick 604800000] ++ drainCall "b" ++ drainCall "a"

theorem injected_once_weekly :
    ∃ u, Steps (Umbrella.step fun a b => a ≤ b) LedgerYoung (Umbrella.init 0) u ∧
      u.drained.map (·.injectedRows) = [[], [secondRow], [firstRow]] ∧ u.Exact := by
  have replay : (runWhile (Umbrella.step fun a b => a ≤ b)
      (fun u e => decide (LedgerYoung u e)) (Umbrella.init 0) weeklyCalls).any
      (fun u => u.drained.map (·.injectedRows) = [[], [secondRow], [firstRow]]) = true := by
    decide +kernel
  obtain ⟨u, reached, drained⟩ := (Option.any_eq_true _ _).mp replay
  have run := Steps.of_runWhile (fun _ _ guard => of_decide_eq_true guard) reached
  exact ⟨u, run, of_decide_eq_true drained, injected_once run⟩

/-- The second call is a millisecond later than a week. -/
def lateCalls : List Event :=
  [.rowAppended .telegram firstRow] ++ drainCall "a" ++ [.tick 604800001] ++ drainCall "a" ++
    drainCall "a"

/-- The second call purges the acknowledgement, the third injects the row again. -/
theorem purge_injects_again :
    ∃ u, Steps (Umbrella.step fun a b => a ≤ b) AnyStep (Umbrella.init 0) u ∧
      u.drained.map (·.injectedRows) = [[firstRow], [], [firstRow]] ∧ ¬ u.Exact := by
  have replay : (runWhile (Umbrella.step fun a b => a ≤ b) (fun _ _ => true)
      (Umbrella.init 0) lateCalls).any
      (fun u => u.drained.map (·.injectedRows) = [[firstRow], [], [firstRow]]) = true := by
    decide +kernel
  obtain ⟨u, reached, drained⟩ := (Option.any_eq_true _ _).mp replay
  have run : Steps (Umbrella.step fun a b => a ≤ b) AnyStep (Umbrella.init 0) u :=
    Steps.of_runWhile (fun _ _ _ => trivial) reached
  refine ⟨u, run, of_decide_eq_true drained, fun exact => ?_⟩
  have once := exact.once
  rw [Umbrella.injected, List.flatMap_def, of_decide_eq_true drained] at once
  revert once
  decide

end Opensquid.Chat
