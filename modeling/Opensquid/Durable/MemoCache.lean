import Opensquid.Durable.CanonicalJson
import Opensquid.Lib.Steps
import Opensquid.Lib.Table

/-!
# The memo cache

Outputs under the name of a function and the hash of its inputs: in a table, and for a while in
memory. An entry in memory has a deadline, a row a lifetime, and a caller may bring a lifetime of
its own for a row that has none.

`transparent_of_coherent`: a cache answers as its table alone would, as long as what is in memory
is read under its own name and within the caller's lifetime, is found where its row is removed,
and has a text that is printed again.
-/

namespace Opensquid.Durable

open Opensquid.Lib

/-! ## Keys -/

def cacheKey (fn inputsHash : String) : String := fn ++ "::" ++ inputsHash

/-- The texts in front of the first `::` and behind it. -/
def cutColons : List Char → Option (List Char × List Char)
  | [] => none
  | c :: rest =>
      if c = ':' ∧ rest.head? = some ':' then some ([], rest.tail)
      else (cutColons rest).map fun (fn, inputsHash) => (c :: fn, inputsHash)

def parseCacheKey (key : String) : Option (String × String) :=
  (cutColons key.toList).map fun (fn, inputsHash) => (String.ofList fn, String.ofList inputsHash)

example : parseCacheKey (cacheKey "a::b" "c") = some ("a", "b::c") := rfl

/-! ## The two tiers -/

/-- An entry in memory, with the name and the hash that it was stored for. -/
structure MemoryEntry where
  value : Value
  expiresAtMs : Option Int
  owner : String × String

structure MemoRow where
  fn : String
  inputsHash : String
  outputsJson : List Char
  cachedAtMs : Int
  ttlMs : Option Int

def MemoRow.key (row : MemoRow) : String × String := (row.fn, row.inputsHash)

/-- The memory holds the most recent entry first. -/
structure MemoCache where
  memory : List (String × MemoryEntry) := []
  table : Table MemoRow.key := .empty

inductive Reply
  | hit (value : Value)
  | miss
  | thrown

structure ClearOpts where
  fn : Option String := none
  olderThanMs : Option Int := none
  deriving DecidableEq, Repr

def MemoryEntry.live (entry : MemoryEntry) (now : Int) : Bool :=
  entry.expiresAtMs.all fun deadline => now < deadline

/-- The row's own lifetime counts, else the caller's. -/
def MemoRow.expiresAt (row : MemoRow) (ttlMs : Option Int) : Option Int :=
  (row.ttlMs.or ttlMs).map fun ttl => row.cachedAtMs + ttl

def MemoRow.expired (row : MemoRow) (ttlMs : Option Int) (now : Int) : Bool :=
  (row.expiresAt ttlMs).any fun deadline => deadline ≤ now

/-- The rows that a clear removes. -/
def MemoRow.cleared (opts : ClearOpts) (now : Int) (row : MemoRow) : Bool :=
  opts.fn.all (fun fn => row.fn = fn) && opts.olderThanMs.all fun age => row.cachedAtMs < now - age

section

variable (number : NumberText) (memoryMax : Nat)

/-! ## The table alone -/

def tableGet (table : Table MemoRow.key) (fn inputsHash : String) (ttlMs : Option Int) (now : Int) :
    Reply × Table MemoRow.key :=
  match table.get (fn, inputsHash) with
  | none => (.miss, table)
  | some row =>
      if row.expired ttlMs now then (.miss, table.delete (fn, inputsHash))
      else
        match Value.canonicalJsonParse number row.outputsJson with
        | none => (.thrown, table)
        | some value => (.hit value, table)

/-- What has no text is not stored: the statement throws. -/
def tableSet (table : Table MemoRow.key) (fn inputsHash : String) (outputs : Value)
    (ttlMs : Option Int) (now : Int) : Table MemoRow.key :=
  match outputs.canonicalJsonStringify number with
  | none => table
  | some outputsJson => table.put { fn, inputsHash, outputsJson, cachedAtMs := now, ttlMs }

def tableClear (table : Table MemoRow.key) (opts : ClearOpts) (now : Int) : Table MemoRow.key :=
  table.filter fun row => !row.cleared opts now

/-! ## The cache -/

namespace MemoCache

/-- The entry becomes the most recent one, and the least recent one may go. -/
def remember (key : String) (entry : MemoryEntry) (memory : List (String × MemoryEntry)) :
    List (String × MemoryEntry) :=
  ((key, entry) :: memory.filter fun x => x.1 ≠ key).take memoryMax

/-- A row that is found is remembered. -/
def getRow (cache : MemoCache) (fn inputsHash : String) (ttlMs : Option Int) (now : Int) :
    Reply × MemoCache :=
  let read := tableGet number cache.table fn inputsHash ttlMs now
  match read.1 with
  | .hit value => (.hit value,
      { memory := remember memoryMax (cacheKey fn inputsHash)
          { value
            expiresAtMs := (cache.table.get (fn, inputsHash)).bind fun row => row.expiresAt ttlMs
            owner := (fn, inputsHash) } cache.memory
        table := read.2 })
  | .miss => (.miss, { cache with table := read.2 })
  | .thrown => (.thrown, { cache with table := read.2 })

def get (cache : MemoCache) (fn inputsHash : String) (ttlMs : Option Int) (now : Int) :
    Reply × MemoCache :=
  let key := cacheKey fn inputsHash
  match cache.memory.lookup key with
  | none => cache.getRow number memoryMax fn inputsHash ttlMs now
  | some entry =>
      if entry.live now then
        (.hit entry.value, { cache with memory := remember memoryMax key entry cache.memory })
      else
        getRow number memoryMax { cache with memory := cache.memory.filter fun x => x.1 ≠ key }
          fn inputsHash ttlMs now

/-- Memory first, then the table. -/
def set (cache : MemoCache) (fn inputsHash : String) (outputs : Value) (ttlMs : Option Int)
    (now : Int) : MemoCache where
  memory := remember memoryMax (cacheKey fn inputsHash)
    { value := outputs, expiresAtMs := ttlMs.map fun ttl => now + ttl, owner := (fn, inputsHash) }
    cache.memory
  table := tableSet number cache.table fn inputsHash outputs ttlMs now

/-- In memory the entries of a function are found by their keys, of any age. -/
def clear (cache : MemoCache) (opts : ClearOpts) (now : Int) : MemoCache where
  memory := cache.memory.filter fun x =>
    opts.fn.any fun fn => (parseCacheKey x.1).map Prod.fst ≠ some fn
  table := tableClear cache.table opts now

end MemoCache

/-! ## Runs -/

/-- A value to be stored. -/
structure Outputs where
  value : Value
  shaped : value.Shaped

inductive MemoOp
  | get (fn inputsHash : String) (ttlMs : Option Int)
  | set (fn inputsHash : String) (outputs : Outputs) (ttlMs : Option Int)
  | clear (opts : ClearOpts)

/-- A cache and a table that see the same calls, with what they have answered. -/
structure Memos where
  cache : MemoCache := {}
  table : Table MemoRow.key := .empty
  clock : Int := 0
  replies : List (Reply × Reply) := []

/-- A call at a time of the clock, which does not go back. -/
structure MemoCall where
  op : MemoOp
  now : Int

def Memos.step (m : Memos) (call : MemoCall) : Option Memos :=
  if m.clock ≤ call.now then
    match call.op with
    | .get fn inputsHash ttlMs =>
        let answer := m.cache.get number memoryMax fn inputsHash ttlMs call.now
        let read := tableGet number m.table fn inputsHash ttlMs call.now
        some ⟨answer.2, read.2, call.now, (answer.1, read.1) :: m.replies⟩
    | .set fn inputsHash outputs ttlMs => some { m with
        cache := m.cache.set number memoryMax fn inputsHash outputs.value ttlMs call.now
        table := tableSet number m.table fn inputsHash outputs.value ttlMs call.now
        clock := call.now }
    | .clear opts => some { m with
        cache := m.cache.clear opts call.now
        table := tableClear m.table opts call.now
        clock := call.now }
  else none

/-- The same outcome, with values of one text. -/
inductive Reply.Agrees (number : NumberText) : Reply → Reply → Prop
  | hit {v w : Value} (same : v.canonicalJsonStringify number = w.canonicalJsonStringify number) :
      Agrees number (.hit v) (.hit w)
  | miss : Agrees number .miss .miss
  | thrown : Agrees number .thrown .thrown

end

/-- A get that finds a live entry finds one that was stored for it, and a row that has no lifetime
of its own within the caller's. A value that is set has a text, which is printed again. A clear
by function finds the entries of the rows that it removes under the name of the function. -/
def Coherent (m : Memos) (call : MemoCall) : Prop :=
  match call.op with
  | .get fn inputsHash ttlMs =>
      ∀ entry ∈ m.cache.memory.lookup (cacheKey fn inputsHash), entry.live call.now = true →
        entry.owner = (fn, inputsHash) ∧ ∀ row ∈ m.cache.table.get (fn, inputsHash),
          row.ttlMs = none → ∀ ttl ∈ ttlMs, call.now < row.cachedAtMs + ttl
  | .set _ _ outputs _ => outputs.value.isUndefined = false ∧ outputs.value.canonicalize.Stable
  | .clear opts => ∀ x ∈ m.cache.memory, ∀ fn ∈ opts.fn,
      (∃ row ∈ m.cache.table.get x.2.owner, row.cleared opts call.now = true) →
        (parseCacheKey x.1).map Prod.fst = some fn

/-! ## What the tiers hold -/

section

variable {number : NumberText} {memoryMax : Nat}

/-- The text of the row is read, and printed again. -/
def MemoRow.Printed (number : NumberText) (row : MemoRow) : Prop :=
  ∃ value, Value.canonicalJsonParse number row.outputsJson = some value ∧
    value.canonicalJsonStringify number = some row.outputsJson

/-- The entry was stored under its own key, has the text of its row, and the deadline of a row
that has one. -/
structure Backed (number : NumberText) (table : Table MemoRow.key) (key : String)
    (entry : MemoryEntry) : Prop where
  owned : key = cacheKey entry.owner.1 entry.owner.2
  row : ∃ row, table.get entry.owner = some row ∧
    entry.value.canonicalJsonStringify number = some row.outputsJson ∧
    ∀ ttl ∈ row.ttlMs, entry.expiresAtMs = some (row.cachedAtMs + ttl)

structure MemoCache.Valid (number : NumberText) (cache : MemoCache) : Prop where
  rows : ∀ row ∈ cache.table.rows, row.Printed number
  memory : ∀ x ∈ cache.memory, Backed number cache.table x.1 x.2

theorem Reply.Agrees.refl : ∀ reply : Reply, Reply.Agrees number reply reply
  | .hit _ => .hit rfl
  | .miss => .miss
  | .thrown => .thrown

/-- What is set and has a text that is printed again makes such a row. -/
theorem printed_of_stable {v : Value} (shaped : v.Shaped) (defined : v.isUndefined = false)
    (stable : v.canonicalize.Stable) {text : List Char}
    (printed : v.canonicalJsonStringify number = some text) :
    ∃ w, Value.canonicalJsonParse number text = some w ∧
      w.canonicalJsonStringify number = some text := by
  have plain := shaped.plain_canonicalize defined
  rw [Value.canonicalJsonStringify_eq number defined, Option.some.injEq] at printed
  subst printed
  refine ⟨_, plain.canonicalJsonParse_stringify number, ?_⟩
  rw [Value.canonicalJsonStringify_eq number plain.revive_defined,
    (Value.canonicalize_revive_eq_iff plain).mpr stable]

/-- An entry that was stored for another name and hash keeps its row when the others change. -/
theorem Backed.frame {table table' : Table MemoRow.key} {key : String} {entry : MemoryEntry}
    (backed : Backed number table key entry)
    (same : table'.get entry.owner = table.get entry.owner) : Backed number table' key entry := by
  obtain ⟨row, found, text, deadline⟩ := backed.row
  exact ⟨backed.owned, row, same.trans found, text, deadline⟩

/-- An entry under another key was stored for another name or hash. -/
theorem Backed.owner_ne {table : Table MemoRow.key} {key fn inputsHash : String}
    {entry : MemoryEntry} (backed : Backed number table key entry)
    (other : key ≠ cacheKey fn inputsHash) : entry.owner ≠ (fn, inputsHash) := by
  intro same
  apply other
  rw [backed.owned, same]

theorem mem_remember {key : String} {entry : MemoryEntry} {memory : List (String × MemoryEntry)}
    {x : String × MemoryEntry} (mem : x ∈ MemoCache.remember memoryMax key entry memory) :
    x = (key, entry) ∨ (x ∈ memory ∧ x.1 ≠ key) := by
  rcases List.mem_cons.mp (List.mem_of_mem_take mem) with first | later
  · exact .inl first
  · obtain ⟨known, other⟩ := List.mem_filter.mp later
    exact .inr ⟨known, of_decide_eq_true other⟩

theorem mem_of_lookup {key : String} {entry : MemoryEntry} {memory : List (String × MemoryEntry)}
    (found : memory.lookup key = some entry) : (key, entry) ∈ memory := by
  obtain ⟨before, after, split, _⟩ := List.lookup_eq_some_iff.mp found
  rw [split]
  exact List.mem_append_right _ List.mem_cons_self

/-! ## One call -/

/-- A row is missing, has expired and goes, or is read. -/
theorem tableGet_cases {table : Table MemoRow.key} (fn inputsHash : String) (ttlMs : Option Int)
    (now : Int) (printed : ∀ row ∈ table.rows, row.Printed number) :
    (table.get (fn, inputsHash) = none ∧
      tableGet number table fn inputsHash ttlMs now = (.miss, table)) ∨
    (∃ row, table.get (fn, inputsHash) = some row ∧ row.expired ttlMs now = true ∧
      tableGet number table fn inputsHash ttlMs now = (.miss, table.delete (fn, inputsHash))) ∨
    (∃ row value, table.get (fn, inputsHash) = some row ∧ row.expired ttlMs now = false ∧
      value.canonicalJsonStringify number = some row.outputsJson ∧
      tableGet number table fn inputsHash ttlMs now = (.hit value, table)) := by
  cases found : table.get (fn, inputsHash) with
  | none => exact .inl ⟨rfl, by rw [tableGet, found]⟩
  | some row =>
      obtain ⟨value, read, again⟩ := printed row (Table.mem_of_get found)
      by_cases expired : row.expired ttlMs now = true
      · exact .inr (.inl ⟨row, rfl, expired, by rw [tableGet, found]; exact if_pos expired⟩)
      · refine .inr (.inr ⟨row, value, rfl, Bool.eq_false_iff.mpr expired, again, ?_⟩)
        rw [tableGet, found]
        dsimp only
        rw [if_neg expired, read]

variable (memoryMax)

/-- Where nothing is in memory under the key, the table answers, and what it finds is remembered. -/
theorem MemoCache.Valid.getRow {cache : MemoCache} (valid : cache.Valid number)
    {fn inputsHash : String} (absent : ∀ x ∈ cache.memory, x.1 ≠ cacheKey fn inputsHash)
    (ttlMs : Option Int) (now : Int) :
    let answer := cache.getRow number memoryMax fn inputsHash ttlMs now
    let read := tableGet number cache.table fn inputsHash ttlMs now
    answer.1 = read.1 ∧ answer.2.table = read.2 ∧ answer.2.Valid number := by
  intro answer read
  rcases tableGet_cases fn inputsHash ttlMs now valid.rows with ⟨_, here⟩ | ⟨row, _, _, here⟩ | ⟨row, value, found, _, text, here⟩
  · have kept : answer = (.miss, cache) := by simp only [answer, MemoCache.getRow, here]
    rw [kept, show read = _ from here]
    exact ⟨rfl, rfl, valid⟩
  · have gone : answer = (.miss, { cache with table := cache.table.delete (fn, inputsHash) }) := by
      simp only [answer, MemoCache.getRow, here]
    rw [gone, show read = _ from here]
    refine ⟨rfl, rfl, fun row mem => valid.rows row (Table.mem_delete.mp mem).1, fun x mem => ?_⟩
    have backed := valid.memory x mem
    exact backed.frame (Table.get_delete_of_ne (backed.owner_ne (absent x mem)))
  · have hit : answer = (.hit value, { cache with
        memory := remember memoryMax (cacheKey fn inputsHash)
          { value, expiresAtMs := row.expiresAt ttlMs, owner := (fn, inputsHash) } cache.memory }) := by
      simp only [answer, MemoCache.getRow, here, found, Option.bind_some]
    rw [hit, show read = _ from here]
    refine ⟨rfl, rfl, valid.rows, fun x mem => ?_⟩
    rcases mem_remember mem with rfl | ⟨old, _⟩
    · refine ⟨rfl, row, found, text, fun ttl own => ?_⟩
      rw [MemoRow.expiresAt, Option.mem_def.mp own]
      rfl
    · exact valid.memory x old

/-- A live entry of the row that is asked for, within the caller's lifetime, answers as the row. -/
theorem MemoCache.Valid.hit {cache : MemoCache} (valid : cache.Valid number)
    {fn inputsHash : String} {ttlMs : Option Int} {now : Int} {entry : MemoryEntry}
    (found : cache.memory.lookup (cacheKey fn inputsHash) = some entry)
    (live : entry.live now = true) (owner : entry.owner = (fn, inputsHash))
    (within : ∀ row ∈ cache.table.get (fn, inputsHash),
      row.ttlMs = none → ∀ ttl ∈ ttlMs, now < row.cachedAtMs + ttl) :
    ∃ value, tableGet number cache.table fn inputsHash ttlMs now = (.hit value, cache.table) ∧
      entry.value.canonicalJsonStringify number = value.canonicalJsonStringify number := by
  obtain ⟨row, here, text, deadline⟩ := (valid.memory _ (mem_of_lookup found)).row
  rw [owner] at here
  have fresh : row.expired ttlMs now = false := by
    cases own : row.ttlMs with
    | none =>
        rw [MemoRow.expired, MemoRow.expiresAt, own, Option.none_or]
        cases asked : ttlMs with
        | none => rfl
        | some ttl =>
            have later := within row here own ttl asked
            exact decide_eq_false (not_le.mpr later)
    | some ttl =>
        rw [MemoryEntry.live, deadline ttl own, Option.all_some] at live
        rw [MemoRow.expired, MemoRow.expiresAt, own, Option.some_or]
        exact decide_eq_false (not_le.mpr (of_decide_eq_true live))
  rcases tableGet_cases fn inputsHash ttlMs now valid.rows with ⟨none, _⟩ | ⟨row', same, expired, _⟩ | ⟨row', value, same, _, text', read⟩
  · rw [here] at none
    cases none
  · rw [here] at same
    cases same
    rw [fresh] at expired
    cases expired
  · rw [here] at same
    cases same
    exact ⟨value, read, text.trans text'.symm⟩

theorem MemoCache.Valid.get {cache : MemoCache} (valid : cache.Valid number)
    {fn inputsHash : String} {ttlMs : Option Int} {now : Int}
    (coherent : ∀ entry ∈ cache.memory.lookup (cacheKey fn inputsHash), entry.live now = true →
      entry.owner = (fn, inputsHash) ∧ ∀ row ∈ cache.table.get (fn, inputsHash),
        row.ttlMs = none → ∀ ttl ∈ ttlMs, now < row.cachedAtMs + ttl) :
    let answer := cache.get number memoryMax fn inputsHash ttlMs now
    let read := tableGet number cache.table fn inputsHash ttlMs now
    Reply.Agrees number answer.1 read.1 ∧ answer.2.table = read.2 ∧ answer.2.Valid number := by
  intro answer read
  cases found : cache.memory.lookup (cacheKey fn inputsHash) with
  | none =>
      have passed : answer = cache.getRow number memoryMax fn inputsHash ttlMs now := by
        simp only [answer, MemoCache.get, found]
      have absent : ∀ x ∈ cache.memory, x.1 ≠ cacheKey fn inputsHash := fun x mem same => by
        have other := List.lookup_eq_none_iff.mp found x mem
        rw [same] at other
        exact absurd rfl (bne_iff_ne.mp other)
      obtain ⟨reply, table, kept⟩ := valid.getRow memoryMax absent ttlMs now
      rw [passed]
      exact ⟨reply ▸ .refl _, table, kept⟩
  | some entry =>
      by_cases live : entry.live now = true
      · obtain ⟨owner, within⟩ := coherent entry found live
        obtain ⟨value, here, text⟩ := valid.hit found live owner within
        have hit : answer = (.hit entry.value, { cache with
            memory := remember memoryMax (cacheKey fn inputsHash) entry cache.memory }) := by
          simp only [answer, MemoCache.get, found, live, if_true]
        rw [hit, show read = _ from here]
        refine ⟨.hit text, rfl, valid.rows, fun x mem => ?_⟩
        rcases mem_remember mem with rfl | ⟨old, _⟩
        · exact valid.memory _ (mem_of_lookup found)
        · exact valid.memory x old
      · -- a dead entry is dropped before the table is read
        have passed : answer = MemoCache.getRow number memoryMax
            { cache with memory := cache.memory.filter fun x => x.1 ≠ cacheKey fn inputsHash }
            fn inputsHash ttlMs now := by
          simp only [answer, MemoCache.get, found, live, Bool.false_eq_true, if_false]
        have dropped : MemoCache.Valid number
            { cache with memory := cache.memory.filter fun x => x.1 ≠ cacheKey fn inputsHash } :=
          ⟨valid.rows, fun x mem => valid.memory x (List.mem_filter.mp mem).1⟩
        obtain ⟨reply, table, kept⟩ := dropped.getRow memoryMax
          (fun x mem => of_decide_eq_true (List.mem_filter.mp mem).2) ttlMs now
        rw [passed]
        exact ⟨reply ▸ .refl _, table, kept⟩

theorem MemoCache.Valid.set {cache : MemoCache} (valid : cache.Valid number)
    {fn inputsHash : String} {outputs : Value} {ttlMs : Option Int} {now : Int}
    (shaped : outputs.Shaped) (defined : outputs.isUndefined = false)
    (stable : outputs.canonicalize.Stable) :
    (cache.set number memoryMax fn inputsHash outputs ttlMs now).Valid number := by
  have text := Value.canonicalJsonStringify_eq number defined
  set outputsJson := (Value.toJson number outputs.canonicalize).stringify
  let row : MemoRow := { fn, inputsHash, outputsJson, cachedAtMs := now, ttlMs }
  have written : tableSet number cache.table fn inputsHash outputs ttlMs now =
      cache.table.put row := by rw [tableSet, text]
  have after : cache.set number memoryMax fn inputsHash outputs ttlMs now =
      { memory := remember memoryMax (cacheKey fn inputsHash)
          ⟨outputs, ttlMs.map fun ttl => now + ttl, (fn, inputsHash)⟩ cache.memory
        table := cache.table.put row } := by rw [MemoCache.set, written]
  rw [after]
  refine ⟨fun x mem => ?_, fun x mem => ?_⟩
  · rcases Table.mem_put mem with rfl | old
    · exact printed_of_stable shaped defined stable text
    · exact valid.rows x old
  · rcases mem_remember mem with rfl | ⟨old, other⟩
    · refine ⟨rfl, row, Table.get_put_self, text, fun ttl own => ?_⟩
      have asked : ttlMs = some ttl := own
      rw [asked]
      rfl
    · have backed := valid.memory x old
      exact backed.frame (Table.get_put_of_ne (backed.owner_ne other))

/-- An entry that is left in memory is not one of a row that is removed. -/
theorem MemoCache.Valid.clear {cache : MemoCache} (valid : cache.Valid number) {opts : ClearOpts}
    {now : Int}
    (found : ∀ x ∈ cache.memory, ∀ fn ∈ opts.fn,
      (∃ row ∈ cache.table.get x.2.owner, row.cleared opts now = true) →
        (parseCacheKey x.1).map Prod.fst = some fn) :
    (cache.clear opts now).Valid number := by
  refine ⟨fun row mem => valid.rows row (List.mem_filter.mp mem).1, fun x mem => ?_⟩
  obtain ⟨old, kept⟩ := List.mem_filter.mp mem
  obtain ⟨owned, row, here, rest⟩ := valid.memory x old
  refine ⟨owned, row, Table.get_filter_of_pos here ?_, rest⟩
  obtain ⟨fn, asked, other⟩ := (Option.any_eq_true _ _).mp kept
  rw [Bool.not_eq_true']
  refine Bool.eq_false_iff.mpr fun cleared => ?_
  exact of_decide_eq_true other (found x old fn asked ⟨row, here, cleared⟩)

variable {memoryMax}

/-! ## Whole runs -/

/-- The cache and the table have the same rows, and have answered alike. -/
structure Memos.Matched (number : NumberText) (m : Memos) : Prop where
  same : m.cache.table = m.table
  valid : m.cache.Valid number
  agreed : ∀ pair ∈ m.replies, Reply.Agrees number pair.1 pair.2

theorem Memos.Matched.step {m m' : Memos} {call : MemoCall} (matched : m.Matched number)
    (coherent : Coherent m call) (fire : m.step number memoryMax call = some m') :
    m'.Matched number := by
  obtain ⟨same, valid, agreed⟩ := matched
  rw [Memos.step] at fire
  split at fire
  · rename_i forward
    rw [Coherent] at coherent
    cases op : call.op with
    | get fn inputsHash ttlMs =>
        rw [op] at fire coherent
        cases fire
        obtain ⟨reply, table, kept⟩ := valid.get memoryMax coherent
        rw [same] at reply table
        refine ⟨table, kept, fun pair mem => ?_⟩
        rcases List.mem_cons.mp mem with rfl | old
        · exact reply
        · exact agreed pair old
    | set fn inputsHash outputs ttlMs =>
        rw [op] at fire coherent
        cases fire
        refine ⟨?_, valid.set memoryMax outputs.shaped coherent.1 coherent.2, agreed⟩
        rw [MemoCache.set, same]
    | clear opts =>
        rw [op] at fire coherent
        cases fire
        refine ⟨?_, valid.clear coherent, agreed⟩
        rw [MemoCache.clear, same]
  · cases fire

/-- As long as what is in memory is read under its own name and within the caller's lifetime, is
found where its row is removed, and has a text that is printed again, every get is answered as
by the table alone. -/
theorem transparent_of_coherent {m : Memos}
    (run : Steps (Memos.step number memoryMax) Coherent {} m) :
    ∀ pair ∈ m.replies, Reply.Agrees number pair.1 pair.2 := by
  have empty : Memos.Matched number {} := by
    refine ⟨rfl, ⟨fun row mem => ?_, fun x mem => ?_⟩, fun pair mem => ?_⟩ <;> cases mem
  have matched : m.Matched number :=
    run.invariant empty fun _ _ _ matched coherent fire => matched.step coherent fire
  exact matched.agreed

end

/-! ## Runs on one name -/

def sevenTries : Outputs := ⟨.num 7, trivial⟩

/-- The value is a number. -/
def Value.isNum : Value → Bool
  | .num _ => true
  | .undefined | .null | .bool _ | .str _ | .arr _ | .obj _ | .buffer _ => false

/-- An executable condition that is enough. -/
def coherentCall (m : Memos) (call : MemoCall) : Bool :=
  match call.op with
  | .get fn inputsHash ttlMs =>
      decide (∀ entry ∈ m.cache.memory.lookup (cacheKey fn inputsHash),
        entry.live call.now = true → entry.owner = (fn, inputsHash) ∧
          ∀ row ∈ m.cache.table.get (fn, inputsHash),
            row.ttlMs = none → ∀ ttl ∈ ttlMs, call.now < row.cachedAtMs + ttl)
  | .set _ _ outputs _ => outputs.value.isNum
  | .clear opts => opts.fn.isNone

theorem coherent_of_coherentCall (m : Memos) (call : MemoCall)
    (checked : coherentCall m call = true) : Coherent m call := by
  rw [coherentCall] at checked
  rw [Coherent]
  cases op : call.op with
  | get fn inputsHash ttlMs =>
      rw [op] at checked
      exact of_decide_eq_true checked
  | set fn inputsHash outputs ttlMs =>
      rw [op] at checked
      dsimp only at checked ⊢
      cases number : outputs.value with
      | num n => exact ⟨rfl, trivial⟩
      | undefined | null | bool | str | arr | obj | buffer =>
          rw [number] at checked
          cases checked
  | clear opts =>
      rw [op] at checked
      dsimp only at checked
      intro x _ fn asked
      rw [Option.mem_def.mp asked] at checked
      cases checked

/-- Found in memory, gone with its lifetime, set again and cleared. -/
def oneName : List MemoCall :=
  [⟨.set "recall" "h1" sevenTries (some 10), 0⟩, ⟨.get "recall" "h1" none, 9⟩,
    ⟨.get "recall" "h1" none, 10⟩, ⟨.set "recall" "h1" sevenTries none, 11⟩,
    ⟨.clear ⟨none, some 0⟩, 12⟩, ⟨.get "recall" "h1" (some 5), 13⟩]

def Reply.found : Reply → Bool
  | .hit _ => true
  | .miss | .thrown => false

theorem Reply.Agrees.found_eq {number : NumberText} {a b : Reply} (agrees : Agrees number a b) :
    a.found = b.found := by
  cases agrees <;> rfl

theorem transparent_oneName : ∃ m, Steps (Memos.step numberCode 1000) Coherent {} m ∧
    m.replies.map (fun pair => pair.1.found) = [false, false, true] ∧
    ∀ pair ∈ m.replies, Reply.Agrees numberCode pair.1 pair.2 := by
  have replay : (runWhile (Memos.step numberCode 1000) coherentCall {} oneName).any
      (fun m => m.replies.map (fun pair => pair.1.found) = [false, false, true]) = true := by
    decide +kernel
  obtain ⟨m, done, replies⟩ := (Option.any_eq_true _ _).mp replay
  have run : Steps (Memos.step numberCode 1000) Coherent {} m :=
    .of_runWhile coherent_of_coherentCall done
  exact ⟨m, run, of_decide_eq_true replies, transparent_of_coherent run⟩

/-- Set without a lifetime, then asked for within one that is over: memory still answers. -/
def lateAsked : List MemoCall :=
  [⟨.set "recall" "h1" sevenTries none, 0⟩, ⟨.get "recall" "h1" (some 10), 20⟩]

theorem answered_past_lifetime : ∃ m, Steps (Memos.step numberCode 1000) AnyStep {} m ∧
    ∃ pair ∈ m.replies, ¬ Reply.Agrees numberCode pair.1 pair.2 := by
  have replay : (runWhile (Memos.step numberCode 1000) (fun _ _ => true) {} lateAsked).any
      (fun m => m.replies.any fun pair => pair.1.found && !pair.2.found) = true := by
    decide +kernel
  obtain ⟨m, done, replies⟩ := (Option.any_eq_true _ _).mp replay
  obtain ⟨pair, mem, apart⟩ := List.any_eq_true.mp replies
  have run : Steps (Memos.step numberCode 1000) AnyStep {} m :=
    .of_runWhile (fun _ _ _ => trivial) done
  refine ⟨m, run, pair, mem, fun agrees => ?_⟩
  rw [agrees.found_eq, Bool.and_not_self] at apart
  cases apart

end Opensquid.Durable
