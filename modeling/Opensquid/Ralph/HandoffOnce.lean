import Mathlib.Data.List.Pairwise
import Opensquid.Ralph.ScopeDone

/-!
# A handoff happens once

What the receipts of the store look like (`Receipts`), what one transaction does to them,
and, from both, what every run of the processes keeps.
-/

namespace Opensquid.Loop

open Opensquid.Lib Opensquid.WorkGraph

/-! ## Receipts in the event log -/

/-- The digest prints 64 hexadecimal digits. -/
def PrintsSha256 (digest : Digest) : Prop := ∀ text, isSha256 (digest 64 text) = true

/-- The event is a receipt of its own item and action. -/
def NewMonitorEvent.Proper (digest : Digest) (e : NewMonitorEvent) : Prop :=
  e.kind = .stageAdvance ∧ ∃ r, e.receipt = some r ∧ isSemanticScopeReceipt digest r = true

/-- Everything in the namespace is a receipt, and no two are of one item or action. -/
structure Receipts (digest : Digest) (events : List MonitorEvent) : Prop where
  proper : ∀ e ∈ events, e.named = true → e.Proper digest
  apart : events.Pairwise fun x y => x.named = true → y.named = true →
    x.wgId ≠ y.wgId ∧ x.actionId ≠ y.actionId

section

variable {digest : Digest} {e : NewMonitorEvent} {r : ScopeHandoffReceipt}

theorem receipt_eq_some : e.receipt = some r ↔ e.wgId = r.wgId ∧ e.actionId = some r.actionId ∧
    e.stage = some r.stage ∧ e.scopeArtifactPath = some r.artifactPath ∧
    e.scopeArtifactSha256 = some r.artifactSha256 ∧ e.scopeEvidenceKind = some r.evidenceKind := by
  rcases e with ⟨wgId, kind, stage, actionId, path, sha, evidence, atMs⟩
  rcases r with ⟨wgId', actionId', stage', path', sha', evidence'⟩
  cases actionId <;> cases stage <;> cases path <;> cases sha <;> cases evidence <;>
    simp [NewMonitorEvent.receipt]

theorem startsWith_of_isReceiptId {actionId : String} (receipt : isReceiptId actionId = true) :
    startsWithScopeHandoff actionId = true := by
  simp only [isReceiptId, Bool.and_eq_true, decide_eq_true_eq] at receipt
  have label : (actionId.toList.take 17).take 14 = "scope-handoff:".toList := by
    rw [receipt.1.2]
    decide
  rw [List.take_take] at label
  exact decide_eq_true label

theorem like_of_startsWith {actionId : String} (starts : startsWithScopeHandoff actionId = true) :
    likeScopeHandoff actionId = true := by
  rw [likeScopeHandoff, of_decide_eq_true starts]
  decide

theorem named_of_isReceipt (receipt : e.isReceipt = true) : e.named = true := by
  simp only [NewMonitorEvent.isReceipt, Bool.and_eq_true] at receipt
  obtain ⟨id, here, shape⟩ := (Option.any_eq_true _ _).mp receipt.2
  exact (Option.any_eq_true _ _).mpr ⟨id, here, like_of_startsWith (startsWith_of_isReceiptId shape)⟩

theorem scopeHandoffActionId_eq (wgId path : String) : scopeHandoffActionId digest wgId path =
    "scope-handoff:v1:" ++ digest 64 ("[" ++ jsonString wgId ++ "," ++ jsonString path ++ "]") := rfl

theorem isReceiptId_scopeHandoffActionId (sha : PrintsSha256 digest) (wgId path : String) :
    isReceiptId (scopeHandoffActionId digest wgId path) = true := by
  have hex := sha ("[" ++ jsonString wgId ++ "," ++ jsonString path ++ "]")
  simp only [isSha256, Bool.and_eq_true, decide_eq_true_eq] at hex
  have label : "scope-handoff:v1:".toList.length = 17 := by decide
  simp only [isReceiptId, scopeHandoffActionId_eq, String.toList_append, Bool.and_eq_true,
    decide_eq_true_eq, String.length_append]
  refine ⟨⟨?_, ?_⟩, ?_⟩
  · rw [hex.1, ← String.length_toList, label]
  · rw [← label, List.take_left']
    rfl
  · rw [← label, List.drop_left' rfl]
    exact hex.2

theorem isReceipt_of_proper (sha : PrintsSha256 digest) (proper : e.Proper digest) :
    e.isReceipt = true := by
  obtain ⟨kind, r, columns, semantic⟩ := proper
  obtain ⟨_, actionId, _⟩ := receipt_eq_some.mp columns
  simp only [isSemanticScopeReceipt, Bool.and_eq_true, decide_eq_true_eq] at semantic
  rw [NewMonitorEvent.isReceipt, kind, actionId, semantic.1.1]
  exact Bool.and_eq_true_iff.mpr ⟨rfl, isReceiptId_scopeHandoffActionId sha _ _⟩

/-- A receipt of an event log as it is read. -/
theorem decode_of_proper (proper : e.Proper digest) : ∃ r, e.receipt = some r ∧
    decodeScopeHandoffReceipt digest e = .ok r := by
  obtain ⟨_, r, columns, semantic⟩ := proper
  refine ⟨r, columns, ?_⟩
  rw [decodeScopeHandoffReceipt, columns, Option.filter_some, if_pos semantic]

end

section

variable {digest : Digest} {events : List MonitorEvent}

/-- Two receipts of one item are one. -/
theorem Receipts.eq_of_item (receipts : Receipts digest events) {x y : MonitorEvent} (memX : x ∈ events)
    (memY : y ∈ events) (namedX : x.named = true) (namedY : y.named = true) (item : x.wgId = y.wgId) :
    x = y := by
  by_contra differ
  have : Std.Symm fun x y : MonitorEvent => x.named = true → y.named = true →
      x.wgId ≠ y.wgId ∧ x.actionId ≠ y.actionId :=
    ⟨fun _ _ apart namedY namedX => (apart namedX namedY).imp Ne.symm Ne.symm⟩
  exact (receipts.apart.forall memX memY differ namedX namedY).1 item

theorem Receipts.nil : Receipts digest [] := ⟨fun _ mem => absurd mem List.not_mem_nil, .nil⟩

theorem receipts_cons {e : MonitorEvent} : Receipts digest (e :: events) ↔ Receipts digest events ∧
    (e.named = true → e.Proper digest ∧ ∀ x ∈ events, x.named = true →
      e.wgId ≠ x.wgId ∧ e.actionId ≠ x.actionId) := by
  constructor
  · rintro ⟨proper, apart⟩
    obtain ⟨first, rest⟩ := List.pairwise_cons.mp apart
    exact ⟨⟨fun x mem => proper x (List.mem_cons_of_mem _ mem), rest⟩, fun named =>
      ⟨proper e List.mem_cons_self named, fun x mem => first x mem named⟩⟩
  · rintro ⟨receipts, here⟩
    refine ⟨fun x mem named => ?_, List.pairwise_cons.mpr ⟨fun x mem named => ?_, receipts.apart⟩⟩
    · rcases List.mem_cons.mp mem with rfl | later
      · exact (here named).1
      · exact receipts.proper x later named
    · exact (here named).2 x mem

/-- What the check of the schema setup accepts. -/
theorem checkReceipts_eq_ok_iff {actionIds itemIds : List String} :
    LoopStore.checkReceipts digest events actionIds itemIds = .ok () ↔ Receipts digest events ∧
      ∀ e ∈ events, e.named = true → (∀ id ∈ e.actionId, id ∉ actionIds) ∧ e.wgId ∉ itemIds := by
  induction events generalizing actionIds itemIds with
  | nil => exact ⟨fun _ => ⟨.nil, fun _ mem => absurd mem List.not_mem_nil⟩, fun _ => rfl⟩
  | cons e rest ih =>
      rw [LoopStore.checkReceipts, receipts_cons, List.forall_mem_cons]
      by_cases named : e.named = true
      · rw [if_pos named]
        split
        · rename_i none
          refine ⟨nofun, fun ⟨⟨_, here⟩, _⟩ => ?_⟩
          obtain ⟨kind, r, columns, semantic⟩ := (here named).1
          rw [columns, Option.filter_some, if_pos (by rw [decide_eq_true kind, semantic]; rfl)] at none
          cases none
        · rename_i r found
          obtain ⟨columns, pass⟩ := Option.filter_eq_some_iff.mp found
          rw [Bool.and_eq_true, decide_eq_true_eq] at pass
          obtain ⟨item, action, _⟩ := receipt_eq_some.mp columns
          rw [item, action]
          split
          · rename_i seen
            refine ⟨nofun, fun ⟨_, new, _⟩ => ?_⟩
            rcases seen with seen | seen
            · exact absurd seen ((new named).1 _ rfl)
            · exact absurd seen (new named).2
          · rename_i unseen
            rw [not_or] at unseen
            rw [ih]
            constructor
            · rintro ⟨receipts, new⟩
              refine ⟨⟨receipts, fun _ => ⟨⟨pass.1, r, columns, pass.2⟩, fun x mem named' => ?_⟩⟩,
                fun _ => ⟨?_, unseen.2⟩, fun x mem named' => ?_⟩
              · obtain ⟨newAction, newItem⟩ := new x mem named'
                exact ⟨fun same => newItem (same ▸ List.mem_cons_self),
                  fun same => newAction _ same.symm List.mem_cons_self⟩
              · rintro _ ⟨⟩
                exact unseen.1
              · obtain ⟨newAction, newItem⟩ := new x mem named'
                exact ⟨fun id here seen => newAction id here (List.mem_cons_of_mem _ seen),
                  fun seen => newItem (List.mem_cons_of_mem _ seen)⟩
            · rintro ⟨⟨receipts, here⟩, _, new⟩
              refine ⟨receipts, fun x mem named' => ⟨fun id shown seen => ?_, fun seen => ?_⟩⟩
              · rcases List.mem_cons.mp seen with rfl | old
                · exact ((here named).2 x mem named').2 shown.symm
                · exact (new x mem named').1 id shown old
              · rcases List.mem_cons.mp seen with same | old
                · exact ((here named).2 x mem named').1 same.symm
                · exact (new x mem named').2 old
      · rw [if_neg named, ih]
        simp only [named, Bool.false_eq_true, false_implies, and_true, true_and]

/-- A new event outside the namespace. -/
theorem Receipts.add_other (receipts : Receipts digest events) {e : MonitorEvent}
    (other : e.named = false) : Receipts digest (events ++ [e]) where
  proper x mem named := by
    rcases List.mem_append.mp mem with old | new
    · exact receipts.proper x old named
    · rw [List.mem_singleton.mp new, other] at named
      cases named
  apart := by
    refine List.pairwise_append.mpr ⟨receipts.apart, List.pairwise_singleton .., ?_⟩
    rintro x _ y new _ named
    rw [List.mem_singleton.mp new, other] at named
    cases named

/-- A new receipt of a new item and action. -/
theorem Receipts.add (receipts : Receipts digest events) {e : MonitorEvent}
    (proper : e.toNewMonitorEvent.Proper digest)
    (new : ∀ x ∈ events, x.named = true → x.wgId ≠ e.wgId ∧ x.actionId ≠ e.actionId) :
    Receipts digest (events ++ [e]) where
  proper x mem named := by
    rcases List.mem_append.mp mem with old | added
    · exact receipts.proper x old named
    · rw [List.mem_singleton.mp added]
      exact proper
  apart := by
    refine List.pairwise_append.mpr ⟨receipts.apart, List.pairwise_singleton .., ?_⟩
    rintro x old y added named _
    rw [List.mem_singleton.mp added]
    exact new x old named

/-- At most one event passes a test that no two receipts pass. -/
theorem Receipts.filter_length_le (receipts : Receipts digest events) {test : MonitorEvent → Bool}
    (same : ∀ x y, test x = true → test y = true → x.wgId = y.wgId ∨ x.actionId = y.actionId) :
    (events.filter fun e => e.isReceipt && test e).length ≤ 1 := by
  have apart := receipts.apart.sublist (List.filter_sublist (p := fun e => e.isReceipt && test e))
  have passes : ∀ x ∈ events.filter fun e => e.isReceipt && test e, x.named = true ∧ test x = true :=
    fun x mem => by
      have pass := (List.mem_filter.mp mem).2
      rw [Bool.and_eq_true] at pass
      exact ⟨named_of_isReceipt pass.1, pass.2⟩
  revert apart passes
  cases events.filter fun e => e.isReceipt && test e with
  | nil => exact fun _ _ => Nat.zero_le _
  | cons x rest =>
      intro apart passes
      cases rest with
      | nil => exact Nat.le_refl _
      | cons y rest =>
          obtain ⟨named, pass⟩ := passes x List.mem_cons_self
          obtain ⟨named', pass'⟩ := passes y (List.mem_cons_of_mem _ List.mem_cons_self)
          have differ := (List.pairwise_cons.mp apart).1 y List.mem_cons_self named named'
          rcases same x y pass pass' with item | action
          · exact absurd item differ.1
          · exact absurd action differ.2

/-! ## Statements -/

variable {s t : LoopStore} {e : NewMonitorEvent}

/-- A statement that has been executed has appended its row. -/
structure Inserted (s t : LoopStore) (row : MonitorEvent) : Prop where
  events : t.events = s.events ++ [row]
  checkpoints : t.checkpoints = s.checkpoints
  guarded : s.insertGuard = true → row.named = true → row.validReceipt = true
  unique : row.isReceipt = true → ∀ x ∈ s.events, x.isReceipt = true →
    x.actionId ≠ row.actionId ∧ x.wgId ≠ row.wgId

theorem insert_ok (done : s.insert e = .ok t) : ∃ row : MonitorEvent, row.toNewMonitorEvent = e ∧
    Inserted s t row := by
  rw [LoopStore.insert] at done
  split at done
  · cases done
  · rename_i allowed
    split at done
    · cases done
    · rename_i single
      cases done
      refine ⟨_, rfl, rfl, rfl, fun guard named => ?_, fun receipt x mem old => ?_⟩
      · by_contra invalid
        have invalid' : e.validReceipt = false := Bool.eq_false_iff.mpr invalid
        have named' : e.named = true := named
        exact allowed (by rw [guard, named', invalid']; rfl)
      · by_contra same
        have taken : s.events.any (fun old => old.isReceipt &&
            (old.actionId = e.actionId || old.wgId = e.wgId)) = true := by
          refine List.any_eq_true.mpr ⟨x, mem, ?_⟩
          rw [old, Bool.true_and, Bool.or_eq_true, decide_eq_true_eq, decide_eq_true_eq]
          exact Classical.not_and_iff_not_or_not.mp same |>.imp not_not.mp not_not.mp
        have receipt' : e.isReceipt = true := receipt
        exact single (by rw [receipt', taken]; rfl)

/-- A plain event is no receipt. -/
theorem Receipts.append (receipts : Receipts digest s.events)
    (guard : e.named = true → e.actionId.any startsWithScopeHandoff = false → s.insertGuard = true)
    (done : s.appendMonitorEvent e = .ok t) :
    Receipts digest t.events ∧ s.events ⊆ t.events := by
  rw [LoopStore.appendMonitorEvent] at done
  split at done
  · cases done
  · rename_i foreign
    obtain ⟨row, rfl, inserted⟩ := insert_ok done
    have foreign' := Bool.eq_false_iff.mpr foreign
    have unnamed : row.named = false := by
      rw [Bool.eq_false_iff]
      intro named
      have valid := inserted.guarded (guard named foreign') named
      simp only [NewMonitorEvent.validReceipt, NewMonitorEvent.isReceipt, Bool.and_eq_true] at valid
      obtain ⟨id, here, shape⟩ := (Option.any_eq_true _ _).mp valid.1.1.1.1.2
      rw [here] at foreign
      exact foreign (startsWith_of_isReceiptId shape)
    rw [inserted.events]
    exact ⟨receipts.add_other unnamed, List.subset_append_left ..⟩

/-- A receipt that has been inserted is the first one of its item. -/
theorem Receipts.insert {r : ScopeHandoffReceipt} {atMs : Int} (sha : PrintsSha256 digest)
    (receipts : Receipts digest s.events)
    (done : s.insertScopeHandoffReceipt digest r atMs = .ok t) :
    Receipts digest t.events ∧ ∃ row : MonitorEvent, row.toNewMonitorEvent = r.event atMs ∧
      Inserted s t row ∧ row.isReceipt = true := by
  rw [LoopStore.insertScopeHandoffReceipt] at done
  split at done
  · rename_i semantic
    obtain ⟨row, same, inserted⟩ := insert_ok done
    have proper : row.toNewMonitorEvent.Proper digest := by
      rw [same]
      exact ⟨rfl, r, rfl, semantic⟩
    have receipt := isReceipt_of_proper sha proper
    refine ⟨?_, row, same, inserted, receipt⟩
    rw [inserted.events]
    refine receipts.add proper fun x mem named => ?_
    have old := isReceipt_of_proper sha (receipts.proper x mem named)
    exact (inserted.unique receipt x mem old).symm
  · cases done

/-- A write to the checkpoints leaves the events alone. -/
theorem events_of_create {taskId stage : String} {nowMs : Int} {files : List String}
    (done : s.createTaskCheckpoint taskId stage nowMs files = .ok t) : t.events = s.events := by
  simp only [LoopStore.createTaskCheckpoint] at done
  split at done
  · cases done
  · split at done <;> cases done <;> rfl

theorem updateCheckpoint_ok {taskId : String} {f : TaskCheckpoint → TaskCheckpoint}
    {keep : ∀ cp, (f cp).taskId = cp.taskId} (done : s.updateCheckpoint taskId f keep = .ok t) :
    t.events = s.events ∧ t.getTaskCheckpoint taskId = (s.getTaskCheckpoint taskId).map f := by
  rw [LoopStore.updateCheckpoint] at done
  split at done <;> cases done
  rw [LoopStore.getTaskCheckpoint, Table.get_update_self]
  exact ⟨rfl, rfl⟩

/-- A query for one receipt finds it or finds none. -/
theorem readReceipt_cases {test : MonitorEvent → Bool} {duplicate : String}
    (receipts : Receipts digest s.events)
    (same : ∀ x y, test x = true → test y = true → x.wgId = y.wgId ∨ x.actionId = y.actionId) :
    (s.readReceipt digest test duplicate = .ok none ∧
      ∀ x ∈ s.events, x.isReceipt = true → test x = false) ∨
    ∃ x ∈ s.events, ∃ r, x.isReceipt = true ∧ test x = true ∧ x.receipt = some r ∧
      s.readReceipt digest test duplicate = .ok (some r) := by
  have few := receipts.filter_length_le same
  rw [LoopStore.readReceipt]
  match found : s.events.filter fun e => e.isReceipt && test e with
  | [] =>
      refine .inl ⟨by rw [found]; rfl, fun x mem receipt => ?_⟩
      have fails := List.filter_eq_nil_iff.mp found x mem
      rw [receipt, Bool.true_and] at fails
      exact Bool.eq_false_iff.mpr fails
  | [x] =>
      have pass : x ∈ s.events.filter fun e => e.isReceipt && test e := found ▸ List.mem_singleton_self x
      obtain ⟨mem, tests⟩ := List.mem_filter.mp pass
      rw [Bool.and_eq_true] at tests
      obtain ⟨r, columns, decoded⟩ :=
        decode_of_proper (receipts.proper x mem (named_of_isReceipt tests.1))
      refine .inr ⟨x, mem, r, tests.1, tests.2, columns, ?_⟩
      rw [found]
      exact congrArg (Except.map some) decoded
  | _ :: _ :: rest =>
      rw [found, List.length_cons, List.length_cons] at few
      omega

end

end Opensquid.Loop

namespace Opensquid.Ralph

open Opensquid.Lib Opensquid.WorkGraph Opensquid.Loop

/-! ## One transaction -/

section

variable {digest : Digest} {input : HandoffInput} {faults : List TxStatement} {s t : LoopStore}
  {c : PersistedClassification} {cp : Option TaskCheckpoint} {legacySeqs : List Nat}

theorem bind_eq_ok {ε α β : Type} {x : Except ε α} {f : α → Except ε β} {b : β} :
    (x >>= f) = .ok b ↔ ∃ a, x = .ok a ∧ f a = .ok b := by
  cases x with
  | error e => exact ⟨nofun, nofun⟩
  | ok a => exact ⟨fun done => ⟨a, rfl, done⟩, fun ⟨_, same, done⟩ => by cases same; exact done⟩

/-- What an admission has done. -/
structure Admitted (digest : Digest) (input : HandoffInput) (cp : Option TaskCheckpoint)
    (s : LoopStore) (c : PersistedClassification) (t : LoopStore) : Prop where
  item : c.receipt.wgId = input.wgId
  path : c.receipt.artifactPath = input.artifact
  fresh : c.transition ≠ .reused
  written : ∃ inserted, s.insertScopeHandoffReceipt digest c.receipt input.nowMs = .ok inserted ∧
    if c.transition = .entered then enter input inserted cp = .ok t else t = inserted

theorem admitItem_ok (done : admitItem input digest faults s cp legacySeqs = .ok (c, t)) :
    Admitted digest input cp s c t := by
  obtain ⟨⟨transition, stage, evidence⟩, classified, done⟩ := bind_eq_ok.mp done
  obtain ⟨_, _, done⟩ := bind_eq_ok.mp done
  obtain ⟨inserted, inserts, done⟩ := bind_eq_ok.mp done
  obtain ⟨written, writes, done⟩ := bind_eq_ok.mp done
  obtain ⟨_, _, done⟩ := bind_eq_ok.mp done
  cases done
  refine ⟨rfl, rfl, ?_, inserted, inserts, ?_⟩
  · rintro rfl
    rw [classify] at classified
    split at classified
    · split at classified
      · cases classified
      · split at classified <;> cases classified
    · cases same : assertReusableCheckpoint cp input.artifact input.policy <;>
        rw [same] at classified <;> cases classified
  · rw [writeCheckpoint] at writes
    split at writes
    · rename_i entered
      rw [if_pos entered]
      obtain ⟨_, _, written⟩ := bind_eq_ok.mp writes
      exact written
    · rename_i other
      rw [if_neg other]
      cases writes
      rfl

/-- A transaction that commits finds the receipt of the item or writes one. -/
theorem handoffTx_ok (done : handoffTx input digest faults s = .ok (c, t)) :
    (t = s ∧ c.transition = .reused ∧ ∃ r, s.readScopeHandoffByItem digest input.wgId = .ok (some r) ∧
      r.artifactPath = input.artifact) ∨
    (s.readScopeHandoffByItem digest input.wgId = .ok none ∧
      Admitted digest input (s.getTaskCheckpoint input.wgId) s c t) := by
  obtain ⟨_, _, done⟩ := bind_eq_ok.mp done
  obtain ⟨_, _, done⟩ := bind_eq_ok.mp done
  obtain ⟨_, _, done⟩ := bind_eq_ok.mp done
  obtain ⟨byItem, readItem, done⟩ := bind_eq_ok.mp done
  obtain ⟨_, _, done⟩ := bind_eq_ok.mp done
  obtain ⟨byAction, _, done⟩ := bind_eq_ok.mp done
  obtain ⟨_, _, done⟩ := bind_eq_ok.mp done
  cases byItem with
  | some r =>
      obtain ⟨reused, reuses, done⟩ := bind_eq_ok.mp done
      obtain ⟨_, _, done⟩ := bind_eq_ok.mp done
      cases done
      rw [reuse] at reuses
      split at reuses
      · cases reuses
      · rename_i same
        simp only [not_or, not_not] at same
        cases current : assertReusableCheckpoint (s.getTaskCheckpoint input.wgId) input.artifact
            input.policy with
        | error e =>
            rw [current] at reuses
            cases reuses
        | ok reused =>
            rw [current] at reuses
            cases reuses
            exact .inl ⟨rfl, rfl, r, readItem, same.2.1⟩
  | none =>
      cases byAction with
      | some _ => cases done
      | none => exact .inr ⟨readItem, admitItem_ok done⟩

/-- The ways in which a call is refused. -/
def Refused (faulty : Prop) (e : HandoffError) : Prop :=
  (∃ message, e = conflict message) ∨ e = .sqlite ∧ faulty

theorem execute_refused {statement : TxStatement} {α : Type} {f : Unit → Except HandoffError α}
    (rest : ∃ e, f () = .error e ∧ Refused (faults ≠ []) e) :
    ∃ e, (execute faults statement >>= f) = .error e ∧ Refused (faults ≠ []) e := by
  rw [execute]
  split
  · rename_i mem
    exact ⟨.sqlite, rfl, .inr ⟨rfl, List.ne_nil_of_mem mem⟩⟩
  · exact rest

/-- A transaction for an item whose receipt is of another artifact. -/
theorem handoffTx_refused {r : ScopeHandoffReceipt} {byAction : Option ScopeHandoffReceipt}
    (readItem : s.readScopeHandoffByItem digest input.wgId = .ok (some r))
    (readAction : s.readScopeHandoffByAction digest input.actionId = .ok byAction)
    (other : r.artifactPath ≠ input.artifact) :
    ∃ e, handoffTx input digest faults s = .error e ∧ Refused (faults ≠ []) e := by
  refine execute_refused (execute_refused (execute_refused ?_))
  rw [readItem]
  refine execute_refused ?_
  rw [readAction]
  refine execute_refused ?_
  refine ⟨_, ?_, .inl ⟨"scope handoff already exists for a different artifact", rfl⟩⟩
  dsimp only
  rw [reuse, if_pos (.inr (.inl other))]
  rfl

/-- The checkpoint of an item that has entered. -/
theorem enter_ok (here : s.getTaskCheckpoint input.wgId = cp) (done : enter input s cp = .ok t) :
    t.events = s.events ∧ ∃ after, t.getTaskCheckpoint input.wgId = some after ∧
      after.stage = input.policy.entryStage ∧ after.scopeArtifacts = [input.artifact] := by
  cases cp with
  | none =>
      refine ⟨events_of_create done, ?_⟩
      have absent : s.checkpoints.get input.wgId = none := here
      simp only [enter, LoopStore.createTaskCheckpoint] at done
      split at done
      · cases done
      · cases done
        exact ⟨_, @Table.get_add_self _ _ _ _ _ _ absent, rfl, rfl⟩
  | some cp =>
      rw [enter, LoopStore.updateTaskStage] at done
      obtain ⟨same, after⟩ := updateCheckpoint_ok done
      rw [here] at after
      exact ⟨same, _, after, rfl, rfl⟩

/-- What is known of an item that has entered, at the commit. -/
structure Entered (input : HandoffInput) (s : LoopStore) (k : PersistedClassification)
    (t : LoopStore) : Prop where
  checkpoint : ∃ cp, t.getTaskCheckpoint input.wgId = some cp ∧ cp.stage = input.policy.entryStage ∧
    cp.scopeArtifacts = [k.receipt.artifactPath]
  receipt : ∃ row ∈ t.events, row.isReceipt = true ∧ row.receipt = some k.receipt
  item : k.receipt.wgId = input.wgId
  first : ∀ row ∈ s.events, row.isReceipt = true → row.wgId ≠ input.wgId

/-- The item has a receipt for the artifact. -/
def HasReceipt (s : LoopStore) (wgId artifact : String) : Prop :=
  ∃ row ∈ s.events, row.isReceipt = true ∧ row.wgId = wgId ∧ row.scopeArtifactPath = some artifact

/-- What one call does. -/
structure Ran (digest : Digest) (input : HandoffInput) (faulty : Prop) (s : LoopStore)
    (outcome : Except HandoffError PersistedClassification) (t : LoopStore) : Prop where
  receipts : Receipts digest t.events
  grows : s.events ⊆ t.events
  settled : ∀ k, outcome = .ok k → HasReceipt t input.wgId input.artifact
  thrown : ∀ e, outcome = .error e → t = s
  again : ∀ artifact, HasReceipt s input.wgId artifact → t = s ∧
    (artifact ≠ input.artifact → ∃ e, outcome = .error e ∧ Refused faulty e)
  entered : ∀ k, outcome = .ok k → k.transition = .entered → Entered input s k t

theorem sameItem {wgId : String} (x y : MonitorEvent) (here : decide (x.wgId = wgId) = true)
    (there : decide (y.wgId = wgId) = true) : x.wgId = y.wgId ∨ x.actionId = y.actionId :=
  .inl ((of_decide_eq_true here).trans (of_decide_eq_true there).symm)

theorem sameAction {actionId : String} (x y : MonitorEvent)
    (here : decide (x.actionId = some actionId) = true)
    (there : decide (y.actionId = some actionId) = true) : x.wgId = y.wgId ∨ x.actionId = y.actionId :=
  .inr ((of_decide_eq_true here).trans (of_decide_eq_true there).symm)

/-- The receipt that an item has is the one that is read. -/
theorem read_of_hasReceipt {wgId artifact : String} (receipts : Receipts digest s.events)
    (has : HasReceipt s wgId artifact) :
    ∃ r, s.readScopeHandoffByItem digest wgId = .ok (some r) ∧ r.artifactPath = artifact := by
  obtain ⟨row, mem, receipt, item, path⟩ := has
  rcases readReceipt_cases receipts sameItem with
    ⟨_, others⟩ | ⟨x, found, r, isReceipt, tests, columns, read⟩
  · exact absurd item (of_decide_eq_false (others row mem receipt))
  · have same : x = row := receipts.eq_of_item found mem (named_of_isReceipt isReceipt)
      (named_of_isReceipt receipt) ((of_decide_eq_true tests).trans item.symm)
    obtain ⟨_, _, _, shown, _⟩ := receipt_eq_some.mp columns
    refine ⟨r, read, Option.some.inj ?_⟩
    rw [← shown, same, path]

theorem runHandoff_ran (sha : PrintsSha256 digest) (receipts : Receipts digest s.events) :
    Ran digest input (faults ≠ []) s (runHandoff input digest faults s).1
      (runHandoff input digest faults s).2 := by
  rw [runHandoff]
  split
  · rename_i k t done
    rcases handoffTx_ok done with ⟨rfl, reused, r, read, path⟩ | ⟨read, admitted⟩
    · have known : HasReceipt t input.wgId input.artifact := by
        rcases readReceipt_cases receipts sameItem with
          ⟨none, _⟩ | ⟨x, found, r', isReceipt, tests, columns, read'⟩
        · cases none.symm.trans read
        · cases read'.symm.trans read
          obtain ⟨_, _, _, shown, _⟩ := receipt_eq_some.mp columns
          exact ⟨x, found, isReceipt, of_decide_eq_true tests, shown.trans (congrArg some path)⟩
      refine ⟨receipts, List.Subset.refl _, fun _ _ => known, nofun, fun artifact has => ⟨rfl, ?_⟩, ?_⟩
      · intro other
        obtain ⟨r', read', path'⟩ := read_of_hasReceipt receipts has
        cases read'.symm.trans read
        exact absurd (path'.symm.trans path) other
      · rintro _ ⟨⟩ entered
        rw [reused] at entered
        cases entered
    · have first : ∀ row ∈ s.events, row.isReceipt = true → row.wgId ≠ input.wgId := by
        rcases readReceipt_cases receipts sameItem with
          ⟨_, others⟩ | ⟨x, found, r', isReceipt, tests, columns, read'⟩
        · exact fun row mem receipt => of_decide_eq_false (others row mem receipt)
        · cases read'.symm.trans read
      obtain ⟨inserted, inserts, written⟩ := admitted.written
      obtain ⟨receipts', row, same, done, receipt⟩ := receipts.insert sha inserts
      have kept : t.events = inserted.events ∧ (k.transition = .entered →
          ∃ cp, t.getTaskCheckpoint input.wgId = some cp ∧ cp.stage = input.policy.entryStage ∧
            cp.scopeArtifacts = [input.artifact]) := by
        split at written
        · have here : inserted.getTaskCheckpoint input.wgId = s.getTaskCheckpoint input.wgId :=
            congrArg (·.get input.wgId) done.checkpoints
          obtain ⟨same, after⟩ := enter_ok here written
          exact ⟨same, fun _ => after⟩
        · rename_i other
          exact ⟨congrArg _ written, fun entered => absurd entered other⟩
      have mem : row ∈ t.events := by
        rw [kept.1, done.events]
        exact List.mem_append_right _ (List.mem_singleton_self _)
      refine ⟨kept.1 ▸ receipts', ?_, ?_, nofun, ?_, ?_⟩
      · rw [kept.1, done.events]
        exact List.subset_append_left ..
      · exact fun _ _ => ⟨row, mem, receipt, same ▸ admitted.item, same ▸ congrArg some admitted.path⟩
      · rintro artifact ⟨x, old, isReceipt, item, _⟩
        exact absurd item (first x old isReceipt)
      · rintro _ ⟨⟩ entered
        refine ⟨?_, ⟨row, mem, receipt, ?_⟩, admitted.item, first⟩
        · rw [admitted.path]
          exact kept.2 entered
        · rw [same]
          rfl
  · rename_i e failed
    refine ⟨receipts, List.Subset.refl _, nofun, fun _ _ => rfl, fun artifact has => ⟨rfl, fun other => ?_⟩,
      nofun⟩
    obtain ⟨r, readItem, path⟩ := read_of_hasReceipt receipts has
    have readAction : ∃ byAction, s.readScopeHandoffByAction digest input.actionId = .ok byAction := by
      rcases readReceipt_cases receipts sameAction with ⟨none, _⟩ | ⟨_, _, r, _, _, _, read⟩
      · exact ⟨_, none⟩
      · exact ⟨_, read⟩
    obtain ⟨byAction, readAction⟩ := readAction
    have refused : ∃ e, handoffTx input digest faults s = .error e ∧ Refused (faults ≠ []) e :=
      handoffTx_refused readItem readAction (path.trans_ne other)
    obtain ⟨_, refused, kind⟩ := refused
    cases failed.symm.trans refused
    exact ⟨e, rfl, kind⟩

end

/-! ## Runs -/

/-- An action id that spells the namespace with another letter case is appended only while
the insert guard is installed. -/
def Guarded (s : HandoffSys) : HandoffEvent → Prop
  | .append _ e => e.named = true → e.actionId.any startsWithScopeHandoff = false →
      s.store.insertGuard = true
  | _ => True

/-- What `randomUUID` prints: lower-case hexadecimal digits and hyphens. -/
def isUuid (actionId : String) : Bool :=
  actionId.length = 36 && actionId.toList.all fun c => isLowerHex [c] || c = '-'

theorem toLower_ne_of_isLowerHex {c : Char} (hex : (isLowerHex [c] || c = '-') = true) :
    c.toLower ≠ 's' := by
  simp only [isLowerHex, List.all_cons, List.all_nil, Bool.and_true, Bool.or_eq_true,
    decide_eq_true_eq, List.mem_cons, List.not_mem_nil, or_false] at hex
  rcases hex with (digit | rfl | rfl | rfl | rfl | rfl | rfl) | rfl
  · have last := of_decide_eq_true ((Bool.and_eq_true _ _).mp digit).2
    have low : ¬ 65 ≤ c.val := fun up => absurd (UInt32.le_trans up last) (by decide)
    have here : c.toLower = c := by
      delta Char.toLower
      exact dif_neg fun both => low both.1
    intro same
    rw [here] at same
    subst same
    exact absurd digit (by decide)
  all_goals decide

theorem not_like_of_isUuid {actionId : String} (uuid : isUuid actionId = true) :
    likeScopeHandoff actionId = false := by
  have all := ((Bool.and_eq_true _ _).mp uuid).2
  rw [likeScopeHandoff]
  rcases h : actionId.toList with _ | ⟨c, cs⟩
  · rfl
  · rw [h, List.all_cons, Bool.and_eq_true] at all
    have other := toLower_ne_of_isLowerHex all.1
    simp [other]

/-- The callers append events without an action id or under a random UUID: these are guarded,
whatever the schema setups of other processes are about. -/
theorem guarded_of_isUuid {s : HandoffSys} {proc : Nat} {e : NewMonitorEvent}
    (uuid : e.actionId.all isUuid = true) : Guarded s (.append proc e) := by
  rcases e with ⟨wgId, kind, stage, actionId, path, sha, evidence, atMs⟩
  intro named
  rcases actionId with _ | actionId
  · cases named
  · exact absurd named (by simp [NewMonitorEvent.named, not_like_of_isUuid uuid])

/-- The event lets a statement of SQLite fail. -/
def HandoffEvent.Faulty : HandoffEvent → Prop
  | .schemaFails _ => True
  | .transact _ faults => faults ≠ []
  | _ => False

/-- The call returns in this step. -/
def Returned (s t : HandoffSys) (c : HandoffCall)
    (outcome : Except HandoffError PersistedClassification) : Prop :=
  ∃ n : Nat, s.calls[n]? = some c ∧ (∀ o, c.phase ≠ .returned o) ∧
    t.calls[n]? = some { c with phase := .returned outcome }

/-- The call has succeeded. -/
def HandoffCall.Succeeded (c : HandoffCall) : Prop := ∃ k, c.phase = .returned (.ok k)

/-- What a call that has succeeded returned. -/
def HandoffCall.persisted? (c : HandoffCall) : Option PersistedClassification :=
  match c.phase with
  | .waiting => none
  | .installed => none
  | .returned (.error _) => none
  | .returned (.ok k) => some k

/-- Neither table has changed. -/
def Unwritten (s t : HandoffSys) : Prop :=
  t.store.events = s.store.events ∧ t.store.checkpoints = s.store.checkpoints

/-- There is one receipt per item and one per action. -/
structure UniqueReceipts (s : LoopStore) : Prop where
  item : ∀ wgId, (s.events.filter fun e => e.isReceipt && e.wgId = wgId).length ≤ 1
  action : ∀ actionId,
    (s.events.filter fun e => e.isReceipt && e.actionId = some actionId).length ≤ 1

/-- What a call that returns in this step has done. -/
structure HandedOff (s : HandoffSys) (e : HandoffEvent) (t : HandoffSys) : Prop where
  thrown : ∀ c err, Returned s t c (.error err) → Unwritten s t
  same : ∀ c outcome, Returned s t c outcome → ∀ done ∈ s.calls, done.Succeeded →
    done.input.wgId = c.input.wgId → done.input.artifact = c.input.artifact → Unwritten s t
  other : ∀ c outcome, Returned s t c outcome → ∀ done ∈ s.calls, done.Succeeded →
    done.input.wgId = c.input.wgId → done.input.artifact ≠ c.input.artifact →
    ∃ err, outcome = .error err ∧ Refused e.Faulty err
  entered : ∀ c k, Returned s t c (.ok k) → k.transition = .entered →
    Entered c.input s.store k t.store

section

variable {digest : Digest} {s t : HandoffSys} {e : HandoffEvent}

structure HandoffSys.Inv (digest : Digest) (s : HandoffSys) : Prop where
  receipts : Receipts digest s.store.events
  settled : ∀ c ∈ s.calls, c.Succeeded → HasReceipt s.store c.input.wgId c.input.artifact

theorem HasReceipt.mono {s t : LoopStore} {wgId artifact : String} (has : HasReceipt s wgId artifact)
    (grows : s.events ⊆ t.events) : HasReceipt t wgId artifact := by
  obtain ⟨row, mem, facts⟩ := has
  exact ⟨row, grows mem, facts⟩

theorem uniqueReceipts {s : LoopStore} (receipts : Receipts digest s.events) : UniqueReceipts s where
  item _ := receipts.filter_length_le sameItem
  action _ := receipts.filter_length_le sameAction

/-- The step of a call that returns: its transaction, or a schema setup that fails. -/
theorem returned_cases {c : HandoffCall} {outcome : Except HandoffError PersistedClassification}
    (fire : s.step digest e = some t) (returned : Returned s t c outcome) :
    (∃ n faults, e = .transact n faults ∧ outcome = (runHandoff c.input digest faults s.store).1 ∧
      t.store = (runHandoff c.input digest faults s.store).2) ∨
    t.store = s.store ∧ ∃ err, outcome = .error err ∧ (err = .sqlite ∧ e.Faulty ∨
      LoopStore.checkReceipts digest s.store.events [] [] = .error err) := by
  obtain ⟨n, before, running, after⟩ := returned
  have changed : t.calls[n]? ≠ s.calls[n]? := fun same => by
    rw [same, before] at after
    cases c
    cases after
    exact running _ rfl
  have set {m : Nat} {c' : HandoffCall} (kept : t.calls = s.calls.set m c') : m = n :=
    by_contra fun other => changed (by rw [kept, List.getElem?_set_ne other])
  have rejected {proc : Nat} {err : HandoffError} (moved : s.reject proc err = t) :
      outcome = .error err := by
    subst moved
    rw [HandoffSys.reject, List.getElem?_map, before, Option.map_some] at after
    split at after
    · cases c
      cases after
      rfl
    · rename_i other
      refine absurd ?_ changed
      rw [HandoffSys.reject, List.getElem?_map, before, Option.map_some, if_neg other]
  cases e with
  | call proc input =>
      cases fire
      have known := (List.getElem?_eq_some_iff.mp before).1
      exact absurd (List.getElem?_append_left known) changed
  | schema proc =>
      simp only [HandoffSys.step, HandoffSys.schema] at fire
      split at fire
      · split at fire
        · cases fire
          exact absurd rfl changed
        · rename_i err check
          exact .inr ⟨Option.some.inj fire ▸ rfl, err, rejected (Option.some.inj fire), .inr check⟩
      all_goals cases fire
      all_goals exact absurd rfl changed
  | schemaFails proc =>
      simp only [HandoffSys.step] at fire
      split at fire
      · cases fire
      · exact .inr ⟨Option.some.inj fire ▸ rfl, .sqlite, rejected (Option.some.inj fire),
          .inl ⟨rfl, trivial⟩⟩
  | install m =>
      obtain ⟨c', here, fire⟩ := Option.bind_eq_some_iff.mp fire
      split at fire
      · cases fire
        obtain rfl := set rfl
        have known := (List.getElem?_eq_some_iff.mp before).1
        rw [List.getElem?_set_self known] at after
        cases here.symm.trans before
        cases c
        cases after
      · cases fire
  | transact m faults =>
      obtain ⟨c', here, fire⟩ := Option.bind_eq_some_iff.mp fire
      split at fire
      · cases fire
        obtain rfl := set rfl
        have known := (List.getElem?_eq_some_iff.mp before).1
        rw [List.getElem?_set_self known] at after
        cases here.symm.trans before
        refine .inl ⟨m, faults, rfl, ?_, rfl⟩
        cases c
        cases after
        rfl
      · cases fire
  | append proc event =>
      simp only [HandoffSys.step] at fire
      split at fire <;> cases fire
      exact absurd rfl changed
  | checkpoint write =>
      cases fire
      exact absurd rfl changed

theorem CheckpointWrite.events_of_apply {s t : LoopStore} {write : CheckpointWrite}
    (done : write.apply s = .ok t) : t.events = s.events := by
  cases write with
  | createTaskCheckpoint => exact events_of_create done
  | updateTaskStage =>
      rw [CheckpointWrite.apply, LoopStore.updateTaskStage] at done
      exact (updateCheckpoint_ok done).1
  | setTaskArtifacts =>
      rw [CheckpointWrite.apply, LoopStore.setTaskArtifacts] at done
      exact (updateCheckpoint_ok done).1

/-- What has been settled stays settled when no call returns. -/
theorem HandoffSys.Inv.quiet (inv : s.Inv digest) (receipts : Receipts digest t.store.events)
    (grows : s.store.events ⊆ t.store.events)
    (calls : ∀ c ∈ t.calls, c.Succeeded → c ∈ s.calls) : t.Inv digest where
  receipts := receipts
  settled c mem succeeded := (inv.settled c (calls c mem succeeded) succeeded).mono grows

theorem HandoffSys.Inv.step (sha : PrintsSha256 digest) (inv : s.Inv digest) (guard : Guarded s e)
    (fire : s.step digest e = some t) : t.Inv digest := by
  have rejected {proc : Nat} {err : HandoffError} : (s.reject proc err).Inv digest := by
    refine inv.quiet inv.receipts (List.Subset.refl _) fun c mem succeeded => ?_
    obtain ⟨c', known, rfl⟩ := List.mem_map.mp mem
    split at succeeded
    · obtain ⟨k, impossible⟩ := succeeded
      cases impossible
    · rename_i other
      rwa [if_neg other]
  have plain {u : HandoffSys} (same : u.store.events = s.store.events) (calls : u.calls = s.calls) :
      u.Inv digest :=
    inv.quiet (same ▸ inv.receipts) (same ▸ List.Subset.refl _) fun c mem _ => calls ▸ mem
  cases e with
  | call proc input =>
      cases fire
      refine inv.quiet inv.receipts (List.Subset.refl _) fun c mem succeeded => ?_
      rcases List.mem_append.mp mem with old | new
      · exact old
      · obtain ⟨k, impossible⟩ := succeeded
        rw [List.mem_singleton.mp new] at impossible
        cases impossible
  | schema proc =>
      simp only [HandoffSys.step, HandoffSys.schema] at fire
      split at fire
      · split at fire <;> cases fire
        · exact plain rfl rfl
        · exact rejected
      all_goals cases fire
      all_goals exact plain rfl rfl
  | schemaFails proc =>
      simp only [HandoffSys.step] at fire
      split at fire <;> cases fire
      exact rejected
  | install m =>
      obtain ⟨c, here, fire⟩ := Option.bind_eq_some_iff.mp fire
      split at fire <;> cases fire
      refine inv.quiet inv.receipts (List.Subset.refl _) fun c' mem succeeded => ?_
      rcases List.mem_or_eq_of_mem_set mem with old | rfl
      · exact old
      · obtain ⟨k, impossible⟩ := succeeded
        cases impossible
  | transact m faults =>
      obtain ⟨c, here, fire⟩ := Option.bind_eq_some_iff.mp fire
      split at fire <;> cases fire
      have ran : Ran digest c.input (faults ≠ []) s.store _ _ := runHandoff_ran sha inv.receipts
      refine ⟨ran.receipts, fun c' mem succeeded => ?_⟩
      rcases List.mem_or_eq_of_mem_set mem with old | rfl
      · exact (inv.settled c' old succeeded).mono ran.grows
      · obtain ⟨k, returned⟩ := succeeded
        exact ran.settled k (HandoffPhase.returned.inj returned)
  | append proc event =>
      simp only [HandoffSys.step] at fire
      split at fire <;> cases fire
      cases done : s.store.appendMonitorEvent event with
      | error err => exact plain rfl rfl
      | ok u =>
          obtain ⟨receipts, grows⟩ := inv.receipts.append guard done
          exact inv.quiet receipts grows fun c mem _ => mem
  | checkpoint write =>
      cases fire
      cases done : write.apply s.store with
      | error err => exact plain rfl rfl
      | ok u =>
          exact plain (CheckpointWrite.events_of_apply done) rfl

/-- A step in which a call returns. -/
theorem HandoffSys.Inv.handedOff (sha : PrintsSha256 digest) (inv : s.Inv digest)
    (fire : s.step digest e = some t) : HandedOff s e t := by
  have accepted := checkReceipts_eq_ok_iff.mpr ⟨inv.receipts, fun _ _ _ =>
    ⟨fun _ _ => List.not_mem_nil, List.not_mem_nil⟩⟩
  have cases {c : HandoffCall} {outcome : Except HandoffError PersistedClassification}
      (returned : Returned s t c outcome) : Ran digest c.input e.Faulty s.store outcome t.store ∨
        t.store = s.store ∧ outcome = .error .sqlite ∧ e.Faulty := by
    rcases returned_cases fire returned with
      ⟨n, faults, rfl, rfl, same⟩ | ⟨same, err, rfl, ⟨rfl, faulty⟩ | malformed⟩
    · exact .inl (same ▸ runHandoff_ran sha inv.receipts)
    · exact .inr ⟨same, rfl, faulty⟩
    · cases accepted.symm.trans malformed
  refine ⟨fun c err returned => ?_, fun c outcome returned done mem succeeded item artifact => ?_,
    fun c outcome returned done mem succeeded item other => ?_, fun c k returned entered => ?_⟩
  · rcases cases returned with ran | ⟨same, _⟩
    · rw [Unwritten, ran.thrown err rfl]
      exact ⟨rfl, rfl⟩
    · rw [Unwritten, same]
      exact ⟨rfl, rfl⟩
  · have has := inv.settled done mem succeeded
    rw [item] at has
    rcases cases returned with ran | ⟨same, _⟩
    · rw [Unwritten, (ran.again _ has).1]
      exact ⟨rfl, rfl⟩
    · rw [Unwritten, same]
      exact ⟨rfl, rfl⟩
  · have has := inv.settled done mem succeeded
    rw [item] at has
    rcases cases returned with ran | ⟨_, rfl, faulty⟩
    · exact (ran.again _ has).2 other
    · exact ⟨.sqlite, rfl, .inr ⟨rfl, faulty⟩⟩
  · rcases cases returned with ran | ⟨_, impossible, _⟩
    · exact ran.entered k rfl entered
    · cases impossible

/-- In every run in which nobody slips a foreign spelling of the namespace past the insert
guard, as no caller of `appendMonitorEvent` does, a handoff happens at most once. -/
theorem handoff_once (sha : PrintsSha256 digest) {store : LoopStore}
    (accepted : LoopStore.checkReceipts digest store.events [] [] = .ok ())
    (run : Steps (HandoffSys.step digest) Guarded (.init store) s) :
    UniqueReceipts s.store ∧
      ∀ e t, s.step digest e = some t → HandedOff s e t := by
  have start : (HandoffSys.init store).Inv digest :=
    ⟨(checkReceipts_eq_ok_iff.mp accepted).1, fun _ mem => absurd mem List.not_mem_nil⟩
  have inv : s.Inv digest := Steps.invariant start (fun _ _ _ inv guard fire => inv.step sha guard fire) run
  exact ⟨uniqueReceipts inv.receipts, fun e t fire => inv.handedOff sha fire⟩

end

/-! ### Two runs -/

instance (s : HandoffSys) (e : HandoffEvent) : Decidable (Guarded s e) := by
  cases e <;> unfold Guarded <;> infer_instance

/-- The digests of the two action identities below. -/
def listedDigest : Digest := fun _ text =>
  if text = "[\"wg-1\",\"/docs/b.md\"]" then
    "37197a4600c83a6a36bacaa12ec5efded7211386029340c654d4cfc639ddb496"
  else "943ab6e6be0672a8ac669dcb20a797e7f4250607aa14332fe5e8cf5f581cd1c6"

theorem printsSha256_listedDigest : PrintsSha256 listedDigest := by
  intro text
  rw [listedDigest]
  split <;> decide +kernel

/-- The handoff of an artifact of the item. -/
def handoffOf (artifact : String) : HandoffInput where
  wgId := "wg-1"
  artifact := artifact
  artifactSha256 := "538647ada6381f20d0df859d2d77c74885adc45689e6a58b42a2dcb14e92a012"
  actionId := scopeHandoffActionId listedDigest "wg-1" artifact
  nowMs := 1000
  policy := { initialStage := "scope", entryStage := "scope_write", repairStages := ["scope_write"] }

/-- A process is set up and hands the first artifact off. -/
def firstHandoff : List HandoffEvent :=
  [.call 0 (handoffOf "/docs/a.md"), .schema 0, .schema 0, .schema 0, .install 0, .transact 0 []]

theorem handoff_once_second : ∃ s t, Steps (HandoffSys.step listedDigest) Guarded (.init .empty) s ∧
    s.step listedDigest (.transact 1 []) = some t ∧
    (t.calls.map (·.phase)).getLast? =
      some (.returned (.error (conflict "scope handoff already exists for a different artifact"))) ∧
    UniqueReceipts s.store ∧ HandedOff s (.transact 1 []) t := by
  have replay : (runWhile (HandoffSys.step listedDigest) (fun s e => decide (Guarded s e))
      (.init .empty) (firstHandoff ++ [.call 0 (handoffOf "/docs/b.md"), .install 1])).any
        (fun s => (s.step listedDigest (.transact 1 [])).any fun t =>
          (t.calls.map (·.phase)).getLast? = some (.returned
            (.error (conflict "scope handoff already exists for a different artifact")))) = true := by
    decide +kernel
  obtain ⟨s, reached, last⟩ := (Option.any_eq_true _ _).mp replay
  obtain ⟨t, fire, refused⟩ := (Option.any_eq_true _ _).mp last
  have run := Steps.of_runWhile (fun _ _ guard => of_decide_eq_true guard) reached
  have accepted : LoopStore.checkReceipts listedDigest LoopStore.empty.events [] [] = .ok () := rfl
  obtain ⟨unique, handedOff⟩ := handoff_once printsSha256_listedDigest accepted run
  exact ⟨s, t, run, fire, of_decide_eq_true refused, unique, handedOff _ t fire⟩

/-- While another process has dropped the guard, an event with a foreign spelling of the
namespace is appended. -/
def foreignId : List HandoffEvent :=
  firstHandoff ++ [.schema 1, .schema 1,
    .append 0 { wgId := "wg-2", kind := .processPaused, actionId := some "SCOPE-HANDOFF:1", atMs := 2000 },
    .schema 1, .call 2 (handoffOf "/docs/b.md")]

/-- What the guard is for: after that event the next handoff of the item does not throw a
conflict, as the setup of its process no longer succeeds. -/
theorem foreignId_blocks : ∃ s e t, Steps (HandoffSys.step listedDigest) AnyStep (.init .empty) s ∧
    s.step listedDigest e = some t ∧ ¬ HandedOff s e t := by
  have replay : (runWhile (HandoffSys.step listedDigest) (fun _ _ => true) (.init .empty)
      foreignId).any (fun s => (s.step listedDigest (.schema 2)).any fun t =>
        (s.calls[0]?.map fun c => (c.input, c.persisted?.isSome)) =
          some (handoffOf "/docs/a.md", true) ∧
        s.calls[1]? = some ⟨2, handoffOf "/docs/b.md", .waiting⟩ ∧
        t.calls[1]? = some ⟨2, handoffOf "/docs/b.md", .returned
          (.error (.error "loop_events: malformed existing scope-handoff:v1 receipt"))⟩) = true := by
    decide +kernel
  obtain ⟨s, reached, last⟩ := (Option.any_eq_true _ _).mp replay
  obtain ⟨t, fire, facts⟩ := (Option.any_eq_true _ _).mp last
  obtain ⟨first, before, after⟩ := of_decide_eq_true facts
  obtain ⟨c, here, same⟩ := Option.map_eq_some_iff.mp first
  have input : c.input = handoffOf "/docs/a.md" := (Prod.ext_iff.mp same).1
  have succeeded := (Prod.ext_iff.mp same).2
  have done : c.Succeeded := by
    rcases c with ⟨_, _, phase⟩
    rcases phase with _ | _ | (_ | k)
    · cases succeeded
    · cases succeeded
    · cases succeeded
    · exact ⟨k, rfl⟩
  have run : Steps (HandoffSys.step listedDigest) AnyStep (.init .empty) s :=
    Steps.of_runWhile (fun _ _ _ => trivial) reached
  refine ⟨s, .schema 2, t, run, fire, fun handedOff => ?_⟩
  obtain ⟨err, thrown, refused⟩ := handedOff.other ⟨2, handoffOf "/docs/b.md", .waiting⟩ _
    ⟨1, before, nofun, after⟩ c (List.mem_of_getElem? here) done (by rw [input]; rfl)
    (by rw [input]; decide)
  cases thrown
  rcases refused with ⟨_, conflict⟩ | ⟨sqlite, _⟩
  · cases conflict
  · cases sqlite

end Opensquid.Ralph
