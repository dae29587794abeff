import Opensquid.AgentBridge.Dispatcher
import Mathlib.Data.List.Nodup
import Mathlib.Data.List.Flatten
import Mathlib.Data.List.Sort

/-!
# One turn at a time, every text once, in order

The flushes of a session, in the order they started, cut the ingested texts into
pieces (`Session.Inv.collected`). Every flush is being checked or was admitted,
skipped or dropped, and the turns together with the queue are the admitted flushes
in the order of their admission. So no text is lost or handed over twice, in any
run. The texts keep their order when the flushes are admitted in the order they
started. Nothing in the code makes the lease checks of two flushes complete in
that order (`overtaking_reorders`).
-/

namespace Opensquid.AgentBridge

open Opensquid.Lib

namespace Session

/-! ## What is promised -/

/-- The texts given to turns, in turn order. -/
def turned (s : Session) : List Chunk := s.turns.flatMap (·.chunks)

/-- The texts of skipped and dropped flushes. -/
def discarded (s : Session) : List Chunk :=
  (s.skipped ++ s.dropped).flatMap (·.batch.chunks)

/-- The texts on their way: being collected, in a flush whose lease is being
checked, or in the queue. -/
def held (s : Session) : List Chunk :=
  s.checking.flatMap (·.batch.chunks) ++ (s.pendingQueue.elim [] (·.batch.chunks)) ++
    s.pending.elim [] (·.chunks)

/-- No timer, callback, lease check, turn or continuation is outstanding. -/
def Quiet (s : Session) : Prop :=
  s.timer = false ∧ s.callbacks = 0 ∧ s.checking = [] ∧ s.executing = 0 ∧ s.ended = 0

/-- Every ingested text is in exactly one turn, or in a flush that was skipped or
dropped, or still on its way; in a quiet session none is on its way. -/
structure Delivered (s : Session) : Prop where
  once : ∀ chunk ∈ s.ingested,
    s.turned.count chunk + s.discarded.count chunk + s.held.count chunk = 1
  only : ∀ chunk ∈ s.turned, chunk ∈ s.ingested
  places : s.ingested.map (·.seq) = List.range s.ingested.length
  arrives : s.Quiet → s.held = []

/-- The texts of the turns are in ingestion order. -/
def InOrder (s : Session) : Prop := s.turned.Sublist s.ingested

instance (s : Session) : Decidable s.InOrder :=
  inferInstanceAs (Decidable (s.turned.Sublist s.ingested))

/-- At most one `runTurnOnce` is executing. -/
def OneTurn (s : Session) : Prop := s.executing ≤ 1

/-! ## The condition -/

/-- The completion of a lease check that neither skips nor drops its flush finds
no flush admitted that started later. -/
def ChecksInOrder (s : Session) : Event → Prop
  | .leaseChecked _ number skip =>
      skip = false → s.full = false → ∀ flush ∈ s.admitted, flush.number < number
  | _ => True

instance (s : Session) (e : Event) : Decidable (s.ChecksInOrder e) := by
  cases e <;> unfold ChecksInOrder <;> infer_instance

/-! ## The invariant -/

/-- Every flush but those that are being moved has one place. -/
def Placed (s : Session) (moving : List Flush) : Prop :=
  ∀ flush, s.flushes.count flush = moving.count flush + s.checking.count flush +
    s.admitted.count flush + s.skipped.count flush + s.dropped.count flush

structure Inv (s : Session) (moving : List Flush) : Prop where
  numbered : s.flushes.map (·.number) = List.range s.flushes.length
  places : s.ingested.map (·.seq) = List.range s.ingested.length
  collected : s.flushes.flatMap (·.batch.chunks) ++ s.pending.elim [] (·.chunks) = s.ingested
  placed : s.Placed moving
  handed : s.turned ++ s.pendingQueue.elim [] (·.batch.chunks) =
    s.admitted.flatMap (·.batch.chunks)
  mutex : s.executing + s.ended = if s.inFlight then 1 else 0
  queued : s.pendingQueue.isSome → s.inFlight = true
  timed : s.pending.isSome → s.timer = true ∨ 0 < s.callbacks

theorem Inv.init : ({} : Session).Inv [] where
  numbered := rfl
  places := rfl
  collected := rfl
  placed _ := rfl
  handed := rfl
  mutex := rfl
  queued := nofun
  timed := nofun

variable {s : Session} {flush : Flush} {moving : List Flush}

theorem Inv.admitted (inv : s.Inv [flush]) :
    Placed { s with admitted := s.admitted ++ [flush] } [] := by
  intro other
  have before := inv.placed other
  simp only [List.count_append, List.count_nil] at before ⊢
  omega

/-- The flush that is moved goes to its place. -/
theorem Inv.admitFlush (inv : s.Inv [flush]) : (s.admitFlush flush).Inv [] := by
  have handed : s.turned ++ s.pendingQueue.elim [] (·.batch.chunks) ++ flush.batch.chunks =
      (s.admitted ++ [flush]).flatMap (·.batch.chunks) := by
    rw [inv.handed, List.flatMap_append, List.flatMap_singleton]
  simp only [Session.admitFlush]
  split
  · refine { inv with placed := fun other => ?_ }
    have before := inv.placed other
    simp only [List.count_append, List.count_nil] at before ⊢
    omega
  · split
    · rename_i busy
      cases waiting : s.pendingQueue with
      | none =>
          refine { inv with placed := inv.admitted, handed := ?_, queued := fun _ => busy }
          rwa [waiting, Option.elim_none, List.append_nil] at handed
      | some queued =>
          refine { inv with placed := inv.admitted, handed := ?_, queued := fun _ => busy }
          rwa [waiting, Option.elim_some, List.append_assoc] at handed
    · rename_i idle
      have empty : s.pendingQueue = none := by
        rw [← Option.not_isSome_iff_eq_none]
        exact fun waiting => idle (inv.queued waiting)
      have free := inv.mutex
      rw [if_neg idle] at free
      rw [empty, Option.elim_none, List.append_nil] at handed
      refine { inv with placed := inv.admitted, handed := ?_, mutex := ?_, queued := fun _ => rfl }
      · simp only [Session.runTurnChain, turned, empty, Option.elim_none, List.append_nil,
          List.flatMap_append, List.flatMap_singleton] at handed ⊢
        exact handed
      · simp only [Session.runTurnChain, if_true]
        omega

theorem Inv.drain (inv : s.Inv []) (ended : 0 < s.ended) :
    ({ s with ended := s.ended - 1 }.drain).Inv [] := by
  have busy : s.inFlight = true ∧ s.executing = 0 ∧ s.ended = 1 := by
    have held := inv.mutex
    split at held
    · exact ⟨‹_›, by omega, by omega⟩
    · omega
  simp only [Session.drain]
  have handed := inv.handed
  cases waiting : s.pendingQueue with
  | none =>
      refine { inv with handed := ?_, mutex := ?_, queued := ?_ }
      · rwa [waiting] at handed
      · simp only [busy, Bool.false_eq_true, if_false]
      · simp only [Option.isSome_none, Bool.false_eq_true, false_implies]
  | some queued =>
      refine { inv with handed := ?_, mutex := ?_, queued := ?_ }
      · rw [waiting, Option.elim_some] at handed
        simp only [Session.runTurnChain, turned, Option.elim_none, List.append_nil,
          List.flatMap_append, List.flatMap_singleton]
        exact handed
      · simp only [Session.runTurnChain, busy, if_true]
      · simp only [Session.runTurnChain, Option.isSome_none, Bool.false_eq_true, false_implies]

theorem Inv.ingest (inv : s.Inv []) (text : String) : (s.ingest text).Inv [] := by
  rw [Session.ingest]
  split
  · exact inv
  · refine { inv with places := ?_, collected := ?_, timed := fun _ => .inl rfl }
    · simp only [List.map_append, inv.places, List.map_singleton, List.length_append,
        List.length_singleton, List.range_succ]
    · simp only [← inv.collected, Option.elim_some, List.append_assoc]
      cases s.pending <;> rfl

theorem Inv.flushed (inv : s.Inv []) :
    ({ s with callbacks := s.callbacks - 1 }.flush).Inv [] := by
  have collected := inv.collected
  simp only [Session.flush]
  cases pending : s.pending with
  | none =>
      refine { inv with collected := ?_, timed := ?_ }
      · rwa [pending] at collected
      · simp only [Option.isSome_none, Bool.false_eq_true, false_implies]
  | some batch =>
      rw [pending, Option.elim_some] at collected
      have numbered : (s.flushes ++ [(⟨s.flushes.length, batch⟩ : Flush)]).map (·.number) =
          List.range (s.flushes ++ [(⟨s.flushes.length, batch⟩ : Flush)]).length := by
        simp only [List.map_append, inv.numbered, List.map_singleton, List.length_append,
          List.length_singleton, List.range_succ]
      have moved : Session.Inv { s with
            callbacks := s.callbacks - 1, pending := none
            flushes := s.flushes ++ [⟨s.flushes.length, batch⟩] }
          [⟨s.flushes.length, batch⟩] := by
        refine { inv with numbered := numbered, collected := ?_, placed := ?_, timed := nofun }
        · simpa only [List.flatMap_append, List.flatMap_singleton, Option.elim_none,
            List.append_nil] using collected
        · intro other
          have before := inv.placed other
          simp only [List.count_append, List.count_nil] at before ⊢
          omega
      simp only
      split
      · refine { moved with placed := fun other => ?_ }
        have before := moved.placed other
        simp only [List.count_append, List.count_nil] at before ⊢
        omega
      · exact moved.admitFlush

theorem Inv.leaseChecked (inv : s.Inv []) (member : flush ∈ s.checking) :
    Session.Inv { s with checking := s.checking.erase flush } [flush] := by
  refine { inv with placed := fun other => ?_ }
  have before := inv.placed other
  have split := (List.perm_cons_erase member).count_eq other
  rw [← List.singleton_append, List.count_append] at split
  simp only [List.count_nil] at before
  simp only
  omega

theorem Inv.step {t : Session} {e : Event} (inv : s.Inv []) (fire : s.step e = some t) :
    t.Inv [] := by
  cases e with
  | inbound event =>
      cases fire
      have recorded : Session.Inv { s with
          projectUuid := some event.projectUuid
          umbrellaId := event.umbrellaId.or s.umbrellaId } [] := { inv with }
      exact recorded.ingest event.text
  | timerDue slug =>
      simp only [Session.step] at fire
      split at fire
      · cases fire
        exact { inv with timed := fun _ => .inr (Nat.succ_pos _) }
      · cases fire
  | flush slug =>
      simp only [Session.step] at fire
      split at fire
      · cases fire
        exact inv.flushed
      · cases fire
  | leaseChecked slug number skip =>
      simp only [Session.step] at fire
      split at fire
      · cases fire
      · rename_i flush found
        have moved := inv.leaseChecked (List.mem_of_find?_eq_some found)
        cases fire
        split
        · refine { moved with placed := fun other => ?_ }
          have before := moved.placed other
          simp only [List.count_append, List.count_nil] at before ⊢
          omega
        · exact moved.admitFlush
  | turnEnded slug =>
      simp only [Session.step] at fire
      split at fire
      · cases fire
        refine { inv with mutex := ?_ }
        have held := inv.mutex
        simp only
        omega
      · cases fire
  | chainResumed slug =>
      simp only [Session.step] at fire
      split at fire
      · cases fire
        exact inv.drain ‹_›
      · cases fire

theorem inv_of_run {t : Session} (run : Steps Session.step AnyStep {} t) : t.Inv [] := by
  induction run with
  | refl => exact Inv.init
  | tail _ _ fire ih => exact ih.step fire

/-! ## What the invariant gives -/

theorem Inv.oneTurn (inv : s.Inv []) : s.OneTurn := by
  have held := inv.mutex
  rw [OneTurn]
  split at held <;> omega

theorem Inv.flushes_perm (inv : s.Inv []) :
    s.flushes.Perm (s.checking ++ s.admitted ++ s.skipped ++ s.dropped) := by
  refine List.perm_iff_count.mpr fun flush => ?_
  have placed := inv.placed flush
  simp only [List.count_append, List.count_nil] at placed ⊢
  omega

theorem Inv.mem_flushes_of_mem_admitted (inv : s.Inv []) (member : flush ∈ s.admitted) :
    flush ∈ s.flushes :=
  inv.flushes_perm.mem_iff.mpr (by simp only [List.mem_append, member, or_true, true_or])

theorem Inv.nodup_ingested (inv : s.Inv []) : s.ingested.Nodup :=
  List.Nodup.of_map (·.seq) (inv.places ▸ List.nodup_range)

theorem Inv.delivered (inv : s.Inv []) : s.Delivered where
  places := inv.places
  once chunk member := by
    have pieces := (inv.flushes_perm.flatMap_right (·.batch.chunks)).count_eq chunk
    have whole := congrArg (List.count chunk) inv.collected
    have handed := congrArg (List.count chunk) inv.handed
    rw [List.count_eq_one_of_mem inv.nodup_ingested member] at whole
    simp only [List.flatMap_append, List.count_append] at pieces whole handed
    simp only [discarded, held, List.flatMap_append, List.count_append]
    omega
  only chunk member := by
    have handed : chunk ∈ s.admitted.flatMap (·.batch.chunks) :=
      inv.handed ▸ List.mem_append_left _ member
    obtain ⟨flush, inside, at_⟩ := List.mem_flatMap.mp handed
    rw [← inv.collected]
    exact List.mem_append_left _
      (List.mem_flatMap.mpr ⟨flush, inv.mem_flushes_of_mem_admitted inside, at_⟩)
  arrives quiet := by
    obtain ⟨timer, callbacks, checking, executing, ended⟩ := quiet
    have none : s.pending = none := by
      rw [← Option.not_isSome_iff_eq_none]
      intro waiting
      rcases inv.timed waiting with running | queued
      · rw [timer] at running
        cases running
      · omega
    have empty : s.pendingQueue = Option.none := by
      rw [← Option.not_isSome_iff_eq_none]
      intro waiting
      have busy := inv.mutex
      rw [inv.queued waiting, if_pos rfl] at busy
      omega
    rw [held, none, empty, checking]
    rfl

/-! ## Order -/

/-- Flushes are admitted in the order in which they started. -/
def AdmittedInOrder (s : Session) : Prop := s.admitted.Pairwise fun f g => f.number < g.number

theorem AdmittedInOrder.admitFlush (sorted : s.AdmittedInOrder)
    (latest : s.full = false → ∀ earlier ∈ s.admitted, earlier.number < flush.number) :
    (s.admitFlush flush).AdmittedInOrder := by
  have grown : s.full = false → (s.admitted ++ [flush]).Pairwise fun f g => f.number < g.number :=
    fun room => List.pairwise_append.mpr ⟨sorted, List.pairwise_singleton _ _,
      fun earlier member last same => List.mem_singleton.mp same ▸ latest room earlier member⟩
  simp only [Session.admitFlush, Session.runTurnChain]
  split
  · exact sorted
  · rename_i room
    split
    · split <;> exact grown (Bool.eq_false_iff.mpr room)
    · exact grown (Bool.eq_false_iff.mpr room)

theorem Inv.number_lt (inv : s.Inv []) (member : flush ∈ s.admitted) :
    flush.number < s.flushes.length := by
  have inside := List.mem_map_of_mem (f := Flush.number) (inv.mem_flushes_of_mem_admitted member)
  rwa [inv.numbered, List.mem_range] at inside

theorem AdmittedInOrder.step {t : Session} {e : Event} (inv : s.Inv [])
    (sorted : s.AdmittedInOrder) (guard : s.ChecksInOrder e) (fire : s.step e = some t) :
    t.AdmittedInOrder := by
  cases e with
  | inbound event =>
      cases fire
      simp only [Session.handleInbound, Session.ingest]
      split <;> exact sorted
  | timerDue slug =>
      simp only [Session.step] at fire
      split at fire <;> cases fire
      exact sorted
  | flush slug =>
      simp only [Session.step] at fire
      split at fire <;> cases fire
      simp only [Session.flush]
      split
      · exact sorted
      · split
        · exact sorted
        · exact AdmittedInOrder.admitFlush sorted fun _ _ member => inv.number_lt member
  | leaseChecked slug number skip =>
      simp only [Session.step] at fire
      split at fire
      · cases fire
      · rename_i flush found
        cases fire
        split
        · exact sorted
        · rename_i kept
          have numbered := List.find?_some found
          rw [decide_eq_true_eq] at numbered
          subst numbered
          exact AdmittedInOrder.admitFlush sorted fun room => guard (Bool.eq_false_iff.mpr kept) room
  | turnEnded slug =>
      simp only [Session.step] at fire
      split at fire <;> cases fire
      exact sorted
  | chainResumed slug =>
      simp only [Session.step] at fire
      split at fire <;> cases fire
      simp only [Session.drain]
      split <;> exact sorted

theorem Inv.inOrder (inv : s.Inv []) (sorted : s.AdmittedInOrder) : s.InOrder := by
  have started : s.flushes.Pairwise fun f g => f.number < g.number := by
    rw [← List.pairwise_map (f := Flush.number), inv.numbered]
    exact List.pairwise_lt_range
  have : Std.Antisymm fun f g : Flush => f.number < g.number :=
    ⟨fun _ _ less more => absurd (less.trans more) (lt_irrefl _)⟩
  have distinct : s.admitted.Nodup := sorted.imp fun less same => (same ▸ less).false
  have sub : s.admitted.Sublist s.flushes :=
    List.sublist_of_subperm_of_pairwise
      (List.subperm_of_subset distinct fun _ member => inv.mem_flushes_of_mem_admitted member)
      sorted started
  have pieces := sub.flatMap (·.batch.chunks)
  rw [← inv.handed] at pieces
  refine (List.sublist_append_left _ _).trans (pieces.trans ?_)
  rw [← inv.collected]
  exact List.sublist_append_left _ _

end Session

/-! ## Every run -/

/-- The session's lease checks complete in order, where it matters. -/
def ChecksInOrder (s : Sys) (e : Event) : Prop := (s e.slug).ChecksInOrder e

instance (s : Sys) (e : Event) : Decidable (ChecksInOrder s e) :=
  inferInstanceAs (Decidable ((s e.slug).ChecksInOrder e))

/-- In every run a session has one turn at a time and no text is lost or handed
over twice. -/
theorem oneTurn_and_delivered {s : Sys} (run : Steps Sys.step AnyStep Sys.init s) (slug : String) :
    (s slug).OneTurn ∧ (s slug).Delivered := by
  have whole : Steps Sys.step (fun s e => AnyStep (s e.slug) e) Sys.init s := run
  have inv := Session.inv_of_run (whole.component slug)
  exact ⟨inv.oneTurn, inv.delivered⟩

/-- In every run whose lease checks complete in order, every session has one turn
at a time, hands every text over once and keeps the texts in order. -/
theorem turns_in_order {s : Sys} (run : Steps Sys.step ChecksInOrder Sys.init s) (slug : String) :
    (s slug).OneTurn ∧ (s slug).Delivered ∧ (s slug).InOrder := by
  have inv := Session.inv_of_run (Steps.component run slug).any
  refine ⟨inv.oneTurn, inv.delivered, inv.inOrder ?_⟩
  have start : Session.AdmittedInOrder {} := .nil
  exact Steps.invariant_of (fun t run => Session.inv_of_run run) start
    (fun t e u inv _ sorted guard fire => sorted.step inv guard fire) (Steps.component run slug)

/-! ## Two runs -/

def chatKey : SessionKey := { platform := .telegram, chatId := "7" }

def chatText (text : String) : Event :=
  .inbound { sessionKey := chatKey, text, projectUuid := "p" }

/-- Two flushes are checked in order, one starts a turn and one waits in the queue;
a third one is skipped. -/
def orderlyChat : List Event :=
  [chatText "one", .timerDue "telegram:7", .flush "telegram:7",
    chatText "two", chatText "three", .timerDue "telegram:7", .flush "telegram:7",
    .leaseChecked "telegram:7" 0 false, .leaseChecked "telegram:7" 1 false,
    .turnEnded "telegram:7", .chainResumed "telegram:7",
    chatText "four", .timerDue "telegram:7", .flush "telegram:7",
    .leaseChecked "telegram:7" 2 true, .turnEnded "telegram:7", .chainResumed "telegram:7"]

theorem turns_in_order_orderly :
    ∃ s, Steps Sys.step ChecksInOrder Sys.init s ∧
      (s "telegram:7").turns.map (·.text) = ["one", "two\nthree"] ∧
      ((s "telegram:7").OneTurn ∧ (s "telegram:7").Delivered ∧ (s "telegram:7").InOrder) := by
  have replay : (runWhile Sys.step (fun s e => decide (ChecksInOrder s e)) Sys.init orderlyChat).any
      (fun s => (s "telegram:7").turns.map (·.text) = ["one", "two\nthree"]) = true := by
    decide +kernel
  obtain ⟨s, reached, texts⟩ := (Option.any_eq_true _ _).mp replay
  have run := Steps.of_runWhile (fun _ _ guard => of_decide_eq_true guard) reached
  exact ⟨s, run, of_decide_eq_true texts, turns_in_order run "telegram:7"⟩

/-- The lease check of the second flush completes first. -/
def overtakingChat : List Event :=
  [chatText "one", .timerDue "telegram:7", .flush "telegram:7",
    chatText "two", .timerDue "telegram:7", .flush "telegram:7",
    .leaseChecked "telegram:7" 1 false, .leaseChecked "telegram:7" 0 false,
    .turnEnded "telegram:7", .chainResumed "telegram:7"]

theorem overtaking_reorders :
    ∃ s, Steps Sys.step AnyStep Sys.init s ∧
      (s "telegram:7").turns.map (·.text) = ["two", "one"] ∧ ¬ (s "telegram:7").InOrder := by
  have replay : (runWhile Sys.step (fun _ _ => true) Sys.init overtakingChat).any
      (fun s => (s "telegram:7").turns.map (·.text) = ["two", "one"] ∧
        ¬ (s "telegram:7").InOrder) = true := by
    decide +kernel
  obtain ⟨s, reached, texts⟩ := (Option.any_eq_true _ _).mp replay
  have run : Steps Sys.step AnyStep Sys.init s :=
    Steps.of_runWhile (fun _ _ _ => trivial) reached
  exact ⟨s, run, of_decide_eq_true texts⟩

end Opensquid.AgentBridge
