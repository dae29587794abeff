import Opensquid.Lib.IsoInstant
import Opensquid.Rag.WedgeFiled

/-!
# What a promotion rests on

Processes that share the store: a call reads the row of its lesson and writes it back later, and
the steps of other calls may come between. A promotion is earned by the calls that have returned
before it, and the counts of a row are those of the calls that have returned.

Both hold over every run in which a row is written back over the counts that it was read with, a
new lesson over none (`earned_of_undisturbed`); `counted_iff` is the same for one step.
-/

namespace Opensquid.Rag.Wedge

open Opensquid.Lib Opensquid.Lib.FrontMatter Opensquid.Lib.Iso Opensquid.Storage

/-! ## Reading and writing apart -/

/-- A row to be written, and the status that a promotion takes the lesson out of. -/
structure Prepared where
  row : WedgeLesson
  leaves : Option LessonStatus := none

namespace Store

section

variable (codec : Codec) (digest : String → String) (dateParse : String → Option Int)

/-- What a call does up to its write. -/
def prepare (s : Store) : Op → Except StoreError Prepared
  | .createLesson input createdAt => .ok { row := created (lessonId digest input) input createdAt }
  | .promoteLesson id now t => do
      let row ← s.read id
      match checkPromotionGate dateParse row.toLessonFrontmatter defaultPromotionConfig
          (dateParse now) with
      | .block reasons => .error (.promotionBlocked id reasons)
      | .promote => .ok ⟨{ row with status := .promoted, promotedAt := some t, updatedAt := t },
          some row.status⟩
  | .captureFeedback id polarity signalId now => do
      let row ← s.read id
      let signals :=
        if signalId ∈ row.externalSignalSources then row.externalSignalSources
        else row.externalSignalSources ++ [signalId]
      .ok { row := { row with
        thumbsUpCount := row.thumbsUpCount + if polarity = .up then 1 else 0
        thumbsDownCount := row.thumbsDownCount + if polarity = .down then 1 else 0
        externalSignalSources := signals
        updatedAt := now } }
  | .recordApplied id sessionId lastAppliedAt updatedAt => do
      let row ← s.read id
      let sessions := match sessionId with
        | none => row.appliedSessionIds
        | some session =>
            if session ∈ row.appliedSessionIds then row.appliedSessionIds
            else lastItems maxAppliedSessionIds (row.appliedSessionIds ++ [session])
      .ok { row := { row with
        appliedCount := row.appliedCount + 1
        lastAppliedAt := some lastAppliedAt
        appliedSessionIds := sessions
        updatedAt } }

/-- The write; a promotion then removes the file of the old status. -/
def commit (s : Store) (p : Prepared) : Except StoreError Store := do
  let s ← s.upsert codec p.row
  match p.leaves with
  | none => .ok s
  | some status =>
      if status = .promoted then .ok s
      else
        match deleteWedgeRecord s.files status p.row.id with
        | none => .error (.unsafeId p.row.id)
        | some files => .ok ⟨s.rows, files⟩

variable {codec digest dateParse}

/-- A call that nothing comes between. -/
theorem call_eq {s : Store} {op : Op} : s.call codec digest dateParse op =
    s.prepare digest dateParse op >>= s.commit codec := by
  have plain {r : WedgeLesson} : s.commit codec { row := r } = s.upsert codec r := by
    unfold commit
    cases s.upsert codec r <;> rfl
  cases op with
  | createLesson input createdAt => exact plain.symm
  | captureFeedback id polarity signalId now =>
      show s.captureFeedback codec id polarity signalId now = _
      rw [captureFeedback, prepare]
      cases s.read id with
      | error e => rfl
      | ok row => exact plain.symm
  | recordApplied id sessionId lastAppliedAt updatedAt =>
      show s.recordApplied codec id sessionId lastAppliedAt updatedAt = _
      rw [recordApplied, prepare]
      cases s.read id with
      | error e => rfl
      | ok row => exact plain.symm
  | promoteLesson id now t =>
      show s.promoteLesson codec dateParse id now t = _
      rw [promoteLesson, prepare]
      cases found : s.read id with
      | error e => rfl
      | ok row =>
          obtain ⟨old, present, rfl⟩ := read_eq_ok found
          obtain rfl : old.id = id := Table.key_of_get present
          dsimp only [bind, Except.bind]
          cases checkPromotionGate dateParse (rowToWedge old).toLessonFrontmatter
            defaultPromotionConfig (dateParse now) <;> rfl

end

end Store

/-! ## Counts -/

/-- How often a lesson has been applied, and praised or criticised. -/
@[ext]
structure Counts where
  applied : Nat
  up : Nat
  down : Nat
  deriving DecidableEq, Repr

instance : Zero Counts := ⟨⟨0, 0, 0⟩⟩

instance : Add Counts := ⟨fun a b => ⟨a.applied + b.applied, a.up + b.up, a.down + b.down⟩⟩

def WedgeLesson.counts (r : WedgeLesson) : Counts := ⟨r.appliedCount, r.thumbsUpCount, r.thumbsDownCount⟩

/-- The counts of a lesson, zero where there is none. -/
def Store.counts (s : Store) (id : String) : Counts :=
  ((s.rows.get id).map WedgeLesson.counts).getD 0

/-- A call that has returned, with the time that it was made at. -/
inductive Returned
  | created (id : String) («at» : Int)
  | promoted (id : String) («at» : Int)
  | feedback (id : String) (polarity : Polarity)
  | applied (id : String)
  deriving DecidableEq

def Returned.lesson : Returned → String
  | .created id _ => id
  | .promoted id _ => id
  | .feedback id _ => id
  | .applied id => id

def Returned.counts : Returned → Counts
  | .created _ _ => 0
  | .promoted _ _ => 0
  | .feedback _ .up => ⟨0, 1, 0⟩
  | .feedback _ .down => ⟨0, 0, 1⟩
  | .applied _ => ⟨1, 0, 0⟩

/-- What the calls on a lesson come to, the latest first. -/
def tally (id : String) : List Returned → Counts
  | [] => 0
  | done :: earlier => tally id earlier + if done.lesson = id then done.counts else 0

/-! ## Runs -/

/-- A text of the clock, and its time. -/
structure Reading (dateParse : String → Option Int) where
  text : String
  ms : Int
  parses : dateParse text = some ms

inductive Call
  | createLesson (input : CreateLessonInput)
  | promoteLesson (id : String)
  | captureFeedback (id : String) (polarity : Polarity) (signalId : String)
  | recordApplied (id : String) (sessionId : Option String)

/-- A call on its way: what it is when it returns, the counts that it goes by, and its write. -/
structure Pending where
  done : Returned
  base : Counts
  prepared : Prepared

structure World where
  store : Store := .empty
  clock : Int := 0
  pending : List Pending := []
  returned : List Returned := []

section

variable (codec : Codec) (digest : String → String) (dateParse : String → Option Int)

/-- The call, with two readings of the clock. -/
def Call.op (first second : String) : Call → Op
  | .createLesson input => .createLesson input first
  | .promoteLesson id => .promoteLesson id first second
  | .captureFeedback id polarity signalId => .captureFeedback id polarity signalId first
  | .recordApplied id sessionId => .recordApplied id sessionId first second

def Call.done («at» : Int) : Call → Returned
  | .createLesson input => .created (Store.lessonId digest input) «at»
  | .promoteLesson id => .promoted id «at»
  | .captureFeedback id polarity _ => .feedback id polarity
  | .recordApplied id _ => .applied id

/-- The counts that the call has read; a new lesson has none. -/
def Call.base (s : Store) : Call → Counts
  | .createLesson _ => 0
  | .promoteLesson id => s.counts id
  | .captureFeedback id _ _ => s.counts id
  | .recordApplied id _ => s.counts id

inductive Event
  | start (call : Call) (first second : Reading dateParse)
  | finish (index : Nat)

/-- A call reads, under a clock that does not go back, or one that has read writes and returns;
a call that throws is gone. -/
def World.step (w : World) : Event dateParse → Option World
  | .start call first second =>
      if w.clock ≤ first.ms ∧ first.ms ≤ second.ms then
        match w.store.prepare digest dateParse (call.op first.text second.text) with
        | .error _ => some { w with clock := second.ms }
        | .ok prepared => some { w with
            clock := second.ms
            pending := w.pending ++ [⟨call.done digest first.ms, call.base w.store, prepared⟩] }
      else none
  | .finish index => w.pending[index]?.map fun call =>
      match w.store.commit codec call.prepared with
      | .error _ => { w with pending := w.pending.eraseIdx index }
      | .ok store => { w with
          store
          pending := w.pending.eraseIdx index
          returned := call.done :: w.returned }

end

/-- The row is written over the counts that its call goes by. -/
def Undisturbed {dateParse : String → Option Int} (w : World) : Event dateParse → Prop
  | .start _ _ _ => True
  | .finish index => ∀ call ∈ w.pending[index]?, w.store.counts call.done.lesson = call.base

/-- Every call that has returned is counted once. -/
def Counted (w : World) : Prop := ∀ id, w.store.counts id = tally id w.returned

/-- Three uses, feedback and none of it bad, and a day since a creation, so since the first. -/
structure Earned (earlier : List Returned) (id : String) («at» : Int) : Prop where
  applied : 3 ≤ (tally id earlier).applied
  heard : 1 ≤ (tally id earlier).up + (tally id earlier).down
  unharmed : (tally id earlier).down = 0
  dwelt : ∃ created, .created id created ∈ earlier ∧ (msPerDay : Int) ≤ «at» - created

/-- Every promotion was earned when it returned. -/
def Honest : List Returned → Prop
  | [] => True
  | .promoted id «at» :: earlier => Earned earlier id «at» ∧ Honest earlier
  | .created _ _ :: earlier => Honest earlier
  | .feedback _ _ :: earlier => Honest earlier
  | .applied _ :: earlier => Honest earlier

variable {codec : Codec} {digest : String → String} {dateParse : String → Option Int} {s t : Store}
  {w w' v : World} {id : String}

/-! ## What a call prepares -/

theorem eq_nil_of_promote {blocks : List String}
    (promote : (if blocks = [] then GateDecision.promote else .block blocks) = .promote) :
    blocks = [] := by
  by_contra some'
  rw [if_neg some'] at promote
  cases promote

/-- A lesson without blocks of its age is as old as it has to be. -/
theorem dwelt_of_ageBlocks {createdAt : String} {minAgeMs : Nat} {now : Int}
    (clean : ageBlocks dateParse createdAt minAgeMs (some now) = []) :
    ∃ created, dateParse createdAt = some created ∧ minAgeMs ≤ now - created := by
  unfold ageBlocks at clean
  cases created : dateParse createdAt with
  | none =>
      rw [created] at clean
      cases clean
  | some time =>
      rw [created] at clean
      refine ⟨time, rfl, ?_⟩
      dsimp only at clean
      split at clean
      · cases clean
      · split at clean
        · cases clean
        · rename_i old
          exact not_lt.mp old

/-- What the gate lets through. -/
theorem of_gate_promote {fm : LessonFrontmatter} {now : Int} (promote :
    checkPromotionGate dateParse fm defaultPromotionConfig (some now) = .promote) :
    3 ≤ fm.appliedCount ∧ fm.thumbsDownCount = 0 ∧ fm.externalSignalSources ≠ [] ∧
      ∃ created, dateParse fm.createdAt = some created ∧ (msPerDay : Int) ≤ now - created := by
  have clean := eq_nil_of_promote promote
  simp only [List.append_eq_nil_iff] at clean
  obtain ⟨⟨⟨⟨⟨⟨-, age⟩, applied⟩, down⟩, signals⟩, -⟩, -⟩ := clean
  refine ⟨?_, ?_, ?_, dwelt_of_ageBlocks age⟩
  · by_contra few
    have fewer : fm.appliedCount < defaultPromotionConfig.minAppliedCount := not_le.mp few
    rw [if_pos fewer] at applied
    cases applied
  · by_contra some'
    rw [if_pos (Nat.pos_of_ne_zero some')] at down
    cases down
  · intro none'
    rw [if_pos none'] at signals
    cases signals

theorem counts_of_get {row : WedgeLesson} (present : s.rows.get id = some row) :
    s.counts id = row.counts := by
  rw [Store.counts, present, Option.map_some, Option.getD_some]

/-- A row whose creation and whose signals are those of calls that have returned. -/
structure Rooted (dateParse : String → Option Int) (returned : List Returned) (row : WedgeLesson) :
    Prop where
  created : ∃ time, .created row.id time ∈ returned ∧ dateParse row.createdAt = some time
  heard : row.externalSignalSources ≠ [] → ∃ polarity, .feedback row.id polarity ∈ returned

theorem Rooted.mono {returned later : List Returned} {row : WedgeLesson}
    (rooted : Rooted dateParse returned row) (grown : returned ⊆ later) :
    Rooted dateParse later row := by
  obtain ⟨time, mem, parses⟩ := rooted.created
  refine ⟨⟨time, grown mem, parses⟩, fun signals => ?_⟩
  obtain ⟨polarity, mem⟩ := rooted.heard signals
  exact ⟨polarity, grown mem⟩

/-- What is known of a call on its way. -/
structure Backed (dateParse : String → Option Int) (returned : List Returned) (call : Pending) :
    Prop where
  lesson : call.prepared.row.id = call.done.lesson
  counts : call.prepared.row.counts = call.base + call.done.counts
  rooted : Rooted dateParse (call.done :: returned) call.prepared.row
  promoted : ∀ id time, call.done = .promoted id time → 3 ≤ call.base.applied ∧
    call.base.down = 0 ∧ (∃ polarity, .feedback id polarity ∈ returned) ∧
      ∃ created, .created id created ∈ returned ∧ (msPerDay : Int) ≤ time - created

theorem Backed.mono {returned later : List Returned} {call : Pending}
    (backed : Backed dateParse returned call) (grown : returned ⊆ later) :
    Backed dateParse later call := by
  refine ⟨backed.lesson, backed.counts, backed.rooted.mono (List.cons_subset_cons _ grown),
    fun id time same => ?_⟩
  obtain ⟨applied, down, ⟨polarity, heard⟩, created, known, day⟩ := backed.promoted id time same
  exact ⟨applied, down, ⟨polarity, grown heard⟩, created, grown known, day⟩

/-- A row that is read is a row of the table. -/
theorem rooted_of_read {returned : List Returned} {row : WedgeLesson}
    (rows : ∀ row ∈ s.rows.rows, Rooted dateParse returned row) (found : s.read id = .ok row) :
    row.id = id ∧ row.counts = s.counts id ∧ Rooted dateParse returned row := by
  obtain ⟨old, present, rfl⟩ := read_eq_ok found
  have known := rows old (Table.mem_of_get present)
  have ids : old.id = id := Table.key_of_get present
  exact ⟨ids, (counts_of_get present).symm, known.created, known.heard⟩

/-- The calls prepare what they will be counted for. -/
theorem backed_of_prepare {returned : List Returned} {call : Call} {first second : Reading dateParse}
    {prepared : Prepared} (rows : ∀ row ∈ s.rows.rows, Rooted dateParse returned row)
    (done : s.prepare digest dateParse (call.op first.text second.text) = .ok prepared) :
    Backed dateParse returned ⟨call.done digest first.ms, call.base s, prepared⟩ := by
  cases call with
  | createLesson input =>
      cases done
      refine ⟨rfl, rfl, ⟨⟨first.ms, List.mem_cons_self, first.parses⟩, fun signals => ?_⟩,
        fun id time same => by cases same⟩
      exact absurd rfl signals
  | promoteLesson id =>
      obtain ⟨row, found, done⟩ := bind_eq_ok done
      rw [first.parses] at done
      split at done
      · cases done
      · rename_i promote
        cases done
        obtain ⟨rfl, counts, rooted⟩ := rooted_of_read rows found
        obtain ⟨applied, down, signals, created, parses, day⟩ := of_gate_promote promote
        have known := rooted.mono (List.subset_cons_self (.promoted row.id first.ms) returned)
        have base : row.counts + 0 = s.counts row.id + 0 := congrArg (· + 0) counts
        refine ⟨rfl, base, ⟨known.created, known.heard⟩, fun id time same => ?_⟩
        cases same
        dsimp only [Call.base]
        rw [← counts]
        obtain ⟨time, known, same⟩ := rooted.created
        cases parses.symm.trans same
        exact ⟨applied, down, rooted.heard signals, _, known, day⟩
  | captureFeedback id polarity signalId =>
      obtain ⟨row, found, done⟩ := bind_eq_ok done
      cases done
      obtain ⟨rfl, counts, rooted⟩ := rooted_of_read rows found
      have known := rooted.mono (List.subset_cons_self (.feedback row.id polarity) returned)
      refine ⟨rfl, ?_, ⟨known.created, fun _ => ⟨polarity, List.mem_cons_self⟩⟩,
        fun id time same => by cases same⟩
      dsimp only [Call.base, Call.done]
      rw [← counts]
      cases polarity <;> rfl
  | recordApplied id sessionId =>
      obtain ⟨row, found, done⟩ := bind_eq_ok done
      cases done
      obtain ⟨rfl, counts, rooted⟩ := rooted_of_read rows found
      have known := rooted.mono (List.subset_cons_self (.applied row.id) returned)
      refine ⟨rfl, ?_, ⟨known.created, known.heard⟩, fun id time same => by cases same⟩
      dsimp only [Call.base, Call.done]
      rw [← counts]
      rfl

/-! ## What a write counts -/

theorem commit_eq_ok {p : Prepared} (done : s.commit codec p = .ok t) :
    t.rows = Store.replaceRow s.rows p.row := by
  obtain ⟨u, upserted, done⟩ := bind_eq_ok done
  obtain ⟨-, rfl⟩ := upsert_eq_ok upserted
  split at done
  · cases done
    rfl
  · split at done
    · cases done
      rfl
    · split at done
      · cases done
      · cases done
        rfl

theorem counts_of_commit {p : Prepared} (done : s.commit codec p = .ok t) :
    t.counts id = if p.row.id = id then p.row.counts else s.counts id := by
  unfold Store.counts
  rw [commit_eq_ok done]
  split
  · rename_i same
    rw [← same, get_replaceRow_self, Option.map_some, Option.getD_some]
  · rename_i other
    rw [get_replaceRow_of_ne fun same => other same.symm]

theorem add_left_cancel_counts {a b c : Counts} : a + c = b + c ↔ a = b := by
  constructor
  · intro same
    have applied : a.applied + c.applied = b.applied + c.applied := congrArg Counts.applied same
    have up : a.up + c.up = b.up + c.up := congrArg Counts.up same
    have down : a.down + c.down = b.down + c.down := congrArg Counts.down same
    exact Counts.ext (by omega) (by omega) (by omega)
  · exact fun same => congrArg (· + c) same

theorem one_le_of_feedback {returned : List Returned} {polarity : Polarity}
    (mem : .feedback id polarity ∈ returned) :
    1 ≤ (tally id returned).up + (tally id returned).down := by
  induction returned with
  | nil => cases mem
  | cons done earlier ih =>
      have up : (tally id (done :: earlier)).up = (tally id earlier).up +
          (if done.lesson = id then done.counts else 0).up := rfl
      have down : (tally id (done :: earlier)).down = (tally id earlier).down +
          (if done.lesson = id then done.counts else 0).down := rfl
      rw [up, down]
      rcases List.mem_cons.mp mem with rfl | before
      · have same : (Returned.feedback id polarity).lesson = id := rfl
        rw [if_pos same]
        cases polarity <;> simp only [Returned.counts] <;> omega
      · have known := ih before
        omega

/-! ## Every run -/

/-- What every undisturbed run keeps. -/
structure Inv (dateParse : String → Option Int) (w : World) : Prop where
  counted : Counted w
  honest : Honest w.returned
  rows : ∀ row ∈ w.store.rows.rows, Rooted dateParse w.returned row
  pending : ∀ call ∈ w.pending, Backed dateParse w.returned call

theorem inv_start : Inv dateParse {} where
  counted _ := rfl
  honest := trivial
  rows _ mem := by cases mem
  pending _ mem := by cases mem

/-- A write keeps the counts if and only if it goes by the counts that are there. -/
theorem counted_iff {call : Pending} (counted : Counted w)
    (backed : Backed dateParse w.returned call) (done : w.store.commit codec call.prepared = .ok t)
    (after : w'.store = t) (returned : w'.returned = call.done :: w.returned) :
    Counted w' ↔ w.store.counts call.done.lesson = call.base := by
  have here : w'.store.counts call.done.lesson = call.base + call.done.counts := by
    rw [after, counts_of_commit done, if_pos backed.lesson, backed.counts]
  have tallied : tally call.done.lesson w'.returned =
      w.store.counts call.done.lesson + call.done.counts := by
    rw [returned, tally, if_pos rfl, counted]
  constructor
  · intro kept
    have same := kept call.done.lesson
    rw [here, tallied] at same
    exact (add_left_cancel_counts.mp same).symm
  · intro undisturbed id
    by_cases same : call.done.lesson = id
    · rw [← same, here, tallied, undisturbed]
    · rw [after, counts_of_commit done, backed.lesson, if_neg same, returned, tally, if_neg same,
        counted]
      rfl

/-- A promotion that goes by the counts that are there is earned. -/
theorem honest_cons {call : Pending} (inv : Inv dateParse w)
    (backed : Backed dateParse w.returned call)
    (undisturbed : w.store.counts call.done.lesson = call.base) :
    Honest (call.done :: w.returned) := by
  cases kind : call.done with
  | created id time => exact inv.honest
  | feedback id polarity => exact inv.honest
  | applied id => exact inv.honest
  | promoted id time =>
      obtain ⟨applied, down, ⟨polarity, heard⟩, dwelt⟩ := backed.promoted id time kind
      rw [kind, inv.counted] at undisturbed
      rw [← undisturbed] at applied down
      exact ⟨⟨applied, one_le_of_feedback heard, down, dwelt⟩, inv.honest⟩

theorem Inv.step {e : Event dateParse} (inv : Inv dateParse w) (undisturbed : Undisturbed w e)
    (fire : w.step codec digest dateParse e = some w') : Inv dateParse w' := by
  cases e with
  | start call first second =>
      unfold World.step at fire
      dsimp only at fire
      split at fire
      · split at fire
        · cases fire
          exact ⟨inv.counted, inv.honest, inv.rows, inv.pending⟩
        · rename_i prepared done
          cases fire
          refine ⟨inv.counted, inv.honest, inv.rows, fun other mem => ?_⟩
          rcases List.mem_append.mp mem with before | new
          · exact inv.pending other before
          · rw [List.mem_singleton.mp new]
            exact backed_of_prepare inv.rows done
      · cases fire
  | finish index =>
      obtain ⟨call, found, fire⟩ := Option.map_eq_some_iff.mp fire
      have backed := inv.pending call (List.mem_of_getElem? found)
      have current := undisturbed call found
      split at fire
      · cases fire
        exact ⟨inv.counted, inv.honest, inv.rows, fun other mem =>
          inv.pending other (List.mem_of_mem_eraseIdx mem)⟩
      · rename_i store done
        cases fire
        refine ⟨(counted_iff inv.counted backed done rfl rfl).mpr current,
          honest_cons inv backed current, fun row mem => ?_, fun other mem => ?_⟩
        · dsimp only at mem
          rw [commit_eq_ok done] at mem
          rcases List.mem_append.mp mem with old | new
          · exact (inv.rows row (List.mem_of_mem_filter old)).mono (List.subset_cons_self ..)
          · rw [List.mem_singleton.mp new]
            exact backed.rooted
        · exact (inv.pending other (List.mem_of_mem_eraseIdx mem)).mono (List.subset_cons_self ..)

/-- Over runs whose writes are all undisturbed, every promotion was earned and every call that
has returned is counted once. -/
theorem earned_of_undisturbed (run : Steps (World.step codec digest dateParse) Undisturbed {} w) :
    Honest w.returned ∧ Counted w := by
  have inv : Inv dateParse w :=
    run.invariant inv_start fun _ _ _ inv undisturbed fire => inv.step undisturbed fire
  exact ⟨inv.honest, inv.counted⟩

/-! ## A lesson and its calls -/

instance {e : Event dateParse} : Decidable (Undisturbed w e) :=
  match e with
  | .start _ _ _ => inferInstanceAs (Decidable True)
  | .finish index => inferInstanceAs (Decidable
      (∀ call ∈ w.pending[index]?, w.store.counts call.done.lesson = call.base))

def readFirst : Reading sampleDate := ⟨firstDay, 1767225600000, by decide⟩

def readThird : Reading sampleDate := ⟨thirdDay, 1767398400000, by decide⟩

/-- Calls one after the other. -/
def inTurn (clock : Reading sampleDate) (calls : List Call) : List (Event sampleDate) :=
  calls.flatMap fun call => [.start call clock clock, .finish 0]

/-- What a lesson needs for its promotion. -/
def lockProves : List Call :=
  [.captureFeedback lockId .up "review", .recordApplied lockId none, .recordApplied lockId none,
    .recordApplied lockId none]

theorem earned_of_undisturbed_lock : ∃ w : World,
    .promoted lockId readThird.ms ∈ w.returned ∧ Honest w.returned ∧ Counted w := by
  have replay : (runWhile (World.step BlockYaml.codec lockDigest sampleDate)
      (fun w e => decide (Undisturbed w e)) {}
      (inTurn readFirst (.createLesson lockLesson :: lockProves) ++
        inTurn readThird [.promoteLesson lockId])).any
          (fun w => .promoted lockId readThird.ms ∈ w.returned) = true := by
    decide +kernel
  obtain ⟨w, reached, promoted⟩ := (Option.any_eq_true _ _).mp replay
  have run := Steps.of_runWhile (fun _ _ current => of_decide_eq_true current) reached
  exact ⟨w, of_decide_eq_true promoted, earned_of_undisturbed run⟩

/-- A lesson that was criticised is created again, proves itself, and is promoted. -/
theorem promoted_after_criticism : ∃ w : World,
    Steps (World.step BlockYaml.codec lockDigest sampleDate) AnyStep {} w ∧ ¬ Honest w.returned := by
  have replay : (runWhile (World.step BlockYaml.codec lockDigest sampleDate) (fun _ _ => true) {}
      (inTurn readFirst ([.createLesson lockLesson, .captureFeedback lockId .down "review",
        .createLesson lockLesson] ++ lockProves) ++ inTurn readThird [.promoteLesson lockId])).any
          (fun w => w.returned.head? = some (.promoted lockId readThird.ms) ∧
            (tally lockId w.returned.tail).down = 1) = true := by
    decide +kernel
  obtain ⟨w, reached, facts⟩ := (Option.any_eq_true _ _).mp replay
  obtain ⟨promoted, down⟩ := of_decide_eq_true facts
  refine ⟨w, Steps.of_runWhile (fun _ _ _ => trivial) reached, fun honest => ?_⟩
  obtain ⟨earlier, same⟩ := List.head?_eq_some_iff.mp promoted
  rw [same] at honest down
  have none' : (tally lockId earlier).down = 0 := honest.1.unharmed
  rw [List.tail_cons, none'] at down
  cases down

/-- Two uses that were read together are counted once. -/
theorem lost_application : ∃ w : World,
    Steps (World.step BlockYaml.codec lockDigest sampleDate) AnyStep {} w ∧ ¬ Counted w := by
  have replay : (runWhile (World.step BlockYaml.codec lockDigest sampleDate) (fun _ _ => true) {}
      (inTurn readFirst [.createLesson lockLesson] ++
        [.start (.recordApplied lockId none) readFirst readFirst,
          .start (.recordApplied lockId none) readFirst readFirst, .finish 0, .finish 0])).any
          (fun w => w.store.counts lockId ≠ tally lockId w.returned) = true := by
    decide +kernel
  obtain ⟨w, reached, lost⟩ := (Option.any_eq_true _ _).mp replay
  exact ⟨w, Steps.of_runWhile (fun _ _ _ => trivial) reached, fun counted =>
    of_decide_eq_true lost (counted lockId)⟩

end Opensquid.Rag.Wedge
