import Mathlib.Data.List.Perm.Subperm
import Opensquid.Lib.Steps

/-!
# The admission of audit fan-outs

Two kernel locks bound the fan-outs of all processes of a home. A fan-out takes the first lock it
finds free, publishes a projection of itself in the file of that slot, works, removes its
projection and gives the lock back; it can fail at every access and die at every moment, and its
death gives the lock back. A read of a session's activity takes the projections as they are; it
probes the lock where a projection of the session is out of its time, and removes that projection
while it holds the probed lock.

Over every run of any fan-outs and reads, from any files:

* `slots_bound`: the projection of a working fan-out stays as published, under its own lock, so at
  most two work.
* `activity_seen`: a read answers active or unknown where a fan-out of the session works throughout.
* `undisturbed`: a read on its own takes the projections of its session for what they are, and
  removes those of dead fan-outs once they are out of their time.
-/

namespace Opensquid.Audit.Admission

open Opensquid.Lib

def AUDIT_FANOUT_SLOTS : Nat := 2

def ACTIVITY_FAST_PATH_MS : Int := 660000

def ACTIVITY_CLOCK_SKEW_MS : Int := 1000

/-! ## Projections -/

structure AdmissionProjection where
  token : String
  sessionId : String
  slot : Int
  createdAtMs : Int
  expiresAtMs : Int
  deriving DecidableEq, Repr

/-- The file of a slot: the JSON text of a projection, or any other text. -/
inductive ProjectionFile
  | absent
  | garbled
  | json (projection : AdmissionProjection)
  deriving DecidableEq, Repr

inductive ProjectionRead
  | absent
  | valid (value : AdmissionProjection)
  | unknown
  deriving DecidableEq, Repr

/-- `ok`: the file can be read. -/
def readProjection (ok : Bool) (file : ProjectionFile) : ProjectionRead :=
  if !ok then .unknown else
    match file with
    | .absent => .absent
    | .garbled => .unknown
    | .json parsed =>
        if parsed.expiresAtMs - parsed.createdAtMs ≠ ACTIVITY_FAST_PATH_MS then .unknown
        else .valid parsed

structure AuditActivityResult where
  active : Bool := false
  unknown : Bool := false
  probedFiles : List String := []
  deriving DecidableEq, Repr

def AuditActivityResult.doubt (result : AuditActivityResult) : AuditActivityResult :=
  { result with unknown := true }

def AuditActivityResult.probed (result : AuditActivityResult) (what : String) (slot : Nat) :
    AuditActivityResult :=
  { result with probedFiles := result.probedFiles ++ ["audit:" ++ what ++ ":" ++ toString slot] }

/-- What keeps a session plausible: an answer that is not a plain no. -/
def AuditActivityResult.Busy (result : AuditActivityResult) : Prop :=
  result.active = true ∨ result.unknown = true

/-! ## The parties -/

/-- `withAuditFanoutAdmission` before its next access. -/
inductive Fanout
  | acquires (sessionId : String) (slot : Nat)
  /-- Holds the lock; clock and token are read next. -/
  | builds (sessionId : String) (slot : Nat)
  | publishes (slot : Nat) (projection : AdmissionProjection)
  | works (slot : Nat) (projection : AdmissionProjection)
  /-- `removeProjectionIfOwned` reads. -/
  | cleans (slot : Nat) (projection : AdmissionProjection)
  | unlinks (slot : Nat) (projection : AdmissionProjection)
  | releases (slot : Nat)
  | ended
  deriving DecidableEq, Repr

/-- `readAuditActivity` before its next access. -/
inductive ReadPhase
  | looks (slot : Nat) (result : AuditActivityResult)
  | probes (slot : Nat) (marker : AdmissionProjection) (result : AuditActivityResult)
  /-- `removeProjectionIfStillEqual` reads, under the probed lock. -/
  | compares (slot : Nat) (marker : AdmissionProjection) (result : AuditActivityResult)
  | unlinks (slot : Nat) (result : AuditActivityResult)
  | releases (slot : Nat) (result : AuditActivityResult)
  | answers (result : AuditActivityResult)
  | died
  deriving DecidableEq, Repr

structure Reader where
  sessionId : String
  nowMs : Int
  phase : ReadPhase
  deriving DecidableEq, Repr

inductive Holder
  | fanout (f : Nat)
  | read (r : Nat)
  deriving DecidableEq, Repr

/-- The lock that a fan-out in this phase holds. -/
def Fanout.held : Fanout → Option Nat
  | .acquires _ _ | .ended => none
  | .builds _ slot | .publishes slot _ | .works slot _ | .cleans slot _ | .unlinks slot _
  | .releases slot => some slot

def ReadPhase.held : ReadPhase → Option Nat
  | .looks _ _ | .probes _ _ _ | .answers _ | .died => none
  | .compares slot _ _ | .unlinks slot _ | .releases slot _ => some slot

/-! ## The system -/

structure Sys where
  locks : Nat → Option Holder
  files : Nat → ProjectionFile
  fanouts : Nat → Option Fanout
  reads : Nat → Option Reader

def Sys.init (files : Nat → ProjectionFile) : Sys where
  locks _ := none
  files := files
  fanouts _ := none
  reads _ := none

inductive Event
  /-- A process calls `withAuditFanoutAdmission`. -/
  | admits (f : Nat) (sessionId : String)
  | builds (f : Nat) (token : String) (createdAtMs : Int)
  /-- The next access of a fan-out, or the end of its work; `ok`: the access does not throw. -/
  | advances (f : Nat) (ok : Bool)
  | dies (f : Nat)
  /-- A process calls `readAuditActivity`. -/
  | asks (r : Nat) (sessionId : String) (nowMs : Int)
  | reads (r : Nat) (ok : Bool)
  | readDies (r : Nat)
  deriving DecidableEq, Repr

namespace Sys

def setFanout (s : Sys) (f : Nat) (phase : Fanout) : Sys :=
  { s with fanouts := Function.update s.fanouts f (some phase) }

def setReader (s : Sys) (r : Nat) (reader : Reader) : Sys :=
  { s with reads := Function.update s.reads r (some reader) }

def setLock (s : Sys) (slot : Nat) (holder : Option Holder) : Sys :=
  { s with locks := Function.update s.locks slot holder }

def setFile (s : Sys) (slot : Nat) (file : ProjectionFile) : Sys :=
  { s with files := Function.update s.files slot file }

/-- The kernel takes back what a dead process held. -/
def freeLocks (s : Sys) (holder : Holder) : Sys :=
  { s with locks := fun slot => if s.locks slot = some holder then none else s.locks slot }

end Sys

/-- The projection of a fan-out that holds a slot. -/
def admissionProjection (sessionId token : String) (slot : Nat) (createdAtMs : Int) :
    AdmissionProjection :=
  ⟨token, sessionId, slot, createdAtMs, createdAtMs + ACTIVITY_FAST_PATH_MS⟩

def Fanout.build (token : String) (createdAtMs : Int) : Fanout → Option Fanout
  | .builds sessionId slot =>
      some (.publishes slot (admissionProjection sessionId token slot createdAtMs))
  | .acquires _ _ | .publishes _ _ | .works _ _ | .cleans _ _ | .unlinks _ _ | .releases _
  | .ended => none

/-- The accesses of `withAuditFanoutAdmission`. -/
def Sys.advance (s : Sys) (f : Nat) (ok : Bool) : Fanout → Option Sys
  | .acquires sessionId slot =>
      if !ok then some (s.setFanout f .ended)
      else if s.locks slot = none then
        some ((s.setLock slot (some (.fanout f))).setFanout f (.builds sessionId slot))
      else if slot + 1 < AUDIT_FANOUT_SLOTS then
        some (s.setFanout f (.acquires sessionId (slot + 1)))
      else some (s.setFanout f .ended)
  -- with `ok` it goes on by `Event.builds`
  | .builds _ slot => if ok then none else some (s.setFanout f (.releases slot))
  | .publishes slot projection =>
      if ok then some ((s.setFile slot (.json projection)).setFanout f (.works slot projection))
      else some (s.setFanout f (.cleans slot projection))
  | .works slot projection => some (s.setFanout f (.cleans slot projection))
  | .cleans slot projection =>
      if readProjection ok (s.files slot) = .valid projection then
        some (s.setFanout f (.unlinks slot projection))
      else some (s.setFanout f (.releases slot))
  | .unlinks slot _ =>
      if ok then some ((s.setFile slot .absent).setFanout f (.releases slot))
      else some (s.setFanout f (.releases slot))
  -- a release that fails leaves the lock to the process until it dies
  | .releases slot =>
      if ok then some ((s.setLock slot none).setFanout f .ended)
      else some (s.setFanout f .ended)
  | .ended => none

/-- On to the next slot, or to the answer. -/
def nextSlot (slot : Nat) (result : AuditActivityResult) : ReadPhase :=
  if slot + 1 < AUDIT_FANOUT_SLOTS then .looks (slot + 1) result else .answers result

/-- What a read makes of the projection of a slot. -/
def classify (sessionId : String) (nowMs : Int) (slot : Nat) (result : AuditActivityResult) :
    ProjectionRead → ReadPhase
  | .absent => nextSlot slot result
  | .unknown => nextSlot slot result.doubt
  | .valid marker =>
      if marker.slot ≠ slot then nextSlot slot result.doubt
      else if marker.sessionId ≠ sessionId then nextSlot slot result
      else if nowMs ≥ marker.createdAtMs - ACTIVITY_CLOCK_SKEW_MS ∧
          nowMs < marker.expiresAtMs then
        nextSlot slot { result with active := true }
      else .probes slot marker
        (result.probed "recovery" slot)

/-- `removeProjectionIfStillEqual` after its read. -/
def compare (slot : Nat) (marker : AdmissionProjection) (result : AuditActivityResult) :
    ProjectionRead → ReadPhase
  | .absent => .releases slot result
  | .unknown => .releases slot result.doubt
  | .valid current =>
      if current = marker then .unlinks slot result else .releases slot result.doubt

/-- The accesses of `readAuditActivity`: the state after the access, and what comes next. -/
def Sys.read (s : Sys) (r : Nat) (ok : Bool) (sessionId : String) (nowMs : Int) :
    ReadPhase → Option (Sys × ReadPhase)
  | .looks slot result => some (s, classify sessionId nowMs slot
      (result.probed "projection" slot) (readProjection ok (s.files slot)))
  | .probes slot marker result =>
      if ok = false ∨ s.locks slot ≠ none then some (s, nextSlot slot result.doubt)
      else some (s.setLock slot (some (.read r)), .compares slot marker result)
  | .compares slot marker result =>
      some (s, compare slot marker result (readProjection ok (s.files slot)))
  | .unlinks slot result =>
      if ok then some (s.setFile slot .absent, .releases slot result)
      else some (s, .releases slot result.doubt)
  | .releases slot result =>
      some (if ok then s.setLock slot none else s, nextSlot slot result)
  | .answers _ => none
  | .died => none

def step (s : Sys) : Event → Option Sys
  | .admits f sessionId =>
      if s.fanouts f = none then some (s.setFanout f (.acquires sessionId 0)) else none
  | .builds f token createdAtMs =>
      (s.fanouts f).bind fun phase => (phase.build token createdAtMs).map (s.setFanout f)
  | .advances f ok => (s.fanouts f).bind (s.advance f ok)
  | .dies f => if s.fanouts f = none then none
      else some ((s.freeLocks (.fanout f)).setFanout f .ended)
  | .asks r sessionId nowMs =>
      if s.reads r = none then some (s.setReader r ⟨sessionId, nowMs, .looks 0 {}⟩) else none
  | .reads r ok => (s.reads r).bind fun reader =>
      (s.read r ok reader.sessionId reader.nowMs reader.phase).map fun next =>
        next.1.setReader r { reader with phase := next.2 }
  | .readDies r => (s.reads r).map fun reader =>
      (s.freeLocks (.read r)).setReader r { reader with phase := .died }

/-! ## Who holds what -/

/-- The projection of a fan-out, once it is built. -/
def Fanout.projection : Fanout → Option (Nat × AdmissionProjection)
  | .acquires _ _ | .builds _ _ | .releases _ | .ended => none
  | .publishes slot projection | .works slot projection | .cleans slot projection
  | .unlinks slot projection => some (slot, projection)

/-- The slot that a fan-out or a read is at. -/
def Fanout.slot : Fanout → Option Nat
  | .acquires _ slot | .builds _ slot | .publishes slot _ | .works slot _ | .cleans slot _
  | .unlinks slot _ | .releases slot => some slot
  | .ended => none

def ReadPhase.slot : ReadPhase → Option Nat
  | .looks slot _ | .probes slot _ _ | .compares slot _ _ | .unlinks slot _
  | .releases slot _ => some slot
  | .answers _ | .died => none

/-- A projection that a read of the slot takes for valid. -/
def AdmissionProjection.Fits (projection : AdmissionProjection) (slot : Nat) : Prop :=
  projection.slot = slot ∧
    projection.expiresAtMs - projection.createdAtMs = ACTIVITY_FAST_PATH_MS

theorem readProjection_fits {projection : AdmissionProjection} {slot : Nat}
    (fits : projection.Fits slot) :
    readProjection true (.json projection) = .valid projection := by
  simp [readProjection, fits.2]

structure FanoutOk (s : Sys) (f : Nat) (phase : Fanout) : Prop where
  below : ∀ slot ∈ phase.slot, slot < AUDIT_FANOUT_SLOTS
  owns : ∀ slot ∈ phase.held, s.locks slot = some (.fanout f)
  fits : ∀ own ∈ phase.projection, own.2.Fits own.1
  published : ∀ slot projection, phase = .works slot projection →
    s.files slot = .json projection

structure ReadOk (s : Sys) (r : Nat) (phase : ReadPhase) : Prop where
  below : ∀ slot ∈ phase.slot, slot < AUDIT_FANOUT_SLOTS
  owns : ∀ slot ∈ phase.held, s.locks slot = some (.read r)

/-- No file, or one whose projection a read takes for valid. -/
def ProjectionFile.Tidy (slot : Nat) (file : ProjectionFile) : Prop :=
  file = .absent ∨ ∃ projection, file = .json projection ∧ projection.Fits slot

/-- Locks held by others, and the files under them, are left alone; what is written is tidy. -/
structure Sys.Spares (s t : Sys) (who : Holder) : Prop where
  held : ∀ slot holder, holder ≠ who → s.locks slot = some holder →
    t.locks slot = some holder ∧ t.files slot = s.files slot
  tidy : ∀ slot, t.files slot = s.files slot ∨ (t.files slot).Tidy slot

theorem Sys.Spares.refl (s : Sys) (who : Holder) : s.Spares s who where
  held _ _ _ held := ⟨held, rfl⟩
  tidy _ := .inl rfl

/-- Only a slot that is free or one's own is touched. -/
theorem spares_of_touched {s t : Sys} {who : Holder} {slot : Nat}
    (own : s.locks slot = none ∨ s.locks slot = some who)
    (rest : ∀ k, k ≠ slot → t.locks k = s.locks k ∧ t.files k = s.files k)
    (tidy : t.files slot = s.files slot ∨ (t.files slot).Tidy slot) :
    s.Spares t who := by
  refine ⟨fun k holder other held => ?_, fun k => ?_⟩
  · have apart : k ≠ slot := by
      rintro rfl
      rcases own with free | own
      · rw [free] at held
        cases held
      · exact other (Option.some.inj (held.symm.trans own))
    exact ⟨(rest k apart).1.trans held, (rest k apart).2⟩
  · by_cases same : k = slot
    · rw [same]
      exact tidy
    · exact .inl (rest k same).2

theorem setLock_spares {s : Sys} {who : Holder} {slot : Nat} (holder : Option Holder)
    (own : s.locks slot = none ∨ s.locks slot = some who) :
    s.Spares (s.setLock slot holder) who :=
  spares_of_touched own (fun _ apart => ⟨Function.update_of_ne apart _ _, rfl⟩) (.inl rfl)

theorem setFile_spares {s : Sys} {who : Holder} {slot : Nat} {file : ProjectionFile}
    (tidy : file.Tidy slot) (own : s.locks slot = some who) : s.Spares (s.setFile slot file) who :=
  spares_of_touched (.inr own) (fun _ apart => ⟨rfl, Function.update_of_ne apart _ _⟩)
    (.inr (by
      show (Function.update s.files slot file slot).Tidy slot
      rwa [Function.update_self]))

theorem freeLocks_spares (s : Sys) (who : Holder) : s.Spares (s.freeLocks who) who := by
  refine ⟨fun slot holder other held => ?_, fun _ => .inl rfl⟩
  have kept : s.locks slot ≠ some who := by
    rw [held]
    exact fun same => other (Option.some.inj same)
  exact ⟨(if_neg kept).trans held, rfl⟩

theorem FanoutOk.spared {s t : Sys} {who : Holder} {f : Nat} {phase : Fanout}
    (spares : s.Spares t who) (other : .fanout f ≠ who) (ok : FanoutOk s f phase) :
    FanoutOk t f phase where
  below := ok.below
  owns slot held := (spares.held slot _ other (ok.owns slot held)).1
  fits := ok.fits
  published slot projection works := by
    have held : slot ∈ phase.held := by
      rw [works]
      rfl
    rw [(spares.held slot _ other (ok.owns slot held)).2]
    exact ok.published slot projection works

theorem ReadOk.spared {s t : Sys} {who : Holder} {r : Nat} {phase : ReadPhase}
    (spares : s.Spares t who) (other : .read r ≠ who) (ok : ReadOk s r phase) :
    ReadOk t r phase where
  below := ok.below
  owns slot held := (spares.held slot _ other (ok.owns slot held)).1

/-- A phase without lock, file and projection. -/
theorem fanoutOk_plain {s : Sys} {f : Nat} {phase : Fanout}
    (below : ∀ slot ∈ phase.slot, slot < AUDIT_FANOUT_SLOTS) (held : phase.held = none)
    (projection : phase.projection = none) : FanoutOk s f phase where
  below := below
  owns slot mem := by rw [held] at mem; cases mem
  fits own mem := by rw [projection] at mem; cases mem
  published slot p works := by rw [works] at projection; cases projection

theorem readOk_plain {s : Sys} {r : Nat} {phase : ReadPhase}
    (below : ∀ slot ∈ phase.slot, slot < AUDIT_FANOUT_SLOTS) (held : phase.held = none) :
    ReadOk s r phase where
  below := below
  owns slot mem := by rw [held] at mem; cases mem

/-- What an access of a fan-out leaves. -/
structure Advanced (s t : Sys) (f : Nat) (phase : Fanout) : Prop where
  fanouts : t.fanouts = Function.update s.fanouts f (some phase)
  reads : t.reads = s.reads
  spares : s.Spares t (.fanout f)
  ok : FanoutOk t f phase

theorem Advanced.of_plain {s t u : Sys} {f : Nat} {phase : Fanout} (spares : s.Spares t (.fanout f))
    (fanouts : t.fanouts = s.fanouts) (reads : t.reads = s.reads)
    (set : u = t.setFanout f phase) (ok : FanoutOk t f phase) : Advanced s u f phase := by
  subst set
  refine ⟨?_, reads, ⟨spares.held, spares.tidy⟩, ok.below, ok.owns, ok.fits, ok.published⟩
  rw [← fanouts]
  rfl

/-- The next phase under the same lock. -/
theorem FanoutOk.stays {s : Sys} {f slot : Nat} {phase next : Fanout} (ok : FanoutOk s f phase)
    (held : phase.held = some slot) (at' : phase.slot = some slot) (held' : next.held = some slot)
    (next_at : next.slot = some slot)
    (fits : ∀ own ∈ next.projection, own ∈ phase.projection)
    (working : ∀ slot projection, next ≠ .works slot projection) : FanoutOk s f next where
  below k mem := by
    rw [next_at, ← at'] at mem
    exact ok.below k mem
  owns k mem := by
    rw [held', ← held] at mem
    exact ok.owns k mem
  fits own mem := ok.fits own (fits own mem)
  published k projection works := absurd works (working k projection)

theorem advance_spec {s t : Sys} {f : Nat} {ok : Bool} {phase : Fanout} (own : FanoutOk s f phase)
    (fire : s.advance f ok phase = some t) : ∃ next, Advanced s t f next := by
  have ended : FanoutOk s f .ended := fanoutOk_plain (fun _ mem => by cases mem) rfl rfl
  cases phase with
  | acquires sessionId slot =>
      rw [Sys.advance] at fire
      split at fire
      · exact ⟨.ended, .of_plain (.refl s _) rfl rfl (Option.some.inj fire).symm ended⟩
      split at fire
      next free =>
        refine ⟨_, .of_plain (setLock_spares (some (.fanout f)) (.inl free)) rfl rfl
          (Option.some.inj fire).symm ?_⟩
        exact {
          below := fun k mem => own.below k mem
          owns := fun k mem => by
            cases mem
            exact Function.update_self _ _ _
          fits := fun own mem => by cases mem
          published := fun k projection works => by cases works }
      split at fire
      next more =>
        refine ⟨_, .of_plain (.refl s _) rfl rfl (Option.some.inj fire).symm
          (fanoutOk_plain (fun k mem => ?_) rfl rfl)⟩
        cases mem
        exact more
      · exact ⟨.ended, .of_plain (.refl s _) rfl rfl (Option.some.inj fire).symm ended⟩
  | builds sessionId slot =>
      rw [Sys.advance] at fire
      split at fire
      · cases fire
      · exact ⟨_, .of_plain (.refl s _) rfl rfl (Option.some.inj fire).symm
          (own.stays rfl rfl rfl rfl (fun _ mem => by cases mem) fun _ _ => by simp)⟩
  | publishes slot projection =>
      have held := own.owns slot rfl
      rw [Sys.advance] at fire
      split at fire
      · have tidy : (ProjectionFile.json projection).Tidy slot :=
          .inr ⟨projection, rfl, own.fits (slot, projection) rfl⟩
        refine ⟨_, .of_plain (setFile_spares tidy held) rfl rfl (Option.some.inj fire).symm
          ⟨own.below, own.owns, own.fits, fun k p works => ?_⟩⟩
        cases works
        exact Function.update_self _ _ _
      · exact ⟨_, .of_plain (.refl s _) rfl rfl (Option.some.inj fire).symm
          (own.stays rfl rfl rfl rfl (fun _ mem => mem) fun _ _ => by simp)⟩
  | works slot projection =>
      exact ⟨_, .of_plain (.refl s _) rfl rfl (Option.some.inj fire).symm
        (own.stays rfl rfl rfl rfl (fun _ mem => mem) fun _ _ => by simp)⟩
  | cleans slot projection =>
      rw [Sys.advance] at fire
      split at fire
      · exact ⟨_, .of_plain (.refl s _) rfl rfl (Option.some.inj fire).symm
          (own.stays rfl rfl rfl rfl (fun _ mem => mem) fun _ _ => by simp)⟩
      · exact ⟨_, .of_plain (.refl s _) rfl rfl (Option.some.inj fire).symm
          (own.stays rfl rfl rfl rfl (fun _ mem => by cases mem) fun _ _ => by simp)⟩
  | unlinks slot projection =>
      have held := own.owns slot rfl
      rw [Sys.advance] at fire
      have releases : FanoutOk s f (.releases slot) :=
        own.stays rfl rfl rfl rfl (fun _ mem => by cases mem) fun _ _ => by simp
      split at fire
      · exact ⟨_, .of_plain (setFile_spares (.inl rfl) held) rfl rfl (Option.some.inj fire).symm
          ⟨releases.below, releases.owns, releases.fits, fun _ _ works => by cases works⟩⟩
      · exact ⟨_, .of_plain (.refl s _) rfl rfl (Option.some.inj fire).symm releases⟩
  | releases slot =>
      have held := own.owns slot rfl
      rw [Sys.advance] at fire
      split at fire
      · exact ⟨.ended, .of_plain (setLock_spares none (.inr held)) rfl rfl
          (Option.some.inj fire).symm (fanoutOk_plain (fun _ mem => by cases mem) rfl rfl)⟩
      · exact ⟨.ended, .of_plain (.refl s _) rfl rfl (Option.some.inj fire).symm ended⟩
  | ended => cases fire

theorem build_spec {s : Sys} {f : Nat} {token : String} {createdAtMs : Int} {phase next : Fanout}
    (own : FanoutOk s f phase) (fire : phase.build token createdAtMs = some next) :
    FanoutOk s f next := by
  cases phase with
  | builds sessionId slot =>
      cases fire
      refine ⟨own.below, own.owns, fun built mem => ?_, fun _ _ works => by cases works⟩
      cases mem
      refine ⟨rfl, ?_⟩
      show createdAtMs + ACTIVITY_FAST_PATH_MS - createdAtMs = ACTIVITY_FAST_PATH_MS
      omega
  | acquires _ _ => cases fire
  | publishes _ _ => cases fire
  | works _ _ => cases fire
  | cleans _ _ => cases fire
  | unlinks _ _ => cases fire
  | releases _ => cases fire
  | ended => cases fire

/-- What an access of a read leaves, before its phase is set. -/
structure Looked (s t : Sys) (r : Nat) (next : ReadPhase) : Prop where
  fanouts : t.fanouts = s.fanouts
  reads : t.reads = s.reads
  spares : s.Spares t (.read r)
  ok : ReadOk t r next

theorem nextSlot_ok (s : Sys) (r slot : Nat) (result : AuditActivityResult) :
    ReadOk s r (nextSlot slot result) := by
  unfold nextSlot
  split
  next more =>
    refine readOk_plain (fun k mem => ?_) rfl
    cases mem
    exact more
  · exact readOk_plain (fun k mem => by cases mem) rfl

theorem classify_ok (s : Sys) (r : Nat) (sessionId : String) (nowMs : Int) {slot : Nat}
    (below : slot < AUDIT_FANOUT_SLOTS) (result : AuditActivityResult) (read : ProjectionRead) :
    ReadOk s r (classify sessionId nowMs slot result read) := by
  cases read with
  | absent => exact nextSlot_ok ..
  | unknown => exact nextSlot_ok ..
  | valid marker =>
      rw [classify]
      split
      · exact nextSlot_ok ..
      split
      · exact nextSlot_ok ..
      split
      · exact nextSlot_ok ..
      · refine readOk_plain (fun k mem => ?_) rfl
        cases mem
        exact below

theorem compare_slot (slot : Nat) (marker : AdmissionProjection) (result : AuditActivityResult)
    (read : ProjectionRead) : (compare slot marker result read).slot = some slot ∧
      (compare slot marker result read).held = some slot := by
  cases read with
  | absent => exact ⟨rfl, rfl⟩
  | unknown => exact ⟨rfl, rfl⟩
  | valid current =>
      rw [compare]
      split
      · exact ⟨rfl, rfl⟩
      · exact ⟨rfl, rfl⟩

theorem read_spec {s t : Sys} {r : Nat} {ok : Bool} {sessionId : String} {nowMs : Int}
    {phase next : ReadPhase} (own : ReadOk s r phase)
    (fire : s.read r ok sessionId nowMs phase = some (t, next)) : Looked s t r next := by
  cases phase with
  | looks slot result =>
      cases fire
      exact ⟨rfl, rfl, .refl s _, classify_ok _ _ _ _ (own.below slot rfl) _ _⟩
  | probes slot marker result =>
      rw [Sys.read] at fire
      split at fire
      · cases fire
        exact ⟨rfl, rfl, .refl s _, nextSlot_ok ..⟩
      next locked =>
        cases fire
        have free : s.locks slot = none := by
          by_contra held
          exact locked (.inr held)
        refine ⟨rfl, rfl, setLock_spares _ (.inl free), own.below, fun k mem => ?_⟩
        cases mem
        exact Function.update_self _ _ _
  | compares slot marker result =>
      cases fire
      have same := compare_slot slot marker (result) (readProjection ok (s.files slot))
      refine ⟨rfl, rfl, .refl s _, fun k mem => ?_, fun k mem => ?_⟩
      · rw [same.1] at mem
        exact own.below k mem
      · rw [same.2] at mem
        exact own.owns k mem
  | unlinks slot result =>
      have held := own.owns slot rfl
      rw [Sys.read] at fire
      split at fire
      · cases fire
        exact ⟨rfl, rfl, setFile_spares (.inl rfl) held, own.below, own.owns⟩
      · cases fire
        exact ⟨rfl, rfl, .refl s _, own.below, own.owns⟩
  | releases slot result =>
      have held := own.owns slot rfl
      cases fire
      cases ok with
      | true => exact ⟨rfl, rfl, setLock_spares _ (.inr held), nextSlot_ok ..⟩
      | false => exact ⟨rfl, rfl, .refl s _, nextSlot_ok ..⟩
  | answers result => cases fire
  | died => cases fire

/-! ## Every run -/

structure Sys.Sound (s : Sys) : Prop where
  fanouts : ∀ f phase, s.fanouts f = some phase → FanoutOk s f phase
  reads : ∀ r reader, s.reads r = some reader → ReadOk s r reader.phase

theorem sound_init (files : Nat → ProjectionFile) : (Sys.init files).Sound where
  fanouts f phase at' := by cases at'
  reads r reader at' := by cases at'

/-- A fan-out moved, and the locks and files of the others stay. -/
theorem Advanced.sound {s t : Sys} {f : Nat} {phase : Fanout} (sound : s.Sound)
    (advanced : Advanced s t f phase) : t.Sound where
  fanouts g other at' := by
    rw [advanced.fanouts] at at'
    by_cases same : g = f
    · subst same
      rw [Function.update_self] at at'
      cases at'
      exact advanced.ok
    · rw [Function.update_of_ne same] at at'
      exact (sound.fanouts g other at').spared advanced.spares fun eq =>
        same (Holder.fanout.inj eq)
  reads r reader at' := by
    rw [advanced.reads] at at'
    exact (sound.reads r reader at').spared advanced.spares fun eq => by cases eq

theorem Looked.sound {s t : Sys} {r : Nat} {next : ReadPhase} (reader : Reader) (sound : s.Sound)
    (looked : Looked s t r next) : (t.setReader r { reader with phase := next }).Sound where
  fanouts f phase at' := by
    have ok := (sound.fanouts f phase (looked.fanouts ▸ at')).spared looked.spares
      fun eq => by cases eq
    exact ⟨ok.below, ok.owns, ok.fits, ok.published⟩
  reads q other at' := by
    by_cases same : q = r
    · subst same
      rw [Sys.setReader] at at'
      dsimp only at at'
      rw [Function.update_self] at at'
      cases at'
      exact ⟨looked.ok.below, looked.ok.owns⟩
    · rw [Sys.setReader] at at'
      dsimp only at at'
      rw [Function.update_of_ne same, looked.reads] at at'
      have ok := (sound.reads q other at').spared looked.spares fun eq =>
        same (Holder.read.inj eq)
      exact ⟨ok.below, ok.owns⟩

theorem step_sound {s t : Sys} {e : Event} (sound : s.Sound) (fire : step s e = some t) :
    t.Sound := by
  cases e with
  | admits f sessionId =>
      rw [step] at fire
      split at fire
      · refine (Advanced.of_plain (.refl s _) rfl rfl (Option.some.inj fire).symm
          (fanoutOk_plain (fun k mem => ?_) rfl rfl)).sound sound
        cases mem
        exact Nat.zero_lt_two
      · cases fire
  | builds f token createdAtMs =>
      obtain ⟨phase, at', built⟩ := Option.bind_eq_some_iff.mp fire
      obtain ⟨next, builds, set⟩ := Option.map_eq_some_iff.mp built
      exact (Advanced.of_plain (.refl s _) rfl rfl set.symm
        (build_spec (sound.fanouts f phase at') builds)).sound sound
  | advances f ok =>
      obtain ⟨phase, at', advances⟩ := Option.bind_eq_some_iff.mp fire
      obtain ⟨next, advanced⟩ := advance_spec (sound.fanouts f phase at') advances
      exact advanced.sound sound
  | dies f =>
      rw [step] at fire
      split at fire
      · cases fire
      · exact (Advanced.of_plain (freeLocks_spares s _) rfl rfl (Option.some.inj fire).symm
          (fanoutOk_plain (fun k mem => by cases mem) rfl rfl)).sound sound
  | asks r sessionId nowMs =>
      rw [step] at fire
      split at fire
      · cases fire
        refine Looked.sound ⟨sessionId, nowMs, .looks 0 {}⟩ sound
          ⟨rfl, rfl, .refl s _, readOk_plain (fun k mem => ?_) rfl⟩
        cases mem
        exact Nat.zero_lt_two
      · cases fire
  | reads r ok =>
      obtain ⟨reader, at', reads⟩ := Option.bind_eq_some_iff.mp fire
      obtain ⟨⟨u, next⟩, looks, set⟩ := Option.map_eq_some_iff.mp reads
      rw [← set]
      exact (read_spec (sound.reads r reader at') looks).sound reader sound
  | readDies r =>
      obtain ⟨reader, at', set⟩ := Option.map_eq_some_iff.mp fire
      rw [← set]
      exact Looked.sound reader sound ⟨rfl, rfl, freeLocks_spares s _,
        readOk_plain (fun k mem => by cases mem) rfl⟩

theorem sound_run {files : Nat → ProjectionFile} {s : Sys}
    (run : Steps step AnyStep (Sys.init files) s) : s.Sound :=
  run.invariant (sound_init files) fun _ _ _ sound _ fire => step_sound sound fire

def Holder.fanout? : Holder → Option Nat
  | .fanout f => some f
  | .read _ => none

/-- A working fan-out has its lock, and its projection is as it published it; so no more fan-outs
hold a lock than there are slots. -/
theorem slots_bound {files : Nat → ProjectionFile} {s : Sys}
    (run : Steps step AnyStep (Sys.init files) s) :
    (∀ f slot projection, s.fanouts f = some (.works slot projection) →
      s.locks slot = some (.fanout f) ∧ s.files slot = .json projection ∧ projection.Fits slot) ∧
    ∀ fs : List Nat, fs.Nodup →
      (∀ f ∈ fs, ∃ phase, s.fanouts f = some phase ∧ phase.held ≠ none) →
      fs.length ≤ AUDIT_FANOUT_SLOTS := by
  have sound := sound_run run
  refine ⟨fun f slot projection works => ?_, fun fs distinct holding => ?_⟩
  · have ok := sound.fanouts f _ works
    exact ⟨ok.owns slot rfl, ok.published slot projection rfl, ok.fits (slot, projection) rfl⟩
  · have listed : fs ⊆ (List.range AUDIT_FANOUT_SLOTS).filterMap
        fun slot => (s.locks slot).bind Holder.fanout? := by
      intro f mem
      obtain ⟨phase, at', held⟩ := holding f mem
      obtain ⟨slot, held⟩ := Option.ne_none_iff_exists'.mp held
      have ok := sound.fanouts f phase at'
      have below : slot < AUDIT_FANOUT_SLOTS := ok.below slot (by
        cases phase with
        | acquires _ _ => cases held
        | ended => cases held
        | _ => exact held)
      refine List.mem_filterMap.mpr ⟨slot, List.mem_range.mpr below, ?_⟩
      rw [ok.owns slot held]
      rfl
    calc fs.length
        ≤ ((List.range AUDIT_FANOUT_SLOTS).filterMap
            fun slot => (s.locks slot).bind Holder.fanout?).length :=
          (distinct.subperm listed).length_le
      _ ≤ (List.range AUDIT_FANOUT_SLOTS).length := List.length_filterMap_le _ _
      _ = AUDIT_FANOUT_SLOTS := List.length_range

/-- Two sessions are admitted. -/
def opening : List Event :=
  [.admits 0 "s", .advances 0 true, .builds 0 "t" 1000, .advances 0 true, .admits 1 "other",
    .advances 1 true, .advances 1 true, .builds 1 "u" 2000, .advances 1 true]

theorem slots_bound_opening : ∃ s, Steps step AnyStep (Sys.init fun _ => .absent) s ∧
    s.fanouts 1 = some (.works 1 (admissionProjection "other" "u" 1 2000)) ∧
    s.locks 1 = some (.fanout 1) ∧ [0, 1].length ≤ AUDIT_FANOUT_SLOTS := by
  have replay : (runWhile step (fun _ _ => true) (Sys.init fun _ => .absent) opening).any
      (fun s => s.fanouts 0 = some (.works 0 (admissionProjection "s" "t" 0 1000)) ∧
        s.fanouts 1 = some (.works 1 (admissionProjection "other" "u" 1 2000))) = true := by
    decide +kernel
  obtain ⟨s, reached, facts⟩ := (Option.any_eq_true _ _).mp replay
  obtain ⟨zero, one⟩ := of_decide_eq_true facts
  have run : Steps step AnyStep (Sys.init fun _ => .absent) s :=
    Steps.of_runWhile (fun _ _ _ => trivial) reached
  obtain ⟨each, bound⟩ := slots_bound run
  refine ⟨s, run, one, (each 1 _ _ one).1, bound [0, 1] (by decide) fun f mem => ?_⟩
  rcases List.mem_pair.mp mem with rfl | rfl
  · exact ⟨_, zero, nofun⟩
  · exact ⟨_, one, nofun⟩

/-! ## Reads beside a working fan-out -/

def ReadPhase.result : ReadPhase → Option AuditActivityResult
  | .looks _ result | .probes _ _ result | .compares _ _ result | .unlinks _ result
  | .releases _ result | .answers result => some result
  | .died => none

/-- The read has not passed the slot, or it has seen something. -/
def ReadPhase.Seen (slot : Nat) (phase : ReadPhase) : Prop :=
  ∀ result ∈ phase.result, (∃ k ∈ phase.slot, k ≤ slot) ∨ result.Busy

theorem seen_nextSlot {slot k : Nat} {result : AuditActivityResult}
    (below : slot < AUDIT_FANOUT_SLOTS) (seen : k < slot ∨ result.Busy) :
    (nextSlot k result).Seen slot := by
  intro answer mem
  unfold nextSlot at mem ⊢
  split at mem
  next more =>
    cases mem
    rw [if_pos more]
    exact seen.imp (fun before => ⟨k + 1, rfl, before⟩) id
  next last =>
    cases mem
    exact .inr (seen.resolve_left fun before => last (by omega))

theorem seen_at {slot k : Nat} {phase : ReadPhase} {result : AuditActivityResult}
    (at' : phase.slot = some k) (same : phase.result = some result)
    (seen : k ≤ slot ∨ result.Busy) : phase.Seen slot := by
  intro answer mem
  rw [same] at mem
  cases mem
  exact seen.imp (fun upTo => ⟨k, at', upTo⟩) id

theorem busy_doubt (result : AuditActivityResult) : result.doubt.Busy := .inr rfl

theorem ReadPhase.Seen.at {slot k : Nat} {phase : ReadPhase} {result : AuditActivityResult}
    (seen : phase.Seen slot) (at' : phase.slot = some k) (same : phase.result = some result) :
    k ≤ slot ∨ result.Busy := by
  refine (seen result same).imp (fun upTo => ?_) id
  obtain ⟨k', mem, upTo⟩ := upTo
  rw [at'] at mem
  cases mem
  exact upTo

/-- A look at an earlier slot, or one after something was seen. -/
theorem seen_classify {slot k : Nat} {result : AuditActivityResult}
    (below : slot < AUDIT_FANOUT_SLOTS) (seen : k < slot ∨ result.Busy) (sessionId : String)
    (nowMs : Int) (read : ProjectionRead) :
    (classify sessionId nowMs k result read).Seen slot := by
  have doubted : (nextSlot k result.doubt).Seen slot := seen_nextSlot below (.inr (busy_doubt _))
  cases read with
  | absent => exact seen_nextSlot below seen
  | unknown => exact doubted
  | valid marker =>
      rw [classify]
      split
      · exact doubted
      split
      · exact seen_nextSlot below seen
      split
      · exact seen_nextSlot below (.inr (.inl rfl))
      · exact seen_at rfl rfl (seen.imp Nat.le_of_lt id)

/-- A look at the file of the working fan-out. -/
theorem seen_own {slot : Nat} {projection : AdmissionProjection} (fits : projection.Fits slot)
    (below : slot < AUDIT_FANOUT_SLOTS) (ok : Bool) (nowMs : Int) (result : AuditActivityResult) :
    (classify projection.sessionId nowMs slot result (readProjection ok (.json projection))).Seen
      slot := by
  cases ok with
  | false => exact seen_nextSlot below (.inr (busy_doubt _))
  | true =>
      rw [readProjection_fits fits, classify, if_neg (not_not.mpr fits.1),
        if_neg (not_not.mpr rfl)]
      split
      · exact seen_nextSlot below (.inr (.inl rfl))
      · exact seen_at rfl rfl (.inl (Nat.le_refl slot))

/-- A read keeps what it has seen, and does not pass the slot of a working fan-out unseeing. -/
theorem read_seen {s t : Sys} {f r slot : Nat} {projection : AdmissionProjection} {ok : Bool}
    {nowMs : Int} {phase next : ReadPhase} (fanout : FanoutOk s f (.works slot projection))
    (own : ReadOk s r phase) (seen : phase.Seen slot)
    (fire : s.read r ok projection.sessionId nowMs phase = some (t, next)) : next.Seen slot := by
  have below := fanout.below slot rfl
  have locked := fanout.owns slot rfl
  cases phase with
  | looks k result =>
      cases fire
      rcases seen.at rfl rfl with upTo | busy
      · rcases Nat.lt_or_eq_of_le upTo with before | rfl
        · exact seen_classify below (.inl before) _ _ _
        · rw [fanout.published k projection rfl]
          exact seen_own (fanout.fits (k, projection) rfl) below _ _ _
      · exact seen_classify below (.inr (show (result.probed _ k).Busy from busy)) _ _ _
  | probes k marker result =>
      rw [Sys.read] at fire
      split at fire
      · cases fire
        exact seen_nextSlot below (.inr (busy_doubt _))
      · cases fire
        exact seen_at rfl rfl (seen.at rfl rfl)
  | compares k marker result =>
      cases fire
      have here := seen.at rfl rfl
      have doubted : (ReadPhase.releases k result.doubt).Seen slot :=
        seen_at rfl rfl (.inr (busy_doubt _))
      cases readProjection ok (s.files k) with
      | absent => exact seen_at rfl rfl here
      | unknown => exact doubted
      | valid current =>
          rw [compare]
          split
          · exact seen_at rfl rfl here
          · exact doubted
  | unlinks k result =>
      rw [Sys.read] at fire
      split at fire
      · cases fire
        exact seen_at rfl rfl (seen.at rfl rfl)
      · cases fire
        exact seen_at rfl rfl (.inr (busy_doubt _))
  | releases k result =>
      cases fire
      refine seen_nextSlot below ((seen.at rfl rfl).imp (fun upTo => ?_) id)
      -- the lock of the slot itself is the fan-out's
      rcases Nat.lt_or_eq_of_le upTo with before | rfl
      · exact before
      · have mine := own.owns k rfl
        rw [locked] at mine
        cases mine
  | answers result => cases fire
  | died => cases fire

/-- Only the read's own accesses move it. -/
theorem reader_step {s t : Sys} {e : Event} {r : Nat} {reader : Reader} (sound : s.Sound)
    (fire : step s e = some t) (at' : s.reads r = some reader) :
    t.reads r = some reader ∨ t.reads r = some { reader with phase := .died } ∨
      ∃ ok u next, s.read r ok reader.sessionId reader.nowMs reader.phase = some (u, next) ∧
        t.reads r = some { reader with phase := next } := by
  have frame : ∀ {u : Sys} {q : Nat} {other : Reader}, u.reads = s.reads → q ≠ r →
      (u.setReader q other).reads r = some reader := fun same apart => by
    rw [Sys.setReader]
    dsimp only
    rw [Function.update_of_ne (Ne.symm apart), same, at']
  cases e with
  | admits f sessionId =>
      rw [step] at fire
      split at fire
      · cases fire
        exact .inl at'
      · cases fire
  | builds f token createdAtMs =>
      obtain ⟨phase, -, built⟩ := Option.bind_eq_some_iff.mp fire
      obtain ⟨next, -, set⟩ := Option.map_eq_some_iff.mp built
      rw [← set]
      exact .inl at'
  | advances f ok =>
      obtain ⟨phase, known, advances⟩ := Option.bind_eq_some_iff.mp fire
      obtain ⟨next, advanced⟩ := advance_spec (sound.fanouts f phase known) advances
      exact .inl (by rw [advanced.reads, at'])
  | dies f =>
      rw [step] at fire
      split at fire
      · cases fire
      · cases fire
        exact .inl at'
  | asks q sessionId nowMs =>
      rw [step] at fire
      split at fire
      next fresh =>
        cases fire
        refine .inl (frame rfl ?_)
        rintro rfl
        rw [fresh] at at'
        cases at'
      · cases fire
  | reads q ok =>
      obtain ⟨other, known, reads⟩ := Option.bind_eq_some_iff.mp fire
      obtain ⟨⟨u, next⟩, looks, set⟩ := Option.map_eq_some_iff.mp reads
      rw [← set]
      by_cases same : q = r
      · subst same
        cases known.symm.trans at'
        exact .inr (.inr ⟨ok, u, next, looks, Function.update_self _ _ _⟩)
      · exact .inl (frame (read_spec (sound.reads q other known) looks).reads same)
  | readDies q =>
      obtain ⟨other, known, set⟩ := Option.map_eq_some_iff.mp fire
      rw [← set]
      by_cases same : q = r
      · subst same
        cases known.symm.trans at'
        exact .inr (.inl (Function.update_self _ _ _))
      · exact .inl (frame rfl same)

/-- The read goes on as long as the fan-out in the slot works. -/
structure Watched (r slot : Nat) (sessionId : String) (nowMs : Int) (s : Sys) : Prop where
  sound : s.Sound
  seen : ∃ phase, s.reads r = some ⟨sessionId, nowMs, phase⟩ ∧ phase.Seen slot

/-- While one fan-out of the session works, a read of it does not answer a plain no. -/
theorem activity_seen {files : Nat → ProjectionFile} {s t : Sys} {f r slot : Nat}
    {projection : AdmissionProjection} {nowMs : Int} {result : AuditActivityResult}
    (reach : Steps step AnyStep (Sys.init files) s)
    (asked : s.reads r = some ⟨projection.sessionId, nowMs, .looks 0 {}⟩)
    (run : Steps step (fun s _ => s.fanouts f = some (.works slot projection)) s t)
    (answered : t.reads r = some ⟨projection.sessionId, nowMs, .answers result⟩) :
    result.Busy := by
  have start : Watched r slot projection.sessionId nowMs s :=
    ⟨sound_run reach, _, asked, seen_at rfl rfl (.inl (Nat.zero_le slot))⟩
  have kept : Watched r slot projection.sessionId nowMs t := by
    refine run.invariant start fun u e v before works fire => ?_
    obtain ⟨sound, phase, at', seen⟩ := before
    refine ⟨step_sound sound fire, ?_⟩
    rcases reader_step sound fire at' with same | died | ⟨ok, w, next, looks, moved⟩
    · exact ⟨phase, same, seen⟩
    · exact ⟨.died, died, fun result mem => by cases mem⟩
    · exact ⟨next, moved, read_seen (sound.fanouts f _ works) (sound.reads r _ at') seen looks⟩
  obtain ⟨-, phase, at', seen⟩ := kept
  cases at'.symm.trans answered
  rcases seen result rfl with ⟨k, mem, -⟩ | busy
  · cases mem
  · exact busy

/-- A read past the time of the projection finds the lock of its slot held. -/
theorem activity_seen_late : ∃ (t : Sys) (result : AuditActivityResult),
    t.reads 7 = some ⟨"s", 700000, .answers result⟩ ∧ result.active = false ∧ result.Busy := by
  have asking : (runWhile step (fun _ _ => true) (Sys.init fun _ => .absent)
      (opening ++ [.asks 7 "s" 700000])).any (fun s =>
        s.reads 7 = some ⟨"s", 700000, .looks 0 {}⟩ ∧
        ((runWhile step (fun s _ => s.fanouts 0 =
          some (.works 0 (admissionProjection "s" "t" 0 1000))) s
          [.reads 7 true, .reads 7 true, .reads 7 true]).any fun t => t.reads 7 =
            some ⟨"s", 700000, .answers ⟨false, true, ["audit:projection:0", "audit:recovery:0",
              "audit:projection:1"]⟩⟩) = true) = true := by
    decide +kernel
  obtain ⟨s, reached, facts⟩ := (Option.any_eq_true _ _).mp asking
  obtain ⟨asked, reads⟩ := of_decide_eq_true facts
  obtain ⟨t, run, answered⟩ := (Option.any_eq_true _ _).mp reads
  refine ⟨t, _, of_decide_eq_true answered, rfl, ?_⟩
  exact activity_seen (Steps.of_runWhile (fun _ _ _ => trivial) reached) asked
    (Steps.of_runWhile (fun _ _ works => of_decide_eq_true works) run)
    (of_decide_eq_true answered)

/-! ## Undisturbed reads -/

theorem step_spares {s t : Sys} {e : Event} (sound : s.Sound) (fire : step s e = some t) :
    ∃ who, s.Spares t who := by
  cases e with
  | admits f sessionId =>
      rw [step] at fire
      split at fire
      · cases fire
        exact ⟨.fanout f, (Sys.Spares.refl s _).held, fun _ => .inl rfl⟩
      · cases fire
  | builds f token createdAtMs =>
      obtain ⟨phase, -, built⟩ := Option.bind_eq_some_iff.mp fire
      obtain ⟨next, -, set⟩ := Option.map_eq_some_iff.mp built
      rw [← set]
      exact ⟨.fanout f, (Sys.Spares.refl s _).held, fun _ => .inl rfl⟩
  | advances f ok =>
      obtain ⟨phase, known, advances⟩ := Option.bind_eq_some_iff.mp fire
      obtain ⟨next, advanced⟩ := advance_spec (sound.fanouts f phase known) advances
      exact ⟨.fanout f, advanced.spares⟩
  | dies f =>
      rw [step] at fire
      split at fire
      · cases fire
      · cases fire
        exact ⟨.fanout f, (freeLocks_spares s _).held, fun _ => .inl rfl⟩
  | asks r sessionId nowMs =>
      rw [step] at fire
      split at fire
      · cases fire
        exact ⟨.read r, (Sys.Spares.refl s _).held, fun _ => .inl rfl⟩
      · cases fire
  | reads r ok =>
      obtain ⟨reader, known, reads⟩ := Option.bind_eq_some_iff.mp fire
      obtain ⟨⟨u, next⟩, looks, set⟩ := Option.map_eq_some_iff.mp reads
      have spares := (read_spec (sound.reads r reader known) looks).spares
      rw [← set]
      exact ⟨.read r, spares.held, spares.tidy⟩
  | readDies r =>
      obtain ⟨reader, -, set⟩ := Option.map_eq_some_iff.mp fire
      rw [← set]
      exact ⟨.read r, (freeLocks_spares s _).held, fun _ => .inl rfl⟩

/-- From no files on, every file is tidy. -/
theorem tidy_run {s : Sys} (run : Steps step AnyStep (Sys.init fun _ => .absent) s) (slot : Nat) :
    (s.files slot).Tidy slot := by
  induction run with
  | refl => exact .inl rfl
  | tail before guard fire ih =>
      obtain ⟨who, spares⟩ := step_spares (sound_run before) fire
      rcases spares.tidy slot with same | tidy
      · rw [same]
        exact ih
      · exact tidy

/-- The time in which a projection counts as it is. -/
def AdmissionProjection.inTime (projection : AdmissionProjection) (nowMs : Int) : Bool :=
  nowMs ≥ projection.createdAtMs - ACTIVITY_CLOCK_SKEW_MS ∧ nowMs < projection.expiresAtMs

/-- A projection of the session in its time. -/
def ProjectionFile.isLive (sessionId : String) (nowMs : Int) : ProjectionFile → Bool
  | .absent | .garbled => false
  | .json projection => projection.sessionId = sessionId && projection.inTime nowMs

/-- A projection of the session out of its time. -/
def ProjectionFile.isStale (sessionId : String) (nowMs : Int) : ProjectionFile → Bool
  | .absent | .garbled => false
  | .json projection => projection.sessionId = sessionId && !projection.inTime nowMs

/-- The accesses of one read, none of which fails. -/
def Alone (r : Nat) (_ : Sys) (e : Event) : Prop := e = .reads r true

/-- What an undisturbed read does at a slot. -/
structure Passed (s t : Sys) (r : Nat) (sessionId : String) (nowMs : Int) (slot : Nat)
    (result answer : AuditActivityResult) : Prop where
  run : Steps step (Alone r) s t
  phase : t.reads r = some ⟨sessionId, nowMs, nextSlot slot answer⟩
  active : answer.active = (result.active || (s.files slot).isLive sessionId nowMs)
  unknown : answer.unknown = (result.unknown ||
    (s.files slot).isStale sessionId nowMs && (s.locks slot).isSome)
  locks : t.locks = s.locks
  files : t.files = if (s.files slot).isStale sessionId nowMs && (s.locks slot).isNone then
    Function.update s.files slot .absent else s.files

/-- An access of the read, as far as it matters for the read alone. -/
theorem reads_fires {s u : Sys} {r : Nat} {sessionId : String} {nowMs : Int}
    {phase next : ReadPhase} (at' : s.reads r = some ⟨sessionId, nowMs, phase⟩)
    (looks : s.read r true sessionId nowMs phase = some (u, next)) :
    ∃ t, step s (.reads r true) = some t ∧ t.reads r = some ⟨sessionId, nowMs, next⟩ ∧
      t.locks = u.locks ∧ t.files = u.files := by
  refine ⟨u.setReader r ⟨sessionId, nowMs, next⟩, ?_, Function.update_self _ _ _, rfl, rfl⟩
  rw [step, at', Option.bind_some]
  dsimp only
  rw [looks]
  rfl

theorem read_probes_locked {s : Sys} {slot : Nat} (r : Nat) (sessionId : String) (nowMs : Int)
    (marker : AdmissionProjection) (result : AuditActivityResult) (locked : s.locks slot ≠ none) :
    s.read r true sessionId nowMs (.probes slot marker result) =
      some (s, nextSlot slot result.doubt) :=
  if_pos (.inr locked)

theorem read_probes_free {s : Sys} {slot : Nat} (r : Nat) (sessionId : String) (nowMs : Int)
    (marker : AdmissionProjection) (result : AuditActivityResult) (free : s.locks slot = none) :
    s.read r true sessionId nowMs (.probes slot marker result) =
      some (s.setLock slot (some (.read r)), .compares slot marker result) :=
  if_neg (by rw [free]; simp)

theorem read_compares {s : Sys} {slot : Nat} (r : Nat) (sessionId : String) (nowMs : Int)
    {marker : AdmissionProjection} (result : AuditActivityResult)
    (fits : marker.Fits slot) (same : s.files slot = .json marker) :
    s.read r true sessionId nowMs (.compares slot marker result) =
      some (s, .unlinks slot result) := by
  rw [Sys.read, same, readProjection_fits fits, compare, if_pos rfl]

/-- A slot that is passed with the look at its file. -/
theorem passed_at_once {s : Sys} {r slot : Nat} {sessionId : String} {nowMs : Int}
    {result : AuditActivityResult} (answer : AuditActivityResult)
    (at' : s.reads r = some ⟨sessionId, nowMs, .looks slot result⟩)
    (once : classify sessionId nowMs slot (result.probed "projection" slot)
      (readProjection true (s.files slot)) = nextSlot slot answer)
    (active : answer.active = (result.active || (s.files slot).isLive sessionId nowMs))
    (unknown : answer.unknown = result.unknown)
    (fresh : (s.files slot).isStale sessionId nowMs = false) :
    ∃ t answer, Passed s t r sessionId nowMs slot result answer := by
  obtain ⟨t, looks, at'', locks, files⟩ := reads_fires at' rfl
  rw [once] at at''
  refine ⟨t, answer, .tail .refl rfl looks, at'', active, ?_, locks, ?_⟩
  · rw [unknown, fresh, Bool.false_and, Bool.or_false]
  · rw [fresh, Bool.false_and, if_neg Bool.false_ne_true]
    exact files

section Stale

variable {s : Sys} {r slot : Nat} {sessionId : String} {nowMs : Int}
  {result : AuditActivityResult} {marker : AdmissionProjection}
  (at' : s.reads r = some ⟨sessionId, nowMs, .looks slot result⟩)
  (stale : (s.files slot).isStale sessionId nowMs = true)
  (dead : (s.files slot).isLive sessionId nowMs = false)
  (probes : classify sessionId nowMs slot (result.probed "projection" slot)
    (readProjection true (s.files slot)) =
      .probes slot marker ((result.probed "projection" slot).probed "recovery" slot))

include at' stale dead probes

/-- A projection of the session out of its time, under a lock that another holds. -/
theorem passed_locked (locked : s.locks slot ≠ none) :
    ∃ t answer, Passed s t r sessionId nowMs slot result answer := by
  obtain ⟨u, looks, at₁, locks₁, files₁⟩ := reads_fires at' rfl
  rw [probes] at at₁
  have locked₁ : u.locks slot ≠ none := by
    rw [locks₁]
    exact locked
  obtain ⟨t, doubts, at₂, locks₂, files₂⟩ := reads_fires at₁
    (read_probes_locked r sessionId nowMs marker _ locked₁)
  refine ⟨t, _, .tail (.tail .refl rfl looks) rfl doubts, at₂, ?_, ?_, ?_, ?_⟩
  · rw [dead, Bool.or_false]
    rfl
  · rw [stale, Option.isSome_iff_ne_none.mpr locked, Bool.and_true, Bool.or_true]
    rfl
  · rw [locks₂, locks₁]
  · rw [Option.isNone_eq_false_iff.mpr (Option.isSome_iff_ne_none.mpr locked), Bool.and_false,
      if_neg Bool.false_ne_true, files₂, files₁]

/-- The same under a free lock: the file is removed. -/
theorem passed_reclaimed (fits : marker.Fits slot) (same : s.files slot = .json marker)
    (free : s.locks slot = none) : ∃ t answer, Passed s t r sessionId nowMs slot result answer := by
  obtain ⟨u, looks, at₁, locks₁, files₁⟩ := reads_fires at' rfl
  rw [probes] at at₁
  have free₁ : u.locks slot = none := by
    rw [locks₁]
    exact free
  obtain ⟨v, takes, at₂, locks₂, files₂⟩ := reads_fires at₁
    (read_probes_free r sessionId nowMs marker _ free₁)
  have same₂ : v.files slot = .json marker := by
    rw [files₂, ← same, ← files₁]
    rfl
  obtain ⟨w, compares, at₃, locks₃, files₃⟩ := reads_fires at₂
    (read_compares r sessionId nowMs _ fits same₂)
  obtain ⟨x, unlinks, at₄, locks₄, files₄⟩ := reads_fires at₃ rfl
  obtain ⟨t, releases, at₅, locks₅, files₅⟩ := reads_fires at₄ rfl
  refine ⟨t, _, .tail (.tail (.tail (.tail (.tail .refl rfl looks) rfl takes) rfl compares) rfl
    unlinks) rfl releases, at₅, ?_, ?_, ?_, ?_⟩
  · rw [dead, Bool.or_false]
    rfl
  · rw [free, Option.isSome_none, Bool.and_false, Bool.or_false]
    rfl
  · have taken : x.locks = Function.update s.locks slot (some (.read r)) := by
      rw [locks₄]
      show w.locks = _
      rw [locks₃, locks₂, ← locks₁]
      rfl
    rw [locks₅]
    show Function.update x.locks slot none = s.locks
    rw [taken, Function.update_idem, ← free, Function.update_eq_self]
  · rw [stale, free, Option.isNone_none, Bool.and_self, if_pos rfl, files₅]
    show x.files = _
    rw [files₄]
    show Function.update w.files slot .absent = _
    rw [files₃, files₂]
    show Function.update u.files slot .absent = _
    rw [files₁]

end Stale

theorem passed {s : Sys} {r slot : Nat} {sessionId : String} {nowMs : Int}
    {result : AuditActivityResult}
    (at' : s.reads r = some ⟨sessionId, nowMs, .looks slot result⟩)
    (tidy : (s.files slot).Tidy slot) :
    ∃ t answer, Passed s t r sessionId nowMs slot result answer := by
  rcases tidy with absent | ⟨marker, same, fits⟩
  · refine passed_at_once (result.probed "projection" slot) at' ?_ ?_ rfl ?_
    · rw [absent]
      rfl
    · rw [absent]
      exact (Bool.or_false _).symm
    · rw [absent]
      rfl
  have live : (s.files slot).isLive sessionId nowMs =
      (decide (marker.sessionId = sessionId) && marker.inTime nowMs) := by
    rw [same]
    rfl
  have stale : (s.files slot).isStale sessionId nowMs =
      (decide (marker.sessionId = sessionId) && !marker.inTime nowMs) := by
    rw [same]
    rfl
  have looks (answer : AuditActivityResult) : classify sessionId nowMs slot answer
      (readProjection true (s.files slot)) =
        if marker.sessionId ≠ sessionId then nextSlot slot answer
        else if nowMs ≥ marker.createdAtMs - ACTIVITY_CLOCK_SKEW_MS ∧
            nowMs < marker.expiresAtMs then nextSlot slot { answer with active := true }
        else .probes slot marker (answer.probed "recovery" slot) := by
    rw [same, readProjection_fits fits, classify, if_neg (not_not.mpr fits.1)]
  by_cases mine : marker.sessionId = sessionId
  · by_cases inTime : marker.inTime nowMs = true
    · refine passed_at_once { result.probed "projection" slot with active := true } at' ?_ ?_ rfl
        (by rw [stale, inTime, Bool.not_true, Bool.and_false])
      · rw [looks, if_neg (not_not.mpr mine), if_pos (of_decide_eq_true inTime)]
      · rw [live, inTime, decide_eq_true mine, Bool.and_true, Bool.or_true]
    · have late := Bool.eq_false_iff.mpr inTime
      have stale' : (s.files slot).isStale sessionId nowMs = true := by
        rw [stale, late, decide_eq_true mine, Bool.not_false, Bool.and_true]
      have dead : (s.files slot).isLive sessionId nowMs = false := by
        rw [live, late, Bool.and_false]
      have probes := looks (result.probed "projection" slot)
      rw [if_neg (not_not.mpr mine), if_neg (of_decide_eq_false late)] at probes
      by_cases free : s.locks slot = none
      · exact passed_reclaimed at' stale' dead probes fits same free
      · exact passed_locked at' stale' dead probes free
  · refine passed_at_once (result.probed "projection" slot) at' ?_ ?_ rfl ?_
    · rw [looks, if_pos mine]
    · rw [live, decide_eq_false mine, Bool.false_and, Bool.or_false]
      rfl
    · rw [stale, decide_eq_false mine, Bool.false_and]

theorem slot_cases {slot : Nat} (below : slot < AUDIT_FANOUT_SLOTS) : slot = 0 ∨ slot = 1 := by
  unfold AUDIT_FANOUT_SLOTS at below
  omega

theorem exists_slot {p : Nat → Prop} : (∃ slot < AUDIT_FANOUT_SLOTS, p slot) ↔ p 0 ∨ p 1 := by
  refine ⟨fun ⟨slot, below, holds⟩ => ?_, fun holds => ?_⟩
  · rcases slot_cases below with rfl | rfl
    · exact .inl holds
    · exact .inr holds
  · rcases holds with zero | one
    · exact ⟨0, Nat.zero_lt_two, zero⟩
    · exact ⟨1, Nat.one_lt_two, one⟩

theorem swept (files : Nat → ProjectionFile) (removed : Bool) (k slot : Nat) :
    (if removed then Function.update files k .absent else files) slot =
      if slot = k ∧ removed then .absent else files slot := by
  cases removed with
  | false => simp
  | true =>
      by_cases same : slot = k
      · subst same
        simp
      · simp [same]

/-- After every run from no files, a read that is not disturbed answers active exactly where a
projection of its session is in its time, and unknown exactly where one is out of its time under a
lock that is held; and it removes exactly those that are out of their time under a free lock. -/
theorem undisturbed {s : Sys} {r : Nat} {sessionId : String} {nowMs : Int}
    (reach : Steps step AnyStep (Sys.init fun _ => .absent) s)
    (asked : s.reads r = some ⟨sessionId, nowMs, .looks 0 {}⟩) :
    ∃ t result, Steps step (Alone r) s t ∧
      t.reads r = some ⟨sessionId, nowMs, .answers result⟩ ∧
      (result.active = true ↔
        ∃ slot < AUDIT_FANOUT_SLOTS, (s.files slot).isLive sessionId nowMs = true) ∧
      (result.unknown = true ↔ ∃ slot < AUDIT_FANOUT_SLOTS,
        (s.files slot).isStale sessionId nowMs = true ∧ s.locks slot ≠ none) ∧
      ∀ slot < AUDIT_FANOUT_SLOTS, t.files slot =
        if (s.files slot).isStale sessionId nowMs = true ∧ s.locks slot = none then .absent
        else s.files slot := by
  obtain ⟨u, first, passed₀⟩ := passed asked (tidy_run reach 0)
  have same : u.files 1 = s.files 1 := by
    rw [passed₀.files]
    split
    · exact Function.update_of_ne Nat.one_ne_zero _ _
    · rfl
  have tidy : (u.files 1).Tidy 1 := by
    rw [same]
    exact tidy_run reach 1
  obtain ⟨t, result, passed₁⟩ := passed passed₀.phase tidy
  have active := passed₁.active
  have unknown := passed₁.unknown
  rw [passed₀.active, Bool.false_or, same] at active
  rw [passed₀.unknown, Bool.false_or, same, passed₀.locks] at unknown
  refine ⟨t, result, passed₀.run.trans passed₁.run, passed₁.phase, ?_, ?_, fun slot below => ?_⟩
  · rw [active, Bool.or_eq_true, exists_slot]
  · rw [unknown, Bool.or_eq_true, Bool.and_eq_true, Bool.and_eq_true, exists_slot,
      Option.isSome_iff_ne_none, Option.isSome_iff_ne_none]
  · have files := passed₁.files
    rw [same, passed₀.locks, passed₀.files] at files
    rw [files, swept, swept]
    rcases slot_cases below with rfl | rfl
    · simp only [Nat.zero_add, Nat.zero_ne_one, false_and, if_false, true_and, Bool.and_eq_true,
        Option.isNone_iff_eq_none]
    · simp only [Nat.zero_add, Nat.one_ne_zero, false_and, if_false, true_and, Bool.and_eq_true,
        Option.isNone_iff_eq_none]

/-- A fan-out dies at work; later the session is free again. -/
theorem undisturbed_died : ∃ (t : Sys) (result : AuditActivityResult),
    t.reads 7 = some ⟨"s", 700000, .answers result⟩ ∧
    result.active = false ∧ result.unknown = false ∧ t.files 0 = .absent := by
  have dying : (runWhile step (fun _ _ => true) (Sys.init fun _ => .absent)
      (opening ++ [.dies 0, .asks 7 "s" 700000])).any (fun s =>
        s.reads 7 = some ⟨"s", 700000, .looks 0 {}⟩ ∧ s.locks 0 = none ∧
        s.files 0 = .json (admissionProjection "s" "t" 0 1000) ∧
        s.files 1 = .json (admissionProjection "other" "u" 1 2000)) = true := by
    decide +kernel
  obtain ⟨s, reached, facts⟩ := (Option.any_eq_true _ _).mp dying
  obtain ⟨asked, free, zero, one⟩ := of_decide_eq_true facts
  obtain ⟨t, result, -, answered, active, unknown, files⟩ := undisturbed
    (Steps.of_runWhile (fun _ _ _ => trivial) reached) asked
  refine ⟨t, result, answered, Bool.eq_false_iff.mpr fun yes => ?_,
    Bool.eq_false_iff.mpr fun yes => ?_, ?_⟩
  · have live := exists_slot.mp (active.mp yes)
    rw [zero, one] at live
    revert live
    decide
  · have stale := exists_slot.mp (unknown.mp yes)
    rw [zero, one, free] at stale
    rcases stale with ⟨-, held⟩ | ⟨other, -⟩
    · exact held rfl
    · revert other
      decide
  · rw [files 0 (by decide), zero, if_pos ⟨by decide, free⟩]

end Opensquid.Audit.Admission
