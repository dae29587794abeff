import Opensquid.Lib.Steps

/-!
# The live-session lease of an umbrella

One file names the session that answers an umbrella's chat, and when it last said
so. A session acquires the lease if the file is absent, stale or its own; the headless
manager does the same, refreshes the lease while it holds it, and removes it when it
stops. Every operation reads the file, tests what it read, and writes or removes the
file later; there is no lock and no compare-and-set.

So an operation can overwrite a lease that was written since its read, take a lease
stamped after its own clock reading for a stale one, or refresh the lease of another
session (`acquire_steals`). When none of that happens a fresh lease is never replaced
or removed by another session (`lease_kept`).
-/

namespace Opensquid.Chat.LiveSession

open Opensquid.Lib

/-! ## Leases -/

/-- The file's content; `refreshedAt` is the instant of its ISO text. -/
structure Lease where
  sessionId : String
  refreshedAt : Int
  deriving DecidableEq, Repr

/-- A lease older than this is stale. -/
def staleMs : Int := 90000

def isLeaseFresh (lease : Option Lease) (now : Int) : Bool :=
  lease.any fun l => 0 ≤ now - l.refreshedAt ∧ now - l.refreshedAt < staleMs

def isLeaseFreshAndOwnedBy (lease : Option Lease) (expectedSessionId : String) (now : Int) :
    Bool :=
  isLeaseFresh lease now && lease.any (·.sessionId = expectedSessionId)

def headlessSessionId (umbrellaId : String) : String := "headless-" ++ umbrellaId

inductive Responder
  | session
  | headless
  deriving DecidableEq, Repr

/-- What a claim reads of the channels: who answers, and the umbrella of the cwd. -/
structure ChannelsConfig where
  responder : Option Responder
  umbrellaId : Option String

/-- The umbrella whose lease `claimUmbrellaLeaseForSession` tries to acquire. -/
def claimedUmbrella (sessionId : String) (cfg : Option ChannelsConfig) : Option String :=
  if sessionId = "" ∨ sessionId = "unknown" then none
  else cfg.bind fun cfg =>
    if cfg.responder.getD .session ≠ .session then none
    else cfg.umbrellaId.filter (· ≠ "")

/-! ## The system -/

/-- Who acts: a session under its id, or the headless manager. -/
inductive Actor
  | session (id : String)
  | headless
  deriving DecidableEq, Repr

/-- A call between two accesses to the file: what it does next, its clock reading and
the lease it has read. -/
inductive Call
  | acquireReads (who : Actor) (now : Int)
  | acquireWrites (who : Actor) (now : Int) (lease : Option Lease)
  | refreshReads (who : Actor) (now : Int)
  | refreshWrites (who : Actor) (now : Int) (existing : Option Lease)
  | tickReads (now : Int)
  | stopReads
  | stopRemoves (lease : Option Lease)
  deriving DecidableEq, Repr

structure Sys where
  clock : Int
  file : Option Lease
  /-- `held` and `stopped` of the headless manager. -/
  held : Bool
  stopped : Bool
  calls : Nat → Option Call

def Sys.init (now : Int) : Sys where
  clock := now
  file := none
  held := false
  stopped := false
  calls _ := none

inductive Event
  | tick (ms : Nat)
  /-- A session calls `claimUmbrellaLeaseForSession` without `forceTakeover`. -/
  | claimCalled (p : Nat) (sessionId : String) (cfg : Option ChannelsConfig)
  /-- A session calls `acquireLeaseIfFree`, or the manager `acquireIfFree`. -/
  | acquireCalled (p : Nat) (who : Actor)
  /-- A session calls `refreshLease`. -/
  | refreshCalled (p : Nat) (sessionId : String)
  | tickCalled (p : Nat)
  | stopCalled (p : Nat)
  /-- A call makes its next access to the file. -/
  | advance (p : Nat)

section

variable (umbrellaId daemonSession : String)

def Actor.sessionId : Actor → String
  | .session id => id
  | .headless => headlessSessionId umbrellaId

/-- `resolveSessionId()` in the process of the actor. -/
def Actor.resolveSessionId : Actor → String
  | .session id => id
  | .headless => daemonSession

def Sys.setCall (s : Sys) (p : Nat) (call : Option Call) : Sys :=
  { s with calls := Function.update s.calls p call }

/-- Only the manager keeps track of what it holds. -/
def Sys.setHeld (s : Sys) (who : Actor) (held : Bool) : Sys :=
  { s with held := if who = .headless then held else s.held }

/-- The next access of a call to the file. -/
def Sys.advance (s : Sys) (p : Nat) : Call → Sys
  | .acquireReads who now =>
      if isLeaseFresh s.file now && s.file.any (·.sessionId ≠ who.sessionId umbrellaId) then
        (s.setHeld who false).setCall p none
      else s.setCall p (some (.acquireWrites who now s.file))
  | .acquireWrites who now _ =>
      ({ s with file := some ⟨who.sessionId umbrellaId, now⟩ }.setHeld who true).setCall p none
  | .refreshReads who now => s.setCall p (some (.refreshWrites who now s.file))
  | .refreshWrites who now existing =>
      let owner := (existing.map (·.sessionId)).getD (who.resolveSessionId daemonSession)
      { s with file := some ⟨owner, now⟩ }.setCall p none
  | .tickReads now =>
      if s.held then
        if isLeaseFreshAndOwnedBy s.file (headlessSessionId umbrellaId) now then
          s.setCall p (some (.refreshReads .headless now))
        else { s with held := false }.setCall p none
      else s.setCall p (some (.acquireReads .headless s.clock))
  | .stopReads =>
      if s.file.any (·.sessionId = headlessSessionId umbrellaId) then
        s.setCall p (some (.stopRemoves s.file))
      else { s with held := false }.setCall p none
  | .stopRemoves _ => { s with file := none, held := false }.setCall p none

/-- One event; `none` when it is not enabled. -/
def Sys.step (s : Sys) : Event → Option Sys
  | .tick ms => some { s with clock := s.clock + ms }
  | .claimCalled p sessionId cfg =>
      if (s.calls p).isSome then none
      else if claimedUmbrella sessionId cfg = some umbrellaId then
        some (s.setCall p (some (.acquireReads (.session sessionId) s.clock)))
      else some s
  | .acquireCalled p who =>
      if (s.calls p).isSome then none
      else some (s.setCall p (some (.acquireReads who s.clock)))
  | .refreshCalled p sessionId =>
      if (s.calls p).isSome then none
      else some (s.setCall p (some (.refreshReads (.session sessionId) s.clock)))
  | .tickCalled p =>
      if (s.calls p).isSome then none
      else if s.stopped then some s
      else some (s.setCall p (some (.tickReads s.clock)))
  | .stopCalled p =>
      if (s.calls p).isSome then none
      else if s.stopped then some s
      else some ({ s with stopped := true }.setCall p (some .stopReads))
  | .advance p => (s.calls p).map (s.advance umbrellaId daemonSession p)

/-! ## What is promised -/

/-- The actor whose write or removal the event is. -/
def Sys.overwriter (s : Sys) : Event → Option Actor
  | .advance p =>
      (s.calls p).bind fun
        | .acquireWrites who _ _ => some who
        | .refreshWrites who _ _ => some who
        | .stopRemoves _ => some .headless
        | _ => none
  | _ => none

/-- The actor whose acquire call the event makes return true. -/
def Sys.acquirer (s : Sys) : Event → Option Actor
  | .advance p =>
      (s.calls p).bind fun
        | .acquireWrites who _ _ => some who
        | _ => none
  | _ => none

/-- The event replaces or removes a fresh lease of another session. -/
def Sys.Steals (s : Sys) (e : Event) : Prop :=
  ∃ who ∈ s.overwriter e, isLeaseFresh s.file s.clock ∧
    ∃ lease ∈ s.file, lease.sessionId ≠ who.sessionId umbrellaId

/-- The file holds a stale lease of the session. -/
def Sys.Lapsed (s : Sys) (sessionId : String) : Prop :=
  ∃ lease ∈ s.file, lease.sessionId = sessionId ∧ isLeaseFresh s.file s.clock = false

/-- The event is a write or removal of the session itself after which the file no longer
holds its lease. -/
def Sys.GivesUp (s : Sys) (sessionId : String) (e : Event) : Prop :=
  (∃ who ∈ s.overwriter e, who.sessionId umbrellaId = sessionId) ∧
    ∀ t ∈ s.step umbrellaId daemonSession e, ∀ lease ∈ t.file, lease.sessionId ≠ sessionId

/-- What a call finds in the file at its next access: before a write or removal, its
session's own lease or the one it has read; before the read of an acquire, its session's
own lease or one not stamped after the call's clock reading; before the read of a
refresh, its session's own lease or a stale one. -/
def Call.Undisturbed (s : Sys) (lease : Lease) : Call → Prop
  | .acquireReads who now =>
      lease.sessionId = who.sessionId umbrellaId ∨ lease.refreshedAt ≤ now
  | .refreshReads who _ =>
      lease.sessionId = who.sessionId umbrellaId ∨ isLeaseFresh s.file s.clock = false
  | .acquireWrites who _ seen | .refreshWrites who _ seen =>
      lease.sessionId = who.sessionId umbrellaId ∨ s.file = seen
  | .stopRemoves seen => lease.sessionId = headlessSessionId umbrellaId ∨ s.file = seen
  | .tickReads _ | .stopReads => True

def Undisturbed (s : Sys) : Event → Prop
  | .advance p => ∀ call ∈ s.calls p, ∀ lease ∈ s.file, call.Undisturbed umbrellaId s lease
  | _ => True

instance (s : Sys) (lease : Lease) (call : Call) :
    Decidable (call.Undisturbed umbrellaId s lease) := by
  cases call <;> unfold Call.Undisturbed <;> infer_instance

instance (s : Sys) (e : Event) : Decidable (Undisturbed umbrellaId s e) := by
  cases e <;> unfold Undisturbed <;> infer_instance

/-- No step steals, and between two acquire calls of different sessions that return
true the lease of the first one lapses or is given up. -/
structure Sys.Kept (s : Sys) : Prop where
  notStolen : ∀ e, Undisturbed umbrellaId s e → ¬ s.Steals umbrellaId e
  lapsed : ∀ {first second : Actor} {e e' : Event} {t u : Sys}, first ∈ s.acquirer e →
    Undisturbed umbrellaId s e → s.step umbrellaId daemonSession e = some t →
    Steps (Sys.step umbrellaId daemonSession) (fun v e => Undisturbed umbrellaId v e ∧
      ¬ v.Lapsed (first.sessionId umbrellaId) ∧
      ¬ v.GivesUp umbrellaId daemonSession (first.sessionId umbrellaId) e) t u →
    second ∈ u.acquirer e' → Undisturbed umbrellaId u e' →
    ¬ u.Lapsed (first.sessionId umbrellaId) →
    first.sessionId umbrellaId = second.sessionId umbrellaId

end

/-! ## What the calls know -/

section

variable {umbrellaId daemonSession : String} {s t : Sys} {p : Nat}

theorem isLeaseFresh_some {lease : Lease} {now : Int} :
    isLeaseFresh (some lease) now = true ↔
      0 ≤ now - lease.refreshedAt ∧ now - lease.refreshedAt < staleMs := by
  simp only [isLeaseFresh, Option.any_some, decide_eq_true_eq]

/-- The lease is its session's own, or was stale at the time. -/
def OwnOrStale (sessionId : String) (clock : Int) (lease : Lease) : Prop :=
  lease.sessionId ≠ sessionId → lease.refreshedAt + staleMs ≤ clock

/-- What a call in progress has established. -/
def Call.Inv (umbrellaId : String) (clock : Int) : Call → Prop
  | .acquireReads _ now | .refreshReads _ now | .tickReads now => now ≤ clock
  | .acquireWrites who now seen | .refreshWrites who now seen =>
      now ≤ clock ∧ ∀ lease ∈ seen, OwnOrStale (who.sessionId umbrellaId) clock lease
  | .stopReads => True
  | .stopRemoves seen => ∀ lease ∈ seen, lease.sessionId = headlessSessionId umbrellaId

theorem Call.Inv.mono {call : Call} {clock later : Int} (inv : call.Inv umbrellaId clock)
    (le : clock ≤ later) : call.Inv umbrellaId later := by
  cases call with
  | acquireReads who now => exact Int.le_trans inv le
  | refreshReads who now => exact Int.le_trans inv le
  | tickReads now => exact Int.le_trans inv le
  | acquireWrites who now seen =>
      exact ⟨Int.le_trans inv.1 le, fun lease mem foreign => Int.le_trans (inv.2 lease mem foreign) le⟩
  | refreshWrites who now seen =>
      exact ⟨Int.le_trans inv.1 le, fun lease mem foreign => Int.le_trans (inv.2 lease mem foreign) le⟩
  | stopReads => exact inv
  | stopRemoves seen => exact inv

structure Sys.Inv (umbrellaId : String) (s : Sys) : Prop where
  stamped : ∀ lease ∈ s.file, lease.refreshedAt ≤ s.clock
  calls : ∀ p call, s.calls p = some call → call.Inv umbrellaId s.clock

theorem Sys.Inv.init (now : Int) : (Sys.init now).Inv umbrellaId := ⟨nofun, nofun⟩

/-- A step that changes one call, and leaves in the file a lease stamped by now. -/
theorem Sys.Inv.of_call (inv : s.Inv umbrellaId) {call : Option Call}
    (clock : t.clock = s.clock) (calls : t.calls = Function.update s.calls p call)
    (stamped : ∀ lease ∈ t.file, lease.refreshedAt ≤ s.clock)
    (ok : ∀ c ∈ call, c.Inv umbrellaId s.clock) : t.Inv umbrellaId := by
  refine ⟨clock ▸ stamped, fun q c present => ?_⟩
  rw [calls] at present
  rw [clock]
  by_cases same : q = p
  · subst same
    rw [Function.update_self] at present
    exact ok c present
  · rw [Function.update_of_ne same] at present
    exact inv.calls q c present

/-- An acquire whose test passes has read its own lease, a stale one, or none. -/
theorem ownOrStale_of_test {sessionId : String} {now : Int} {lease : Lease}
    (passed : ¬ (isLeaseFresh s.file now && s.file.any (·.sessionId ≠ sessionId)) = true)
    (present : s.file = some lease) (begun : now ≤ s.clock)
    (undisturbed : lease.sessionId = sessionId ∨ lease.refreshedAt ≤ now) :
    OwnOrStale sessionId s.clock lease := by
  intro foreign
  have stamped := undisturbed.resolve_left foreign
  rw [present, Bool.and_eq_true, isLeaseFresh_some, Option.any_some, decide_eq_true_eq] at passed
  have := not_and_or.mp fun fresh => passed ⟨fresh, foreign⟩
  omega

theorem Sys.Inv.advance (inv : s.Inv umbrellaId) {call : Call} (present : s.calls p = some call)
    (undisturbed : ∀ lease ∈ s.file, call.Undisturbed umbrellaId s lease) :
    (s.advance umbrellaId daemonSession p call).Inv umbrellaId := by
  have known := inv.calls p call present
  cases call with
  | acquireReads who now =>
      simp only [Sys.advance]
      split
      · exact inv.of_call rfl rfl inv.stamped nofun
      · rename_i passed
        refine inv.of_call rfl rfl inv.stamped ?_
        rintro c ⟨⟩
        exact ⟨known, fun lease mem => ownOrStale_of_test passed mem known (undisturbed lease mem)⟩
  | acquireWrites who now seen =>
      refine inv.of_call rfl rfl ?_ nofun
      rintro lease ⟨⟩
      exact known.1
  | refreshReads who now =>
      refine inv.of_call rfl rfl inv.stamped ?_
      rintro c ⟨⟩
      refine ⟨known, fun lease mem foreign => ?_⟩
      have stale := (undisturbed lease mem).resolve_left foreign
      have stamped := inv.stamped lease mem
      rw [mem, ← Bool.not_eq_true, isLeaseFresh_some] at stale
      omega
  | refreshWrites who now seen =>
      refine inv.of_call rfl rfl ?_ nofun
      rintro lease ⟨⟩
      exact known.1
  | tickReads now =>
      simp only [Sys.advance]
      split
      · split
        · refine inv.of_call rfl rfl inv.stamped ?_
          rintro c ⟨⟩
          exact known
        · exact inv.of_call rfl rfl inv.stamped nofun
      · refine inv.of_call rfl rfl inv.stamped ?_
        rintro c ⟨⟩
        exact Int.le_refl s.clock
  | stopReads =>
      simp only [Sys.advance]
      split
      · rename_i own
        refine inv.of_call rfl rfl inv.stamped ?_
        rintro c ⟨⟩ lease mem
        rw [mem] at own
        exact of_decide_eq_true own
      · exact inv.of_call rfl rfl inv.stamped nofun
  | stopRemoves seen => exact inv.of_call rfl rfl nofun nofun

/-- A new call starts with the clock reading of its begin. -/
theorem Sys.Inv.begin (inv : s.Inv umbrellaId) {call : Call}
    (same : t = s.setCall p (some call) ∨ t = { s with stopped := true }.setCall p (some call))
    (ok : call.Inv umbrellaId s.clock) : t.Inv umbrellaId := by
  rcases same with rfl | rfl <;> refine inv.of_call rfl rfl inv.stamped ?_ <;> rintro c ⟨⟩ <;>
    exact ok

theorem Sys.Inv.step {e : Event} (inv : s.Inv umbrellaId) (undisturbed : Undisturbed umbrellaId s e)
    (fire : s.step umbrellaId daemonSession e = some t) : t.Inv umbrellaId := by
  cases e with
  | tick ms =>
      cases fire
      have le : s.clock ≤ s.clock + ms := Int.le_add_of_nonneg_right (Int.natCast_nonneg ms)
      exact ⟨fun lease mem => Int.le_trans (inv.stamped lease mem) le,
        fun q call present => (inv.calls q call present).mono le⟩
  | claimCalled q sessionId cfg =>
      simp only [Sys.step] at fire
      split at fire
      · cases fire
      · split at fire <;> cases fire
        · exact inv.begin (.inl rfl) (Int.le_refl s.clock)
        · exact inv
  | acquireCalled q who =>
      simp only [Sys.step] at fire
      split at fire <;> cases fire
      exact inv.begin (.inl rfl) (Int.le_refl s.clock)
  | refreshCalled q sessionId =>
      simp only [Sys.step] at fire
      split at fire <;> cases fire
      exact inv.begin (.inl rfl) (Int.le_refl s.clock)
  | tickCalled q =>
      simp only [Sys.step] at fire
      split at fire
      · cases fire
      · split at fire <;> cases fire
        · exact inv
        · exact inv.begin (.inl rfl) (Int.le_refl s.clock)
  | stopCalled q =>
      simp only [Sys.step] at fire
      split at fire
      · cases fire
      · split at fire <;> cases fire
        · exact inv
        · exact inv.begin (.inr rfl) trivial
  | advance q =>
      obtain ⟨call, present, rfl⟩ := Option.map_eq_some_iff.mp fire
      exact inv.advance present (undisturbed call present)

/-! ## No step steals -/

/-- What is in the file when an operation overwrites it: its session's own lease, a stale
one, or none. -/
theorem Sys.Inv.ownOrStale {e : Event} {who : Actor} {lease : Lease} (inv : s.Inv umbrellaId)
    (undisturbed : Undisturbed umbrellaId s e) (writes : who ∈ s.overwriter e)
    (mem : lease ∈ s.file) : OwnOrStale (who.sessionId umbrellaId) s.clock lease := by
  intro foreign
  cases e with
  | advance q =>
      obtain ⟨call, present, writes⟩ := Option.bind_eq_some_iff.mp writes
      have found := undisturbed call present lease mem
      have known := inv.calls q call present
      cases call <;> cases writes
      · exact known.2 lease (found.resolve_left foreign ▸ mem) foreign
      · exact known.2 lease (found.resolve_left foreign ▸ mem) foreign
      · exact absurd (known lease (found.resolve_left foreign ▸ mem)) foreign
  | _ => cases writes

theorem Sys.Inv.not_steals {e : Event} (inv : s.Inv umbrellaId)
    (undisturbed : Undisturbed umbrellaId s e) : ¬ s.Steals umbrellaId e := by
  rintro ⟨who, writes, fresh, lease, mem, foreign⟩
  have stale := inv.ownOrStale undisturbed writes mem foreign
  rw [mem, isLeaseFresh_some] at fresh
  omega

/-- The file of the next state is the same, or the event is an operation's write. -/
theorem Sys.file_step {e : Event} (fire : s.step umbrellaId daemonSession e = some t) :
    t.file = s.file ∨ ∃ who, who ∈ s.overwriter e := by
  cases e with
  | advance q =>
      obtain ⟨call, present, rfl⟩ := Option.map_eq_some_iff.mp fire
      cases call with
      | acquireWrites who now seen => exact .inr ⟨who, Option.bind_eq_some_iff.mpr ⟨_, present, rfl⟩⟩
      | refreshWrites who now seen => exact .inr ⟨who, Option.bind_eq_some_iff.mpr ⟨_, present, rfl⟩⟩
      | stopRemoves seen =>
          exact .inr ⟨.headless, Option.bind_eq_some_iff.mpr ⟨_, present, rfl⟩⟩
      | _ =>
          left
          simp only [Sys.advance]
          repeat' split
          all_goals rfl
  | _ =>
      left
      simp only [Sys.step] at fire
      repeat' split at fire
      all_goals cases fire <;> rfl

/-- The file holds a lease of the session. -/
def Sys.Holds (umbrellaId sessionId : String) (s : Sys) : Prop :=
  s.Inv umbrellaId ∧ ∃ lease ∈ s.file, lease.sessionId = sessionId

/-- While the lease of a session does not lapse nobody else overwrites it. -/
theorem Sys.Holds.overwriter {e : Event} {sessionId : String} {who : Actor}
    (holds : s.Holds umbrellaId sessionId) (fresh : ¬ s.Lapsed sessionId)
    (undisturbed : Undisturbed umbrellaId s e) (writes : who ∈ s.overwriter e) :
    who.sessionId umbrellaId = sessionId := by
  obtain ⟨inv, lease, mem, own⟩ := holds
  by_contra foreign
  refine inv.not_steals undisturbed ⟨who, writes, ?_, lease, mem, fun same => foreign ?_⟩
  · by_contra stale
    exact fresh ⟨lease, mem, own, Bool.eq_false_iff.mpr stale⟩
  · rw [← same, own]

/-- A lease that neither lapses nor is given up stays in the file. -/
theorem Sys.Holds.step {e : Event} {sessionId : String} (holds : s.Holds umbrellaId sessionId)
    (undisturbed : Undisturbed umbrellaId s e) (fresh : ¬ s.Lapsed sessionId)
    (kept : ¬ s.GivesUp umbrellaId daemonSession sessionId e)
    (fire : s.step umbrellaId daemonSession e = some t) : t.Holds umbrellaId sessionId := by
  refine ⟨holds.1.step undisturbed fire, ?_⟩
  rcases Sys.file_step fire with same | ⟨who, writes⟩
  · rw [same]
    exact holds.2
  · by_contra gone
    refine kept ⟨⟨who, writes, holds.overwriter fresh undisturbed writes⟩, ?_⟩
    rintro t' fire' lease mem same
    cases fire.symm.trans fire'
    exact gone ⟨lease, mem, same⟩

theorem Sys.overwriter_of_acquirer {e : Event} {who : Actor} (acquires : who ∈ s.acquirer e) :
    who ∈ s.overwriter e := by
  cases e with
  | advance q =>
      obtain ⟨call, present, acquires⟩ := Option.bind_eq_some_iff.mp acquires
      refine Option.bind_eq_some_iff.mpr ⟨call, present, ?_⟩
      cases call <;> cases acquires
      rfl
  | _ => cases acquires

theorem Sys.Inv.acquire {e : Event} {who : Actor} (inv : s.Inv umbrellaId)
    (undisturbed : Undisturbed umbrellaId s e) (acquires : who ∈ s.acquirer e)
    (fire : s.step umbrellaId daemonSession e = some t) :
    t.Holds umbrellaId (who.sessionId umbrellaId) := by
  refine ⟨inv.step undisturbed fire, ?_⟩
  cases e with
  | advance q =>
      obtain ⟨call, present, acquires⟩ := Option.bind_eq_some_iff.mp acquires
      obtain ⟨call', present', rfl⟩ := Option.map_eq_some_iff.mp fire
      cases present.symm.trans present'
      cases call <;> cases acquires
      exact ⟨_, rfl, rfl⟩
  | _ => cases acquires

theorem Sys.Inv.kept (inv : s.Inv umbrellaId) : s.Kept umbrellaId daemonSession where
  notStolen _ undisturbed := inv.not_steals undisturbed
  lapsed {first second e e' t u} acquires undisturbed fire path acquires' undisturbed' fresh := by
    have held : u.Holds umbrellaId (first.sessionId umbrellaId) :=
      path.invariant (inv.acquire undisturbed acquires fire) fun v e w holds guard fire =>
        holds.step guard.1 guard.2.1 guard.2.2 fire
    exact (held.overwriter fresh undisturbed' (Sys.overwriter_of_acquirer acquires')).symm

/-- In every run whose file accesses are all undisturbed no step steals a fresh lease,
and a lease passes to another session only after it lapsed or was given up. -/
theorem lease_kept {start : Int}
    (run : Steps (Sys.step umbrellaId daemonSession) (Undisturbed umbrellaId) (Sys.init start) s) :
    s.Kept umbrellaId daemonSession :=
  (run.invariant (Sys.Inv.init start) fun _ _ _ inv guard fire => inv.step guard fire).kept

end

/-! ## Two runs -/

def alice : Actor := .session "alice"
def bob : Actor := .session "bob"

/-- Alice acquires the lease, bob is refused, the manager takes the stale lease over,
refreshes it and stops, and bob acquires. -/
def handover : List Event :=
  [.claimCalled 0 "alice" (some ⟨none, some "u"⟩), .advance 0, .advance 0, .tick 60000,
    .acquireCalled 1 bob, .advance 1, .tick 30000, .acquireCalled 2 .headless, .advance 2,
    .advance 2, .tickCalled 2, .advance 2, .advance 2, .advance 2, .stopCalled 2, .advance 2,
    .advance 2, .acquireCalled 1 bob, .advance 1, .advance 1]

theorem lease_kept_handover :
    ∃ s, Steps (Sys.step "u" "pid-1") (Undisturbed "u") (Sys.init 0) s ∧
      s.file = some ⟨"bob", 90000⟩ ∧ s.Kept "u" "pid-1" := by
  have replay : (runWhile (Sys.step "u" "pid-1") (fun s e => decide (Undisturbed "u" s e))
      (Sys.init 0) handover).any (fun s => s.file = some ⟨"bob", 90000⟩) = true := by
    decide +kernel
  obtain ⟨s, reached, file⟩ := (Option.any_eq_true _ _).mp replay
  have run := Steps.of_runWhile (fun _ _ guard => of_decide_eq_true guard) reached
  exact ⟨s, run, of_decide_eq_true file, lease_kept run⟩

/-- Both sessions find no lease; alice writes hers. -/
def race : List Event :=
  [.acquireCalled 0 alice, .acquireCalled 1 bob, .advance 0, .advance 1, .advance 0]

/-- Bob's acquire then replaces the fresh lease of alice, and returns true as hers did. -/
theorem acquire_steals :
    ∃ s, Steps (Sys.step "u" "pid-1") AnyStep (Sys.init 0) s ∧
      s.Steals "u" (.advance 1) ∧ s.acquirer (.advance 1) = some bob := by
  have replay : (runWhile (Sys.step "u" "pid-1") (fun _ _ => true) (Sys.init 0) race).any
      (fun s => s.file = some ⟨"alice", 0⟩ ∧ s.clock = 0 ∧
        s.calls 1 = some (.acquireWrites bob 0 none)) = true := by
    decide +kernel
  obtain ⟨s, reached, facts⟩ := (Option.any_eq_true _ _).mp replay
  obtain ⟨file, clock, call⟩ := of_decide_eq_true facts
  have run : Steps (Sys.step "u" "pid-1") AnyStep (Sys.init 0) s :=
    Steps.of_runWhile (fun _ _ _ => trivial) reached
  refine ⟨s, run, ⟨bob, ?_, ?_, _, file, ?_⟩, ?_⟩
  · rw [Sys.overwriter, call]
    rfl
  · rw [file, clock]
    decide
  · decide
  · rw [Sys.acquirer, call]
    rfl

end Opensquid.Chat.LiveSession
