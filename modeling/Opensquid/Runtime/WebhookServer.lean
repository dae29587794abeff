import Opensquid.Lib.Hex
import Opensquid.Lib.Steps
import Opensquid.Lib.Whitespace

/-!
# Webhook intake

The requests of the webhook server, each a sequence of steps between its awaits: the body, the
rate-limit check, the dispatch, the release of the slot. A cache of what was dispatched answers
a repeated webhook; its entry stays when the dispatch fails, so the retry is acknowledged and
nothing is dispatched (`failed_dispatch_acknowledged`). A signature with one hexadecimal digit
too many is accepted. Without these two the server keeps its promises (`right_of_careful`).
-/

namespace Opensquid.Runtime

open Opensquid.Lib

/-! ## Signatures -/

/-- SHA-256 and HMAC-SHA-256: the digest in hexadecimal, and the bytes of the code. -/
structure Crypto where
  sha256 : List UInt8 → String
  hmac : String → List UInt8 → List UInt8

/-- The digits of a header `sha256=…`. -/
def signatureDigits (header : String) : Option (List Char) :=
  let text := trim header.toList
  if "sha256=".toList <+: text then
    let digits := text.drop "sha256=".toList.length
    if digits ≠ [] ∧ digits.all Hex.isDigit then some digits else none
  else none

def verifyHmac (crypto : Crypto) (secret : String) (body : List UInt8) (header : String) : Bool :=
  if header = "" then false
  else
    match signatureDigits header with
    | none => false
    | some digits =>
        let expectedHex := Hex.encode (crypto.hmac secret body)
        Hex.decode (digits.map Char.toLower) = Hex.decode expectedHex

/-! ## The server -/

structure Subscription where
  id : String
  signingSecret : String
  deliverOnly : Bool := false
  /-- A rate limit is configured. -/
  rateLimit : Bool := false
  deriving DecidableEq, Repr

structure WebhookServerOpts where
  subscriptions : List Subscription
  /-- A handler for `deliverOnly` is given. -/
  deliverOnly : Bool := false
  /-- A rate limiter is given. -/
  rateLimiter : Bool := false
  idempotencyTtlMs : Int := 24 * 60 * 60 * 1000

def MAX_BODY_BYTES : Nat := 5 * 1024 * 1024

inductive Reply
  | methodNotAllowed
  | notFound
  | unknownSubscription
  | bodyTooLarge
  | invalidSignature
  | rateLimitExceeded
  | idempotent
  | accepted
  | internalError
  deriving DecidableEq, Repr

/-- The body of a webhook, and the subscription it is for. -/
structure Webhook where
  subscriptionId : String
  body : List UInt8
  deriving DecidableEq, Repr

/-- Where a request waits: for its body, the check, the handling of its webhook, or the release
of its slot. -/
inductive Awaiting
  | body (sub : Subscription)
  | check (sub : Subscription)
  | handling (sub : Subscription)
  | release (reply : Reply)
  | done (reply : Reply)
  deriving DecidableEq, Repr

structure Request where
  method : String
  url : String
  /-- `x-opensquid-signature`, if it is one text. -/
  signature : Option String
  received : List UInt8 := []
  acquiredSlot : Bool := false
  awaiting : Awaiting
  deriving DecidableEq, Repr

/-- What has happened. A webhook is dispatched, or delivered; without a handler a delivery
succeeds at once. -/
inductive Mark
  | dispatched (i : Nat) (webhook : Webhook) (time : Int)
  | failed (i : Nat)
  | idempotent (i : Nat) (webhook : Webhook)
  | acquired (i : Nat)
  | released (i : Nat)
  deriving DecidableEq, Repr

/-- The request it happened to. -/
def Mark.request : Mark → Nat
  | .dispatched i _ _ => i
  | .failed i => i
  | .idempotent i _ => i
  | .acquired i => i
  | .released i => i

structure WebhookServer where
  now : Int := 0
  idempotencyCache : String → Option Int := fun _ => none
  requests : List Request := []
  /-- The latest first. -/
  log : List Mark := []

inductive ServerEvent
  | clock (now : Int)
  | evict
  | request (method url : String) (signature : Option String)
  | data (i : Nat) (chunk : List UInt8)
  | bodyEnd (i : Nat)
  | bodyError (i : Nat)
  /-- The check throws, or has its decision. -/
  | checked (i : Nat) (allowed : Option Bool)
  /-- The dispatch or the delivery ends. -/
  | handled (i : Nat) (failed : Bool)
  | released (i : Nat)
  deriving DecidableEq, Repr

/-- `[A-Za-z0-9._-]` -/
def isIdChar (c : Char) : Bool := c.isAlphanum || c ∈ ['.', '_', '-']

/-- The id in `/webhook/<id>`, a query and one slash at the end left out. -/
def subscriptionIdOf (url : String) : Option String :=
  let path := url.toList.takeWhile (· ≠ '?')
  if "/webhook/".toList <+: path then
    let rest := path.drop "/webhook/".toList.length
    let id := if rest.getLast? = some '/' then rest.dropLast else rest
    if id ≠ [] ∧ id.all isIdChar then some (String.ofList id) else none
  else none

variable (crypto : Crypto) (opts : WebhookServerOpts)

/-- The later of two subscriptions with one id. -/
def WebhookServerOpts.subscription (id : String) : Option Subscription :=
  opts.subscriptions.reverse.find? fun s => s.id = id

/-- What a request is answered before its body is read, or its subscription. -/
def WebhookServerOpts.route (method url : String) : Except Reply Subscription :=
  if method ≠ "POST" then .error .methodNotAllowed
  else
    match subscriptionIdOf url with
    | none => .error .notFound
    | some subscriptionId =>
        match opts.subscription subscriptionId with
        | none => .error .unknownSubscription
        | some sub => .ok sub

def dedupKey (webhook : Webhook) : String :=
  webhook.subscriptionId ++ ":" ++ crypto.sha256 webhook.body

namespace WebhookServer

/-- A request goes on. -/
def advance (s : WebhookServer) (i : Nat) (r : Request) (marks : List Mark) : WebhookServer :=
  { s with requests := s.requests.set i r, log := marks ++ s.log }

/-- The end of `handle`: a slot is released. -/
def finish (s : WebhookServer) (i : Nat) (r : Request) (reply : Reply) (marks : List Mark) :
    WebhookServer :=
  s.advance i { r with awaiting := if r.acquiredSlot then .release reply else .done reply }
    ((if r.acquiredSlot then [.released i] else []) ++ marks)

/-- `handleAfterRateLimit` up to its await. -/
def handleAfterRateLimit (s : WebhookServer) (i : Nat) (r : Request) (sub : Subscription)
    (marks : List Mark) : WebhookServer :=
  let webhook : Webhook := ⟨sub.id, r.received⟩
  if (s.idempotencyCache (dedupKey crypto webhook)).any fun seenAt =>
      s.now - seenAt < opts.idempotencyTtlMs then
    s.finish i r .idempotent (.idempotent i webhook :: marks)
  else
    let cached := { s with
      idempotencyCache :=
        Function.update s.idempotencyCache (dedupKey crypto webhook) (some s.now) }
    if sub.deliverOnly ∧ ¬ opts.deliverOnly then
      cached.finish i r .accepted (.dispatched i webhook s.now :: marks)
    else
      cached.advance i { r with awaiting := .handling sub } (.dispatched i webhook s.now :: marks)

end WebhookServer

def Awaiting.forBody : Awaiting → Option Subscription
  | .body sub => some sub
  | .check _ | .handling _ | .release _ | .done _ => none

def Awaiting.forCheck : Awaiting → Option Subscription
  | .check sub => some sub
  | .body _ | .handling _ | .release _ | .done _ => none

def Awaiting.forHandling : Awaiting → Option Subscription
  | .handling sub => some sub
  | .body _ | .check _ | .release _ | .done _ => none

def Awaiting.forRelease : Awaiting → Option Reply
  | .release reply => some reply
  | .body _ | .check _ | .handling _ | .done _ => none

namespace WebhookServer

/-- The request, and what it waits with. -/
def waiting {α : Type} (s : WebhookServer) (i : Nat) (pick : Awaiting → Option α) :
    Option (Request × α) :=
  s.requests[i]?.bind fun r => (pick r.awaiting).map fun x => (r, x)

/-- `handle` after the body. -/
def handleBody (s : WebhookServer) (i : Nat) (r : Request) (sub : Subscription) : WebhookServer :=
  if ¬ verifyHmac crypto sub.signingSecret r.received (r.signature.getD "") then
    s.advance i { r with awaiting := .done .invalidSignature } []
  else if sub.rateLimit ∧ opts.rateLimiter then s.advance i { r with awaiting := .check sub } []
  else s.handleAfterRateLimit crypto opts i r sub []

def step (s : WebhookServer) : ServerEvent → Option WebhookServer
  | .clock now => if s.now ≤ now then some { s with now } else none
  | .evict =>
      some { s with
        idempotencyCache := fun key => (s.idempotencyCache key).filter fun ts =>
          ¬ ts < s.now - opts.idempotencyTtlMs }
  | .request method url signature =>
      let awaiting : Awaiting :=
        match opts.route method url with
        | .ok sub => .body sub
        | .error reply => .done reply
      some { s with requests := s.requests ++ [{ method, url, signature, awaiting }] }
  | .data i chunk =>
      (s.waiting i Awaiting.forBody).map fun (r, _) =>
        if (r.received ++ chunk).length > MAX_BODY_BYTES then
          s.advance i { r with awaiting := .done .bodyTooLarge } []
        else s.advance i { r with received := r.received ++ chunk } []
  | .bodyEnd i =>
      (s.waiting i Awaiting.forBody).map fun (r, sub) => s.handleBody crypto opts i r sub
  | .bodyError i =>
      (s.waiting i Awaiting.forBody).map fun (r, _) =>
        s.advance i { r with awaiting := .done .internalError } []
  | .checked i allowed =>
      (s.waiting i Awaiting.forCheck).map fun (r, sub) =>
        match allowed with
        | none => s.advance i { r with awaiting := .done .internalError } []
        | some false => s.advance i { r with awaiting := .done .rateLimitExceeded } []
        | some true =>
            s.handleAfterRateLimit crypto opts i { r with acquiredSlot := true } sub [.acquired i]
  | .handled i failed =>
      (s.waiting i Awaiting.forHandling).map fun (r, _) =>
        if failed then s.finish i r .internalError [.failed i] else s.finish i r .accepted []
  | .released i =>
      (s.waiting i Awaiting.forRelease).map fun (r, reply) =>
        s.advance i { r with awaiting := .done reply } []

end WebhookServer

/-! ## What the server promises -/

/-- The header is the code of the body. -/
def IsHmac (secret : String) (r : Request) : Prop :=
  ∃ digits, signatureDigits (r.signature.getD "") = some digits ∧
    digits.map Char.toLower = Hex.encode (crypto.hmac secret r.received)

/-- The header is the code of the body and one digit more. -/
def ExtraDigit (secret : String) (r : Request) : Prop :=
  ∃ digits, signatureDigits (r.signature.getD "") = some digits ∧
    ∃ c, digits.map Char.toLower = Hex.encode (crypto.hmac secret r.received) ++ [c]

/-- The request is for this webhook, with the code of its own body. -/
def Request.Signed (r : Request) (webhook : Webhook) : Prop :=
  ∃ sub, opts.route r.method r.url = .ok sub ∧ webhook = ⟨sub.id, r.received⟩ ∧
    IsHmac crypto sub.signingSecret r

def Awaiting.over : Awaiting → Bool
  | .release _ | .done _ => true
  | .body _ | .check _ | .handling _ => false

/-- A webhook is dispatched once in a window, unless the dispatch has failed. -/
def OnceInWindow (log : List Mark) : Prop :=
  ∀ i webhook time before, .dispatched i webhook time :: before <:+ log →
    ∀ j time', .dispatched j webhook time' ∈ before →
      .failed j ∈ before ∨ opts.idempotencyTtlMs ≤ time - time'

/-- An idempotent answer is for a dispatch of another request that has not failed. -/
def Acknowledged (log : List Mark) : Prop :=
  ∀ i webhook before, .idempotent i webhook :: before <:+ log →
    ∃ j time, j ≠ i ∧ .dispatched j webhook time ∈ before ∧ .failed j ∉ before

structure WebhookServer.Right (s : WebhookServer) : Prop where
  once : OnceInWindow opts s.log
  acknowledged : Acknowledged s.log
  /-- A slot is released once, when its request is over. -/
  slots : ∀ (i : Nat) (r : Request), s.requests[i]? = some r →
    s.log.count (.acquired i) ≤ 1 ∧
    s.log.count (.released i) = if r.awaiting.over then s.log.count (.acquired i) else 0
  /-- What is dispatched has been signed. -/
  signed : ∀ i webhook time, .dispatched i webhook time ∈ s.log →
    ∃ r, s.requests[i]? = some r ∧ r.Signed crypto opts webhook

/-- The request that the event brings to its dispatch, with its webhook. -/
def WebhookServer.admits (s : WebhookServer) : ServerEvent → Option Webhook
  | .bodyEnd i =>
      (s.waiting i Awaiting.forBody).bind fun (r, sub) =>
        if verifyHmac crypto sub.signingSecret r.received (r.signature.getD "") ∧
            ¬ (sub.rateLimit ∧ opts.rateLimiter) then some ⟨sub.id, r.received⟩
        else none
  | .checked i (some true) =>
      (s.waiting i Awaiting.forCheck).map fun (r, sub) => ⟨sub.id, r.received⟩
  | .checked _ (some false) | .checked _ none | .clock _ | .evict | .request _ _ _ | .data _ _
  | .bodyError _ | .handled _ _ | .released _ => none

/-- No webhook comes again within the window after its dispatch has failed, and no signature has
one digit too many. -/
structure Careful (s : WebhookServer) (e : ServerEvent) : Prop where
  notFailed : ∀ webhook, s.admits crypto opts e = some webhook →
    ∀ j time, .dispatched j webhook time ∈ s.log → s.now - time < opts.idempotencyTtlMs →
      .failed j ∉ s.log
  digits : ∀ i, e = .bodyEnd i → ∀ r sub, s.waiting i Awaiting.forBody = some (r, sub) →
    ¬ ExtraDigit crypto sub.signingSecret r

variable {crypto opts}

/-! ## Signatures that are accepted -/

theorem isDigit_of_signatureDigits {header : String} {digits : List Char}
    (read : signatureDigits header = some digits) : ∀ c ∈ digits, Hex.isDigit c = true := by
  unfold signatureDigits at read
  dsimp only at read
  split at read
  · split at read
    · rename_i known
      cases read
      exact List.all_eq_true.mp known.2
    · cases read
  · cases read

/-- The header is the code of the body, up to one digit at the end. -/
theorem verifyHmac_cases {secret : String} {r : Request}
    (accepted : verifyHmac crypto secret r.received (r.signature.getD "") = true) :
    IsHmac crypto secret r ∨ ExtraDigit crypto secret r := by
  unfold verifyHmac at accepted
  split at accepted
  · cases accepted
  · split at accepted
    · cases accepted
    · rename_i digits read
      have same := of_decide_eq_true accepted
      rw [Hex.decode_encode] at same
      have lower : ∀ c ∈ digits.map Char.toLower, ∃ x < 16, c = Json.hexDigit x := by
        intro c mem
        obtain ⟨d, known, rfl⟩ := List.mem_map.mp mem
        exact Hex.lower_spec (isDigit_of_signatureDigits read d known)
      rcases (Hex.decode_eq_iff lower).mp same with whole | ⟨c, more⟩
      · exact .inl ⟨digits, read, whole⟩
      · exact .inr ⟨digits, read, c, more⟩

/-! ## Keys -/

/-- No two bodies have one digest, and a digest has no colon. -/
structure Crypto.Collisionless (crypto : Crypto) : Prop where
  injective : Function.Injective crypto.sha256
  digits : ∀ body, ':' ∉ (crypto.sha256 body).toList

theorem append_colon_inj {a a' h h' : List Char} (same : a ++ ':' :: h = a' ++ ':' :: h')
    (colon : ':' ∉ h) (colon' : ':' ∉ h') : a = a' ∧ h = h' := by
  rcases List.append_eq_append_iff.mp same with ⟨x, rfl, rest⟩ | ⟨x, rfl, rest⟩
  · cases x with
    | nil => exact ⟨(List.append_nil a).symm, (List.cons.inj rest).2⟩
    | cons c x =>
        obtain ⟨rfl, rfl⟩ := List.cons.inj rest
        exact absurd (List.mem_append_right _ List.mem_cons_self) colon
  · cases x with
    | nil => exact ⟨List.append_nil a', (List.cons.inj rest).2.symm⟩
    | cons c x =>
        obtain ⟨rfl, rfl⟩ := List.cons.inj rest
        exact absurd (List.mem_append_right _ List.mem_cons_self) colon'

theorem dedupKey_injective (apart : crypto.Collisionless) : Function.Injective (dedupKey crypto) := by
  rintro ⟨id, body⟩ ⟨id', body'⟩ same
  have text := congrArg String.toList same
  simp only [dedupKey, String.toList_append, List.append_assoc] at text
  obtain ⟨sameId, digest⟩ := append_colon_inj text (apart.digits body) (apart.digits body')
  rw [String.toList_injective sameId, apart.injective (String.toList_injective digest)]

/-! ## One request -/

/-- Neither a dispatch nor an idempotent answer. -/
def Mark.quiet : Mark → Bool
  | .dispatched _ _ _ | .idempotent _ _ => false
  | .failed _ | .acquired _ | .released _ => true

/-- The slot that the request has is in the log, and not released. -/
def Request.Holds (r : Request) (log : List Mark) (i : Nat) : Prop :=
  log.count (.acquired i) = (if r.acquiredSlot then 1 else 0) ∧ log.count (.released i) = 0

/-- What is known of a request where it waits. -/
def Request.Stands (crypto : Crypto) (opts : WebhookServerOpts) (r : Request) (log : List Mark)
    (i : Nat) : Prop :=
  match r.awaiting with
  | .body sub => opts.route r.method r.url = .ok sub ∧ r.acquiredSlot = false ∧
      ∀ m ∈ log, m.request ≠ i
  | .check sub => opts.route r.method r.url = .ok sub ∧ IsHmac crypto sub.signingSecret r ∧
      r.acquiredSlot = false ∧ ∀ m ∈ log, m.request ≠ i
  | .handling _ => r.Holds log i
  | .release _ | .done _ => log.count (.acquired i) ≤ 1 ∧
      log.count (.released i) = log.count (.acquired i)

theorem count_of_absent {log : List Mark} {i : Nat} (absent : ∀ m ∈ log, m.request ≠ i) :
    log.count (.acquired i) = 0 ∧ log.count (.released i) = 0 :=
  ⟨List.count_eq_zero.mpr fun mem => absent _ mem rfl,
    List.count_eq_zero.mpr fun mem => absent _ mem rfl⟩

theorem count_append_of_other {marks log : List Mark} {i j : Nat}
    (mine : ∀ m ∈ marks, m.request = i) (other : j ≠ i) :
    (marks ++ log).count (.acquired j) = log.count (.acquired j) ∧
      (marks ++ log).count (.released j) = log.count (.released j) := by
  obtain ⟨acquired, released⟩ :=
    count_of_absent (i := j) fun m mem same => other (same.symm.trans (mine m mem))
  rw [List.count_append, List.count_append, acquired, released, Nat.zero_add, Nat.zero_add]
  exact ⟨rfl, rfl⟩

/-- The marks of one request leave another one as it stands. -/
theorem Request.Stands.frame {r : Request} {marks log : List Mark} {i j : Nat}
    (stands : r.Stands crypto opts log j) (mine : ∀ m ∈ marks, m.request = i) (other : j ≠ i) :
    r.Stands crypto opts (marks ++ log) j := by
  obtain ⟨acquired, released⟩ := @count_append_of_other marks log i j mine other
  have absent : (∀ m ∈ log, m.request ≠ j) → ∀ m ∈ marks ++ log, m.request ≠ j := by
    intro before m mem
    rcases List.mem_append.mp mem with new | old
    · exact fun same => other (same.symm.trans (mine m new))
    · exact before m old
  unfold Request.Stands Request.Holds at stands ⊢
  cases place : r.awaiting with
  | body sub =>
      rw [place] at stands
      exact ⟨stands.1, stands.2.1, absent stands.2.2⟩
  | check sub =>
      rw [place] at stands
      exact ⟨stands.1, stands.2.1, stands.2.2.1, absent stands.2.2.2⟩
  | handling sub | release reply | done reply =>
      rw [place] at stands
      rw [acquired, released]
      exact stands

/-- The mark of a slot that is released at the end. -/
theorem freed_spec (r : Request) (i : Nat) :
    (∀ m ∈ (if r.acquiredSlot then [Mark.released i] else []), m.request = i) ∧
      ∀ m ∈ (if r.acquiredSlot then [Mark.released i] else []), m.quiet = true := by
  by_cases slot : r.acquiredSlot = true
  · rw [if_pos slot]
    exact ⟨List.forall_mem_singleton.mpr rfl, List.forall_mem_singleton.mpr rfl⟩
  · rw [if_neg slot]
    exact ⟨List.forall_mem_nil _, List.forall_mem_nil _⟩

/-- A request ends with no slot left. -/
theorem stands_over {r : Request} {log : List Mark} {i : Nat} (holds : r.Holds log i)
    (reply : Reply) :
    Request.Stands crypto opts
      { r with awaiting := if r.acquiredSlot then .release reply else .done reply }
      ((if r.acquiredSlot then [.released i] else []) ++ log) i := by
  obtain ⟨acquired, released⟩ := holds
  unfold Request.Stands
  split at acquired
  · rename_i slot
    rw [if_pos slot, if_pos slot]
    have kept : (Mark.released i :: log).count (.acquired i) = 1 :=
      (List.count_cons_of_ne (fun same => by cases same)).trans acquired
    have freed : (Mark.released i :: log).count (.released i) = 1 := by
      rw [List.count_cons_self, released]
    exact ⟨kept.le, freed.trans kept.symm⟩
  · rename_i slot
    rw [if_neg slot, if_neg slot]
    exact ⟨acquired.le.trans (Nat.zero_le 1), released.trans acquired.symm⟩

/-! ## Whole runs -/

namespace WebhookServer

variable (crypto opts)

/-- The requests, the cache and the log of one run belong together. -/
structure Inv (s : WebhookServer) : Prop where
  once : OnceInWindow opts s.log
  acknowledged : Acknowledged s.log
  signed : ∀ i webhook time, .dispatched i webhook time ∈ s.log →
    ∃ r, s.requests[i]? = some r ∧ r.Signed crypto opts webhook
  below : ∀ m ∈ s.log, m.request < s.requests.length
  stands : ∀ (i : Nat) (r : Request), s.requests[i]? = some r → r.Stands crypto opts s.log i
  cached : ∀ key time, s.idempotencyCache key = some time →
    ∃ i webhook, .dispatched i webhook time ∈ s.log ∧ dedupKey crypto webhook = key
  /-- The cache has what was dispatched within the window. -/
  recent : ∀ i webhook time, .dispatched i webhook time ∈ s.log →
    s.now - time < opts.idempotencyTtlMs →
    s.idempotencyCache (dedupKey crypto webhook) = some time

variable {crypto opts}

theorem waiting_eq {α : Type} {s : WebhookServer} {i : Nat} {pick : Awaiting → Option α}
    {r : Request} {x : α} (waits : s.waiting i pick = some (r, x)) :
    s.requests[i]? = some r ∧ pick r.awaiting = some x := by
  obtain ⟨r', here, picked⟩ := Option.bind_eq_some_iff.mp waits
  obtain ⟨x', known, same⟩ := Option.map_eq_some_iff.mp picked
  cases same
  exact ⟨here, known⟩

theorem Inv.right {s : WebhookServer} (inv : s.Inv crypto opts) : s.Right crypto opts where
  once := inv.once
  acknowledged := inv.acknowledged
  slots i r here := by
    have stands := inv.stands i r here
    unfold Request.Stands at stands
    cases place : r.awaiting with
    | body sub =>
        rw [place] at stands
        obtain ⟨acquired, released⟩ := count_of_absent stands.2.2
        rw [acquired, released]
        exact ⟨Nat.zero_le 1, rfl⟩
    | check sub =>
        rw [place] at stands
        obtain ⟨acquired, released⟩ := count_of_absent stands.2.2.2
        rw [acquired, released]
        exact ⟨Nat.zero_le 1, rfl⟩
    | handling sub =>
        rw [place] at stands
        rw [stands.1, stands.2]
        exact ⟨by split <;> decide, rfl⟩
    | release reply | done reply =>
        rw [place] at stands
        exact stands
  signed := inv.signed

theorem suffix_append_cases {marks log before : List Mark} {m : Mark}
    (suffix : m :: before <:+ marks ++ log) :
    m :: before <:+ log ∨ ∃ older, m :: older <:+ marks ∧ before = older ++ log := by
  induction marks with
  | nil => exact .inl suffix
  | cons x marks ih =>
      rcases List.suffix_cons_iff.mp suffix with whole | inner
      · obtain ⟨rfl, rfl⟩ := List.cons.inj whole
        exact .inr ⟨marks, List.suffix_rfl, rfl⟩
      · rcases ih inner with old | ⟨older, new, same⟩
        · exact .inl old
        · exact .inr ⟨older, new.trans (List.suffix_cons x marks), same⟩

/-- A request goes on, leaving marks and a cache. -/
theorem Inv.advance {s : WebhookServer} (inv : s.Inv crypto opts) {i : Nat} {r r' : Request}
    (here : s.requests[i]? = some r) {marks : List Mark} (mine : ∀ m ∈ marks, m.request = i)
    (stands : r'.Stands crypto opts (marks ++ s.log) i)
    (signed : ∀ webhook time, .dispatched i webhook time ∈ marks ++ s.log →
      r'.Signed crypto opts webhook)
    {cache : String → Option Int}
    (cached : ∀ key time, cache key = some time →
      ∃ j webhook, .dispatched j webhook time ∈ marks ++ s.log ∧ dedupKey crypto webhook = key)
    (recent : ∀ j webhook time, .dispatched j webhook time ∈ marks ++ s.log →
      s.now - time < opts.idempotencyTtlMs → cache (dedupKey crypto webhook) = some time)
    (once : ∀ webhook time older, .dispatched i webhook time :: older <:+ marks →
      ∀ j time', .dispatched j webhook time' ∈ older ++ s.log →
        opts.idempotencyTtlMs ≤ time - time')
    (acknowledged : ∀ webhook older, .idempotent i webhook :: older <:+ marks →
      ∃ j time, j ≠ i ∧ .dispatched j webhook time ∈ older ++ s.log ∧ .failed j ∉ older ++ s.log) :
    Inv crypto opts ({ s with idempotencyCache := cache }.advance i r' marks) := by
  have bound : i < s.requests.length := (List.getElem?_eq_some_iff.mp here).1
  exact {
    once := by
      intro k webhook time before suffix j time' mem
      rcases suffix_append_cases suffix with old | ⟨older, new, rfl⟩
      · exact inv.once k webhook time before old j time' mem
      · have same : k = i := mine _ (new.subset List.mem_cons_self)
        subst same
        exact .inr (once webhook time older new j time' mem)
    acknowledged := by
      intro k webhook before suffix
      rcases suffix_append_cases suffix with old | ⟨older, new, rfl⟩
      · exact inv.acknowledged k webhook before old
      · have same : k = i := mine _ (new.subset List.mem_cons_self)
        subst same
        exact acknowledged webhook older new
    signed := by
      intro j webhook time mem
      by_cases same : i = j
      · subst same
        exact ⟨r', List.getElem?_set_self bound, signed webhook time mem⟩
      · have old : .dispatched j webhook time ∈ s.log :=
          (List.mem_append.mp mem).resolve_left fun new => same (mine _ new).symm
        obtain ⟨x, there, known⟩ := inv.signed j webhook time old
        exact ⟨x, (List.getElem?_set_ne same).trans there, known⟩
    below := by
      intro m mem
      rw [WebhookServer.advance, List.length_set]
      rcases List.mem_append.mp mem with new | old
      · rw [mine m new]
        exact bound
      · exact inv.below m old
    stands := by
      intro j x there
      by_cases same : i = j
      · subst same
        cases (List.getElem?_set_self bound).symm.trans there
        exact stands
      · exact (inv.stands j x ((List.getElem?_set_ne same).symm.trans there)).frame mine (Ne.symm same)
    cached := cached
    recent := recent }

/-- Nothing is dispatched or acknowledged. -/
theorem Inv.quietly {s : WebhookServer} (inv : s.Inv crypto opts) {i : Nat} {r r' : Request}
    (here : s.requests[i]? = some r) {marks : List Mark} (mine : ∀ m ∈ marks, m.request = i)
    (quiet : ∀ m ∈ marks, m.quiet = true)
    (stands : r'.Stands crypto opts (marks ++ s.log) i)
    (signed : ∀ webhook time, .dispatched i webhook time ∈ s.log → r.Signed crypto opts webhook →
      r'.Signed crypto opts webhook) : Inv crypto opts (s.advance i r' marks) := by
  have old : ∀ j webhook time, .dispatched j webhook time ∈ marks ++ s.log →
      .dispatched j webhook time ∈ s.log := by
    intro j webhook time mem
    rcases List.mem_append.mp mem with new | old
    · cases quiet _ new
    · exact old
  refine inv.advance here mine stands (fun webhook time mem => ?_) (fun key time there => ?_)
    (fun j webhook time mem => inv.recent j webhook time (old j webhook time mem))
    (fun webhook time older new => by cases quiet _ (new.subset List.mem_cons_self))
    fun webhook older new => by cases quiet _ (new.subset List.mem_cons_self)
  · obtain ⟨x, there, known⟩ := inv.signed i webhook time (old i webhook time mem)
    cases here.symm.trans there
    exact signed webhook time (old i webhook time mem) known
  · obtain ⟨j, webhook, mem, same⟩ := inv.cached key time there
    exact ⟨j, webhook, List.mem_append_right _ mem, same⟩

/-- A request that has its slot, or none, comes to its end. -/
theorem Inv.finish_quietly {s : WebhookServer} (inv : s.Inv crypto opts) {i : Nat} {r : Request}
    (here : s.requests[i]? = some r) {marks : List Mark} (mine : ∀ m ∈ marks, m.request = i)
    (quiet : ∀ m ∈ marks, m.quiet = true)
    (holds : r.Holds (marks ++ s.log) i) (reply : Reply) :
    Inv crypto opts (s.finish i r reply marks) := by
  obtain ⟨mineFreed, quietFreed⟩ := freed_spec r i
  have stands := @stands_over crypto opts r _ i holds reply
  rw [← List.append_assoc] at stands
  exact inv.quietly here (List.forall_mem_append.mpr ⟨mineFreed, mine⟩)
    (List.forall_mem_append.mpr ⟨quietFreed, quiet⟩) stands fun _ _ _ known => known

/-- Among quiet marks there is one that is not. -/
theorem suffix_of_loud {newer marks older : List Mark} {m x : Mark}
    (quiet : ∀ m ∈ newer, m.quiet = true) (quiet' : ∀ m ∈ marks, m.quiet = true)
    (suffix : m :: older <:+ newer ++ x :: marks) (loud : m.quiet = false) :
    m = x ∧ older = marks := by
  rcases suffix_append_cases suffix with inner | ⟨older', new, _⟩
  · rcases List.suffix_cons_iff.mp inner with whole | old
    · exact List.cons.inj whole
    · rw [quiet' m (old.subset List.mem_cons_self)] at loud
      cases loud
  · rw [quiet m (new.subset List.mem_cons_self)] at loud
    cases loud

theorem eq_of_loud {newer marks : List Mark} {m x : Mark} (quiet : ∀ m ∈ newer, m.quiet = true)
    (quiet' : ∀ m ∈ marks, m.quiet = true) (mem : m ∈ newer ++ x :: marks)
    (loud : m.quiet = false) : m = x := by
  obtain ⟨older, after, split⟩ := List.append_of_mem mem
  have suffix : m :: after <:+ newer ++ x :: marks := ⟨older, split.symm⟩
  exact (suffix_of_loud quiet quiet' suffix loud).1

section Handling

variable {s : WebhookServer} {i : Nat} {r r' : Request} {webhook : Webhook}
  {newer marks : List Mark}

/-- A fresh entry is that of a dispatch of the same webhook, which has not failed. -/
theorem Inv.acknowledge (apart : crypto.Collisionless) (inv : s.Inv crypto opts)
    (here : s.requests[i]? = some r) (absent : ∀ m ∈ s.log, m.request ≠ i)
    (mine : ∀ m ∈ newer ++ marks, m.request = i) (quiet : ∀ m ∈ newer ++ marks, m.quiet = true)
    (notFailed : ∀ j time, .dispatched j webhook time ∈ s.log →
      s.now - time < opts.idempotencyTtlMs → .failed j ∉ s.log)
    (noFailure : ∀ j, .failed j ∉ marks)
    {seenAt : Int} (there : s.idempotencyCache (dedupKey crypto webhook) = some seenAt)
    (fresh : s.now - seenAt < opts.idempotencyTtlMs)
    (stands : r'.Stands crypto opts (newer ++ .idempotent i webhook :: marks ++ s.log) i) :
    Inv crypto opts (s.advance i r' (newer ++ .idempotent i webhook :: marks)) := by
  obtain ⟨mineNewer, mineMarks⟩ := List.forall_mem_append.mp mine
  obtain ⟨quietNewer, quietMarks⟩ := List.forall_mem_append.mp quiet
  obtain ⟨j, webhook', dispatched, sameKey⟩ := inv.cached _ seenAt there
  cases dedupKey_injective apart sameKey
  have old : ∀ k x time, Mark.dispatched k x time ∈ newer ++ .idempotent i webhook :: marks ++ s.log →
      Mark.dispatched k x time ∈ s.log := by
    intro k x time mem
    rcases List.mem_append.mp mem with new | old
    · cases eq_of_loud quietNewer quietMarks new rfl
    · exact old
  refine inv.advance here ?_ stands (fun x time mem => absurd rfl (absent _ (old i x time mem)))
    (fun key time known => ?_) (fun k x time mem => inv.recent k x time (old k x time mem))
    (fun x time older suffix => ?_) fun x older suffix => ?_
  · exact List.forall_mem_append.mpr ⟨mineNewer, List.forall_mem_cons.mpr ⟨rfl, mineMarks⟩⟩
  · obtain ⟨k, x, mem, same⟩ := inv.cached key time known
    exact ⟨k, x, List.mem_append_right _ mem, same⟩
  · cases (suffix_of_loud quietNewer quietMarks suffix rfl).1
  · obtain ⟨same, rfl⟩ := suffix_of_loud quietNewer quietMarks suffix rfl
    cases same
    refine ⟨j, seenAt, absent _ dispatched, List.mem_append_right _ dispatched, fun failed => ?_⟩
    exact (List.mem_append.mp failed).elim (noFailure j) (notFailed j seenAt dispatched fresh)

/-- Without a fresh entry the webhook is dispatched for the first time in the window. -/
theorem Inv.dispatch (inv : s.Inv crypto opts)
    (here : s.requests[i]? = some r) (absent : ∀ m ∈ s.log, m.request ≠ i)
    (mine : ∀ m ∈ newer ++ marks, m.request = i) (quiet : ∀ m ∈ newer ++ marks, m.quiet = true)
    (stale : ∀ seenAt, s.idempotencyCache (dedupKey crypto webhook) = some seenAt →
      ¬ s.now - seenAt < opts.idempotencyTtlMs)
    (signed : r'.Signed crypto opts webhook)
    (stands : r'.Stands crypto opts (newer ++ Mark.dispatched i webhook s.now :: marks ++ s.log) i) :
    Inv crypto opts
      ({ s with
        idempotencyCache := Function.update s.idempotencyCache (dedupKey crypto webhook)
          (some s.now) }.advance i r' (newer ++ Mark.dispatched i webhook s.now :: marks)) := by
  obtain ⟨mineNewer, mineMarks⟩ := List.forall_mem_append.mp mine
  obtain ⟨quietNewer, quietMarks⟩ := List.forall_mem_append.mp quiet
  have newOrOld : ∀ k x time,
      Mark.dispatched k x time ∈ newer ++ Mark.dispatched i webhook s.now :: marks ++ s.log →
      (k = i ∧ x = webhook ∧ time = s.now) ∨ Mark.dispatched k x time ∈ s.log := by
    intro k x time mem
    rcases List.mem_append.mp mem with new | old
    · cases eq_of_loud quietNewer quietMarks new rfl
      exact .inl ⟨rfl, rfl, rfl⟩
    · exact .inr old
  have placed : Mark.dispatched i webhook s.now ∈
      newer ++ Mark.dispatched i webhook s.now :: marks ++ s.log :=
    List.mem_append_left _ (List.mem_append_right _ List.mem_cons_self)
  refine inv.advance here ?_ stands (fun x time mem => ?_) (fun key time known => ?_)
    (fun k x time mem young => ?_) (fun x time older suffix j time' mem => ?_)
    fun x older suffix => ?_
  · exact List.forall_mem_append.mpr ⟨mineNewer, List.forall_mem_cons.mpr ⟨rfl, mineMarks⟩⟩
  · rcases newOrOld i x time mem with ⟨_, rfl, _⟩ | old
    · exact signed
    · exact absurd rfl (absent _ old)
  · by_cases same : key = dedupKey crypto webhook
    · subst same
      rw [Function.update_self] at known
      cases known
      exact ⟨i, webhook, placed, rfl⟩
    · rw [Function.update_of_ne same] at known
      obtain ⟨k, x, mem, here⟩ := inv.cached key time known
      exact ⟨k, x, List.mem_append_right _ mem, here⟩
  · rcases newOrOld k x time mem with ⟨rfl, rfl, rfl⟩ | old
    · exact Function.update_self _ _ _
    · have known := inv.recent k x time old young
      have other : dedupKey crypto x ≠ dedupKey crypto webhook := fun same =>
        stale time (same ▸ known) young
      rw [Function.update_of_ne other]
      exact known
  · obtain ⟨same, rfl⟩ := suffix_of_loud quietNewer quietMarks suffix rfl
    cases same
    rcases List.mem_append.mp mem with new | old
    · cases quietMarks _ new
    · exact not_lt.mp fun young => stale time' (inv.recent j _ time' old young) young
  · cases (suffix_of_loud quietNewer quietMarks suffix rfl).1

theorem holds_cons {log : List Mark} (holds : r.Holds log i) {m : Mark}
    (other : m ≠ .acquired i ∧ m ≠ .released i) : r.Holds (m :: log) i :=
  ⟨(List.count_cons_of_ne other.1).trans holds.1, (List.count_cons_of_ne other.2).trans holds.2⟩

theorem Inv.handleAfterRateLimit (apart : crypto.Collisionless) (inv : s.Inv crypto opts)
    (here : s.requests[i]? = some r) (absent : ∀ m ∈ s.log, m.request ≠ i) {sub : Subscription}
    (signed : r'.Signed crypto opts ⟨sub.id, r'.received⟩)
    (mine : ∀ m ∈ marks, m.request = i) (quiet : ∀ m ∈ marks, m.quiet = true)
    (noFailure : ∀ j, .failed j ∉ marks) (holds : r'.Holds (marks ++ s.log) i)
    (notFailed : ∀ j time, .dispatched j ⟨sub.id, r'.received⟩ time ∈ s.log →
      s.now - time < opts.idempotencyTtlMs → .failed j ∉ s.log) :
    Inv crypto opts (s.handleAfterRateLimit crypto opts i r' sub marks) := by
  obtain ⟨mineFreed, quietFreed⟩ := freed_spec r' i
  have mine' := List.forall_mem_append.mpr ⟨mineFreed, mine⟩
  have quiet' := List.forall_mem_append.mpr ⟨quietFreed, quiet⟩
  unfold WebhookServer.handleAfterRateLimit
  dsimp only
  split
  · rename_i known
    obtain ⟨seenAt, there, young⟩ := (Option.any_eq_true _ _).mp known
    have after := @stands_over crypto opts r' _ i
      (holds_cons (m := .idempotent i ⟨sub.id, r'.received⟩) holds ⟨nofun, nofun⟩) .idempotent
    rw [← List.cons_append, ← List.append_assoc] at after
    exact inv.acknowledge apart here absent mine' quiet' notFailed noFailure there
      (of_decide_eq_true young) after
  · rename_i unknown
    have stale : ∀ seenAt,
        s.idempotencyCache (dedupKey crypto ⟨sub.id, r'.received⟩) = some seenAt →
        ¬ s.now - seenAt < opts.idempotencyTtlMs := fun seenAt there young =>
      unknown ((Option.any_eq_true _ _).mpr ⟨seenAt, there, decide_eq_true young⟩)
    have holds' := holds_cons (m := .dispatched i ⟨sub.id, r'.received⟩ s.now) holds ⟨nofun, nofun⟩
    split
    · have after := @stands_over crypto opts r' _ i holds' .accepted
      rw [← List.cons_append, ← List.append_assoc] at after
      exact inv.dispatch here absent mine' quiet' stale signed after
    · change Inv crypto opts (WebhookServer.advance _ i { r' with awaiting := .handling sub }
        ([] ++ Mark.dispatched i ⟨sub.id, r'.received⟩ s.now :: marks))
      exact inv.dispatch here absent mine quiet stale signed holds'

end Handling

theorem forBody_eq {awaiting : Awaiting} {sub : Subscription}
    (waits : awaiting.forBody = some sub) : awaiting = .body sub := by
  cases awaiting with
  | body x => exact congrArg Awaiting.body (Option.some.inj waits)
  | check | handling | release | done => cases waits

theorem forCheck_eq {awaiting : Awaiting} {sub : Subscription}
    (waits : awaiting.forCheck = some sub) : awaiting = .check sub := by
  cases awaiting with
  | check x => exact congrArg Awaiting.check (Option.some.inj waits)
  | body | handling | release | done => cases waits

theorem forHandling_eq {awaiting : Awaiting} {sub : Subscription}
    (waits : awaiting.forHandling = some sub) : awaiting = .handling sub := by
  cases awaiting with
  | handling x => exact congrArg Awaiting.handling (Option.some.inj waits)
  | body | check | release | done => cases waits

theorem forRelease_eq {awaiting : Awaiting} {reply : Reply}
    (waits : awaiting.forRelease = some reply) : awaiting = .release reply := by
  cases awaiting with
  | release x => exact congrArg Awaiting.release (Option.some.inj waits)
  | body | check | handling | done => cases waits

/-- A request that has left no mark is answered at once. -/
theorem Inv.reply {s : WebhookServer} (inv : s.Inv crypto opts) {i : Nat} {r : Request}
    (here : s.requests[i]? = some r) (absent : ∀ m ∈ s.log, m.request ≠ i) (reply : Reply) :
    Inv crypto opts (s.advance i { r with awaiting := .done reply } []) := by
  obtain ⟨acquired, released⟩ := count_of_absent absent
  have stands : Request.Stands crypto opts { r with awaiting := .done reply } s.log i :=
    ⟨acquired.le.trans (Nat.zero_le 1), released.trans acquired.symm⟩
  exact inv.quietly here (List.forall_mem_nil _) (List.forall_mem_nil _) stands
    fun _ _ _ known => known

/-- A new request has no mark. -/
theorem Inv.request {s : WebhookServer} (inv : s.Inv crypto opts) {r : Request}
    (stands : r.Stands crypto opts s.log s.requests.length) :
    Inv crypto opts { s with requests := s.requests ++ [r] } where
  once := inv.once
  acknowledged := inv.acknowledged
  signed i webhook time mem := by
    obtain ⟨x, there, known⟩ := inv.signed i webhook time mem
    exact ⟨x, List.getElem?_append_left (inv.below _ mem) ▸ there, known⟩
  below m mem := (inv.below m mem).trans_le (by rw [List.length_append]; exact Nat.le_add_right _ _)
  stands i x there := by
    rcases Nat.lt_or_ge i s.requests.length with early | late
    · rw [List.getElem?_append_left early] at there
      exact inv.stands i x there
    · rw [List.getElem?_append_right late, List.getElem?_singleton] at there
      split at there
      · rename_i first
        cases there
        rw [Nat.le_antisymm (Nat.sub_eq_zero_iff_le.mp first) late]
        exact stands
      · cases there
  cached := inv.cached
  recent := inv.recent

theorem Inv.step (apart : crypto.Collisionless) {s s' : WebhookServer} {e : ServerEvent}
    (inv : s.Inv crypto opts) (careful : Careful crypto opts s e)
    (fire : s.step crypto opts e = some s') : s'.Inv crypto opts := by
  cases e with
  | clock now =>
      unfold WebhookServer.step at fire
      dsimp only at fire
      split at fire
      · rename_i later
        cases fire
        exact { inv with
          recent := fun i webhook time mem young =>
            inv.recent i webhook time mem ((Int.sub_le_sub_right later time).trans_lt young) }
      · cases fire
  | evict =>
      cases fire
      exact { inv with
        cached := fun key time there => inv.cached key time (Option.filter_eq_some_iff.mp there).1
        recent := by
          intro i webhook time mem young
          have within : s.now - time < opts.idempotencyTtlMs := young
          exact Option.filter_eq_some_iff.mpr
            ⟨inv.recent i webhook time mem within, decide_eq_true (by omega)⟩ }
  | request method url signature =>
      cases fire
      have absent : ∀ m ∈ s.log, m.request ≠ s.requests.length := fun m mem =>
        (inv.below m mem).ne
      refine inv.request ?_
      cases routed : opts.route method url with
      | ok sub => exact ⟨routed, rfl, absent⟩
      | error reply =>
          obtain ⟨acquired, released⟩ := count_of_absent absent
          exact ⟨acquired.le.trans (Nat.zero_le 1), released.trans acquired.symm⟩
  | data i chunk =>
      obtain ⟨⟨r, sub⟩, waits, rfl⟩ := Option.map_eq_some_iff.mp fire
      obtain ⟨here, place⟩ := waiting_eq waits
      have stands := inv.stands i r here
      unfold Request.Stands at stands
      rw [forBody_eq place] at stands
      obtain ⟨routed, slot, absent⟩ := stands
      dsimp only
      split
      · exact inv.reply here absent .bodyTooLarge
      · refine inv.quietly here (List.forall_mem_nil _) (List.forall_mem_nil _) ?_
          fun webhook time mem => absurd rfl (absent _ mem)
        unfold Request.Stands
        dsimp only
        rw [forBody_eq place]
        exact ⟨routed, slot, absent⟩
  | bodyEnd i =>
      obtain ⟨⟨r, sub⟩, waits, rfl⟩ := Option.map_eq_some_iff.mp fire
      obtain ⟨here, place⟩ := waiting_eq waits
      have stands := inv.stands i r here
      unfold Request.Stands at stands
      rw [forBody_eq place] at stands
      obtain ⟨routed, slot, absent⟩ := stands
      dsimp only
      unfold WebhookServer.handleBody
      split
      · exact inv.reply here absent .invalidSignature
      · rename_i accepted
        rw [not_not] at accepted
        have hmac := (verifyHmac_cases accepted).resolve_right (careful.digits i rfl r sub waits)
        split
        · exact inv.quietly here (List.forall_mem_nil _) (List.forall_mem_nil _)
            ⟨routed, hmac, slot, absent⟩ fun _ _ _ known => known
        · rename_i unlimited
          have admits : s.admits crypto opts (.bodyEnd i) = some ⟨sub.id, r.received⟩ := by
            rw [WebhookServer.admits, waits, Option.bind_some]
            exact if_pos ⟨accepted, unlimited⟩
          obtain ⟨acquired, released⟩ := count_of_absent absent
          have holds : r.Holds ([] ++ s.log) i := by
            refine ⟨acquired.trans ?_, released⟩
            rw [slot]
            rfl
          exact inv.handleAfterRateLimit apart here absent ⟨sub, routed, rfl, hmac⟩
            (List.forall_mem_nil _) (List.forall_mem_nil _) (fun j mem => by cases mem) holds
            (careful.notFailed _ admits)
  | bodyError i =>
      obtain ⟨⟨r, sub⟩, waits, rfl⟩ := Option.map_eq_some_iff.mp fire
      obtain ⟨here, place⟩ := waiting_eq waits
      have stands := inv.stands i r here
      unfold Request.Stands at stands
      rw [forBody_eq place] at stands
      exact inv.reply here stands.2.2 .internalError
  | checked i allowed =>
      obtain ⟨⟨r, sub⟩, waits, rfl⟩ := Option.map_eq_some_iff.mp fire
      obtain ⟨here, place⟩ := waiting_eq waits
      have stands := inv.stands i r here
      unfold Request.Stands at stands
      rw [forCheck_eq place] at stands
      obtain ⟨routed, hmac, slot, absent⟩ := stands
      dsimp only
      split
      · exact inv.reply here absent .internalError
      · exact inv.reply here absent .rateLimitExceeded
      · have admits : s.admits crypto opts (.checked i (some true)) =
            some ⟨sub.id, r.received⟩ := by
          rw [WebhookServer.admits, waits, Option.map_some]
        obtain ⟨acquired, released⟩ := count_of_absent absent
        have holds : Request.Holds { r with acquiredSlot := true } ([.acquired i] ++ s.log) i := by
          refine ⟨?_, (List.count_cons_of_ne (fun same => by cases same)).trans released⟩
          rw [List.singleton_append, List.count_cons_self, acquired]
          rfl
        exact inv.handleAfterRateLimit apart here absent ⟨sub, routed, rfl, hmac⟩
          (List.forall_mem_singleton.mpr rfl) (List.forall_mem_singleton.mpr rfl)
          (fun j mem => by cases List.mem_singleton.mp mem) holds (careful.notFailed _ admits)
  | handled i failed =>
      obtain ⟨⟨r, sub⟩, waits, rfl⟩ := Option.map_eq_some_iff.mp fire
      obtain ⟨here, place⟩ := waiting_eq waits
      have stands := inv.stands i r here
      unfold Request.Stands at stands
      rw [forHandling_eq place] at stands
      dsimp only
      split
      · exact inv.finish_quietly here (List.forall_mem_singleton.mpr rfl)
          (List.forall_mem_singleton.mpr rfl) (holds_cons (m := .failed i) stands ⟨nofun, nofun⟩) .internalError
      · exact inv.finish_quietly here (List.forall_mem_nil _) (List.forall_mem_nil _) stands .accepted
  | released i =>
      obtain ⟨⟨r, reply⟩, waits, rfl⟩ := Option.map_eq_some_iff.mp fire
      obtain ⟨here, place⟩ := waiting_eq waits
      have stands := inv.stands i r here
      unfold Request.Stands at stands
      rw [forRelease_eq place] at stands
      exact inv.quietly here (List.forall_mem_nil _) (List.forall_mem_nil _) stands
        fun _ _ _ known => known

theorem inv_init (start : Int) : Inv crypto opts { now := start } where
  once i webhook time before suffix := by cases List.eq_nil_of_suffix_nil suffix
  acknowledged i webhook before suffix := by cases List.eq_nil_of_suffix_nil suffix
  signed i webhook time mem := by cases mem
  below m mem := by cases mem
  stands i r here := by cases here
  cached key time there := by cases there
  recent i webhook time mem := by cases mem

end WebhookServer

/-- Where no webhook comes again after a failed dispatch, and no signature has a digit too many,
webhooks are dispatched once, answered truly, signed, and give their slots back. -/
theorem right_of_careful (apart : crypto.Collisionless) {start : Int} {s : WebhookServer}
    (run : Steps (WebhookServer.step crypto opts) (Careful crypto opts) { now := start } s) :
    s.Right crypto opts := by
  have inv : s.Inv crypto opts :=
    run.invariant (WebhookServer.inv_init start) fun _ _ _ inv careful fire =>
      inv.step apart careful fire
  exact inv.right

/-! ## A webhook that is sent twice -/

/-- `{"n":1}` -/
def payload : List UInt8 := [123, 34, 110, 34, 58, 49, 125]

/-- The digests of the payload. -/
def listedCrypto : Crypto where
  sha256 body :=
    if body = payload then "2bfd14f43d17fc7cea24e0917a8879b4b2f880b8baeec1b9d90fbaad655e71bd"
    else String.ofList ('x' :: Hex.encode body)
  hmac secret body :=
    if secret = "whsec-1" ∧ body = payload then
      Hex.decode "64a7708de84b146768f1aba5a72213ce0c7c38c4a7a9ecada94e6cb9f580bfea".toList
    else []

def payloadSignature : String :=
  "sha256=64a7708de84b146768f1aba5a72213ce0c7c38c4a7a9ecada94e6cb9f580bfea"

theorem listed_ne (bytes : List UInt8) :
    "2bfd14f43d17fc7cea24e0917a8879b4b2f880b8baeec1b9d90fbaad655e71bd" ≠
      String.ofList ('x' :: Hex.encode bytes) := by
  intro same
  have head : "2bfd14f43d17fc7cea24e0917a8879b4b2f880b8baeec1b9d90fbaad655e71bd".toList.head? =
      some '2' := by decide +kernel
  rw [same, String.toList_ofList] at head
  cases head

theorem hexDigit_ne_colon : ∀ x < 16, Json.hexDigit x ≠ ':' := by decide

theorem collisionless_listedCrypto : listedCrypto.Collisionless where
  injective body body' same := by
    unfold listedCrypto at same
    dsimp only at same
    split at same <;> split at same
    · rename_i here here'
      exact here.trans here'.symm
    · exact absurd same (listed_ne body')
    · exact absurd same.symm (listed_ne body)
    · have text := congrArg String.toList same
      rw [String.toList_ofList, String.toList_ofList] at text
      exact Hex.encode_injective (List.cons.inj text).2
  digits body := by
    unfold listedCrypto
    dsimp only
    split
    · decide +kernel
    · rw [String.toList_ofList]
      intro mem
      rcases List.mem_cons.mp mem with first | mem
      · cases first
      · obtain ⟨x, small, colon⟩ := Hex.digit_of_mem_encode mem
        exact hexDigit_ne_colon x small colon.symm

def intake : WebhookServerOpts where
  subscriptions := [{ id := "orders", signingSecret := "whsec-1", rateLimit := true }]
  rateLimiter := true

def sendPayload (i : Nat) (signature : String) : List ServerEvent :=
  [.request "POST" "/webhook/orders" (some signature), .data i payload, .bodyEnd i,
    .checked i (some true)]

/-- The second request comes while the webhook of the first is dispatched. -/
def sentTwice : List ServerEvent :=
  sendPayload 0 payloadSignature ++ sendPayload 1 payloadSignature ++
    [.handled 0 false, .released 0, .released 1]

/-- Every request has the signature of the payload, and nothing has failed. -/
def plain (s : WebhookServer) (_ : ServerEvent) : Bool :=
  s.requests.all (fun r => r.signature = some payloadSignature) &&
    s.log.all fun m => !(m matches .failed _)

theorem careful_of_plain {s : WebhookServer} {e : ServerEvent} (fine : plain s e = true) :
    Careful listedCrypto intake s e := by
  obtain ⟨signatures, noFailure⟩ := Bool.and_eq_true_iff.mp fine
  constructor
  · intro webhook _ j time _ _ failed
    cases List.all_eq_true.mp noFailure _ failed
  · rintro i rfl r sub waits ⟨digits, read, c, more⟩
    obtain ⟨here, _⟩ := WebhookServer.waiting_eq waits
    have signature := of_decide_eq_true
      (List.all_eq_true.mp signatures r (List.mem_of_getElem? here))
    rw [signature, Option.getD_some] at read
    have length : (signatureDigits payloadSignature).map List.length = some 64 := by decide +kernel
    rw [read, Option.map_some] at length
    -- one digit more would make their number odd
    have odd := congrArg List.length more
    rw [List.length_map, List.length_append, Hex.length_encode, List.length_singleton,
      Option.some.inj length] at odd
    omega

theorem right_of_careful_twice : ∃ s,
    Steps (WebhookServer.step listedCrypto intake) (Careful listedCrypto intake) { now := 0 } s ∧
      s.log = [.released 0, .released 1, .idempotent 1 ⟨"orders", payload⟩, .acquired 1,
        .dispatched 0 ⟨"orders", payload⟩ 0, .acquired 0] ∧
      s.Right listedCrypto intake := by
  have replay : (runWhile (WebhookServer.step listedCrypto intake) plain { now := 0 }
      sentTwice).any (fun s => s.log = [.released 0, .released 1, .idempotent 1 ⟨"orders", payload⟩,
        .acquired 1, .dispatched 0 ⟨"orders", payload⟩ 0, .acquired 0]) = true := by decide +kernel
  obtain ⟨s, done, log⟩ := (Option.any_eq_true _ _).mp replay
  have run := Steps.of_runWhile (fun _ _ fine => careful_of_plain fine) done
  exact ⟨s, run, of_decide_eq_true log, right_of_careful collisionless_listedCrypto run⟩

/-- The dispatch fails, and the sender tries again. -/
def sentAfterFailure : List ServerEvent :=
  sendPayload 0 payloadSignature ++ [.handled 0 true, .released 0] ++
    sendPayload 1 payloadSignature

theorem failed_dispatch_acknowledged : ∃ s,
    Steps (WebhookServer.step listedCrypto intake) AnyStep { now := 0 } s ∧
      ¬ Acknowledged s.log := by
  have replay : (runWhile (WebhookServer.step listedCrypto intake) (fun _ _ => true) { now := 0 }
      sentAfterFailure).any (fun s => s.log = [.released 1, .idempotent 1 ⟨"orders", payload⟩,
        .acquired 1, .released 0, .failed 0, .dispatched 0 ⟨"orders", payload⟩ 0,
        .acquired 0]) = true := by decide +kernel
  obtain ⟨s, done, log⟩ := (Option.any_eq_true _ _).mp replay
  refine ⟨s, .of_runWhile (fun _ _ _ => trivial) done, fun acknowledged => ?_⟩
  rw [of_decide_eq_true log] at acknowledged
  obtain ⟨j, time, _, dispatched, notFailed⟩ :=
    acknowledged 1 ⟨"orders", payload⟩ _ (List.suffix_cons _ _)
  obtain ⟨rfl, _⟩ : j = 0 ∧ time = 0 := by simpa using dispatched
  exact notFailed (by decide)

/-- A header with one digit more than the code is accepted. -/
theorem extra_digit_dispatched : ∃ s,
    Steps (WebhookServer.step listedCrypto intake) AnyStep { now := 0 } s ∧
      .dispatched 0 ⟨"orders", payload⟩ 0 ∈ s.log ∧
      ∀ r : Request, s.requests[0]? = some r →
        ¬ r.Signed listedCrypto intake ⟨"orders", payload⟩ := by
  have replay : (runWhile (WebhookServer.step listedCrypto intake) (fun _ _ => true) { now := 0 }
      (sendPayload 0 (payloadSignature ++ "0"))).any (fun s =>
        .dispatched 0 ⟨"orders", payload⟩ 0 ∈ s.log ∧
        s.requests[0]?.all fun r => r.signature = some (payloadSignature ++ "0")) = true := by
    decide +kernel
  obtain ⟨s, done, ends⟩ := (Option.any_eq_true _ _).mp replay
  obtain ⟨dispatched, signatures⟩ := of_decide_eq_true ends
  refine ⟨s, .of_runWhile (fun _ _ _ => trivial) done, dispatched, fun r here signed => ?_⟩
  rw [here, Option.all_some] at signatures
  obtain ⟨sub, _, _, digits, read, whole⟩ := signed
  rw [of_decide_eq_true signatures, Option.getD_some] at read
  have length : (signatureDigits (payloadSignature ++ "0")).map List.length = some 65 := by
    decide +kernel
  rw [read, Option.map_some] at length
  have even := congrArg List.length whole
  rw [List.length_map, Hex.length_encode, Option.some.inj length] at even
  omega

end Opensquid.Runtime
