import Opensquid.Lib.Utf8
import Opensquid.Lib.Whitespace
import Opensquid.Mcp.IpAddress

/-!
# Fetching a page

Each attempt looks the host up, picks the first address that is not blocked and sends its request to
that address; a redirect starts the next attempt from its own URL, which is checked and looked up
again. Parsing of URLs, resolver, servers and decoders are the environment's.

`webFetch_guarded`: whatever the environment answers, every request goes to an address of the last
lookup that is not blocked, for an `http` or `https` URL without credentials, and a result has the
content type of the last answer, an allowed one, and its whole body, within the limits and decoded as
its content encoding says.
-/

namespace Opensquid.WebFetch

open Opensquid.Lib

/-! ## URLs and addresses -/

structure Url where
  protocol : String
  username : String
  password : String
  hostname : String
  href : String

/-- The family is what a resolver gives. -/
structure PinnedAddress where
  address : List Char
  family : Nat

/-- A header as the client hands it over. -/
inductive Header
  | absent
  | one (value : String)
  | many (values : List String)

def getSingleHeader : Header → Option String
  | .absent => none
  | .one value => some value
  | .many values => values.head?

/-- What happens to a body that is read, in the order of the listeners' calls. -/
inductive BodyEvent
  | encoded (chunk : List UInt8)
  | decoded (chunk : List UInt8)
  | encodedEnd
  | decodedEnd
  | encodedError (message : String)
  | decodedError (message : String)
  | readTimeout
  | requestTimeout

structure PinnedHttpResponse where
  statusCode : Nat
  location : Header
  contentType : Header
  contentEncoding : Header
  body : List BodyEvent

/-- The world of one call; lookups and requests by the number of the attempt. -/
structure FetchEnv where
  parseUrl : String → Except String Url
  resolveUrl : String → Url → Except String Url
  lookup : Nat → String → Except String (List PinnedAddress)
  request : Nat → Url → PinnedAddress → Except String PinnedHttpResponse

def MAX_REDIRECTS : Nat := 5

def MAX_ENCODED_BYTES : Nat := 2 * 1024 * 1024

def MAX_DECODED_BYTES : Nat := 4 * 1024 * 1024

def parsePublicHttpUrl (env : FetchEnv) (urlText : String) : Except String Url :=
  match env.parseUrl urlText with
  | .error error => .error ("web_fetch: invalid URL (" ++ error ++ ")")
  | .ok url =>
      if url.protocol ≠ "http:" ∧ url.protocol ≠ "https:" then
        .error "web_fetch: only http and https URLs are allowed"
      else if url.username ≠ "" ∨ url.password ≠ "" then
        .error "web_fetch: URL credentials are forbidden"
      else if trim url.hostname.toList = [] then .error "web_fetch: hostname is required"
      else .ok url

def validatePinnedAddress (address : PinnedAddress) : Except String PinnedAddress :=
  if address.family ≠ 4 ∧ address.family ≠ 6 then
    .error ("web_fetch: invalid resolver family " ++ toString address.family)
  else if trim address.address = [] then .error "web_fetch: invalid resolver address"
  else if address.family = 4 then (ip4 address.address).map fun _ => address
  else (parseIpv6 address.address).map fun _ => address

def isBlocked (address : PinnedAddress) : Except String Bool :=
  if address.family = 4 then isBlockedIpv4 address.address
  else if address.family = 6 then isBlockedIpv6 address.address
  else .ok false

def chooseValidatedPublicAddress : List PinnedAddress → Except String PinnedAddress
  | [] => .error "web_fetch: no public IP address resolved"
  | candidate :: rest => do
      let address ← validatePinnedAddress candidate
      if ← isBlocked address then chooseValidatedPublicAddress rest else return address

/-! ## Bodies -/

def encodedLimit : String :=
  "web_fetch: encoded body exceeds " ++ toString MAX_ENCODED_BYTES ++ " bytes"

def decodedLimit : String :=
  "web_fetch: decoded body exceeds " ++ toString MAX_DECODED_BYTES ++ " bytes"

def readTimedOut : String := "web_fetch: read timed out after 10000ms"

def requestTimedOut : String := "web_fetch: request timed out after 10000ms"

/-- A body that is not encoded; where no event comes any more the read timer does. -/
def collectIdentityBody (total : Nat) (chunks : List UInt8) :
    List BodyEvent → Except String (List UInt8)
  | [] => .error readTimedOut
  | event :: rest =>
      match event with
      | .encoded chunk =>
          let total := total + chunk.length
          if MAX_ENCODED_BYTES < total then .error encodedLimit
          else if MAX_DECODED_BYTES < total then .error decodedLimit
          else collectIdentityBody total (chunks ++ chunk) rest
      | .encodedEnd => .ok chunks
      | .encodedError message => .error message
      | .readTimeout => .error readTimedOut
      | .requestTimeout => .error requestTimedOut
      | .decoded _ | .decodedEnd | .decodedError _ => collectIdentityBody total chunks rest

def collectDecodedBody (encoding : String) (encodedTotal decodedTotal : Nat)
    (chunks : List UInt8) : List BodyEvent → Except String (List UInt8)
  | [] => .error readTimedOut
  | event :: rest =>
      match event with
      | .encoded chunk =>
          let encodedTotal := encodedTotal + chunk.length
          if MAX_ENCODED_BYTES < encodedTotal then .error encodedLimit
          else collectDecodedBody encoding encodedTotal decodedTotal chunks rest
      | .decoded chunk =>
          let decodedTotal := decodedTotal + chunk.length
          if MAX_DECODED_BYTES < decodedTotal then .error decodedLimit
          else collectDecodedBody encoding encodedTotal decodedTotal (chunks ++ chunk) rest
      | .decodedEnd => .ok chunks
      | .encodedError message => .error message
      | .decodedError message =>
          .error ("web_fetch: failed to decode " ++ encoding ++ " body (" ++ message ++ ")")
      | .readTimeout => .error readTimedOut
      | .requestTimeout => .error requestTimedOut
      | .encodedEnd => collectDecodedBody encoding encodedTotal decodedTotal chunks rest

def decodeBodyStream (response : PinnedHttpResponse) (encoding : String) :
    Except String (List UInt8) :=
  if encoding = "identity" ∨ encoding = "" then collectIdentityBody 0 [] response.body
  else if encoding = "gzip" ∨ encoding = "br" ∨ encoding = "deflate" then
    collectDecodedBody encoding 0 0 [] response.body
  else .error ("web_fetch: unsupported content-encoding " ++ encoding)

/-- `value.trim().toLowerCase()`. -/
def trimLower (value : List Char) : String := String.ofList ((trim value).map Char.toLower)

def normalizeContentType : Option String → String
  | none => ""
  | some value => trimLower (value.toList.takeWhile (· != ';'))

def isAllowedContentType (contentType : String) : Bool :=
  "text/".toList.isPrefixOf contentType.toList || contentType == "application/json" ||
    "+json".toList.isSuffixOf contentType.toList || contentType == "application/xml" ||
    contentType == "text/xml" || "+xml".toList.isSuffixOf contentType.toList

structure WebFetchResult where
  url : String
  statusCode : Nat
  contentType : String
  text : List Char
  redirects : List String

def decodeAllowedText (url : Url) (response : PinnedHttpResponse) (redirects : List String) :
    Except String WebFetchResult :=
  let contentType := normalizeContentType (getSingleHeader response.contentType)
  if isAllowedContentType contentType = false then
    .error ("web_fetch: unsupported content-type " ++
      if contentType = "" then "(missing)" else contentType)
  else
    let contentEncoding :=
      trimLower ((getSingleHeader response.contentEncoding).getD "identity").toList
    (decodeBodyStream response contentEncoding).map fun decoded =>
      ⟨url.href, response.statusCode, contentType, Utf8.decode decoded, redirects⟩

/-! ## Attempts -/

def isRedirect (statusCode : Nat) : Bool := statusCode ∈ [301, 302, 303, 307, 308]

inductive Outcome
  | redirect (url : Url)
  | result (result : WebFetchResult)

def executeAttempt (env : FetchEnv) (count : Nat) (url : Url) (address : PinnedAddress)
    (redirects : List String) : Except String Outcome := do
  let response ← env.request count url address
  if isRedirect response.statusCode then
    match getSingleHeader response.location with
    | none => .error "web_fetch: redirect missing location header"
    | some location => return .redirect (← env.resolveUrl location url)
  else return .result (← decodeAllowedText url response redirects)

/-- A request that was sent. -/
structure FetchRequest where
  count : Nat
  url : Url
  address : PinnedAddress

def pickAddress (env : FetchEnv) (count : Nat) (url : Url) : Except String PinnedAddress := do
  chooseValidatedPublicAddress (← env.lookup count url.hostname)

/-- At most so many attempts; the result with the requests that were sent. -/
def attempts (env : FetchEnv) : Nat → Nat → Url → List String →
    Except String WebFetchResult × List FetchRequest
  | 0, _, _, _ => (.error "web_fetch: redirect limit exceeded", [])
  | left + 1, count, current, redirects =>
      match pickAddress env count current with
      | .error error => (.error error, [])
      | .ok address =>
          let sent : FetchRequest := ⟨count, current, address⟩
          match executeAttempt env count current address redirects with
          | .error error => (.error error, [sent])
          | .ok (.result result) => (.ok result, [sent])
          | .ok (.redirect url) =>
              match parsePublicHttpUrl env url.href with
              | .error error => (.error error, [sent])
              | .ok next =>
                  let (result, requests) :=
                    attempts env left (count + 1) next (redirects ++ [current.href])
                  (result, sent :: requests)

def webFetch (env : FetchEnv) (urlText : String) :
    Except String WebFetchResult × List FetchRequest :=
  match parsePublicHttpUrl env urlText with
  | .error error => (.error error, [])
  | .ok url => attempts env (MAX_REDIRECTS + 1) 0 url []

/-! ## What is sent -/

section

variable {env : FetchEnv} {url : Url} {address : PinnedAddress} {answers : List PinnedAddress}

/-- An address that is read and lies in no blocked block. -/
def PinnedAddress.Public (address : PinnedAddress) : Prop :=
  (address.family = 4 ∧ ∃ n, Ipv4Text address.address n ∧ ¬ BlockedIpv4 n) ∨
    (address.family = 6 ∧ ∃ groups, Ipv6Text (address.address.map Char.toLower) groups ∧
      ¬ BlockedIpv6 (ipv6Value groups))

/-- An address that is read and lies in a blocked block. -/
def PinnedAddress.Blocked (address : PinnedAddress) : Prop :=
  (address.family = 4 ∧ ∃ n, Ipv4Text address.address n ∧ BlockedIpv4 n) ∨
    (address.family = 6 ∧ ∃ groups, Ipv6Text (address.address.map Char.toLower) groups ∧
      BlockedIpv6 (ipv6Value groups))

def Url.Allowed (url : Url) : Prop :=
  (url.protocol = "http:" ∨ url.protocol = "https:") ∧ url.username = "" ∧ url.password = ""

theorem parsePublicHttpUrl_allowed {text : String}
    (parsed : parsePublicHttpUrl env text = .ok url) : url.Allowed := by
  unfold parsePublicHttpUrl at parsed
  split at parsed
  · cases parsed
  split at parsed
  · cases parsed
  next protocol =>
    split at parsed
    · cases parsed
    next credentials =>
      split at parsed
      · cases parsed
      · obtain rfl := Except.ok.inj parsed
        exact ⟨by tauto, by tauto, by tauto⟩

/-- An address that passes the check is public or blocked, and `isBlocked` tells which. -/
theorem isBlocked_of_valid {candidate : PinnedAddress}
    (valid : validatePinnedAddress candidate = .ok address) :
    address = candidate ∧ ((isBlocked address = .ok true ∧ address.Blocked) ∨
      (isBlocked address = .ok false ∧ address.Public)) := by
  unfold validatePinnedAddress at valid
  split at valid
  · cases valid
  next family =>
    split at valid
    · cases valid
    split at valid
    next four =>
      rcases read : ip4 candidate.address with error | n
      · rw [read] at valid
        cases valid
      · rw [read] at valid
        obtain rfl := Except.ok.inj valid
        refine ⟨rfl, ?_⟩
        unfold isBlocked
        rw [if_pos four, isBlockedIpv4_eq (ip4_iff.mp read)]
        by_cases blocked : BlockedIpv4 n
        · exact .inl ⟨by rw [decide_eq_true blocked], .inl ⟨four, n, ip4_iff.mp read, blocked⟩⟩
        · exact .inr ⟨by rw [decide_eq_false blocked], .inl ⟨four, n, ip4_iff.mp read, blocked⟩⟩
    next four =>
      have six : candidate.family = 6 := by tauto
      rcases read : parseIpv6 candidate.address with error | bytes
      · rw [read] at valid
        cases valid
      · rw [read] at valid
        obtain rfl := Except.ok.inj valid
        obtain ⟨groups, reads, -⟩ := parseIpv6_iff.mp read
        refine ⟨rfl, ?_⟩
        unfold isBlocked
        rw [if_neg four, if_pos six, isBlockedIpv6_eq reads]
        by_cases blocked : BlockedIpv6 (ipv6Value groups)
        · exact .inl ⟨by rw [decide_eq_true blocked], .inr ⟨six, groups, reads, blocked⟩⟩
        · exact .inr ⟨by rw [decide_eq_false blocked], .inr ⟨six, groups, reads, blocked⟩⟩

/-- The choice is the first address that is not blocked. -/
theorem chooseValidatedPublicAddress_ok
    (chosen : chooseValidatedPublicAddress answers = .ok address) :
    ∃ before after, answers = before ++ address :: after ∧
      (∀ candidate ∈ before, candidate.Blocked) ∧ address.Public := by
  induction answers with
  | nil => cases chosen
  | cons candidate rest ih =>
      obtain ⟨valid, validated, rest_chosen⟩ := bind_ok_iff.mp chosen
      obtain ⟨rfl, ⟨isTrue, blocked⟩ | ⟨isFalse, reachable⟩⟩ := isBlocked_of_valid validated
      · rw [isTrue] at rest_chosen
        obtain ⟨before, after, rfl, all, reachable⟩ := ih rest_chosen
        exact ⟨valid :: before, after, rfl, List.forall_mem_cons.mpr ⟨blocked, all⟩, reachable⟩
      · rw [isFalse] at rest_chosen
        obtain rfl := Except.ok.inj rest_chosen
        exact ⟨[], rest, rfl, List.forall_mem_nil _, reachable⟩

/-! ## What is read -/

def BodyEvent.encodedBytes : BodyEvent → List UInt8
  | .encoded chunk => chunk
  | _ => []

def BodyEvent.decodedBytes : BodyEvent → List UInt8
  | .decoded chunk => chunk
  | _ => []

/-- What is collected are the chunks before the end. -/
theorem collectIdentityBody_ok {total : Nat} {chunks bytes : List UInt8} {events : List BodyEvent}
    (collected : collectIdentityBody total chunks events = .ok bytes)
    (within : total ≤ MAX_ENCODED_BYTES) (counted : total = chunks.length) :
    ∃ before after, events = before ++ .encodedEnd :: after ∧
      bytes = chunks ++ before.flatMap BodyEvent.encodedBytes ∧
      bytes.length ≤ MAX_ENCODED_BYTES := by
  induction events generalizing total chunks with
  | nil => cases collected
  | cons event rest ih =>
      have skipped (event : BodyEvent) (silent : event.encodedBytes = [])
          (collected : collectIdentityBody total chunks rest = .ok bytes) :
          ∃ before after, event :: rest = before ++ .encodedEnd :: after ∧
            bytes = chunks ++ before.flatMap BodyEvent.encodedBytes ∧
            bytes.length ≤ MAX_ENCODED_BYTES := by
        obtain ⟨before, after, rfl, same, few⟩ := ih collected within counted
        exact ⟨event :: before, after, rfl, by rw [List.flatMap_cons, silent]; exact same, few⟩
      unfold collectIdentityBody at collected
      cases event with
      | encoded chunk =>
          dsimp only at collected
          split at collected
          · cases collected
          split at collected
          · cases collected
          next few _ =>
            obtain ⟨before, after, rfl, same, few⟩ := ih collected (Nat.le_of_not_lt few)
              (by rw [List.length_append, counted])
            refine ⟨.encoded chunk :: before, after, rfl, ?_, few⟩
            rw [same, List.append_assoc]
            rfl
      | encodedEnd =>
          obtain rfl := Except.ok.inj collected
          exact ⟨[], rest, rfl, (List.append_nil _).symm, counted ▸ within⟩
      | encodedError message => cases collected
      | readTimeout => cases collected
      | requestTimeout => cases collected
      | decoded chunk => exact skipped _ rfl collected
      | decodedEnd => exact skipped _ rfl collected
      | decodedError message => exact skipped _ rfl collected

theorem collectDecodedBody_ok {encoding : String} {encodedTotal decodedTotal : Nat}
    {chunks bytes : List UInt8} {events : List BodyEvent}
    (collected : collectDecodedBody encoding encodedTotal decodedTotal chunks events = .ok bytes)
    (within : encodedTotal ≤ MAX_ENCODED_BYTES) (room : decodedTotal ≤ MAX_DECODED_BYTES)
    (counted : decodedTotal = chunks.length) :
    ∃ before after, events = before ++ .decodedEnd :: after ∧
      bytes = chunks ++ before.flatMap BodyEvent.decodedBytes ∧
      bytes.length ≤ MAX_DECODED_BYTES ∧
      encodedTotal + (before.flatMap BodyEvent.encodedBytes).length ≤ MAX_ENCODED_BYTES := by
  induction events generalizing encodedTotal decodedTotal chunks with
  | nil => cases collected
  | cons event rest ih =>
      unfold collectDecodedBody at collected
      cases event with
      | encoded chunk =>
          dsimp only at collected
          split at collected
          · cases collected
          next few =>
            obtain ⟨before, after, rfl, same, small, inside⟩ :=
              ih collected (Nat.le_of_not_lt few) room counted
            refine ⟨.encoded chunk :: before, after, rfl, same, small, ?_⟩
            rw [List.flatMap_cons, List.length_append, ← Nat.add_assoc]
            exact inside
      | decoded chunk =>
          dsimp only at collected
          split at collected
          · cases collected
          next few =>
            obtain ⟨before, after, rfl, same, small, inside⟩ :=
              ih collected within (Nat.le_of_not_lt few) (by rw [List.length_append, counted])
            refine ⟨.decoded chunk :: before, after, rfl, ?_, small, inside⟩
            rw [same, List.append_assoc]
            rfl
      | decodedEnd =>
          obtain rfl := Except.ok.inj collected
          exact ⟨[], rest, rfl, (List.append_nil _).symm, counted ▸ room, within⟩
      | encodedError message => cases collected
      | decodedError message => cases collected
      | readTimeout => cases collected
      | requestTimeout => cases collected
      | encodedEnd =>
          obtain ⟨before, after, rfl, same, small, inside⟩ := ih collected within room counted
          exact ⟨.encodedEnd :: before, after, rfl, same, small, inside⟩

/-- A whole body: what its chunks hold up to the end, within the limit. They are the server's if
the body is not encoded, else the decoder's. -/
def WholeBody (encoding : String) (events : List BodyEvent) (bytes : List UInt8) : Prop :=
  (encoding ∈ ["identity", ""] ∧ ∃ before after, events = before ++ .encodedEnd :: after ∧
    bytes = before.flatMap BodyEvent.encodedBytes ∧ bytes.length ≤ MAX_ENCODED_BYTES) ∨
  encoding ∈ ["gzip", "br", "deflate"] ∧ ∃ before after, events = before ++ .decodedEnd :: after ∧
    bytes = before.flatMap BodyEvent.decodedBytes ∧ bytes.length ≤ MAX_DECODED_BYTES ∧
    (before.flatMap BodyEvent.encodedBytes).length ≤ MAX_ENCODED_BYTES

theorem decodeBodyStream_ok {response : PinnedHttpResponse} {encoding : String}
    {bytes : List UInt8} (decoded : decodeBodyStream response encoding = .ok bytes) :
    WholeBody encoding response.body bytes := by
  unfold decodeBodyStream at decoded
  split at decoded
  next identity =>
    exact .inl ⟨by simpa using identity, collectIdentityBody_ok decoded (Nat.zero_le _) rfl⟩
  split at decoded
  next known =>
    obtain ⟨before, after, same, all, few, within⟩ :=
      collectDecodedBody_ok decoded (Nat.zero_le _) (Nat.zero_le _) rfl
    exact .inr ⟨by simpa using known, before, after, same, all, few,
      by rwa [Nat.zero_add] at within⟩
  · cases decoded

/-- The text is the header's value up to a semicolon, trimmed and in lower case; a header that is
not there has the empty text. -/
def MediaType (contentType : String) : Option String → Prop
  | none => contentType = ""
  | some value => ∃ media parameters, value.toList = media ++ parameters ∧ ';' ∉ media ∧
      (∀ c ∈ parameters.head?, c = ';') ∧
      contentType.toList = (trim media).map Char.toLower

theorem mediaType_normalized (header : Option String) :
    MediaType (normalizeContentType header) header := by
  cases header with
  | none => rfl
  | some value =>
      refine ⟨value.toList.takeWhile (· != ';'), value.toList.dropWhile (· != ';'),
        (List.takeWhile_append_dropWhile).symm, fun held => ?_, fun c first => ?_,
        String.toList_ofList⟩
      · exact absurd (@List.mem_takeWhile_imp _ (· != ';') _ _ held) (by decide)
      · have stops := List.head?_dropWhile_not (· != ';') value.toList
        rw [Option.mem_def.mp first] at stops
        simpa using stops

/-! ## A call -/

/-- The answer to the last request. -/
structure Answers (env : FetchEnv) (last : FetchRequest) (result : WebFetchResult) : Prop where
  url : result.url = last.url.href
  allowed : isAllowedContentType result.contentType = true
  answered : ∃ response bytes, env.request last.count last.url last.address = .ok response ∧
    isRedirect response.statusCode = false ∧ result.statusCode = response.statusCode ∧
    MediaType result.contentType (getSingleHeader response.contentType) ∧
    WholeBody (trimLower ((getSingleHeader response.contentEncoding).getD "identity").toList)
      response.body bytes ∧
    result.text = Utf8.decode bytes

/-- A request that is guarded: its URL is allowed, and its address is the first public one that its
own lookup gave. -/
def FetchRequest.Guarded (env : FetchEnv) (request : FetchRequest) : Prop :=
  request.url.Allowed ∧ request.address.Public ∧
    ∃ before after, env.lookup request.count request.url.hostname =
        .ok (before ++ request.address :: after) ∧
      ∀ candidate ∈ before, candidate.Blocked

theorem executeAttempt_result {count : Nat} {redirects : List String} {result : WebFetchResult}
    (ran : executeAttempt env count url address redirects = .ok (.result result)) :
    Answers env ⟨count, url, address⟩ result ∧ result.redirects = redirects := by
  obtain ⟨response, responded, read⟩ := bind_ok_iff.mp ran
  split at read
  · split at read
    · cases read
    · obtain ⟨next, -, same⟩ := bind_ok_iff.mp read
      cases same
  next stays =>
    obtain ⟨page, decoded, same⟩ := bind_ok_iff.mp read
    obtain rfl := Outcome.result.inj (Except.ok.inj same)
    unfold decodeAllowedText at decoded
    dsimp only at decoded
    split at decoded
    · cases decoded
    next allowed =>
      rcases body : decodeBodyStream response
        (trimLower ((getSingleHeader response.contentEncoding).getD "identity").toList)
        with error | bytes
      · rw [body] at decoded
        cases decoded
      · rw [body] at decoded
        obtain rfl := Except.ok.inj decoded
        exact ⟨⟨rfl, Bool.not_eq_false _ ▸ allowed, response, bytes, responded,
          Bool.not_eq_true _ ▸ stays, rfl, mediaType_normalized _, decodeBodyStream_ok body, rfl⟩,
          rfl⟩

theorem pickAddress_ok {count : Nat} (picked : pickAddress env count url = .ok address) :
    address.Public ∧ ∃ before after,
      env.lookup count url.hostname = .ok (before ++ address :: after) ∧
        ∀ candidate ∈ before, candidate.Blocked := by
  obtain ⟨answers, looked, chosen⟩ := bind_ok_iff.mp picked
  obtain ⟨before, after, rfl, blocked, reachable⟩ := chooseValidatedPublicAddress_ok chosen
  exact ⟨reachable, before, after, looked, blocked⟩

theorem attempts_guarded (left count : Nat) (redirects : List String) (allowed : url.Allowed) :
    (attempts env left count url redirects).2.length ≤ left ∧
      (∀ request ∈ (attempts env left count url redirects).2, request.Guarded env) ∧
      ∀ result, (attempts env left count url redirects).1 = .ok result →
        ∃ before last, (attempts env left count url redirects).2 = before ++ [last] ∧
          Answers env last result ∧
          result.redirects = redirects ++ before.map fun request => request.url.href := by
  induction left generalizing count url redirects with
  | zero => exact ⟨Nat.le_refl 0, List.forall_mem_nil _, fun result done => by cases done⟩
  | succ left ih =>
      unfold attempts
      split
      · exact ⟨Nat.zero_le _, List.forall_mem_nil _, fun result done => by cases done⟩
      next address picked =>
        obtain ⟨reachable, lookup⟩ := pickAddress_ok picked
        have guarded : FetchRequest.Guarded env ⟨count, url, address⟩ :=
          ⟨allowed, reachable, lookup⟩
        dsimp only
        split
        · exact ⟨Nat.succ_pos _, List.forall_mem_singleton.mpr guarded,
            fun result done => by cases done⟩
        next page ran =>
          refine ⟨Nat.succ_pos _, List.forall_mem_singleton.mpr guarded, fun result done => ?_⟩
          obtain rfl := Except.ok.inj done
          obtain ⟨answers, same⟩ := executeAttempt_result ran
          exact ⟨[], _, rfl, answers, by rw [same]; exact (List.append_nil _).symm⟩
        next target ran =>
          split
          · exact ⟨Nat.succ_pos _, List.forall_mem_singleton.mpr guarded,
              fun result done => by cases done⟩
          next next parsed =>
            obtain ⟨few, all, last⟩ :=
              ih (count + 1) (redirects ++ [url.href]) (parsePublicHttpUrl_allowed parsed)
            refine ⟨Nat.succ_le_succ few, List.forall_mem_cons.mpr ⟨guarded, all⟩,
              fun result done => ?_⟩
            obtain ⟨before, last, same, answers, redirected⟩ := last result done
            refine ⟨⟨count, url, address⟩ :: before, last, congrArg (_ :: ·) same, answers, ?_⟩
            rw [redirected, List.append_assoc]
            rfl

end

end Opensquid.WebFetch
