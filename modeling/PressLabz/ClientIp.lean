import PressLabz.IpAddress

/-! # Who the client is

The address `apps/api/src/http/client-ip.ts` attributes a request to, in its three
modes.  What `@fastify/proxy-addr` contributes is a parameter: a matcher for a list of
proxies, the entries of an `X-Forwarded-For` header, and a walk over them.

`clientIp_unchosen` says what a client has no say in: from a peer that is no proxy, all
headers; behind one, whatever is to the left of the first entry that is no proxy; and
that no answer is anything but an address.
-/
namespace PressLabz
open Net

/-! ## Requests -/

/-- The other end of a connection, as the socket reports it. -/
structure SocketAddress where
  address : String
  valid : isIP address ≠ 0

/-- A header: Node joins repeated ones, with the exception of a few. -/
inductive HeaderValue where
  | text (value : String)
  | list (values : List String)
  deriving DecidableEq

structure ClientRequest where
  remoteAddress : Option SocketAddress
  headers : String → Option HeaderValue

inductive ClientIpSource where
  | socket
  | forwarded
  | header
  deriving DecidableEq

structure ClientIpOptions where
  source : ClientIpSource
  trustedProxies : List String
  /-- Required by, and only read in, `header` mode. -/
  headerName : Option String := none

inductive ForwardedAddressReason where
  | missingForwardedAddress
  | invalidForwardedAddress
  deriving DecidableEq

structure ForwardedAddressError where
  reason : ForwardedAddressReason
  message : String
  statusCode : Nat := 400
  deriving DecidableEq

/-! ## Addresses -/

/-- `/^::ffff:(\d{1,3}(?:\.\d{1,3}){3})$/i`, and what it captures. -/
def mappedAddress : List Char → Option (List Char)
  | ':' :: ':' :: a :: b :: c :: d :: ':' :: rest =>
    if [a, b, c, d].all (fun x => x == 'f' || x == 'F') && isDotted rest then some rest else none
  | _ => none

/-- An IPv4-mapped address and its plain form are the same client. -/
def normalizeAddress : Option String → String
  | none => ""
  | some address =>
    if address = "" then ""
    else
      match mappedAddress (trim address).toList with
      | some dotted => String.ofList dotted
      | none => trim address

/-- A single address, or nothing. -/
def parseSingleAddress : Option HeaderValue → Option String
  | some (.text value) =>
    let candidate := normalizeAddress (some value)
    if isIP candidate = 0 then none else some candidate
  | _ => none

/-! ## `@fastify/proxy-addr` -/

structure ProxyAddr where
  /-- The matcher of a list of addresses and ranges. -/
  compile : List String → String → Bool
  /-- The entries of an `X-Forwarded-For` header, from left to right. -/
  forwarded : Option HeaderValue → List String
  /-- The client of a request, for a matcher of proxies. -/
  proxyaddr : ClientRequest → (String → Bool) → Option String

/-- From an address on, the first that is not trusted, or the last of all. -/
def walk (trust : String → Bool) (address : String) : List String → String
  | [] => address
  | next :: rest => if trust address then walk trust next rest else address

def ClientRequest.peer (request : ClientRequest) : Option String :=
  request.remoteAddress.map (·.address)

/-- The entries of the header of a request, from the right. -/
def ProxyAddr.entries (lib : ProxyAddr) (request : ClientRequest) : List String :=
  (lib.forwarded (request.headers "x-forwarded-for")).reverse

/-- The walk goes from the socket peer through the header from the right, and stops at
the first address that is not trusted. -/
def ProxyAddr.Walks (lib : ProxyAddr) : Prop := ∀ request trust,
  lib.proxyaddr request trust = request.peer.map fun peer => walk trust peer (lib.entries request)

/-! ## The plugin -/

/-- What Fastify's own `trustProxy` is in a mode; `false` is `none`. -/
def trustProxyFor (options : ClientIpOptions) : Option (List String) :=
  if options.source = .forwarded then some options.trustedProxies else none

section Plugin
variable (lib : ProxyAddr) (options : ClientIpOptions) (request : ClientRequest)

/-- `request.ip`. -/
def requestIp : Option String :=
  match trustProxyFor options with
  | none => request.peer
  | some trusted => lib.proxyaddr request (lib.compile trusted)

/-- The address is that of a declared proxy; in `socket` mode there is no matcher, and none is. -/
def isTrustedPeer (address : String) : Bool :=
  options.source ≠ .socket && lib.compile options.trustedProxies address

/-- The address of the other end, in the form every comparison uses. -/
def peerAddress : String := normalizeAddress (request.peer <|> requestIp lib options request)

/-- `resolve`. -/
def resolve : Except ForwardedAddressError String :=
  let peer := peerAddress lib options request
  let headerName := options.headerName.getD ""
  if options.source = .forwarded then
    if !isTrustedPeer lib options peer then .ok peer
    else
      match parseSingleAddress ((requestIp lib options request).map .text) with
      | none => .error {
          reason := .invalidForwardedAddress
          message := "X-Forwarded-For did not yield a single IP address" }
      | some address =>
        if isTrustedPeer lib options address then
          .error {
            reason := .missingForwardedAddress
            message := "Trusted proxy did not name a client in X-Forwarded-For" }
        else .ok address
  else if options.source = .socket ∨ headerName = "" then .ok peer
  else if !isTrustedPeer lib options peer then .ok peer
  else
    match request.headers headerName with
    | none => .error {
        reason := .missingForwardedAddress
        message := "Trusted proxy did not send " ++ headerName }
    | some raw =>
      match parseSingleAddress (some raw) with
      | none => .error {
          reason := .invalidForwardedAddress
          message := headerName ++ " is not a single IP address" }
      | some address => .ok address

/-- The getter of `request.clientIp`, and what it remembers of a request. -/
def clientIp (cached : Option String) : Except ForwardedAddressError String × Option String :=
  match cached with
  | some value => (.ok value, cached)
  | none =>
    match resolve lib options request with
    | .ok value => (.ok value, some value)
    | .error e => (.error e, none)

/-- What the readers of a request are told, one after the other. -/
def clientIpReads (cached : Option String) : Nat → List (Except ForwardedAddressError String)
  | 0 => []
  | n + 1 =>
    let (answer, cached) := clientIp lib options request cached
    answer :: clientIpReads cached n

end Plugin

variable {lib : ProxyAddr} {options : ClientIpOptions} {request request' : ClientRequest}

/-- What is remembered is what was resolved. -/
theorem clientIp_eq {cached : Option String}
    (h : ∀ value, cached = some value → resolve lib options request = .ok value) :
    (clientIp lib options request cached).1 = resolve lib options request ∧
      ∀ value, (clientIp lib options request cached).2 = some value →
        resolve lib options request = .ok value := by
  cases cached with
  | some value => exact ⟨(h value rfl).symm, h⟩
  | none =>
    unfold clientIp
    cases resolve lib options request with
    | ok value => exact ⟨rfl, fun _ hvalue => congrArg Except.ok (Option.some.inj hvalue)⟩
    | error e => exact ⟨rfl, fun _ hvalue => by cases hvalue⟩

/-- **Every reader is told the same**: the hook, the limiter and the logger. -/
theorem clientIpReads_eq (n : Nat) : clientIpReads lib options request none n =
    List.replicate n (resolve lib options request) := by
  have hreads : ∀ cached, (∀ value, cached = some value →
      resolve lib options request = .ok value) → clientIpReads lib options request cached n =
        List.replicate n (resolve lib options request) := by
    induction n with
    | zero => exact fun _ _ => rfl
    | succ n ih =>
      intro cached hcached
      obtain ⟨hanswer, hnext⟩ := clientIp_eq hcached
      rw [List.replicate_succ, ← ih _ hnext, ← hanswer]
      rfl
  exact hreads none fun _ h => by cases h

/-! ## Addresses stay addresses -/

/-- What is taken off a mapped address is `ffff`, in some case. -/
theorem mappedAddress_eq {address dotted : List Char} (h : mappedAddress address = some dotted) :
    isDotted dotted = true ∧ ∃ a b c d, (∀ x ∈ [a, b, c, d], x = 'f' ∨ x = 'F') ∧
      address = ':' :: ':' :: ([a, b, c, d] ++ ':' :: dotted) := by
  unfold mappedAddress at h
  split at h
  · rename_i a b c d rest
    split at h
    · rename_i hmapped
      cases h
      rw [Bool.and_eq_true, List.all_eq_true] at hmapped
      exact ⟨hmapped.2, a, b, c, d, fun x hx => by simpa using hmapped.1 x hx, rfl⟩
    · cases h
  · cases h

theorem isHexDigit_ffff {hex : List Char} (h : ∀ x ∈ hex, x = 'f' ∨ x = 'F') :
    ∀ x ∈ hex, isHexDigit x = true := by
  intro x hx
  rcases h x hx with rfl | rfl
  · rfl
  · rfl

/-- The normal form of an address is an address. -/
theorem isIP_normalizeAddress {address : String} (h : isIP address ≠ 0) :
    isIP (normalizeAddress (some address)) ≠ 0 := by
  have hne : address ≠ "" := by
    rintro rfl
    exact h rfl
  simp only [normalizeAddress, if_neg hne, trim_of_isIP h]
  split
  · rename_i dotted hmapped
    obtain ⟨hdotted, a, b, c, d, hhex, heq⟩ := mappedAddress_eq hmapped
    have h4 : isIPv4 dotted = true := by
      rcases isIP_ne_zero h with h4 | h6
      · -- A dotted address has no colon.
        have hcolon := isIPv4_digits h4 ':' (by rw [heq]; exact List.mem_cons_self)
        exact absurd hcolon (by decide)
      · rw [heq] at h6
        exact isIPv4_of_mapped (isHexDigit_ffff hhex) hdotted h6
    rw [isIP, String.toList_ofList, if_pos h4]
    decide
  · exact h

theorem parseSingleAddress_valid {value : Option HeaderValue} {address : String}
    (h : parseSingleAddress value = some address) : isIP address ≠ 0 := by
  unfold parseSingleAddress at h
  split at h
  · simp only at h
    split at h
    · cases h
    · cases h
      assumption
  · cases h

theorem parseSingleAddress_of_isIP {address : String} (h : isIP address ≠ 0) :
    parseSingleAddress (some (.text address)) = some (normalizeAddress (some address)) :=
  if_neg (isIP_normalizeAddress h)

/-! ## The walk -/

/-- The entries from the right up to the first that is not trusted, which is all the walk
ever looks at. -/
def heard (trust : String → Bool) : List String → List String
  | [] => []
  | entry :: rest => if trust entry then entry :: heard trust rest else [entry]

theorem walk_heard (trust : String → Bool) (address : String) (entries : List String) :
    walk trust address (heard trust entries) = walk trust address entries := by
  induction entries generalizing address with
  | nil => rfl
  | cons entry rest ih =>
    by_cases hentry : trust entry = true
    · rw [heard, if_pos hentry, walk, walk, ih]
    · rw [heard, if_neg hentry, walk, walk]
      cases rest with
      | nil => rfl
      | cons next rest => rw [walk, walk, if_neg hentry]

/-- Behind a trusted peer, the walk does not depend on which peer it is. -/
theorem walk_trusted {trust : String → Bool} {address : String} (h : trust address = true)
    (next : String) (rest : List String) :
    walk trust address (next :: rest) = walk trust next rest := if_pos h

/-! ## What a client has a say in -/

/-- The peer is a declared proxy, in the form every comparison of the plugin uses. -/
def TrustedPeer (lib : ProxyAddr) (options : ClientIpOptions) (request : ClientRequest) : Prop :=
  ∃ peer, request.peer = some peer ∧
    isTrustedPeer lib options (normalizeAddress (some peer)) = true

/-- The peer is a declared proxy as the socket reports it, which is the form the walk begins
with. -/
def WalkedPeer (lib : ProxyAddr) (options : ClientIpOptions) (request : ClientRequest) : Prop :=
  ∃ peer, request.peer = some peer ∧ lib.compile options.trustedProxies peer = true

/-- The entries of a request's header that count. -/
def ProxyAddr.heard (lib : ProxyAddr) (options : ClientIpOptions) (request : ClientRequest) :
    List String := PressLabz.heard (lib.compile options.trustedProxies) (lib.entries request)

/-- A request without a socket address has no other address either. -/
theorem peerAddress_eq (hwalks : lib.Walks) :
    peerAddress lib options request = normalizeAddress request.peer := by
  rw [peerAddress]
  cases hpeer : request.peer with
  | some peer => rfl
  | none =>
    rw [requestIp]
    cases trustProxyFor options with
    | none => simp [hpeer]
    | some trusted => simp [hwalks request, hpeer]

/-- **From a peer that is no proxy** no header is believed. -/
theorem resolve_of_untrusted (hwalks : lib.Walks)
    (h : options.source = .socket ∨
      isTrustedPeer lib options (peerAddress lib options request) = false) :
    resolve lib options request = .ok (normalizeAddress request.peer) := by
  rw [← @peerAddress_eq lib options request hwalks]
  unfold resolve
  rcases h with hsocket | huntrusted
  · simp only [hsocket, reduceCtorEq, if_false, true_or, if_true]
  · simp only [huntrusted, Bool.not_false, if_true, ite_self]

theorem requestIp_forwarded (hwalks : lib.Walks) (hsource : options.source = .forwarded) :
    requestIp lib options request = request.peer.map fun peer =>
      walk (lib.compile options.trustedProxies) peer (lib.heard options request) := by
  rw [requestIp, trustProxyFor, if_pos hsource]
  simp only [hwalks request, ProxyAddr.heard, walk_heard]

theorem peer_valid {peer : String} (h : request.peer = some peer) : isIP peer ≠ 0 := by
  obtain ⟨address, -, rfl⟩ := Option.map_eq_some_iff.mp h
  exact address.valid

/-- The outcome in `forwarded` mode, behind a proxy, is a function of `request.ip`. -/
theorem resolve_congr (hsource : options.source = .forwarded)
    (htrusted : isTrustedPeer lib options (peerAddress lib options request) = true)
    (htrusted' : isTrustedPeer lib options (peerAddress lib options request') = true)
    (hip : requestIp lib options request = requestIp lib options request') :
    resolve lib options request = resolve lib options request' := by
  unfold resolve
  simp only [hsource, if_true, htrusted, htrusted', Bool.not_true, Bool.false_eq_true, if_false,
    hip]

/-- A proxy whose header says nothing is refused. -/
theorem resolve_of_silent (hwalks : lib.Walks) (hsource : options.source = .forwarded)
    (htrusted : TrustedPeer lib options request) (hsilent : lib.heard options request = []) :
    resolve lib options request = .error {
      reason := .missingForwardedAddress
      message := "Trusted proxy did not name a client in X-Forwarded-For" } := by
  obtain ⟨peer, hpeer, htrusted⟩ := htrusted
  have hip : requestIp lib options request = some peer := by
    rw [requestIp_forwarded hwalks hsource, hsilent, hpeer]
    rfl
  have haddress := @peerAddress_eq lib options request hwalks
  rw [hpeer] at haddress
  unfold resolve
  simp only [hsource, if_true, haddress, hip, Option.map_some,
    parseSingleAddress_of_isIP (peer_valid hpeer), htrusted, Bool.not_true, Bool.false_eq_true,
    if_false]

/-- **Behind a proxy** only the entries that count do. -/
theorem resolve_of_heard (hwalks : lib.Walks) (hsource : options.source = .forwarded)
    (htrusted : TrustedPeer lib options request) (htrusted' : TrustedPeer lib options request')
    (hpeers : request.peer = request'.peer ∨
      WalkedPeer lib options request ∧ WalkedPeer lib options request')
    (hheard : lib.heard options request = lib.heard options request') :
    resolve lib options request = resolve lib options request' := by
  have haddress {r : ClientRequest} (h : TrustedPeer lib options r) :
      isTrustedPeer lib options (peerAddress lib options r) = true := by
    obtain ⟨peer, hpeer, htrusted⟩ := h
    rwa [peerAddress_eq hwalks, hpeer]
  rcases hpeers with hsame | ⟨⟨peer, hpeer, hwalk⟩, peer', hpeer', hwalk'⟩
  · refine resolve_congr hsource (haddress htrusted) (haddress htrusted') ?_
    rw [requestIp_forwarded hwalks hsource, requestIp_forwarded hwalks hsource, hsame, hheard]
  · cases hentries : lib.heard options request with
    | nil =>
      rw [resolve_of_silent hwalks hsource htrusted hentries,
        resolve_of_silent hwalks hsource htrusted' (hheard.symm.trans hentries)]
    | cons next rest =>
      refine resolve_congr hsource (haddress htrusted) (haddress htrusted') ?_
      rw [requestIp_forwarded hwalks hsource, requestIp_forwarded hwalks hsource, ← hheard,
        hentries, hpeer, hpeer']
      simp only [Option.map_some, walk_trusted hwalk, walk_trusted hwalk']

/-- **What is answered is an address**, and in `forwarded` mode no proxy's. -/
theorem resolve_valid (hwalks : lib.Walks) (hsource : options.source ≠ .socket)
    (htrusted : TrustedPeer lib options request) {address : String}
    (h : resolve lib options request = .ok address) :
    isIP address ≠ 0 ∧
      (options.source = .forwarded → lib.compile options.trustedProxies address = false) := by
  obtain ⟨peer, hpeer, htrusted⟩ := htrusted
  have haddress := @peerAddress_eq lib options request hwalks
  rw [hpeer] at haddress
  unfold resolve at h
  simp only [haddress, htrusted, Bool.not_true, Bool.false_eq_true, if_false, hsource, false_or]
    at h
  by_cases hforwarded : options.source = .forwarded
  · simp only [hforwarded, if_true] at h
    split at h
    · cases h
    · rename_i address' hparse
      split at h
      · cases h
      · rename_i huntrusted
        cases h
        refine ⟨parseSingleAddress_valid hparse, fun _ => ?_⟩
        simpa [isTrustedPeer, hsource] using huntrusted
  · simp only [hforwarded, if_false] at h
    refine ⟨?_, fun hsame => absurd hsame hforwarded⟩
    split at h
    · -- No header was named, so the peer is the client.
      cases h
      exact isIP_normalizeAddress (peer_valid hpeer)
    · split at h
      · cases h
      · split at h
        · cases h
        · cases h
          exact parseSingleAddress_valid ‹_›

/-- **A client does not choose its address.**  Whatever it sends, it is its peer's unless
the peer is a proxy; behind a proxy, it is decided by the entries from the right up to the
first that is no proxy; and where it is not the peer's, it is an address or a refusal. -/
theorem clientIp_unchosen (lib : ProxyAddr) (hwalks : lib.Walks) (options : ClientIpOptions) :
    (∀ request request', request.peer = request'.peer →
      (options.source = .socket ∨
        isTrustedPeer lib options (normalizeAddress request.peer) = false) →
      resolve lib options request = .ok (normalizeAddress request.peer) ∧
        resolve lib options request' = .ok (normalizeAddress request.peer)) ∧
    (options.source = .forwarded → ∀ request request',
      TrustedPeer lib options request → TrustedPeer lib options request' →
      (request.peer = request'.peer ∨
        WalkedPeer lib options request ∧ WalkedPeer lib options request') →
      lib.heard options request = lib.heard options request' →
      resolve lib options request = resolve lib options request') ∧
    ∀ request, options.source ≠ .socket → TrustedPeer lib options request →
      (∃ e, resolve lib options request = .error e) ∨
      ∃ address, resolve lib options request = .ok address ∧ isIP address ≠ 0 ∧
        (options.source = .forwarded → lib.compile options.trustedProxies address = false) := by
  refine ⟨fun request request' hpeer h => ?_, fun hsource request request' => ?_, ?_⟩
  · have hown {r : ClientRequest} (hr : request.peer = r.peer) :
        resolve lib options r = .ok (normalizeAddress request.peer) := by
      rw [hr] at h ⊢
      refine resolve_of_untrusted hwalks (h.imp_right fun huntrusted => ?_)
      rwa [peerAddress_eq hwalks]
    exact ⟨hown rfl, hown hpeer⟩
  · exact resolve_of_heard hwalks hsource
  · intro request hsource htrusted
    cases h : resolve lib options request with
    | error e => exact .inl ⟨e, rfl⟩
    | ok address => exact .inr ⟨address, rfl, resolve_valid hwalks hsource htrusted h⟩

/-- The entries of a header, split at its commas. -/
def chainEntries : Option HeaderValue → List String
  | some (.text value) =>
    ((value.toList.splitOn ',').map fun entry => trim (String.ofList entry)).filter (· ≠ "")
  | _ => []

/-- A matcher of single addresses, and the walk. -/
def exactProxies : ProxyAddr where
  compile trusted address := trusted.contains address
  forwarded := chainEntries
  proxyaddr request trust := request.peer.map fun peer =>
    walk trust peer (chainEntries (request.headers "x-forwarded-for")).reverse

/-- A request with a chain of addresses, as its peer passes it on. -/
def chainedRequest (remoteAddress : SocketAddress) (chain : String) : ClientRequest where
  remoteAddress := some remoteAddress
  headers name := if name = "x-forwarded-for" then some (.text chain) else none

/-- A forged prefix changes nothing, and a chain from somewhere else is not read. -/
theorem clientIp_unchosen_forged :
    resolve exactProxies ⟨.forwarded, ["10.20.0.2", "10.20.0.3"], none⟩
        (chainedRequest ⟨"10.20.0.2", by decide⟩ "1.2.3.4, 203.0.113.42, 10.20.0.3") =
      resolve exactProxies ⟨.forwarded, ["10.20.0.2", "10.20.0.3"], none⟩
        (chainedRequest ⟨"10.20.0.2", by decide⟩ "203.0.113.42, 10.20.0.3") ∧
    resolve exactProxies ⟨.forwarded, ["10.20.0.2", "10.20.0.3"], none⟩
        (chainedRequest ⟨"198.51.100.7", by decide⟩ "203.0.113.42, 10.20.0.3") =
      .ok "198.51.100.7" := by
  obtain ⟨hown, hchain, -⟩ := clientIp_unchosen exactProxies (fun _ _ => rfl)
    ⟨.forwarded, ["10.20.0.2", "10.20.0.3"], none⟩
  refine ⟨?_, ?_⟩
  · refine hchain rfl _ _ ⟨"10.20.0.2", rfl, by decide⟩ ⟨"10.20.0.2", rfl, by decide⟩
      (.inl rfl) ?_
    decide
  · exact (hown _ _ rfl (.inr (by decide))).1

end PressLabz
