import Knova.Auth.Token
import Knova.Common.Http
import Knova.Common.Version

/-!
# The API gateway hop

Every profile request enters here, is authenticated, and is replayed against the profile
service with the caller's identity attached out-of-band.
-/

namespace Knova.AuthService

/-! ### Request correlation -/

/-- Longest accepted inbound id. -/
def maxLen : ℕ := 64

/-- Whether a client-supplied id is safe to log and forward verbatim. -/
def isAcceptable (id : String) : Bool :=
  id ≠ "" && id.utf8ByteSize ≤ maxLen &&
    id.toList.all fun c => c.isAlphanum || c == '-' || c == '_'

/-- The request as `propagate` passes it on, and the id it puts on the response. `uuid` is what
`Uuid::new_v4` draws. -/
def propagate (uuid : String) (request : HttpRequest) : HttpRequest × Option HeaderValue :=
  let id := (((request.headers.get Headers.requestId).bind HeaderValue.toStr).filter
    fun id => isAcceptable id).getD uuid
  match HeaderValue.fromStr id with
  | some value => ({ request with headers := request.headers.insert Headers.requestId value },
      some value)
  | none => (request, none)

/-! ### Request extractors -/

/-- `str::eq_ignore_ascii_case`. -/
def eqIgnoreAsciiCase (a b : List Char) : Bool := a.map Char.toLower = b.map Char.toLower

/-- The bearer token of a request. -/
def bearer (headers : HeaderMap) : Except AppError String :=
  match (headers.get "authorization").bind HeaderValue.toStr with
  | none => .error .missingBearer
  | some value =>
    match splitOnce ' ' value.toList with
    | none => .error .missingBearer
    | some (scheme, token) =>
      if eqIgnoreAsciiCase scheme "bearer".toList then .ok (String.ofList (trim token))
      else .error .missingBearer

/-- A caller who presented a valid bearer token. -/
def authenticated (J : Jwt) (tokens : TokenService) (now : ℕ) (headers : HeaderMap) :
    Except AppError Claims :=
  match bearer headers with
  | .error e => .error e
  | .ok token => tokens.verify J now token

/-! ### The proxy -/

/-- Headers copied from the client request to the upstream request. -/
def forwardedToUpstream : List String := ["content-type", "if-match", "idempotency-key"]

/-- Headers copied from the upstream response back to the client. -/
def forwardedToClient : List String := ["content-type", "etag"]

/-- The profile service, as seen from the gateway. -/
structure Upstream where
  /-- The path of the base URL. -/
  basePath : String
  internalToken : String

/-- The first value of each name, as the gateway copies them from the client's headers. -/
def copied (names : List String) (client : HeaderMap) : HeaderMap :=
  names.filterMap fun name => (client.get name).map fun value => (name, value)

/-- The headers the gateway puts on the upstream request, each appended to those before it;
`none` where one of its own values is no header text. -/
def Upstream.headers (upstream : Upstream) (sub : UserId) (client : HeaderMap) :
    Option HeaderMap :=
  match HeaderValue.fromStr upstream.internalToken, HeaderValue.fromStr sub.asStr with
  | some token, some user => some ([(Headers.internalToken, token), (Headers.userId, user)] ++
      copied forwardedToUpstream client ++ copied [Headers.requestId] client)
  | _, _ => none

/-- What the gateway is built with; `bytes` reads the body of a request. -/
structure Gateway where
  jwt : Jwt
  upstream : Upstream
  bytes : HttpRequest → Except Response (List UInt8)

/-- What the gateway does with a request: it answers at once, or sends a request upstream on
behalf of the claims it verified. -/
abbrev Proxied := Except Response (Claims × HttpRequest)

/-- Authenticates the caller and forwards the request to the profile service. -/
def proxy (g : Gateway) (tokens : TokenService) (now : ℕ) (request : HttpRequest) : Proxied :=
  match authenticated g.jwt tokens now request.headers with
  | .error e => .error e.intoResponse
  | .ok claims =>
    match g.bytes request with
    | .error response => .error response
    | .ok body =>
      match g.upstream.headers claims.sub request.headers with
      | none => .error AppError.upstream.intoResponse
      | some headers =>
        .ok (claims, ⟨request.method, g.upstream.basePath ++ request.path, headers, body⟩)

/-- The proxied routes; `none` elsewhere. -/
def router (g : Gateway) (tokens : TokenService) (now : ℕ) (request : HttpRequest) :
    Option Proxied :=
  if request.path = "/profile" then
    match request.method with
    | .other _ => some (.error (.methodNotAllowed "POST,GET,HEAD,PUT"))
    | _ => some (proxy g tokens now request)
  else if request.path = "/profile/history" then
    match request.method with
    | .get | .head => some (proxy g tokens now request)
    | _ => some (.error (.methodNotAllowed "GET,HEAD"))
  else none

/-- What the gateway answers once the profile service has. -/
def relay (response : Response) : Response where
  status := response.status
  headers := forwardedToClient.filterMap fun name =>
    (response.headers.lookup name).map fun value => (name, value)
  body := response.body

/-! ### What is sent upstream -/

section Sent

variable {g : Gateway} {tokens : TokenService} {now : ℕ} {request upstream : HttpRequest}
  {claims : Claims}

lemma authenticated_eq_ok {J : Jwt} {headers : HeaderMap} :
    authenticated J tokens now headers = .ok claims ↔
      ∃ token, bearer headers = .ok token ∧ tokens.verify J now token = .ok claims := by
  unfold authenticated
  constructor
  · intro h
    split at h
    · cases h
    · rename_i token hbearer
      exact ⟨token, hbearer, h⟩
  · rintro ⟨token, hbearer, hverify⟩
    rw [hbearer]
    exact hverify

/-- A token of visible characters is read as the client presented it. -/
lemma bearer_eq_ok {headers : HeaderMap} {token : String} (hne : token ≠ "")
    (htoken : ∀ c ∈ token.toList, 32 < c.toNat ∧ c.toNat < 127)
    (hget : headers.get "authorization" = some
      (((HeaderValue.ofText ("bearer " ++ token)).dropWhile isBlank).rdropWhile isBlank)) :
    bearer headers = .ok token := by
  have hvisible : ∀ c ∈ ("bearer " ++ token).toList, 32 ≤ c.toNat ∧ c.toNat < 127 :=
    forall_mem_append (forall_mem_ofList (by decide))
      fun c hc => ⟨(htoken c hc).1.le, (htoken c hc).2⟩
  have hsplit : splitOnce ' ' ("bearer " ++ token).toList =
      some ("bearer".toList, token.toList) := by
    rw [String.toList_append]
    rfl
  have hspace : ∀ c ∈ token.toList, ¬isWhitespace c = true := by
    intro c hc
    have := htoken c hc
    simp only [isWhitespace, Bool.or_eq_true, Bool.and_eq_true, decide_eq_true_eq, beq_iff_eq]
    omega
  have htrim : trim token.toList = token.toList := by
    rw [trim, trimMatches,
      List.dropWhile_eq_self_iff.mpr fun hl => hspace _ (List.getElem_mem hl)]
    exact List.rdropWhile_eq_self_iff.mpr fun hl => hspace _ (List.getLast_mem hl)
  rw [HeaderValue.trim_append rfl (by decide) hne htoken] at hget
  simp only [bearer, hget, Option.bind_some, HeaderValue.toStr_ofText hvisible, hsplit, htrim,
    String.ofList_toList]
  rw [if_pos (by decide)]

/-- What the gateway sends upstream, and on whose behalf. -/
theorem proxy_eq_ok : proxy g tokens now request = .ok (claims, upstream) ↔
    authenticated g.jwt tokens now request.headers = .ok claims ∧
    g.bytes request = .ok upstream.body ∧
    g.upstream.headers claims.sub request.headers = some upstream.headers ∧
    upstream.method = request.method ∧ upstream.path = g.upstream.basePath ++ request.path := by
  obtain ⟨method, path, headers, body⟩ := upstream
  constructor
  · intro h
    unfold proxy at h
    split at h
    · cases h
    · rename_i c hauth
      split at h
      · cases h
      · rename_i bs hbody
        split at h
        · cases h
        · rename_i hs hheaders
          cases h
          exact ⟨hauth, hbody, hheaders, rfl, rfl⟩
  · rintro ⟨hauth, hbody, hheaders, rfl, rfl⟩
    simp only [proxy, hauth, hbody, hheaders]

lemma router_eq_ok (h : router g tokens now request = some (.ok (claims, upstream))) :
    proxy g tokens now request = .ok (claims, upstream) := by
  unfold router at h
  split at h
  · split at h
    · cases h
    · exact Option.some.inj h
  · split at h
    · split at h
      · exact Option.some.inj h
      · exact Option.some.inj h
      · cases h
    · cases h

lemma path_of_router {proxied : Claims × HttpRequest}
    (h : router g tokens now request = some (.ok proxied)) :
    request.path = "/profile" ∨ request.path = "/profile/history" := by
  unfold router at h
  split at h
  · rename_i hpath
    exact .inl hpath
  · split at h
    · rename_i hpath
      exact .inr hpath
    · cases h

lemma router_profile {proxied : Proxied} (hpath : request.path = "/profile")
    (hmethod : ∀ name, request.method ≠ .other name) (h : proxy g tokens now request = proxied) :
    router g tokens now request = some proxied := by
  rw [router, if_pos hpath]
  split
  · rename_i name hname
    exact absurd hname (hmethod name)
  · exact congrArg some h

lemma name_of_copied {names : List String} {client : HeaderMap} {header : String × HeaderValue}
    (h : header ∈ copied names client) : header.1 ∈ names := by
  obtain ⟨name, hname, hvalue⟩ := List.mem_filterMap.mp h
  obtain ⟨value, -, rfl⟩ := Option.map_eq_some_iff.mp hvalue
  exact hname

/-- No copied header bears a name that is not copied. -/
lemma filter_copied {names : List String} {name : String} {client : HeaderMap}
    (h : name ∉ names) : (copied names client).filter (fun header => header.1 = name) = [] := by
  rw [List.filter_eq_nil_iff]
  intro header hmem
  simp only [decide_eq_true_eq]
  rintro rfl
  exact h (name_of_copied hmem)

/-- Whatever the client sent, the gateway's own headers stand on the upstream request once. -/
theorem Upstream.headers_own {up : Upstream} {sub : UserId} {client sent : HeaderMap}
    (h : up.headers sub client = some sent) :
    sent.filter (fun header => header.1 = Headers.userId) =
      [(Headers.userId, .ofText sub.asStr)] ∧
    sent.filter (fun header => header.1 = Headers.internalToken) =
      [(Headers.internalToken, .ofText up.internalToken)] := by
  unfold headers at h
  split at h
  · rename_i token user htoken huser
    obtain rfl := HeaderValue.fromStr_eq_some htoken
    obtain rfl := HeaderValue.fromStr_eq_some huser
    obtain rfl := Option.some.inj h
    rw [List.filter_append, List.filter_append, List.filter_append, List.filter_append,
      filter_copied (by decide), filter_copied (by decide), filter_copied (by decide),
      filter_copied (by decide)]
    simp [Headers.userId, Headers.internalToken]
  · cases h

end Sent

end Knova.AuthService
