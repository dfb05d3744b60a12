import Knova.Auth.Gateway
import Knova.Profile.Guard
import Knova.Profile.Ownership

/-!
# The two services composed

Clients address the gateway, the gateway addresses the profile service. A request that the
gateway sends may arrive late, or after the gateway gave it up; its answer is relayed if it is
there in time.
-/

namespace Knova

open Library AuthService ProfileService

/-- A request as it stands on the wire, as a server reads it. -/
def HttpRequest.ofWire (sent : HttpRequest) : HttpRequest :=
  { sent with headers := HeaderMap.ofWire sent.headers }

/-- The headers a client library adds to a request. -/
def transportHeaders : List String := ["host", "accept", "content-length", "transfer-encoding"]

/-- A client's request at the gateway. -/
structure Exchange where
  request : HttpRequest
  /-- The correlation id of the response. -/
  requestId : Option HeaderValue
  /-- What was sent upstream, and the claims it was sent for. -/
  sent : Option (Claims × HttpRequest)
  /-- What the client was answered. -/
  answer : Option Response

structure System (ι : Type) [DecidableEq ι] (b : Backend) where
  tokens : TokenService
  now : ℕ
  exchange : ι → Option Exchange
  server : Server ι b

namespace System

inductive Event (ι : Type)
  /-- A client's request reaches the gateway; `uuid` is what `Uuid::new_v4` draws for it. -/
  | request (i : ι) (sent : HttpRequest) (uuid : String)
  /-- What the gateway sent reaches the profile service. -/
  | deliver (i : ι) (added : HeaderMap)
  /-- A step of the profile service. -/
  | server (e : Service.Event ι)
  /-- The gateway relays the answer of the profile service. -/
  | relay (i : ι)
  /-- The gateway finds the profile service unavailable, or too slow. -/
  | fail (i : ι)
  | revoke (claims : Claims)
  | tick (d : ℕ)

/-- A step of the request `i`. -/
def Event.By {ι : Type} (i : ι) : Event ι → Prop
  | .request j _ _ | .deliver j _ | .relay j | .fail j => j = i
  | .server e => e.By i
  | .revoke _ | .tick _ => False

/-- What both services are built with. -/
structure Setup where
  gateway : Gateway
  app : App
  tokens : TokenService

variable {ι : Type} [DecidableEq ι] {b : Backend} {setup : Setup}

def init (ι : Type) [DecidableEq ι] (b : Backend) (setup : Setup) : System ι b :=
  ⟨setup.tokens, 0, fun _ => none, Server.init ι b setup.app⟩

/-- The request as the profile service reads it. -/
def arriving (upstream : HttpRequest) (added : HeaderMap) : HttpRequest :=
  HttpRequest.ofWire { upstream with headers := upstream.headers ++ added }

def step (setup : Setup) (s : System ι b) : Event ι → Option (System ι b)
  | .request i sent uuid =>
    let (request, requestId) := propagate uuid sent.ofWire
    match s.exchange i, AuthService.router setup.gateway s.tokens s.now request with
    | none, some (.error response) => some { s with
        exchange := Function.update s.exchange i (some ⟨request, requestId, none, some response⟩) }
    | none, some (.ok proxied) => some { s with
        exchange := Function.update s.exchange i (some ⟨request, requestId, some proxied, none⟩) }
    | _, _ => none
  | .deliver i added =>
    match (s.exchange i).bind Exchange.sent with
    | some (_, upstream) =>
      if added.all fun header => header.1 ∈ transportHeaders then
        (Server.step setup.app s.server (.receive i (arriving upstream added))).map
          fun server => { s with server }
      else none
    | none => none
  | .server e => (Server.step setup.app s.server (.run e)).map fun server => { s with server }
  | .relay i =>
    match s.exchange i, s.server.reply i with
    | some ⟨request, requestId, some proxied, none⟩, some reply => some { s with
        exchange := Function.update s.exchange i
          (some ⟨request, requestId, some proxied, some (relay reply.response)⟩) }
    | _, _ => none
  | .fail i =>
    match s.exchange i with
    | some ⟨request, requestId, some proxied, none⟩ => some { s with
        exchange := Function.update s.exchange i
          (some ⟨request, requestId, some proxied, some AppError.upstream.intoResponse⟩) }
    | _ => none
  | .revoke claims => some { s with tokens := s.tokens.revoke s.now claims }
  | .tick d => some { s with now := s.now + d }

abbrev machine (ι : Type) [DecidableEq ι] (b : Backend) (setup : Setup) : Machine where
  State := System ι b
  Event := Event ι
  step := step setup

/-- What a client receives: the answer, and the correlation id put on it. -/
def reply (s : System ι b) (i : ι) : Option Reply :=
  (s.exchange i).bind fun x => x.answer.map fun response =>
    ⟨Server.finish x.request response, x.requestId⟩

/-- The request `upstream` was sent for `claims` under `i`. -/
def Sent (s : System ι b) (i : ι) (claims : Claims) (upstream : HttpRequest) : Prop :=
  (s.exchange i).bind Exchange.sent = some (claims, upstream)

lemma step_request {s : System ι b} {i : ι} {sent : HttpRequest} {uuid : String}
    {proxied : Claims × HttpRequest} (hi : s.exchange i = none)
    (h : AuthService.router setup.gateway s.tokens s.now (propagate uuid sent.ofWire).1 =
      some (.ok proxied)) :
    (machine ι b setup).step s (.request i sent uuid) = some { s with
      exchange := Function.update s.exchange i (some ⟨(propagate uuid sent.ofWire).1,
        (propagate uuid sent.ofWire).2, some proxied, none⟩) } := by
  simp only [step, hi, h]

/-- Everything one step can do: the gateway decides about a new request, or has an answer for
one, or the profile service takes a step. -/
theorem step_cases {s s' : System ι b} {e : Event ι} (hs : step setup s e = some s') :
    (∃ i sent uuid proxied, e = .request i sent uuid ∧ s.exchange i = none ∧
      AuthService.router setup.gateway s.tokens s.now (propagate uuid sent.ofWire).1 =
        some proxied ∧
      s' = { s with exchange := Function.update s.exchange i (some
        ⟨(propagate uuid sent.ofWire).1, (propagate uuid sent.ofWire).2, proxied.toOption,
          match proxied with | .error response => some response | .ok _ => none⟩) }) ∨
    (∃ f server, Server.step setup.app s.server f = some server ∧
      ((∃ i claims upstream added, e = .deliver i added ∧ s.Sent i claims upstream ∧
          f = .receive i (arriving upstream added)) ∨ ∃ g, e = .server g ∧ f = .run g) ∧
      s' = { s with server }) ∨
    (∃ i x response, (e = .relay i ∧ (∃ r, s.server.reply i = some r ∧
          response = relay r.response) ∨
        e = .fail i ∧ response = AppError.upstream.intoResponse) ∧ s.exchange i = some x ∧
      s' = { s with
        exchange := Function.update s.exchange i (some { x with answer := some response }) }) ∨
    (∃ claims, e = .revoke claims ∧ s' = { s with tokens := s.tokens.revoke s.now claims }) ∨
    ∃ d, e = .tick d ∧ s' = { s with now := s.now + d } := by
  cases e with
  | request i sent uuid =>
    left
    simp only [step] at hs
    split at hs
    · rename_i response hi hrouter
      exact ⟨i, sent, uuid, _, rfl, hi, hrouter, (Option.some.inj hs).symm⟩
    · rename_i proxied hi hrouter
      exact ⟨i, sent, uuid, _, rfl, hi, hrouter, (Option.some.inj hs).symm⟩
    · cases hs
  | deliver i added =>
    right; left
    simp only [step] at hs
    split at hs
    · rename_i claims upstream hi
      split at hs
      · obtain ⟨server, hserver, rfl⟩ := Option.map_eq_some_iff.mp hs
        exact ⟨_, server, hserver, .inl ⟨i, claims, upstream, added, rfl, hi, rfl⟩, rfl⟩
      · cases hs
    · cases hs
  | server g =>
    right; left
    obtain ⟨server, hserver, rfl⟩ := Option.map_eq_some_iff.mp hs
    exact ⟨_, server, hserver, .inr ⟨g, rfl, rfl⟩, rfl⟩
  | relay i =>
    right; right; left
    simp only [step] at hs
    split at hs
    · rename_i hi hreply
      exact ⟨i, _, _, .inl ⟨rfl, _, hreply, rfl⟩, hi, (Option.some.inj hs).symm⟩
    · cases hs
  | fail i =>
    right; right; left
    simp only [step] at hs
    split at hs
    · rename_i hi
      exact ⟨i, _, _, .inr ⟨rfl, rfl⟩, hi, (Option.some.inj hs).symm⟩
    · cases hs
  | revoke claims =>
    exact .inr (.inr (.inr (.inl ⟨claims, rfl, (Option.some.inj hs).symm⟩)))
  | tick d => exact .inr (.inr (.inr (.inr ⟨d, rfl, (Option.some.inj hs).symm⟩)))

/-- A request that was sent upstream is answered once. -/
lemma closes_of_step {s s' : System ι b} {e : Event ι} {i : ι}
    (he : e = .relay i ∨ e = .fail i) (hs : step setup s e = some s') :
    ∃ x response, s.exchange i = some x ∧ x.sent ≠ none ∧ x.answer = none ∧ s' = { s with
        exchange := Function.update s.exchange i (some { x with answer := some response }) } := by
  rcases he with rfl | rfl
  · simp only [step] at hs
    split at hs
    · rename_i hi hreply
      exact ⟨_, _, hi, by simp, rfl, (Option.some.inj hs).symm⟩
    · cases hs
  · simp only [step] at hs
    split at hs
    · rename_i hi
      exact ⟨_, _, hi, by simp, rfl, (Option.some.inj hs).symm⟩
    · cases hs

end System

end Knova
