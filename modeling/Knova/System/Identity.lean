import Knova.System.Composed

/-!
# Identity cannot be forged through the gateway

Whatever is sent upstream names the subject of the token the gateway verified, so the data of a
user changes only on behalf of tokens with that subject.
-/

namespace Knova

open Library AuthService ProfileService

/-! ### The caller, as the profile service reads it -/

namespace ProfileService

variable {request : HttpRequest} {next : UserId → Outcome} {called : Request}

lemma extracting_eq_handle {α : Type} {read : Except Response α} {next : α → Outcome}
    (h : extracting read next = .handle called) : ∃ x, read = .ok x ∧ next x = .handle called := by
  unfold extracting at h
  split at h
  · cases h
  · exact ⟨_, rfl, h⟩

lemma authenticated_eq_handle (h : authenticated request next = .handle called) :
    ∃ userId, caller request.headers = .ok userId ∧ next userId = .handle called := by
  obtain ⟨userId, hread, hnext⟩ := extracting_eq_handle h
  cases hcaller : caller request.headers with
  | error e =>
    rw [hcaller] at hread
    cases hread
  | ok userId' =>
    rw [hcaller] at hread
    obtain rfl := Except.ok.inj hread
    exact ⟨userId', rfl, hnext⟩

/-- A handler runs for the caller the gateway asserted. -/
lemma caller_of_router {app : App} {id : Option HeaderValue}
    (h : router app request = .ok (.handle called, id)) :
    caller request.headers = .ok called.user := by
  have hguard : ∀ {next : HttpRequest → Outcome},
      gatewayGuard app.internalToken request next = .ok (.handle called, id) →
        next request = .handle called := by
    intro next h
    unfold gatewayGuard at h
    dsimp only at h
    split at h
    · cases h
    · exact (Prod.mk.inj (Except.ok.inj h)).1
  unfold router at h
  split at h
  · have hnext := hguard h
    unfold profile at hnext
    split at hnext
    · obtain ⟨userId, hcaller, hnext⟩ := authenticated_eq_handle hnext
      obtain ⟨body, -, hnext⟩ := extracting_eq_handle hnext
      cases hnext
      exact hcaller
    · obtain ⟨userId, hcaller, hnext⟩ := authenticated_eq_handle hnext
      cases hnext
      exact hcaller
    · obtain ⟨userId, hcaller, hnext⟩ := authenticated_eq_handle hnext
      cases hnext
      exact hcaller
    · obtain ⟨userId, hcaller, hnext⟩ := authenticated_eq_handle hnext
      obtain ⟨input, -, hnext⟩ := extracting_eq_handle hnext
      cases hnext
      exact hcaller
    · cases hnext
  · split at h
    · have hnext := hguard h
      unfold history at hnext
      split at hnext
      · obtain ⟨userId, hcaller, hnext⟩ := authenticated_eq_handle hnext
        cases hnext
        exact hcaller
      · obtain ⟨userId, hcaller, hnext⟩ := authenticated_eq_handle hnext
        cases hnext
        exact hcaller
      · cases hnext
    · split at h
      · unfold health at h
        split at h <;> cases h
      · cases hguard h

end ProfileService

/-- What the gateway sent for a subject, the profile service reads as that caller. -/
lemma caller_of_headers {upstream : Upstream} {sub : UserId} {client sent : HeaderMap}
    (h : upstream.headers sub client = some sent) (hsub : sub.IsUuid) (added : HeaderMap) :
    caller (HeaderMap.ofWire (sent ++ added)) = .ok sub := by
  have hget : (HeaderMap.ofWire (sent ++ added)).get Headers.userId = some (.ofText sub.asStr) := by
    unfold Upstream.headers at h
    split at h
    · rename_i token user htoken huser
      obtain rfl := HeaderValue.fromStr_eq_some huser
      obtain rfl := Option.some.inj h
      have hother : (Headers.userId ==
          String.ofList (Headers.internalToken.toList.map Char.toLower)) = false := by decide
      have hname : (Headers.userId ==
          String.ofList (Headers.userId.toList.map Char.toLower)) = true := by decide
      simp only [HeaderMap.ofWire, HeaderMap.get, List.append_assoc, List.cons_append,
        List.map_cons, List.lookup_cons, hother, hname, HeaderValue.trim_ofText hsub.visible]
    · cases h
  simp only [caller, hget, Option.bind_some,
    HeaderValue.toStr_ofText fun c hc => ⟨(hsub.visible c hc).1.le, (hsub.visible c hc).2⟩]
  rw [Option.filter_some, if_pos (by simpa using hsub.ne_empty)]

/-! ### Runs of both services -/

namespace System

variable {ι : Type} [DecidableEq ι] {b : Backend} {setup : Setup} {s s' t : System ι b} {i : ι}
  {claims : Claims} {upstream : HttpRequest}

variable (i claims upstream) in
/-- A step sends upstream what the gateway made of a new request, or nothing. -/
lemma sent_of_step {e : Event ι} (hs : step setup s e = some s') :
    (s'.Sent i claims upstream ↔ s.Sent i claims upstream) ∨
      ∃ sent uuid, e = .request i sent uuid ∧ s.exchange i = none ∧
        (s'.Sent i claims upstream → AuthService.router setup.gateway s.tokens s.now
          (propagate uuid sent.ofWire).1 = some (.ok (claims, upstream))) := by
  unfold Sent
  obtain ⟨j, sent, uuid, proxied, rfl, hj, hrouter, rfl⟩ | ⟨f, server, -, -, rfl⟩ |
    ⟨j, x, response, -, hj, rfl⟩ | ⟨claims', -, rfl⟩ | ⟨d, -, rfl⟩ := step_cases hs
  · by_cases hij : i = j
    · subst hij
      refine .inr ⟨sent, uuid, rfl, hj, fun h => ?_⟩
      dsimp only at h
      rw [Function.update_self, Option.bind_some] at h
      cases proxied with
      | error response => cases h
      | ok p =>
        obtain rfl := Option.some.inj h
        exact hrouter
    · left
      dsimp only
      rw [Function.update_of_ne hij]
  · exact .inl Iff.rfl
  · left
    by_cases hij : i = j
    · subst hij
      dsimp only
      rw [Function.update_self, hj]
      rfl
    · dsimp only
      rw [Function.update_of_ne hij]
  · exact .inl Iff.rfl
  · exact .inl Iff.rfl

/-- What was sent stays sent. -/
lemma Sent.step {e : Event ι} (h : s.Sent i claims upstream)
    (hs : System.step setup s e = some s') : s'.Sent i claims upstream := by
  rcases sent_of_step i claims upstream hs with hiff | ⟨sent, uuid, -, hi, -⟩
  · exact hiff.mpr h
  · unfold Sent at h
    rw [hi] at h
    cases h

lemma Sent.run {es : List (Event ι)} (h : s.Sent i claims upstream)
    (hrun : (machine ι b setup).run s es = some t) : t.Sent i claims upstream :=
  Machine.run_invariant (M := machine ι b setup) (fun s => s.Sent i claims upstream)
    (fun _ _ _ h hs => h.step hs) h hrun

/-- Whatever was sent upstream was sent for claims the gateway verified when the request came
in. -/
lemma Sent.origin {es : List (Event ι)}
    (hrun : (machine ι b setup).run (init ι b setup) es = some t)
    (h : t.Sent i claims upstream) : ∃ sent uuid u v,
      (machine ι b setup).Passes (init ι b setup) es t (.request i sent uuid) u v ∧
      AuthService.router setup.gateway u.tokens u.now (propagate uuid sent.ofWire).1 =
        some (.ok (claims, upstream)) := by
  induction es using List.reverseRecOn generalizing t with
  | nil =>
    obtain rfl := Option.some.inj hrun
    cases h
  | append_singleton es e ih =>
    obtain ⟨s, hs, hlast⟩ := Machine.run_append_eq_some.mp hrun
    obtain ⟨t', hstep, ht'⟩ := Machine.run_cons_eq_some.mp hlast
    obtain rfl := Option.some.inj ht'
    rcases sent_of_step i claims upstream hstep with hiff | ⟨sent, uuid, rfl, -, hrouter⟩
    · obtain ⟨sent, uuid, u, v, hpass, hrouter⟩ := ih hs (hiff.mp h)
      exact ⟨sent, uuid, u, v, hpass.snoc hstep, hrouter⟩
    · exact ⟨sent, uuid, s, t', Machine.passes_last hs hstep, hrouter h⟩

/-- What holds in every state of every run. -/
structure Inv (setup : Setup) (s : System ι b) : Prop where
  server : Server.Inv setup.app s.server
  /-- The profile service receives what the gateway sent. -/
  delivered : ∀ i received, s.server.received i = some received → ∃ claims upstream added,
    s.Sent i claims upstream ∧ received.request = arriving upstream added

lemma inv_init : Inv setup (init ι b setup) where
  server := Server.inv_init
  delivered i received h := by cases h

lemma Inv.step (h : Inv setup s) {e : Event ι} (hs : System.step setup s e = some s') :
    Inv setup s' := by
  have hsent : ∀ {i claims upstream}, s.Sent i claims upstream → s'.Sent i claims upstream :=
    fun hsent => hsent.step hs
  have hsame : s'.server = s.server → Inv setup s' := by
    intro heq
    refine ⟨heq ▸ h.server, fun i received hi => ?_⟩
    rw [heq] at hi
    obtain ⟨claims, upstream, added, hi, hrequest⟩ := h.delivered i received hi
    exact ⟨claims, upstream, added, hsent hi, hrequest⟩
  obtain ⟨j, sent, uuid, proxied, -, -, -, rfl⟩ | ⟨f, server, hf, hkind, rfl⟩ |
    ⟨j, x, response, -, -, rfl⟩ | ⟨claims', -, rfl⟩ | ⟨d, -, rfl⟩ := step_cases hs
  case inr.inl =>
    refine ⟨h.server.step hf, fun i received hi => ?_⟩
    have hold : s.server.received i = some received → ∃ claims upstream added,
        s.Sent i claims upstream ∧ received.request = arriving upstream added :=
      h.delivered i received
    rcases hkind with ⟨j, claims, upstream, added, -, hj, rfl⟩ | ⟨g, -, rfl⟩
    · obtain ⟨j', request, outcome, hreceive, -, -, hreceived, -⟩ | ⟨g, hrun, -⟩ :=
        Server.step_cases hf
      · obtain ⟨rfl, rfl⟩ := Server.Event.receive.inj hreceive
        dsimp only at hi
        rw [hreceived] at hi
        by_cases hij : i = j
        · subst hij
          rw [Function.update_self] at hi
          obtain rfl := Option.some.inj hi
          exact ⟨claims, upstream, added, hj, rfl⟩
        · rw [Function.update_of_ne hij] at hi
          exact hold hi
      · cases hrun
    · obtain ⟨j', request, outcome, hreceive, -⟩ | ⟨g', -, -, -, hreceived⟩ :=
        Server.step_cases hf
      · cases hreceive
      · dsimp only at hi
        rw [hreceived] at hi
        exact hold hi
  all_goals exact hsame rfl

lemma inv_of_run {es : List (Event ι)}
    (hrun : (machine ι b setup).run (init ι b setup) es = some s) : Inv setup s :=
  Machine.run_invariant (M := machine ι b setup) (Inv setup) (fun _ _ _ h hs => h.step hs) inv_init
    hrun

/-- Whatever is sent upstream on behalf of verified claims carries the gateway's own headers
once each. -/
structure Genuine (setup : Setup) (claims : Claims) (upstream : HttpRequest) : Prop where
  userId : upstream.headers.filter (fun header => header.1 = Headers.userId) =
    [(Headers.userId, .ofText claims.sub.asStr)]
  internalToken : upstream.headers.filter (fun header => header.1 = Headers.internalToken) =
    [(Headers.internalToken, .ofText setup.gateway.upstream.internalToken)]

/-- The handler that touches the data of a user runs for a request that was sent upstream for
them. -/
lemma Inv.sent_of_touches (h : Inv setup s) {e : Event ι} (hs : System.step setup s e = some s')
    {user : UserId} (ht : s.server.service.Touches user s'.server.service)
    (hheaders : ∀ i claims upstream, s.Sent i claims upstream → claims.sub.IsUuid ∧
      ∃ client, setup.gateway.upstream.headers claims.sub client = some upstream.headers) :
    ∃ i claims upstream, e.By i ∧ s.Sent i claims upstream ∧ claims.sub = user := by
  obtain ⟨j, sent, uuid, proxied, -, -, -, rfl⟩ | ⟨f, server, hf, hkind, rfl⟩ |
    ⟨j, x, response, -, -, rfl⟩ | ⟨claims', -, rfl⟩ | ⟨d, -, rfl⟩ := step_cases hs
  case inr.inl =>
    rcases Server.step_service hf with heq | ⟨g, hg, hby, -⟩
    · exact absurd ht (Service.not_touches heq)
    · obtain ⟨i, x, hgi, hx, rfl⟩ := h.server.service.owner_of_touches hg ht
      obtain ⟨received, id, hi, hout⟩ := (h.server.handled i x.request).mp ⟨x, hx, rfl⟩
      have hrouter := h.server.routed i received hi
      rw [hout] at hrouter
      have hcaller := caller_of_router hrouter
      obtain ⟨claims, upstream, added, hsent, hrequest⟩ := h.delivered i received hi
      obtain ⟨huuid, client, hclient⟩ := hheaders i claims upstream hsent
      rw [hrequest] at hcaller
      have hsub := (caller_of_headers hclient huuid added).symm.trans hcaller
      refine ⟨i, claims, upstream, ?_, hsent, Except.ok.inj hsub⟩
      have hfi := hby i hgi
      rcases hkind with ⟨j, claims', upstream', added', rfl, -, rfl⟩ | ⟨g', rfl, rfl⟩
      · exact hfi
      · exact hfi
  all_goals exact absurd ht (Service.not_touches rfl)

/-- Identity cannot be forged through the gateway. Whatever is sent upstream carries one user
id and one internal token, those of the claims that the gateway verified when the request came
in and its own; and only steps of requests sent for the subject of such claims touch the
profile, the history or the idempotency entries of that user, but for the expiry of entries. -/
theorem identity_cannot_be_forged (b : Backend) (ι : Type) [DecidableEq ι] (setup : Setup)
    (es : List (Event ι)) (t : System ι b)
    (hrun : (machine ι b setup).run (init ι b setup) es = some t)
    (hsubs : ∀ i claims upstream, t.Sent i claims upstream → claims.sub.IsUuid) :
    (∀ i claims upstream, t.Sent i claims upstream → Genuine setup claims upstream ∧
      ∃ sent uuid u v token, (machine ι b setup).Passes (init ι b setup) es t
          (.request i sent uuid) u v ∧
        bearer (propagate uuid sent.ofWire).1.headers = .ok token ∧
        u.tokens.verify setup.gateway.jwt u.now token = .ok claims) ∧
    ∀ e u v, (machine ι b setup).Passes (init ι b setup) es t e u v →
      ∀ user, u.server.service.Touches user v.server.service →
        ∃ i claims upstream, e.By i ∧ t.Sent i claims upstream ∧ claims.sub = user := by
  have horigin : ∀ i claims upstream, t.Sent i claims upstream → ∃ sent uuid u v,
      (machine ι b setup).Passes (init ι b setup) es t (.request i sent uuid) u v ∧
      AuthService.authenticated setup.gateway.jwt u.tokens u.now
        (propagate uuid sent.ofWire).1.headers = .ok claims ∧
      setup.gateway.upstream.headers claims.sub (propagate uuid sent.ofWire).1.headers =
        some upstream.headers := by
    intro i claims upstream h
    obtain ⟨sent, uuid, u, v, hpass, hrouter⟩ := h.origin hrun
    obtain ⟨hauth, -, hheaders, -⟩ := proxy_eq_ok.mp (router_eq_ok hrouter)
    exact ⟨sent, uuid, u, v, hpass, hauth, hheaders⟩
  constructor
  · intro i claims upstream h
    obtain ⟨sent, uuid, u, v, hpass, hauth, hheaders⟩ := horigin i claims upstream h
    obtain ⟨huser, htoken⟩ := Upstream.headers_own hheaders
    obtain ⟨token, hbearer, hverify⟩ := authenticated_eq_ok.mp hauth
    exact ⟨⟨huser, htoken⟩, sent, uuid, u, v, token, hpass, hbearer, hverify⟩
  · intro e u v hpass user htouches
    obtain ⟨before, after, -, hbefore, hstep, hafter⟩ := hpass
    have hlater : ∀ i claims upstream, u.Sent i claims upstream → t.Sent i claims upstream :=
      fun i claims upstream h => (h.step hstep).run hafter
    obtain ⟨i, claims, upstream, hby, hsent, hsub⟩ :=
      (inv_of_run hbefore).sent_of_touches hstep htouches fun i claims upstream h => by
        obtain ⟨sent, uuid, u', v', -, -, hheaders⟩ :=
          horigin i claims upstream (hlater i claims upstream h)
        exact ⟨hsubs i claims upstream (hlater i claims upstream h), _, hheaders⟩
    exact ⟨i, claims, upstream, hby, hlater i claims upstream hsent, hsub⟩

/-- Claims of a token whose subject is a generated user id. -/
def Sample.alice : Claims := ⟨⟨"0f8fad5b-d9cb-469f-a165-70867728950e"⟩, "alice",
  "7c9e6679-7425-40de-944b-e07fc1f90ae7", 1700000900, 1700000000⟩

def Sample.token : String :=
  "eyJ0eXAiOiJKV1QiLCJhbGciOiJIUzI1NiIsImtpZCI6ImsxIn0." ++
  "eyJzdWIiOiIwZjhmYWQ1Yi1kOWNiLTQ2OWYtYTE2NS03MDg2NzcyODk1MGUiLCJ1c2VybmFtZSI6ImFsaWNlIiwi" ++
  "anRpIjoiN2M5ZTY2NzktNzQyNS00MGRlLTk0NGItZTA3ZmMxZjkwYWU3IiwiZXhwIjoxNzAwMDAwOTAwLCJpYXQi" ++
  "OjE3MDAwMDAwMDB9.dKz9aW5kNHzn8CbtkFKfAxf1Ju3vUaR_W4SvBT66-k8"

def Sample.codec : Jwt := .ofTokens (AList.singleton token (⟨.hs256, some "k1"⟩, alice, "s1"))

def Sample.built : Setup where
  gateway := ⟨codec, ⟨"", "secret"⟩, fun request => .ok request.body⟩
  app := ⟨"secret", Server.Sample.settings, Server.Sample.extract⟩
  tokens := .new ⟨"k1", "s1"⟩ [] 900

/-- A create with headers of the client's own invention. -/
def Sample.forged : HttpRequest := ⟨.post, "/profile",
  [("X-User-Id", .ofText "mallory"), ("Authorization", .ofText ("bearer " ++ token)),
    ("x-internal-token", .ofText "guess"), ("x-user-id", .ofText "root")],
  HeaderValue.ofText Server.Sample.body⟩

def Sample.uuid : String := "123e4567-e89b-42d3-a456-426614174000"

/-- What the profile service does about the request. -/
def Sample.served : List (Event ℕ) := [.deliver 0 [("host", .ofText "127.0.0.1:8081")],
  .server (.call 0 ⟨0, fun _ => false⟩), .server (.act 0), .server (.act 0), .server (.act 0)]

def Sample.creating : List (Event ℕ) := .tick 1700000000 :: .request 0 forged uuid :: served

/-- The codec knows the claims of its one token only. -/
lemma Sample.claims_of_decode {text secret : String} {v : Validation} {now : ℕ}
    (h : built.gateway.jwt.decode text secret v now = some claims) : claims = alice := by
  simp only [built, codec, Jwt.ofTokens] at h
  split at h
  · rename_i hd c secret' hlookup
    split at h
    · have hmem := AList.mem_lookup_iff.mp hlookup
      obtain rfl := Option.some.inj h
      simp [AList.singleton] at hmem
      exact hmem.2.2.1
    · cases h
  · cases h

set_option maxRecDepth 2000 in
lemma Sample.visible_token : ∀ c ∈ token.toList, 32 < c.toNat ∧ c.toNat < 127 := by
  unfold token
  refine forall_mem_append (forall_mem_append (forall_mem_append ?_ ?_) ?_) ?_
  all_goals exact forall_mem_ofList (by decide)

lemma Sample.lookup_token : (AList.singleton token (⟨.hs256, some "k1"⟩, alice, "s1") :
    HashMap String (Header × Claims × String)).lookup token =
      some (⟨.hs256, some "k1"⟩, alice, "s1") :=
  List.dlookup_cons_eq _ _ _

lemma Sample.verify_token : built.tokens.verify codec 1700000000 token = .ok alice := by
  refine TokenService.verify_eq_ok.mpr ⟨"k1", "s1", ?_, by decide, ?_, by decide⟩
  · simp only [codec, Jwt.ofTokens, lookup_token, Option.map_some, Option.bind_some]
  · rw [codec, Jwt.decode_ofTokens lookup_token (by decide) (by decide)]

/-- What the gateway makes of the request: alice's, whatever else its headers say. -/
def Sample.forwarded : HttpRequest := ⟨.post, "/profile",
  [(Headers.internalToken, .ofText "secret"), (Headers.userId, .ofText alice.sub.asStr),
    (Headers.requestId, .ofText uuid)], HeaderValue.ofText Server.Sample.body⟩

lemma Sample.headers_forged : built.gateway.upstream.headers alice.sub
    (propagate uuid forged.ofWire).1.headers = some forwarded.headers := rfl

lemma Sample.bearer_forged : bearer (propagate uuid forged.ofWire).1.headers = .ok token :=
  bearer_eq_ok (by decide +kernel) visible_token rfl

lemma Sample.router_forged : AuthService.router built.gateway built.tokens 1700000000
    (propagate uuid forged.ofWire).1 = some (.ok (alice, forwarded)) := by
  have hproxy : proxy built.gateway built.tokens 1700000000 (propagate uuid forged.ofWire).1 =
      .ok (alice, forwarded) :=
    proxy_eq_ok.mpr ⟨authenticated_eq_ok.mpr ⟨token, bearer_forged, verify_token⟩, rfl,
      headers_forged, rfl, rfl⟩
  exact router_profile rfl (by rintro name ⟨⟩) hproxy

def Sample.started : System ℕ .sqlite := { init ℕ .sqlite built with now := 1700000000 }

/-- The state once the request has come in. -/
def Sample.requested : System ℕ .sqlite := { started with
  exchange := Function.update started.exchange 0 (some ⟨(propagate uuid forged.ofWire).1,
    (propagate uuid forged.ofWire).2, some (alice, forwarded), none⟩) }

lemma Sample.run_creating : ∃ t : System ℕ .sqlite,
    (machine ℕ .sqlite built).run (init ℕ .sqlite built) creating = some t ∧
      t.Sent 0 alice forwarded := by
  have hstarted : System.step built (init ℕ .sqlite built) (.tick 1700000000) = some started := rfl
  have hrequested :
      (machine ℕ .sqlite built).step started (.request 0 forged uuid) = some requested :=
    step_request (s := started) rfl router_forged
  have hserved : ((machine ℕ .sqlite built).run requested served).isSome = true := by
    decide +kernel
  obtain ⟨t, ht⟩ := Option.isSome_iff_exists.mp hserved
  have hsent : requested.Sent 0 alice forwarded := rfl
  have hlast : (machine ℕ .sqlite built).run started (.request 0 forged uuid :: served) =
      some t := Machine.run_cons_eq_some.mpr ⟨requested, hrequested, ht⟩
  exact ⟨t, Machine.run_cons_eq_some.mpr ⟨started, hstarted, hlast⟩, hsent.run ht⟩

theorem identity_cannot_be_forged_forged : ∃ t claims upstream,
    (machine ℕ .sqlite Sample.built).run (init ℕ .sqlite Sample.built) Sample.creating = some t ∧
    t.Sent 0 claims upstream ∧ Genuine Sample.built claims upstream ∧
    ∀ e u v, (machine ℕ .sqlite Sample.built).Passes (init ℕ .sqlite Sample.built) Sample.creating
        t e u v →
      ∀ user, u.server.service.Touches user v.server.service →
        ∃ i claims upstream, e.By i ∧ t.Sent i claims upstream ∧ claims.sub = user := by
  obtain ⟨t, hrun, hsent⟩ := Sample.run_creating
  have hsubs : ∀ i claims upstream, t.Sent i claims upstream → claims.sub.IsUuid := by
    intro i claims upstream h
    obtain ⟨sent, uuid, u, v, -, hrouter⟩ := h.origin hrun
    obtain ⟨token, -, hverify⟩ :=
      authenticated_eq_ok.mp (proxy_eq_ok.mp (router_eq_ok hrouter)).1
    obtain ⟨kid, key, -, -, hdecode, -⟩ := TokenService.verify_eq_ok.mp hverify
    rw [Sample.claims_of_decode hdecode]
    decide
  obtain ⟨hgenuine, htouches⟩ := identity_cannot_be_forged .sqlite ℕ Sample.built Sample.creating t
    hrun hsubs
  exact ⟨t, Sample.alice, Sample.forwarded, hrun, hsent, (hgenuine 0 _ _ hsent).1, htouches⟩

end System

end Knova
