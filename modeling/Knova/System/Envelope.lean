import Knova.Auth.Envelope
import Knova.System.EntityTags

/-!
# The error envelope of both services

Every response that is no success has the uniform envelope, except where the framework answers
in place of a handler, and where a `HEAD` is refused.
-/

namespace Knova

open Library AuthService ProfileService

/-- Header, status and body of a response are relayed as they are. -/
lemma uniform_relay {response : Response} : (relay response).Uniform ↔ response.Uniform := by
  have htype : (relay response).headers.lookup "content-type" =
      response.headers.lookup "content-type" := by
    unfold relay forwardedToClient
    cases htype : response.headers.lookup "content-type" with
    | none =>
      cases hetag : response.headers.lookup "etag" with
      | none => simp [htype, hetag]
      | some tag => simp [htype, hetag]
    | some type => simp [htype]
  unfold Response.Uniform Response.Success Response.Enveloped
  rw [htype]
  rfl

namespace ProfileService.Server

variable {ι : Type} [DecidableEq ι] {b : Backend} {s : Server ι b} {i : ι} {received : Received}
  {r : Reply}

/-- The body of an answer is dropped once. -/
lemma finish_reply (hi : s.received i = some received) (hr : s.reply i = some r) :
    finish received.request r.response = r.response := by
  have hidem : ∀ response : Response, finish received.request (finish received.request response) =
      finish received.request response := by
    intro response
    unfold finish
    split
    · rfl
    · rfl
  obtain ⟨received', hi', hcase⟩ := reply_cases hr
  rw [hi] at hi'
  obtain rfl := Option.some.inj hi'
  rcases hcase with ⟨e, -, rfl⟩ | ⟨response, id, -, rfl⟩ | ⟨called, id, x, a, -, -, -, rfl⟩
  · exact hidem _
  · exact hidem _
  · exact hidem _

/-- An answer is relayed to a request of the same method. -/
lemma uniform_relayed {request : HttpRequest} (hi : s.received i = some received)
    (hr : s.reply i = some r) (hmethod : received.request.method = request.method) :
    (finish request (relay r.response)).Uniform ↔ r.response.Uniform := by
  have hfinish : finish request (relay r.response) = relay r.response := by
    have hreply := finish_reply hi hr
    unfold finish at hreply ⊢
    rw [hmethod] at hreply
    by_cases hhead : request.method = .head
    · rw [if_pos hhead] at hreply ⊢
      have hbody : (relay r.response).body = "" := (congrArg Response.body hreply).symm
      rw [← hbody]
    · rw [if_neg hhead]
  rw [hfinish, uniform_relay]

end ProfileService.Server

namespace System

variable {ι : Type} [DecidableEq ι] {b : Backend} {setup : Setup} {s s' t : System ι b} {i : ι}

/-- A step leaves the exchanges alone, or changes one that was not answered yet. -/
lemma exchange_cases {e : Event ι} (hs : step setup s e = some s') :
    s'.exchange = s.exchange ∨ ∃ j z, s'.exchange = Function.update s.exchange j (some z) ∧
      ∀ x, s.exchange j = some x → x.answer = none := by
  cases e with
  | request j sent uuid =>
    right
    simp only [step] at hs
    split at hs
    all_goals cases hs
    all_goals
      rename_i hj _
      refine ⟨j, _, rfl, fun x hx => ?_⟩
      rw [hj] at hx
      cases hx
  | deliver j added =>
    left
    simp only [step] at hs
    split at hs
    · split at hs
      · obtain ⟨server, -, rfl⟩ := Option.map_eq_some_iff.mp hs
        rfl
      · cases hs
    · cases hs
  | server f =>
    obtain ⟨server, -, rfl⟩ := Option.map_eq_some_iff.mp hs
    exact .inl rfl
  | relay j =>
    right
    simp only [step] at hs
    split at hs
    · rename_i hj _
      obtain rfl := Option.some.inj hs
      refine ⟨j, _, rfl, fun x hx => ?_⟩
      rw [← Option.some.inj (hj.symm.trans hx)]
    · cases hs
  | fail j =>
    right
    simp only [step] at hs
    split at hs
    · rename_i hj
      obtain rfl := Option.some.inj hs
      refine ⟨j, _, rfl, fun x hx => ?_⟩
      rw [← Option.some.inj (hj.symm.trans hx)]
    · cases hs
  | revoke claims =>
    obtain rfl := Option.some.inj hs
    exact .inl rfl
  | tick d =>
    obtain rfl := Option.some.inj hs
    exact .inl rfl

/-- A client is answered once. -/
lemma answer_of_step {e : Event ι} (hs : step setup s e = some s') {x : Exchange}
    {response : Response} (hi : s.exchange i = some x) (ha : x.answer = some response) :
    s'.exchange i = some x := by
  rcases exchange_cases hs with heq | ⟨j, z, heq, hpending⟩
  · rw [heq, hi]
  · rw [heq, Function.update_of_ne, hi]
    rintro rfl
    rw [hpending x hi] at ha
    cases ha

/-- What the gateway gave up on is answered so. -/
lemma unavailable_of_run {es : List (Event ι)} (hrun : (machine ι b setup).run s es = some t)
    (hfail : .fail i ∈ es) : ∃ x, t.exchange i = some x ∧
      x.answer = some AppError.upstream.intoResponse := by
  obtain ⟨before, after, rfl⟩ := List.append_of_mem hfail
  obtain ⟨u, hu, hrest⟩ := Machine.run_append_eq_some.mp hrun
  obtain ⟨v, hv, hafter⟩ := Machine.run_cons_eq_some.mp hrest
  have hgiven : ∃ x, v.exchange i = some x ∧
      x.answer = some AppError.upstream.intoResponse := by
    have hv : step setup u (.fail i) = some v := hv
    obtain ⟨j, sent, uuid, proxied, he, -⟩ | ⟨f, server, -, hkind, -⟩ |
      ⟨j, x, response, hkind, -, rfl⟩ | ⟨claims, he, -⟩ | ⟨d, he, -⟩ := step_cases hv
    · cases he
    · rcases hkind with ⟨j, claims, upstream, added, he, -⟩ | ⟨g, he, -⟩ <;> cases he
    · rcases hkind with ⟨he, -⟩ | ⟨he, rfl⟩
      · cases he
      · cases he
        exact ⟨_, Function.update_self .., rfl⟩
    · cases he
    · cases he
  exact Machine.run_invariant (M := machine ι b setup)
    (fun u : System ι b => ∃ x, u.exchange i = some x ∧
      x.answer = some AppError.upstream.intoResponse)
    (fun _ _ _ ⟨x, hx, ha⟩ hs => ⟨x, answer_of_step hs hx ha, ha⟩) hgiven hafter

/-- The authorization service's response to a request: the client's `sent` reaches it in the
state `s`, under `i` where it is sent upstream, and is answered in the course of `es`. -/
inductive Gives (setup : Setup) (json : HttpRequest → Except Response LoginRequest)
    (s : System ι b) (es : List (Event ι)) (t : System ι b) (i : ι) (sent : HttpRequest)
    (uuid : String) : Response → Prop
  | respond (response : Response) :
    serve setup.gateway json s.tokens s.now (propagate uuid sent.ofWire).1 =
      .respond response →
    Gives setup json s es t i sent uuid
      (Server.finish (propagate uuid sent.ofWire).1 response)
  | login (credentials : LoginRequest) (κ : Type) (instDec : DecidableEq κ) (cfg : LoginSettings)
    (state : AppState) (fs : List (Logins.Event κ)) (l : Logins κ) (j : κ) (x : LoginAttempt)
    (response : Response) :
    serve setup.gateway json s.tokens s.now (propagate uuid sent.ofWire).1 =
      .login credentials →
    (Logins.machine κ cfg).run (Logins.start κ state) fs = some l → l.attempt j = some x →
    x.request = credentials → l.Responded j response →
    Gives setup json s es t i sent uuid
      (Server.finish (propagate uuid sent.ofWire).1 response)
  | logout (claims : Claims) :
    serve setup.gateway json s.tokens s.now (propagate uuid sent.ofWire).1 = .logout claims →
    Gives setup json s es t i sent uuid
      (Server.finish (propagate uuid sent.ofWire).1 (.empty 204))
  | proxied (claims : Claims) (upstream : HttpRequest) (s' : System ι b) (given : Reply) :
    serve setup.gateway json s.tokens s.now (propagate uuid sent.ofWire).1 =
      .proxied claims upstream →
    (machine ι b setup).step s (.request i sent uuid) = some s' →
    (machine ι b setup).run s' es = some t → t.reply i = some given →
    Gives setup json s es t i sent uuid given.response

/-- The answer to `request` is an error without an envelope: the framework gives it, here or at
the profile service, or it answers a `HEAD`, so that its body is dropped. -/
inductive Bare (setup : Setup) (json : HttpRequest → Except Response LoginRequest)
    (s : System ι b) (es : List (Event ι)) (t : System ι b) (i : ι) (request : HttpRequest) : Prop
  | unhandled : Unhandled setup.gateway json s.tokens s.now request →
    Bare setup json s es t i request
  | refused : request.method = .head → request.path ≠ "/health" →
    ¬Forwarded setup.gateway s.tokens s.now request → Bare setup json s es t i request
  | unavailable : request.method = .head → Forwarded setup.gateway s.tokens s.now request →
    .fail i ∈ es → Bare setup json s es t i request
  | upstream (received : Received) : Forwarded setup.gateway s.tokens s.now request →
    .fail i ∉ es → t.server.received i = some received →
    t.server.Bare setup.app i received.request → Bare setup json s es t i request

/-- What the extractors reject with is plain text. -/
structure PlainText (setup : Setup) (json : HttpRequest → Except Response LoginRequest) :
    Prop where
  profile : setup.app.extract.PlainText
  bytes : ∀ request response, setup.gateway.bytes request = .error response → response.PlainText
  json : ∀ request response, json request = .error response → response.PlainText

/-- The answer to a request that was sent upstream. -/
lemma uniform_of_proxied {json : HttpRequest → Except Response LoginRequest}
    {before es : List (Event ι)} {sent : HttpRequest} {uuid : String} {given : Reply}
    (hplain : PlainText setup json)
    (hbefore : (machine ι b setup).run (init ι b setup) before = some s)
    (hforwarded : Forwarded setup.gateway s.tokens s.now (propagate uuid sent.ofWire).1)
    (hstep : (machine ι b setup).step s (.request i sent uuid) = some s')
    (hrun : (machine ι b setup).run s' es = some t) (hgiven : t.reply i = some given) :
    given.response.Uniform ↔
      ¬((propagate uuid sent.ofWire).1.method = .head ∧ .fail i ∈ es ∨ .fail i ∉ es ∧
        ∃ received, t.server.received i = some received ∧
          t.server.Bare setup.app i received.request) := by
  obtain ⟨hnew, proxied, x, hrouter, hx, hrequest, hsent⟩ := exchange_of_request hstep
  obtain ⟨claims, upstream, hforwarded⟩ := hforwarded
  rw [hforwarded] at hrouter
  obtain rfl := Option.some.inj hrouter
  obtain ⟨y, hy, hyrequest, hysent⟩ := exchange_of_run hrun hx
  rw [hrequest] at hyrequest
  rw [hsent] at hysent
  obtain ⟨y', hy', hanswer⟩ := Option.bind_eq_some_iff.mp hgiven
  rw [hy] at hy'
  obtain rfl := Option.some.inj hy'
  obtain ⟨response, hresponse, rfl⟩ := Option.map_eq_some_iff.mp hanswer
  dsimp only
  rw [hyrequest]
  by_cases hfail : .fail i ∈ es
  · obtain ⟨z, hz, hanswered⟩ := unavailable_of_run hrun hfail
    rw [hy] at hz
    obtain rfl := Option.some.inj hz
    rw [hresponse] at hanswered
    obtain rfl := Option.some.inj hanswered
    rw [Server.uniform_finish_reported AppError.upstream.reported]
    exact not_congr ⟨fun hhead => .inl ⟨hhead, hfail⟩, fun h => h.elim And.left
      fun h => absurd hfail h.1⟩
  · have hall : (machine ι b setup).run s (.request i sent uuid :: es) = some t :=
      Machine.run_cons_eq_some.mpr ⟨s', hstep, hrun⟩
    have hinv : Inv setup t := inv_of_run (Machine.run_append_eq_some.mpr ⟨s, hbefore, hall⟩)
    rcases relayed_of_run hall hnew y hy (by rw [hysent]; exact Option.some_ne_none _) response
      hresponse with ⟨hmem, -⟩ | ⟨r, hr, rfl⟩
    · rcases List.mem_cons.mp hmem with heq | hmem
      · cases heq
      · exact absurd hmem hfail
    · obtain ⟨received, hreceived, -⟩ := Server.reply_cases hr
      have hsent : t.Sent i claims upstream := by
        unfold Sent
        rw [hy, Option.bind_some, hysent]
        rfl
      obtain ⟨added, harrived⟩ := hinv.arrived hreceived hsent
      obtain ⟨-, -, -, hmethod, -⟩ := proxy_eq_ok.mp (router_eq_ok hforwarded)
      rw [Server.uniform_relayed hreceived hr (by rw [harrived]; exact hmethod),
        hinv.server.uniform_iff hplain.profile (.reply received r hreceived rfl hr)]
      refine not_congr ⟨fun hbare => .inr ⟨hfail, received, hreceived, hbare⟩, fun h => ?_⟩
      rcases h with ⟨-, hmem⟩ | ⟨-, received', hreceived', hbare⟩
      · exact absurd hmem hfail
      · rw [hreceived] at hreceived'
        obtain rfl := Option.some.inj hreceived'
        exact hbare

section Bare

variable {json : HttpRequest → Except Response LoginRequest} {es : List (Event ι)}
  {request : HttpRequest}

lemma bare_iff_of_not_forwarded (hhandled : ¬Unhandled setup.gateway json s.tokens s.now request)
    (hnot : ¬Forwarded setup.gateway s.tokens s.now request) :
    s.Bare setup json es t i request ↔ request.method = .head ∧ request.path ≠ "/health" := by
  constructor
  · rintro (h | ⟨hhead, hpath, -⟩ | ⟨-, h, -⟩ | ⟨received, h, -⟩)
    · exact absurd h hhandled
    · exact ⟨hhead, hpath⟩
    · exact absurd h hnot
    · exact absurd h hnot
  · exact fun ⟨hhead, hpath⟩ => .refused hhead hpath hnot

lemma bare_iff_of_forwarded (hhandled : ¬Unhandled setup.gateway json s.tokens s.now request)
    (hforwarded : Forwarded setup.gateway s.tokens s.now request) :
    s.Bare setup json es t i request ↔ request.method = .head ∧ .fail i ∈ es ∨ .fail i ∉ es ∧
      ∃ received, t.server.received i = some received ∧
        t.server.Bare setup.app i received.request := by
  constructor
  · rintro (h | ⟨-, -, h⟩ | ⟨hhead, -, hfail⟩ | ⟨received, -, hfail, hreceived, hbare⟩)
    · exact absurd h hhandled
    · exact absurd hforwarded h
    · exact .inl ⟨hhead, hfail⟩
    · exact .inr ⟨hfail, received, hreceived, hbare⟩
  · rintro (⟨hhead, hfail⟩ | ⟨hfail, received, hreceived, hbare⟩)
    · exact .unavailable hhead hforwarded hfail
    · exact .upstream received hforwarded hfail hreceived hbare

end Bare

/-- The answer of a login is a success or an error of the service's own. -/
lemma render_login (answer : LoginAnswer) :
    (Login.render answer).Success ∨ (Login.render answer).Reported := by
  cases answer with
  | error e => exact .inr e.reported
  | ok response => exact .inl (by decide : 200 ≤ 200 ∧ 200 < 300)

/-- An answer of the authorization service to a request it handles itself. -/
lemma uniform_of_respond {json : HttpRequest → Except Response LoginRequest} {tokens : TokenService}
    {now : ℕ} {request : HttpRequest} {response : Response}
    (hhandled : ¬Unhandled setup.gateway json tokens now request)
    (hserve : serve setup.gateway json tokens now request = .respond response) :
    (Server.finish request response).Uniform ↔
      ¬(request.method = .head ∧ request.path ≠ "/health") := by
  rcases serve_of_not_unhandled hhandled with ⟨hpath, h⟩ |
    ⟨hpath, ⟨response', hreported, h⟩ | ⟨-, ⟨credentials, h⟩ | ⟨claims, h⟩⟩ | ⟨claims, upstream, h⟩⟩
  · obtain rfl := Handled.respond.inj (hserve.symm.trans h)
    refine iff_of_true (Server.uniform_finish_success ?_) fun hnot => hnot.2 hpath
    exact (by decide : 200 ≤ 200 ∧ 200 < 300)
  · obtain rfl := Handled.respond.inj (hserve.symm.trans h)
    rw [Server.uniform_finish_reported hreported]
    exact not_congr ⟨fun hhead => ⟨hhead, hpath⟩, And.left⟩
  all_goals
    rw [hserve] at h
    cases h

/-- Requests to log in or out are no `HEAD`. -/
lemma method_of_serve {json : HttpRequest → Except Response LoginRequest} {tokens : TokenService}
    {now : ℕ} {request : HttpRequest}
    (hhandled : ¬Unhandled setup.gateway json tokens now request)
    (hserve : (∃ credentials, serve setup.gateway json tokens now request = .login credentials) ∨
      ∃ claims, serve setup.gateway json tokens now request = .logout claims) :
    request.method ≠ .head := by
  rcases serve_of_not_unhandled hhandled with ⟨-, h⟩ |
    ⟨-, ⟨response, -, h⟩ | ⟨hmethod, -⟩ | ⟨claims, upstream, h⟩⟩
  case inr.inr.inl =>
    rw [hmethod]
    rintro ⟨⟩
  all_goals
    rw [h] at hserve
    rcases hserve with ⟨x, hx⟩ | ⟨x, hx⟩ <;> cases hx

/-- Every answer of the authorization service has the envelope, or needs none, exactly where it
is not bare. -/
lemma uniform_of_gives {json : HttpRequest → Except Response LoginRequest}
    {before es : List (Event ι)} {sent : HttpRequest} {uuid : String} {response : Response}
    (hplain : PlainText setup json)
    (hrun : (machine ι b setup).run (init ι b setup) before = some s)
    (hgives : s.Gives setup json es t i sent uuid response) :
    response.Uniform ↔ ¬s.Bare setup json es t i (propagate uuid sent.ofWire).1 := by
  have hforwarded : ∀ handled,
      serve setup.gateway json s.tokens s.now (propagate uuid sent.ofWire).1 = handled →
      (∀ claims upstream, handled ≠ .proxied claims upstream) →
      ¬Forwarded setup.gateway s.tokens s.now (propagate uuid sent.ofWire).1 := by
    intro handled hserve hne hforwarded
    obtain ⟨claims, upstream, h⟩ := (forwarded_iff json).mp hforwarded
    exact hne claims upstream (hserve.symm.trans h)
  by_cases hunhandled :
      Unhandled setup.gateway json s.tokens s.now (propagate uuid sent.ofWire).1
  · refine iff_of_false ?_ fun hbare => hbare (.unhandled hunhandled)
    obtain ⟨response', hserve, hforeign⟩ := hunhandled.serve hplain.json hplain.bytes
    cases hgives with
    | respond response h =>
      rw [hserve] at h
      obtain rfl := Handled.respond.inj h
      exact Server.uniform_finish_foreign hforeign
    | login credentials κ instDec cfg state fs l j x response h =>
      rw [hserve] at h
      cases h
    | logout claims h =>
      rw [hserve] at h
      cases h
    | proxied claims upstream s' given h =>
      rw [hserve] at h
      cases h
  · cases hgives with
    | respond response h =>
      rw [bare_iff_of_not_forwarded hunhandled (hforwarded _ h (by rintro c u ⟨⟩))]
      exact uniform_of_respond hunhandled h
    | login credentials κ instDec cfg state fs l j x response h hlogins hx hcredentials hresponse =>
      rw [bare_iff_of_not_forwarded hunhandled (hforwarded _ h (by rintro c u ⟨⟩))]
      have hmethod := method_of_serve hunhandled (.inl ⟨credentials, h⟩)
      refine iff_of_true ?_ fun hnot => hmethod hnot.1
      obtain ⟨x', answer, -, -, rfl⟩ := hresponse
      rcases render_login answer with hsuccess | hreported
      · exact Server.uniform_finish_success hsuccess
      · exact (Server.uniform_finish_reported hreported).mpr hmethod
    | logout claims h =>
      rw [bare_iff_of_not_forwarded hunhandled (hforwarded _ h (by rintro c u ⟨⟩))]
      refine iff_of_true (Server.uniform_finish_success ?_) fun hnot =>
        method_of_serve hunhandled (.inr ⟨claims, h⟩) hnot.1
      exact (by decide : 200 ≤ 204 ∧ 204 < 300)
    | proxied claims upstream s' given h hstep hafter hgiven =>
      have hsent := (forwarded_iff json).mpr ⟨claims, upstream, h⟩
      rw [bare_iff_of_forwarded hunhandled hsent]
      exact uniform_of_proxied hplain hrun hsent hstep hafter hgiven

/-- Every error has the uniform envelope, at either service, in every run and for every request,
exactly where its answer is not bare. -/
theorem error_envelope (b : Backend) (ι : Type) [DecidableEq ι] (setup : Setup)
    (json : HttpRequest → Except Response LoginRequest) (hplain : PlainText setup json) :
    (∀ (es : List (Server.Event ι)) (s : Server ι b) (i : ι) (request : HttpRequest)
      (response : Response),
      (Server.machine ι b setup.app).run (Server.init ι b setup.app) es = some s →
      s.Gives i request response →
      (response.Uniform ↔ ¬s.Bare setup.app i request)) ∧
    ∀ (before es : List (Event ι)) (s t : System ι b) (i : ι) (sent : HttpRequest)
      (uuid : String) (response : Response),
      (machine ι b setup).run (init ι b setup) before = some s →
      s.Gives setup json es t i sent uuid response →
      (response.Uniform ↔ ¬s.Bare setup json es t i (propagate uuid sent.ofWire).1) := by
  constructor
  · exact fun es s i request response hrun hgives =>
      (Server.inv_of_run hrun).uniform_iff hplain.profile hgives
  · exact fun before es s t i sent uuid response hrun hgives =>
      uniform_of_gives hplain hrun hgives

namespace Sample

def loginBody : String := "\x7b\"username\":\"alice\",\"password\":\"secret\"\x7d"

/-- An extractor that knows one body. -/
def credentials (request : HttpRequest) : Except Response LoginRequest :=
  if request.headers.get "content-type" ≠ some (.ofText "application/json") then
    .error (Server.Sample.rejection 415 "Expected request with `Content-Type: application/json`")
  else if request.body = HeaderValue.ofText loginBody then .ok ⟨"alice", "secret"⟩
  else .error (Server.Sample.rejection 400 "Failed to parse the request body as JSON")

lemma plainText_rejection {status : ℕ} (h : 400 ≤ status) (text : String) :
    (Server.Sample.rejection status text).PlainText := ⟨h, List.lookup_cons_self⟩

lemma plainText : PlainText built credentials where
  profile := {
    string := fun request response h => by
      simp only [built, Server.Sample.extract] at h
      split at h <;> cases h
      exact plainText_rejection (by decide) _
    json := fun request response h => by
      simp only [built, Server.Sample.extract] at h
      split at h
      · cases h
        exact plainText_rejection (by decide) _
      · split at h <;> cases h
        exact plainText_rejection (by decide) _ }
  bytes request response h := by cases h
  json request response h := by
    unfold credentials at h
    split at h
    · cases h
      exact plainText_rejection (by decide) _
    · split at h <;> cases h
      exact plainText_rejection (by decide) _

/-- An update without a content type, as the gateway sends it. -/
def untyped : HttpRequest := ⟨.put, "/profile", [(Headers.internalToken, .ofText "secret"),
  (Headers.userId, .ofText alice.sub.asStr), ("if-match", .ofText "\"1\"")],
  HeaderValue.ofText Server.Sample.body⟩

lemma gives_created {given : Reply} (hgiven : created.reply 0 = some given) :
    started.Gives built credentials (relayed 0) created 0 forged uuid given.response := by
  have hforwarded : Forwarded built.gateway started.tokens started.now
      (propagate uuid forged.ofWire).1 := ⟨alice, forwarded, router_forged⟩
  obtain ⟨claims, upstream, hserve⟩ := (forwarded_iff credentials).mp hforwarded
  have hstep : (machine ℕ .sqlite built).step started (.request 0 forged uuid) = some requested :=
    step_request (s := started) rfl router_forged
  exact .proxied claims upstream requested given hserve hstep run_created hgiven

end Sample

open Sample in
/-- alice's create is answered through the gateway. -/
theorem error_envelope_create : ∃ given, created.reply 0 = some given ∧
    given.response.status = 201 ∧
    ¬started.Bare built credentials (relayed 0) created 0 (propagate uuid forged.ofWire).1 := by
  have hanswered : (created.reply 0).any (fun given => given.response.status = 201) = true := by
    decide +kernel
  obtain ⟨given, hgiven, hstatus⟩ := (Option.any_eq_true _ _).mp hanswered
  have hstatus := of_decide_eq_true hstatus
  have hsuccess : given.response.Success := by
    unfold Response.Success
    rw [hstatus]
    decide
  refine ⟨given, hgiven, hstatus, ?_⟩
  exact ((error_envelope .sqlite ℕ built credentials plainText).2 [.tick 1700000000] (relayed 0)
    started created 0 forged uuid given.response rfl (gives_created hgiven)).mp
      fun hnot => absurd hsuccess hnot

open Sample in
/-- An update without a content type is rejected in plain text. -/
theorem error_envelope_fails : ∃ (s : Server ℕ .sqlite) (response : Response),
    (Server.machine ℕ .sqlite built.app).run (Server.init ℕ .sqlite built.app)
      [.receive 0 untyped] = some s ∧
    s.Gives 0 untyped response ∧ response.status = 415 ∧ ¬response.Uniform := by
  have hrun : ((Server.machine ℕ .sqlite built.app).run (Server.init ℕ .sqlite built.app)
      [.receive 0 untyped]).any (fun s =>
        (s.received 0).any (fun received => received.request = untyped) &&
        (s.reply 0).any fun r => r.response.status = 415 ∧
          r.response.headers.lookup "content-type" = some "text/plain; charset=utf-8") = true := by
    decide +kernel
  obtain ⟨s, hs, hboth⟩ := (Option.any_eq_true _ _).mp hrun
  obtain ⟨hreceived, hreply⟩ := Bool.and_eq_true_iff.mp hboth
  obtain ⟨received, hreceived, hrequest⟩ := (Option.any_eq_true _ _).mp hreceived
  obtain ⟨r, hr, hanswer⟩ := (Option.any_eq_true _ _).mp hreply
  have hrequest : received.request = untyped := of_decide_eq_true hrequest
  obtain ⟨hstatus, htype⟩ := of_decide_eq_true hanswer
  refine ⟨s, r.response, hs, .reply received r hreceived hrequest hr, hstatus, fun huniform => ?_⟩
  obtain ⟨hjson, -⟩ := huniform (Response.not_success (by rw [hstatus]; decide))
  rw [htype] at hjson
  exact absurd hjson (by decide)

end System

end Knova
