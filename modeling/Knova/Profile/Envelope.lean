import Knova.Profile.Refused

/-!
# The error envelope of the profile service

What the service answers, other than a success, is an envelope, unless the framework answers
in its place or the body of the answer is dropped.
-/

namespace Knova

open Library Routes

namespace Response

variable {response : Response}

def Success (response : Response) : Prop := 200 ≤ response.status ∧ response.status < 300

/-- The body is JSON, of the shape of `ErrorResponse`. -/
def Enveloped (response : Response) : Prop :=
  response.headers.lookup "content-type" = some "application/json" ∧
    ∃ e : ErrorResponse, response.body = e.toJson

/-- Every response that is no success has the envelope. -/
def Uniform (response : Response) : Prop := ¬response.Success → response.Enveloped

/-- An error that a service reports itself. -/
structure Reported (response : Response) : Prop where
  status : 400 ≤ response.status
  enveloped : response.Enveloped

/-- An error that the framework answers: plain text, or nothing. -/
structure Foreign (response : Response) : Prop where
  status : 400 ≤ response.status
  plain : response.headers.lookup "content-type" ≠ some "application/json"

/-- A rejection, as the framework's extractors render it. -/
structure PlainText (response : Response) : Prop where
  status : 400 ≤ response.status
  contentType : response.headers.lookup "content-type" = some "text/plain; charset=utf-8"

lemma not_success (h : 400 ≤ response.status) : ¬response.Success :=
  fun hsuccess => absurd (Nat.lt_of_le_of_lt h hsuccess.2) (by decide)

lemma PlainText.foreign (h : response.PlainText) : response.Foreign where
  status := h.status
  plain := by
    rw [h.contentType]
    decide

lemma foreign_empty {status : ℕ} (h : 400 ≤ status) : Foreign (.empty status) :=
  ⟨h, fun h => by cases h⟩

lemma foreign_methodNotAllowed (allow : String) : Foreign (.methodNotAllowed allow) where
  status := (by decide : 400 ≤ 405)
  plain h := by
    change List.lookup "content-type" [("allow", allow)] = _ at h
    rw [List.lookup_cons, (by decide : ("content-type" == "allow") = false)] at h
    cases h

lemma reported_json {status : ℕ} (h : 400 ≤ status) (headers : List (String × String))
    (e : ErrorResponse) : Reported (.json status headers e.toJson) :=
  ⟨h, List.lookup_cons_self, e, rfl⟩

end Response

lemma ErrorResponse.toJson_ne_empty (e : ErrorResponse) : e.toJson ≠ "" := by
  intro h
  have hlist : (ErrorResponse.toJson e).toList = [] := congrArg String.toList h
  rw [ErrorResponse.toJson, String.toList_ofList] at hlist
  cases hlist

lemma ProfileError.reported (e : ProfileError) : e.intoResponse.Reported :=
  Response.reported_json e.intoResponse_status _ _

namespace ProfileService

/-- The extractors reject in plain text. -/
structure Extractors.PlainText (extract : Extractors) : Prop where
  string : ∀ request response, extract.string request = .error response → response.PlainText
  json : ∀ request response, extract.json request = .error response → response.PlainText

/-- The guard lets the request in. -/
def Admitted (app : App) (request : HttpRequest) : Prop :=
  (request.headers.get Headers.internalToken).getD [] = .ofText app.internalToken

/-- The extractor of its handler rejects the body. -/
inductive Unread (extract : Extractors) (request : HttpRequest) : Prop
  | string (response : Response) : request.method = .post →
    extract.string request = .error response → Unread extract request
  | json (response : Response) : request.method = .put →
    extract.json request = .error response → Unread extract request

/-- The service has no handler for the request, or it rejects the body before one runs. -/
inductive Unserved (app : App) (request : HttpRequest) : Prop
  | path : request.path ≠ "/profile" → request.path ≠ "/profile/history" →
    request.path ≠ "/health" → Admitted app request → Unserved app request
  | method (name : String) : request.path = "/profile" → Admitted app request →
    request.method = .other name → Unserved app request
  | readOnly : (request.path = "/profile/history" ∧ Admitted app request ∨
    request.path = "/health") → request.method ≠ .get → request.method ≠ .head →
    Unserved app request
  | body (user : UserId) : request.path = "/profile" → Admitted app request →
    caller request.headers = .ok user → Unread app.extract request → Unserved app request

section Router

variable {app : App} {request : HttpRequest}

/-- Such a request is answered by the framework. -/
lemma Unserved.router (hplain : app.extract.PlainText) (h : Unserved app request) :
    ∃ response id, ProfileService.router app request = .ok (.respond response, id) ∧
      response.Foreign := by
  cases h with
  | path hprofile hhistory hhealth hin =>
    refine ⟨_, request.headers.get Headers.requestId, ?_,
      Response.foreign_empty (by decide : 400 ≤ 404)⟩
    rw [ProfileService.router, if_neg hprofile, if_neg hhistory, if_neg hhealth,
      gatewayGuard_of_eq hin, fallback]
  | method name hpath hin hmethod =>
    refine ⟨_, request.headers.get Headers.requestId, ?_,
      Response.foreign_methodNotAllowed "POST,GET,HEAD,PUT"⟩
    rw [ProfileService.router, if_pos hpath, gatewayGuard_of_eq hin]
    simp only [profile, hmethod]
  | readOnly hpath hget hhead =>
    refine ⟨.methodNotAllowed "GET,HEAD", ?_⟩
    rcases hpath with ⟨hpath, hin⟩ | hpath
    · refine ⟨request.headers.get Headers.requestId, ?_,
        Response.foreign_methodNotAllowed "GET,HEAD"⟩
      rw [ProfileService.router, if_neg (by rw [hpath]; decide), if_pos hpath,
        gatewayGuard_of_eq hin]
      unfold history
      split
      · rename_i hmethod
        exact absurd hmethod hget
      · rename_i hmethod
        exact absurd hmethod hhead
      · rfl
    · refine ⟨none, ?_, Response.foreign_methodNotAllowed "GET,HEAD"⟩
      rw [ProfileService.router, if_neg (by rw [hpath]; decide),
        if_neg (by rw [hpath]; decide), if_pos hpath]
      unfold health
      split
      · rename_i hmethod
        exact absurd hmethod hget
      · rename_i hmethod
        exact absurd hmethod hhead
      · rfl
  | body user hpath hin hcaller hbody =>
    rw [ProfileService.router, if_pos hpath, gatewayGuard_of_eq hin]
    cases hbody with
    | string response hmethod hstring =>
      refine ⟨response, request.headers.get Headers.requestId, ?_,
        (hplain.string _ _ hstring).foreign⟩
      simp only [profile, hmethod, authenticated, extracting, hcaller, Except.mapError, hstring]
    | json response hmethod hjson =>
      refine ⟨response, request.headers.get Headers.requestId, ?_,
        (hplain.json _ _ hjson).foreign⟩
      simp only [profile, hmethod, authenticated, extracting, hcaller, Except.mapError, hjson]

/-- What becomes of a request that is served: an error of the service's own, or a handler that
reads where the method is `HEAD`. -/
def Served (request : HttpRequest) : Outcome → Prop
  | .respond response => response.Reported
  | .handle called => request.method = .head → ∃ user, called = .read user ∨ called = .history user

lemma served_authenticated {next : UserId → Outcome}
    (h : ∀ user, caller request.headers = .ok user → Served request (next user)) :
    Served request (authenticated request next) := by
  unfold authenticated extracting
  cases hcaller : caller request.headers with
  | error e => exact e.reported
  | ok user => exact h user hcaller

lemma served_profile (h : ¬Unserved app request) (hpath : request.path = "/profile")
    (hin : Admitted app request) : Served request (profile app.extract request) := by
  unfold profile
  split
  · rename_i hmethod
    refine served_authenticated fun user hcaller => ?_
    cases hbody : app.extract.string request with
    | error response => exact absurd (.body user hpath hin hcaller (.string _ hmethod hbody)) h
    | ok body =>
      intro hhead
      rw [hmethod] at hhead
      cases hhead
  · exact served_authenticated fun user _ _ => ⟨user, .inl rfl⟩
  · exact served_authenticated fun user _ _ => ⟨user, .inl rfl⟩
  · rename_i hmethod
    refine served_authenticated fun user hcaller => ?_
    cases hbody : app.extract.json request with
    | error response => exact absurd (.body user hpath hin hcaller (.json _ hmethod hbody)) h
    | ok input =>
      intro hhead
      rw [hmethod] at hhead
      cases hhead
  · rename_i name hmethod
    exact absurd (.method name hpath hin hmethod) h

lemma served_history (h : ¬Unserved app request) (hpath : request.path = "/profile/history")
    (hin : Admitted app request) : Served request (history request) := by
  unfold history
  split
  · exact served_authenticated fun user _ _ => ⟨user, .inr rfl⟩
  · exact served_authenticated fun user _ _ => ⟨user, .inr rfl⟩
  · rename_i hget hhead
    exact absurd (.readOnly (.inl ⟨hpath, hin⟩) hget hhead) h

/-- Everything the router makes of a request that is served. -/
lemma router_of_served (h : ¬Unserved app request) :
    request.path = "/health" ∧ ProfileService.router app request =
        .ok (.respond (.json 200 [] "\x7b\"status\":\"ok\"\x7d"), none) ∨
      request.path ≠ "/health" ∧
        (ProfileService.router app request = .error .notInternal ∨ ∃ answered id,
          ProfileService.router app request = .ok (answered, id) ∧
            Served request answered) := by
  have hguard : ∀ {next : HttpRequest → Outcome},
      (Admitted app request → Served request (next request)) →
      gatewayGuard app.internalToken request next = .error .notInternal ∨ ∃ answered id,
        gatewayGuard app.internalToken request next = .ok (answered, id) ∧
          Served request answered := by
    intro next hnext
    by_cases hin : Admitted app request
    · exact .inr ⟨_, _, gatewayGuard_of_eq hin, hnext hin⟩
    · exact .inl (gatewayGuard_of_ne hin)
  unfold ProfileService.router
  by_cases hprofile : request.path = "/profile"
  · rw [if_pos hprofile]
    exact .inr ⟨by rw [hprofile]; decide, hguard (served_profile h hprofile)⟩
  rw [if_neg hprofile]
  by_cases hhistory : request.path = "/profile/history"
  · rw [if_pos hhistory]
    exact .inr ⟨by rw [hhistory]; decide, hguard (served_history h hhistory)⟩
  rw [if_neg hhistory]
  by_cases hhealth : request.path = "/health"
  · rw [if_pos hhealth]
    refine .inl ⟨hhealth, ?_⟩
    unfold health
    split
    · rfl
    · rfl
    · rename_i hget hhead
      exact absurd (.readOnly (.inr hhealth) hget hhead) h
  · rw [if_neg hhealth]
    exact .inr ⟨hhealth, hguard fun hin => absurd (.path hprofile hhistory hhealth hin) h⟩

end Router

end ProfileService

/-! ### What handlers answer -/

namespace Service

variable {ι : Type} [DecidableEq ι] {b : Backend} {cfg : Settings} {s : Service ι b} {i : ι}

/-- The repository returned the profile, or the history, that the handler of `i` reads. -/
def Found (s : Service ι b) (i : ι) : Prop := ∃ user env,
  (∃ p, s.profiles.thread i = some (.returned (.get user, env) (.ok (some p)))) ∨
    ∃ first rest,
      s.profiles.thread i = some (.returned (.history user, env) (.ok (first :: rest)))

/-- A handler fails, or it succeeds. -/
lemma Inv.fails_or_succeeds (hs : Inv cfg s) {x : Handling} {a : Answer}
    (hx : s.handler i = some x) (ha : x.rest = .pure a) : (∃ e, a = .error e) ∨ a.Succeeds := by
  have hfollows := hs.tracks.follows i x hx
  match a with
  | .error e => exact .inl ⟨e, rfl⟩
  | .ok response =>
    right
    cases hreq : x.request with
    | create user headers body =>
      obtain ⟨j, q, -, rfl⟩ := hs.created_of_create hx hreq ha
      exact succeeds_replay_recorded q
    | read user =>
      rw [hreq] at hfollows
      obtain ⟨env, r, -, heq⟩ := hs.tracks.answered_oneCall hx (read_of_follows hfollows) ha
      split at heq <;> cases heq
      exact succeeds_withEtag _
    | update user headers input =>
      rw [hreq] at hfollows
      rcases update_of_follows hfollows with ⟨-, e, he⟩ | ⟨expected, -, hone⟩
      · rw [ha] at he
        cases he
      · obtain ⟨env, r, -, heq⟩ := hs.tracks.answered_oneCall hx hone ha
        unfold updated at heq
        split at heq <;> cases heq
        exact succeeds_withEtag _
    | history user =>
      rw [hreq] at hfollows
      obtain ⟨env, r, -, heq⟩ := hs.tracks.answered_oneCall hx (history_of_follows hfollows) ha
      split at heq <;> cases heq
      exact (by decide : 200 ≤ 200 ∧ 200 < 300)

/-- A handler that reads succeeds exactly where the repository returned something. -/
lemma Inv.found_of_read (hs : Inv cfg s) {x : Handling} {a : Answer} (hx : s.handler i = some x)
    (hread : ∃ user, x.request = .read user ∨ x.request = .history user)
    (ha : x.rest = .pure a) : (∃ e, a = .error e) ∧ ¬s.Found i ∨ a.Succeeds ∧ s.Found i := by
  have hfollows := hs.tracks.follows i x hx
  obtain ⟨user, hreq | hreq⟩ := hread
  · rw [hreq] at hfollows
    obtain ⟨env, r, ht, rfl⟩ := hs.tracks.answered_oneCall hx (read_of_follows hfollows) ha
    have hnot : (∀ p, r ≠ .ok (some p)) → ¬s.Found i := by
      rintro hne ⟨user', env', ⟨p, hp⟩ | ⟨first, rest, hp⟩⟩
      · rw [ht] at hp
        cases hp
        exact hne p rfl
      · rw [ht] at hp
        cases hp
    match r with
    | .error e => exact .inl ⟨⟨_, rfl⟩, hnot (by rintro p ⟨⟩)⟩
    | .ok none => exact .inl ⟨⟨_, rfl⟩, hnot (by rintro p ⟨⟩)⟩
    | .ok (some p) => exact .inr ⟨succeeds_withEtag p, user, env, .inl ⟨p, ht⟩⟩
  · rw [hreq] at hfollows
    obtain ⟨env, r, ht, rfl⟩ := hs.tracks.answered_oneCall hx (history_of_follows hfollows) ha
    have hnot : (∀ first rest, r ≠ .ok (first :: rest)) → ¬s.Found i := by
      rintro hne ⟨user', env', ⟨p, hp⟩ | ⟨first, rest, hp⟩⟩
      · rw [ht] at hp
        cases hp
      · rw [ht] at hp
        cases hp
        exact hne first rest rfl
    match r with
    | .error e => exact .inl ⟨⟨_, rfl⟩, hnot (by rintro first rest ⟨⟩)⟩
    | .ok [] => exact .inl ⟨⟨_, rfl⟩, hnot (by rintro first rest ⟨⟩)⟩
    | .ok (first :: rest) =>
      exact .inr ⟨(by decide : 200 ≤ 200 ∧ 200 < 300), user, env, .inr ⟨first, rest, ht⟩⟩

/-- The repository returns nothing to a request without a handler. -/
lemma Tracks.not_found (hs : Tracks cfg s) (hi : s.handler i = none) : ¬s.Found i := by
  have hnone : ∀ th, s.profiles.thread i ≠ some th := by
    intro th hth
    obtain ⟨x, hx, -⟩ := hs.called i th hth
    rw [hi] at hx
    cases hx
  rintro ⟨user, env, ⟨p, hp⟩ | ⟨first, rest, hp⟩⟩
  · exact hnone _ hp
  · exact hnone _ hp

end Service

/-! ### What the service answers -/

namespace ProfileService.Server

variable {ι : Type} [DecidableEq ι] {b : Backend} {app : App} {s : Server ι b} {i : ι}
  {request : HttpRequest} {response : Response}

/-- The service's response to `request`, which came in as `i`. -/
inductive Gives (s : Server ι b) (i : ι) (request : HttpRequest) : Response → Prop
  | reply (received : Received) (r : Reply) : s.received i = some received →
    received.request = request → s.reply i = some r → Gives s i request r.response

/-- The answer to the request is an error without an envelope: the framework gives it, or it
answers a `HEAD`, so that its body is dropped. -/
inductive Bare (app : App) (s : Server ι b) (i : ι) (request : HttpRequest) : Prop
  | unserved : Unserved app request → Bare app s i request
  | head : request.method = .head → request.path ≠ "/health" → ¬s.service.Found i →
    Bare app s i request

lemma uniform_finish_foreign (h : response.Foreign) : ¬(finish request response).Uniform := by
  intro huniform
  refine h.plain ?_
  rw [← finish_headers request]
  refine (huniform (Response.not_success ?_)).1
  rw [finish_status]
  exact h.status

lemma uniform_finish_success (h : response.Success) : (finish request response).Uniform := by
  refine fun hnot => absurd ?_ hnot
  unfold Response.Success
  rw [finish_status]
  exact h

/-- An error of the service's own keeps its envelope, unless its body is dropped. -/
lemma uniform_finish_reported (h : response.Reported) :
    (finish request response).Uniform ↔ request.method ≠ .head := by
  unfold finish
  constructor
  · rintro huniform hhead
    rw [if_pos hhead] at huniform
    obtain ⟨-, e, he⟩ := huniform (Response.not_success h.status)
    exact e.toJson_ne_empty he.symm
  · intro hhead
    rw [if_neg hhead]
    exact fun _ => h.enveloped

/-- A request that was answered without a handler has none. -/
lemma Inv.handler_eq_none (h : Inv app s) {received : Received} (hi : s.received i = some received)
    (hne : ∀ called id, received.outcome ≠ .ok (.handle called, id)) :
    s.service.handler i = none := by
  cases hx : s.service.handler i with
  | none => rfl
  | some x =>
    obtain ⟨received', id, hi', hout⟩ := (h.handled i x.request).mp ⟨x, hx, rfl⟩
    rw [hi] at hi'
    obtain rfl := Option.some.inj hi'
    exact absurd hout (hne _ _)

/-- What a request is answered, by what the router made of it. -/
lemma Inv.reply_of_outcome (h : Inv app s) {received : Received} {r : Reply}
    (hi : s.received i = some received) (hr : s.reply i = some r) :
    match received.outcome with
    | .error e => r.response = finish received.request e.intoResponse
    | .ok (.respond response, _) => r.response = finish received.request response
    | .ok (.handle called, _) => ∃ x a, s.service.handler i = some x ∧ x.request = called ∧
      x.rest = .pure a ∧ r.response = finish received.request a.render := by
  obtain ⟨received', hi', hcase⟩ := reply_cases hr
  rw [hi] at hi'
  obtain rfl := Option.some.inj hi'
  rcases hcase with ⟨e, hout, rfl⟩ | ⟨response, id, hout, rfl⟩ |
    ⟨called, id, x, a, hout, hx, ha, rfl⟩
  · rw [hout]
  · rw [hout]
  · rw [hout]
    obtain ⟨x', hx', hreq⟩ := (h.handled i called).mpr ⟨received, id, hi, hout⟩
    rw [hx] at hx'
    obtain rfl := Option.some.inj hx'
    exact ⟨x, a, hx, hreq, ha, rfl⟩

/-- The answer to a request that is served. -/
lemma Inv.uniform_of_served (h : Inv app s) {received : Received} {r : Reply}
    (hserved : ¬Unserved app received.request) (hi : s.received i = some received)
    (hr : s.reply i = some r) : r.response.Uniform ↔ ¬(received.request.method = .head ∧
      received.request.path ≠ "/health" ∧ ¬s.service.Found i) := by
  have hrouted := h.routed i received hi
  have hreply := h.reply_of_outcome hi hr
  -- an error that was given before any handler ran
  have hunhandled : ∀ {own : Response}, own.Reported → received.request.path ≠ "/health" →
      (∀ called id, received.outcome ≠ .ok (.handle called, id)) →
      ((finish received.request own).Uniform ↔ ¬(received.request.method = .head ∧
        received.request.path ≠ "/health" ∧ ¬s.service.Found i)) := by
    intro own hown hpath hne
    rw [uniform_finish_reported hown]
    exact not_congr ⟨fun hhead => ⟨hhead, hpath,
      h.service.tracks.not_found (h.handler_eq_none hi hne)⟩, And.left⟩
  rcases router_of_served hserved with ⟨hpath, hrouter⟩ |
    ⟨hpath, hrouter | ⟨answered, id, hrouter, hanswered⟩⟩
  · rw [← hrouted, hrouter] at hreply
    rw [hreply]
    refine iff_of_true (uniform_finish_success ?_) fun hhead => hhead.2.1 hpath
    exact (by decide : 200 ≤ 200 ∧ 200 < 300)
  · have hout := hrouter.symm.trans hrouted
    rw [← hout] at hreply
    rw [hreply]
    exact hunhandled ProfileError.notInternal.reported hpath fun called id => by
      rw [← hout]
      rintro ⟨⟩
  · have hout := hrouter.symm.trans hrouted
    rw [← hout] at hreply
    cases answered with
    | respond response =>
      rw [hreply]
      exact hunhandled hanswered hpath fun called id => by
        rw [← hout]
        rintro ⟨⟩
    | handle called =>
      obtain ⟨x, a, hx, rfl, ha, hresponse⟩ := hreply
      rw [hresponse]
      by_cases hhead : received.request.method = .head
      · rcases h.service.found_of_read hx (hanswered hhead) ha with
          ⟨⟨e, rfl⟩, hfound⟩ | ⟨hsucceeds, hfound⟩
        · refine iff_of_false ?_ fun hnot => hnot ⟨hhead, hpath, hfound⟩
          exact fun huniform => (uniform_finish_reported e.reported).mp huniform hhead
        · exact iff_of_true (uniform_finish_success hsucceeds) fun hnot => hnot.2.2 hfound
      · refine iff_of_true ?_ fun hnot => hhead hnot.1
        rcases h.service.fails_or_succeeds hx ha with ⟨e, rfl⟩ | hsucceeds
        · exact (uniform_finish_reported e.reported).mpr hhead
        · exact uniform_finish_success hsucceeds

/-- The answer to a request that is not served. -/
lemma Inv.not_uniform_of_unserved (h : Inv app s) (hplain : app.extract.PlainText)
    {received : Received} {r : Reply} (hunserved : Unserved app received.request)
    (hi : s.received i = some received) (hr : s.reply i = some r) : ¬r.response.Uniform := by
  have hrouted := h.routed i received hi
  have hreply := h.reply_of_outcome hi hr
  obtain ⟨response, id, hrouter, hforeign⟩ := hunserved.router hplain
  rw [← hrouted, hrouter] at hreply
  rw [hreply]
  exact uniform_finish_foreign hforeign

/-- An answer has the envelope, or needs none, exactly where it is not bare. -/
theorem Inv.uniform_iff (h : Inv app s) (hplain : app.extract.PlainText)
    (hgives : s.Gives i request response) :
    response.Uniform ↔ ¬s.Bare app i request := by
  obtain ⟨received, r, hi, rfl, hr⟩ := hgives
  by_cases hunserved : Unserved app received.request
  · refine iff_of_false ?_ fun hbare => hbare (.unserved hunserved)
    exact h.not_uniform_of_unserved hplain hunserved hi hr
  · have hbare : s.Bare app i received.request ↔ received.request.method = .head ∧
        received.request.path ≠ "/health" ∧ ¬s.service.Found i := by
      constructor
      · rintro (hcontra | ⟨hhead, hpath, hfound⟩)
        · exact absurd hcontra hunserved
        · exact ⟨hhead, hpath, hfound⟩
      · rintro ⟨hhead, hpath, hfound⟩
        exact .head hhead hpath hfound
    rw [hbare]
    exact h.uniform_of_served hunserved hi hr

end ProfileService.Server

end Knova
