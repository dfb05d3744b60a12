import Knova.Auth.Gateway
import Knova.Auth.Login
import Knova.Profile.Envelope

/-!
# The error envelope of the authorization service

The routes the service answers itself beside those it proxies. What it reports itself is an
envelope, the framework answers the rest.
-/

namespace Knova

lemma AppError.reported (e : AppError) : e.intoResponse.Reported :=
  Response.reported_json (by cases e <;> decide) _ _

namespace AuthService

/-- What the service makes of a request: a response at once, a handler of its own to run, or a
request upstream. -/
inductive Handled
  | respond (response : Response)
  | login (credentials : LoginRequest)
  | logout (claims : Claims)
  | proxied (claims : Claims) (upstream : HttpRequest)

/-- The method router of `/login`; `json` reads the body of a request. -/
def login (json : HttpRequest → Except Response LoginRequest) (request : HttpRequest) : Handled :=
  match request.method with
  | .post =>
    match json request with
    | .error response => .respond response
    | .ok credentials => .login credentials
  | _ => .respond (.methodNotAllowed "POST")

/-- The method router of `/logout`. -/
def logout (g : Gateway) (tokens : TokenService) (now : ℕ) (request : HttpRequest) : Handled :=
  match request.method with
  | .post =>
    match authenticated g.jwt tokens now request.headers with
    | .error e => .respond e.intoResponse
    | .ok claims => .logout claims
  | _ => .respond (.methodNotAllowed "POST")

/-- The method router of `/health`. -/
def health (request : HttpRequest) : Handled :=
  match request.method with
  | .get | .head => .respond (.json 200 [] "\x7b\"status\":\"ok\"\x7d")
  | _ => .respond (.methodNotAllowed "GET,HEAD")

/-- The service's HTTP router, the proxied routes included. -/
def serve (g : Gateway) (json : HttpRequest → Except Response LoginRequest)
    (tokens : TokenService) (now : ℕ) (request : HttpRequest) : Handled :=
  if request.path = "/login" then login json request
  else if request.path = "/logout" then logout g tokens now request
  else if request.path = "/health" then health request
  else
    match router g tokens now request with
    | none => .respond (.empty 404)
    | some (.error response) => .respond response
    | some (.ok (claims, upstream)) => .proxied claims upstream

/-- A proxied route and a method it proxies. -/
def Proxies (request : HttpRequest) : Prop :=
  request.path = "/profile" ∧ (∀ name, request.method ≠ .other name) ∨
    request.path = "/profile/history" ∧ (request.method = .get ∨ request.method = .head)

/-- The service has no handler for the request, or it rejects the body before one runs. -/
inductive Unhandled (g : Gateway) (json : HttpRequest → Except Response LoginRequest)
    (tokens : TokenService) (now : ℕ) (request : HttpRequest) : Prop
  | path : (∀ path ∈ ["/login", "/logout", "/health", "/profile", "/profile/history"],
    request.path ≠ path) → Unhandled g json tokens now request
  | postOnly : (request.path = "/login" ∨ request.path = "/logout") → request.method ≠ .post →
    Unhandled g json tokens now request
  | method (name : String) : request.path = "/profile" → request.method = .other name →
    Unhandled g json tokens now request
  | readOnly : (request.path = "/profile/history" ∨ request.path = "/health") →
    request.method ≠ .get → request.method ≠ .head → Unhandled g json tokens now request
  | credentials (response : Response) : request.path = "/login" → request.method = .post →
    json request = .error response → Unhandled g json tokens now request
  | body (claims : Claims) (response : Response) : Proxies request →
    authenticated g.jwt tokens now request.headers = .ok claims →
    g.bytes request = .error response → Unhandled g json tokens now request

/-- The request is sent upstream. -/
def Forwarded (g : Gateway) (tokens : TokenService) (now : ℕ) (request : HttpRequest) : Prop :=
  ∃ claims upstream, router g tokens now request = some (.ok (claims, upstream))

section Serve

variable {g : Gateway} {json : HttpRequest → Except Response LoginRequest}
  {tokens : TokenService} {now : ℕ} {request : HttpRequest}

/-- The routes other than the service's own. -/
lemma serve_of_path (hlogin : request.path ≠ "/login") (hlogout : request.path ≠ "/logout")
    (hhealth : request.path ≠ "/health") : serve g json tokens now request =
      match router g tokens now request with
      | none => .respond (.empty 404)
      | some (.error response) => .respond response
      | some (.ok (claims, upstream)) => .proxied claims upstream := by
  rw [serve, if_neg hlogin, if_neg hlogout, if_neg hhealth]

lemma router_of_proxies (h : Proxies request) :
    router g tokens now request = some (proxy g tokens now request) := by
  rcases h with ⟨hpath, hmethod⟩ | ⟨hpath, hmethod⟩
  · exact router_profile hpath hmethod rfl
  · rw [router, if_neg (by rw [hpath]; decide), if_pos hpath]
    rcases hmethod with hmethod | hmethod
    · rw [hmethod]
    · rw [hmethod]

lemma serve_of_proxies (h : Proxies request) : serve g json tokens now request =
    match proxy g tokens now request with
    | .error response => .respond response
    | .ok (claims, upstream) => .proxied claims upstream := by
  have hpath : request.path = "/profile" ∨ request.path = "/profile/history" :=
    h.imp And.left And.left
  rw [serve_of_path, router_of_proxies h]
  · cases proxy g tokens now request with
    | error response => rfl
    | ok proxied => rfl
  all_goals
    rcases hpath with hpath | hpath
    all_goals
      rw [hpath]
      decide

variable (json) in
lemma forwarded_iff : Forwarded g tokens now request ↔
    ∃ claims upstream, serve g json tokens now request = .proxied claims upstream := by
  constructor
  · rintro ⟨claims, upstream, hrouter⟩
    have hpath := path_of_router hrouter
    refine ⟨claims, upstream, ?_⟩
    rw [serve_of_path, hrouter]
    all_goals
      rcases hpath with hpath | hpath
      all_goals
        rw [hpath]
        decide
  · rintro ⟨claims, upstream, hserve⟩
    unfold serve at hserve
    split at hserve
    · unfold login at hserve
      split at hserve
      · split at hserve <;> cases hserve
      · cases hserve
    · split at hserve
      · unfold logout at hserve
        split at hserve
        · split at hserve <;> cases hserve
        · cases hserve
      · split at hserve
        · unfold health at hserve
          split at hserve <;> cases hserve
        · split at hserve
          · cases hserve
          · cases hserve
          · rename_i hrouter
            cases hserve
            exact ⟨claims, upstream, hrouter⟩

/-- Such a request is answered by the framework. -/
lemma Unhandled.serve
    (hjson : ∀ request response, json request = .error response → response.PlainText)
    (hbytes : ∀ request response, g.bytes request = .error response → response.PlainText)
    (h : Unhandled g json tokens now request) : ∃ response,
      AuthService.serve g json tokens now request = .respond response ∧ response.Foreign := by
  cases h with
  | path hpath =>
    simp only [List.forall_mem_cons, List.not_mem_nil, false_implies, implies_true,
      and_true] at hpath
    obtain ⟨hlogin, hlogout, hhealth, hprofile, hhistory⟩ := hpath
    refine ⟨.empty 404, ?_, Response.foreign_empty (by decide)⟩
    rw [serve_of_path hlogin hlogout hhealth, router, if_neg hprofile, if_neg hhistory]
  | postOnly hpath hmethod =>
    refine ⟨_, ?_, Response.foreign_methodNotAllowed "POST"⟩
    rcases hpath with hpath | hpath
    · rw [AuthService.serve, if_pos hpath]
      unfold login
      split
      · rename_i hpost
        exact absurd hpost hmethod
      · rfl
    · rw [AuthService.serve, if_neg (by rw [hpath]; decide), if_pos hpath]
      unfold logout
      split
      · rename_i hpost
        exact absurd hpost hmethod
      · rfl
  | method name hpath hmethod =>
    refine ⟨_, ?_, Response.foreign_methodNotAllowed "POST,GET,HEAD,PUT"⟩
    rw [serve_of_path (by rw [hpath]; decide) (by rw [hpath]; decide) (by rw [hpath]; decide),
      router, if_pos hpath, hmethod]
  | readOnly hpath hget hhead =>
    refine ⟨_, ?_, Response.foreign_methodNotAllowed "GET,HEAD"⟩
    rcases hpath with hpath | hpath
    · rw [serve_of_path (by rw [hpath]; decide) (by rw [hpath]; decide) (by rw [hpath]; decide),
        router, if_neg (by rw [hpath]; decide), if_pos hpath]
      cases hmethod : request.method with
      | get => exact absurd hmethod hget
      | head => exact absurd hmethod hhead
      | post | put | other name => rfl
    · rw [AuthService.serve, if_neg (by rw [hpath]; decide), if_neg (by rw [hpath]; decide),
        if_pos hpath]
      unfold health
      split
      · rename_i hmethod
        exact absurd hmethod hget
      · rename_i hmethod
        exact absurd hmethod hhead
      · rfl
  | credentials response hpath hmethod hbody =>
    refine ⟨response, ?_, (hjson _ _ hbody).foreign⟩
    rw [AuthService.serve, if_pos hpath]
    simp only [login, hmethod, hbody]
  | body claims response hproxies hauth hbody =>
    refine ⟨response, ?_, (hbytes _ _ hbody).foreign⟩
    rw [serve_of_proxies hproxies]
    simp only [proxy, hauth, hbody]

/-- Everything the service makes of a request otherwise. -/
lemma serve_of_not_unhandled (h : ¬Unhandled g json tokens now request) :
    request.path = "/health" ∧ AuthService.serve g json tokens now request =
        .respond (.json 200 [] "\x7b\"status\":\"ok\"\x7d") ∨
      request.path ≠ "/health" ∧ ((∃ response, response.Reported ∧
          AuthService.serve g json tokens now request = .respond response) ∨
        request.method = .post ∧ ((∃ credentials,
            AuthService.serve g json tokens now request = .login credentials) ∨
          ∃ claims, AuthService.serve g json tokens now request = .logout claims) ∨
        ∃ claims upstream, AuthService.serve g json tokens now request =
          .proxied claims upstream) := by
  by_cases hlogin : request.path = "/login"
  · refine .inr ⟨by rw [hlogin]; decide, .inr (.inl ?_)⟩
    have hmethod : request.method = .post := by
      by_contra hne
      exact h (.postOnly (.inl hlogin) hne)
    rw [AuthService.serve, if_pos hlogin]
    cases hbody : json request with
    | error response => exact absurd (.credentials response hlogin hmethod hbody) h
    | ok credentials =>
      refine ⟨hmethod, .inl ⟨credentials, ?_⟩⟩
      simp only [login, hmethod, hbody]
  by_cases hlogout : request.path = "/logout"
  · refine .inr ⟨by rw [hlogout]; decide, ?_⟩
    have hmethod : request.method = .post := by
      by_contra hne
      exact h (.postOnly (.inr hlogout) hne)
    rw [AuthService.serve, if_neg hlogin, if_pos hlogout]
    cases hauth : authenticated g.jwt tokens now request.headers with
    | error e =>
      refine .inl ⟨_, e.reported, ?_⟩
      simp only [logout, hmethod, hauth]
    | ok claims =>
      refine .inr (.inl ⟨hmethod, .inr ⟨claims, ?_⟩⟩)
      simp only [logout, hmethod, hauth]
  by_cases hhealth : request.path = "/health"
  · refine .inl ⟨hhealth, ?_⟩
    rw [AuthService.serve, if_neg hlogin, if_neg hlogout, if_pos hhealth]
    unfold health
    split
    · rfl
    · rfl
    · rename_i hget hhead
      exact absurd (.readOnly (.inr hhealth) hget hhead) h
  have hproxies : Proxies request := by
    by_contra hnot
    unfold Proxies at hnot
    push Not at hnot
    by_cases hprofile : request.path = "/profile"
    · obtain ⟨name, hmethod⟩ := hnot.1 hprofile
      exact h (.method name hprofile hmethod)
    by_cases hhistory : request.path = "/profile/history"
    · obtain ⟨hget, hhead⟩ := hnot.2 hhistory
      exact h (.readOnly (.inl hhistory) hget hhead)
    exact h (.path (by simp [hlogin, hlogout, hhealth, hprofile, hhistory]))
  refine .inr ⟨hhealth, ?_⟩
  rw [serve_of_proxies hproxies]
  unfold proxy
  cases hauth : authenticated g.jwt tokens now request.headers with
  | error e => exact .inl ⟨_, e.reported, rfl⟩
  | ok claims =>
    cases hbody : g.bytes request with
    | error response => exact absurd (.body claims response hproxies hauth hbody) h
    | ok body =>
      dsimp only
      cases g.upstream.headers claims.sub request.headers with
      | none => exact .inl ⟨_, AppError.upstream.reported, rfl⟩
      | some headers => exact .inr (.inr ⟨claims, _, rfl⟩)

end Serve

end AuthService

end Knova
