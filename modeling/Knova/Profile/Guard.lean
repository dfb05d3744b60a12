import Knova.Profile.StoredFields

/-!
# The trust boundary of the profile service

Every route but the probe sits behind a guard, which compares the internal token of a request
with the configured one. What the guard lets in is dispatched to a handler, unless an extractor
rejects it first or there is no route for it. The server is the service together with the
requests that came in.
-/

namespace Knova.ProfileService

open Library

/-- Storage backends selectable at startup. -/
inductive Config.Backend
  | memory
  | sqlite
  deriving DecidableEq

structure Config where
  bindAddr : String
  /-- Shared secret the gateway must present on every request. -/
  internalToken : String
  backend : Config.Backend
  deriving DecidableEq

/-- Reads configuration from the environment, falling back to development defaults; a
variable that is not Unicode counts as not set. -/
def Config.fromEnv (env : String → Option String) : Config where
  bindAddr := (env "PROFILE_BIND_ADDR").getD "127.0.0.1:8081"
  internalToken := (env "INTERNAL_TOKEN").getD "dev-only-internal-token-change-me"
  backend :=
    match (env "PROFILE_BACKEND").getD "memory" with
    | "sqlite" => .sqlite
    | _ => .memory

/-- The body extractors: what they read, or the response they reject a request with. -/
structure Extractors where
  string : HttpRequest → Except Response String
  json : HttpRequest → Except Response ProfileInput
  string_rejects : ∀ request response, string request = .error response →
    response.status ∈ [400, 413]
  json_rejects : ∀ request response, json request = .error response →
    response.status ∈ [400, 413, 415, 422]

/-- What the router is built with. -/
structure App where
  internalToken : String
  settings : Settings
  extract : Extractors

/-- What becomes of a request: a response at once, or a handler to run. -/
inductive Outcome
  | respond (response : Response)
  | handle (request : Request)

/-- The authenticated user, as asserted by the gateway. -/
def caller (headers : HeaderMap) : Except ProfileError UserId :=
  match ((headers.get Headers.userId).bind HeaderValue.toStr).filter (· ≠ "") with
  | none => .error .missingCaller
  | some id => .ok ⟨id⟩

/-- An extractor, and what comes after it. -/
def extracting {α : Type} (read : Except Response α) (next : α → Outcome) : Outcome :=
  match read with
  | .error response => .respond response
  | .ok x => next x

/-- A handler that takes the caller. -/
def authenticated (request : HttpRequest) (next : UserId → Outcome) : Outcome :=
  extracting ((caller request.headers).mapError ProfileError.intoResponse) next

/-- The method router of `/profile`. -/
def profile (extract : Extractors) (request : HttpRequest) : Outcome :=
  match request.method with
  | .post => authenticated request fun userId => extracting (extract.string request) fun body =>
    .handle (.create userId request.headers body)
  | .get | .head => authenticated request fun userId => .handle (.read userId)
  | .put => authenticated request fun userId => extracting (extract.json request) fun input =>
    .handle (.update userId request.headers input)
  | .other _ => .respond (.methodNotAllowed "POST,GET,HEAD,PUT")

/-- The method router of `/profile/history`. -/
def history (request : HttpRequest) : Outcome :=
  match request.method with
  | .get | .head => authenticated request fun userId => .handle (.history userId)
  | _ => .respond (.methodNotAllowed "GET,HEAD")

/-- The method router of `/health`. -/
def health (request : HttpRequest) : Outcome :=
  match request.method with
  | .get | .head => .respond (.json 200 [] "\x7b\"status\":\"ok\"\x7d")
  | _ => .respond (.methodNotAllowed "GET,HEAD")

/-- The fallback of a router, where no route matches. -/
def fallback (_request : HttpRequest) : Outcome := .respond (.empty 404)

/-- Establishes correlation, then rejects anything that is not the gateway. -/
def gatewayGuard (internalToken : String) (request : HttpRequest) (next : HttpRequest → Outcome) :
    Except ProfileError (Outcome × Option HeaderValue) :=
  let correlation := request.headers.get Headers.requestId
  let presented := (request.headers.get Headers.internalToken).getD []
  if presented ≠ HeaderValue.ofText internalToken then .error .notInternal
  else .ok (next request, correlation)

/-- The service's HTTP router. -/
def router (app : App) (request : HttpRequest) :
    Except ProfileError (Outcome × Option HeaderValue) :=
  if request.path = "/profile" then
    gatewayGuard app.internalToken request (profile app.extract)
  else if request.path = "/profile/history" then
    gatewayGuard app.internalToken request history
  else if request.path = "/health" then .ok (health request, none)
  -- the guard is a layer of the router merged in, which wraps its fallback too
  else gatewayGuard app.internalToken request fallback

/-- A response as it leaves the service, with the correlation id it echoes. -/
structure Reply where
  response : Response
  requestId : Option HeaderValue
  deriving DecidableEq

/-- A request that came in, and what the router made of it. -/
structure Received where
  request : HttpRequest
  outcome : Except ProfileError (Outcome × Option HeaderValue)

/-- The service, and the requests that reached it. -/
structure Server (ι : Type) [DecidableEq ι] (b : Backend) where
  service : Service ι b
  received : ι → Option Received

namespace Server

inductive Event (ι : Type)
  | receive (i : ι) (request : HttpRequest)
  /-- A step of the service; requests arrive at their handlers when they are received. -/
  | run (e : Service.Event ι)

variable {ι : Type} [DecidableEq ι] {b : Backend} {app : App}

def init (ι : Type) [DecidableEq ι] (b : Backend) (app : App) : Server ι b :=
  ⟨Service.init ι b app.settings, fun _ => none⟩

def step (app : App) (s : Server ι b) : Event ι → Option (Server ι b)
  | .receive i request =>
    match s.received i with
    | none =>
      let outcome := router app request
      let received := Function.update s.received i (some ⟨request, outcome⟩)
      match outcome with
      | .ok (.handle called, _) =>
        (Service.step app.settings s.service (.arrive i called)).map fun service =>
          { service, received }
      | _ => some { s with received }
    | some _ => none
  | .run (.arrive _ _) => none
  | .run e => (Service.step app.settings s.service e).map fun service => { s with service }

abbrev machine (ι : Type) [DecidableEq ι] (b : Backend) (app : App) : Machine where
  State := Server ι b
  Event := Event ι
  step := step app

/-- The body of a response to `HEAD` is dropped. -/
def finish (request : HttpRequest) (response : Response) : Response :=
  if request.method = .head then { response with body := "" } else response

/-- What a request was answered. -/
def reply (s : Server ι b) (i : ι) : Option Reply :=
  (s.received i).bind fun received =>
    match received.outcome with
    | .error e => some ⟨finish received.request e.intoResponse, none⟩
    | .ok (.respond response, id) => some ⟨finish received.request response, id⟩
    | .ok (.handle _, id) =>
      match s.service.handler i with
      | some ⟨_, _, .pure a, _⟩ => some ⟨finish received.request a.render, id⟩
      | _ => none

/-- A step of the request `i`. -/
def Event.By (i : ι) : Event ι → Prop
  | .receive j _ => j = i
  | .run e => e.By i

/-- Everything one step can do. -/
theorem step_cases {s s' : Server ι b} {e : Event ι} (hs : step app s e = some s') :
    (∃ i request outcome, e = .receive i request ∧ s.received i = none ∧
      router app request = outcome ∧
      s'.received = Function.update s.received i (some ⟨request, outcome⟩) ∧
      ((∃ called id, outcome = .ok (.handle called, id) ∧
          Service.step app.settings s.service (.arrive i called) = some s'.service) ∨
        (∀ called id, outcome ≠ .ok (.handle called, id)) ∧ s'.service = s.service)) ∨
    ∃ f, e = .run f ∧ (∀ i request, f ≠ .arrive i request) ∧
      Service.step app.settings s.service f = some s'.service ∧ s'.received = s.received := by
  cases e with
  | receive i request =>
    left
    simp only [step] at hs
    split at hs
    · rename_i hi
      refine ⟨i, request, _, rfl, hi, rfl, ?_⟩
      split at hs
      · rename_i called id hrouter
        obtain ⟨service, hservice, rfl⟩ := Option.map_eq_some_iff.mp hs
        exact ⟨rfl, .inl ⟨called, id, hrouter, hservice⟩⟩
      · rename_i hne
        obtain rfl := Option.some.inj hs
        exact ⟨rfl, .inr ⟨hne, rfl⟩⟩
    · cases hs
  | run f =>
    right
    have hne : ∀ i request, f ≠ .arrive i request := by
      rintro i request rfl
      cases hs
    have hrun : (Service.step app.settings s.service f).map
        (fun service => { s with service }) = some s' := by
      cases f with
      | arrive i request => exact absurd rfl (hne i request)
      | perform | call | act | ret | resume | drop | tick => exact hs
    obtain ⟨service, hservice, rfl⟩ := Option.map_eq_some_iff.mp hrun
    exact ⟨f, rfl, hne, hservice, rfl⟩

/-- A step of the server is a step of the service, or leaves it alone. -/
lemma step_service {s s' : Server ι b} {e : Event ι} (hs : step app s e = some s') :
    s'.service = s.service ∨ ∃ f, Service.step app.settings s.service f = some s'.service ∧
      (∀ i, f.By i → e.By i) ∧ ((∃ i request, f = .arrive i request) ∨ e = .run f) := by
  obtain ⟨i, request, outcome, rfl, -, -, -, ⟨called, id, -, hservice⟩ | ⟨-, hservice⟩⟩ |
    ⟨f, rfl, -, hservice, -⟩ := step_cases hs
  · exact .inr ⟨_, hservice, fun j hj => hj, .inl ⟨i, called, rfl⟩⟩
  · exact .inl hservice
  · exact .inr ⟨f, hservice, fun j hj => hj, .inr rfl⟩

/-- What holds in every state of every run. -/
structure Inv (app : App) (s : Server ι b) : Prop where
  service : Service.Inv app.settings s.service
  routed : ∀ i received, s.received i = some received →
    router app received.request = received.outcome
  /-- A handler runs for those requests, and only those, which the router gave to it. -/
  handled : ∀ i called, s.service.Sent i called ↔
    ∃ received id, s.received i = some received ∧ received.outcome = .ok (.handle called, id)

lemma inv_init : Inv app (init ι b app) where
  service := Service.inv_init
  routed i received h := by cases h
  handled i called := by simp [init, Service.init, Service.Sent]

lemma Inv.step {s s' : Server ι b} (h : Inv app s) {e : Event ι}
    (hs : step app s e = some s') : Inv app s' := by
  have hservice : Service.Inv app.settings s'.service := by
    rcases step_service hs with heq | ⟨f, hf, -⟩
    · rw [heq]
      exact h.service
    · exact h.service.step hf
  have hsent : ∀ {f}, Service.step app.settings s.service f = some s'.service → ∀ j q,
      s'.service.Sent j q → s.service.Sent j q ∨ f = .arrive j q := by
    intro f hf j q hq
    have hone : (Service.machine ι b app.settings).run s.service [f] = some s'.service :=
      Machine.run_cons_eq_some.mpr ⟨_, hf, rfl⟩
    rcases Service.arrive_of_sent hone hq with hq | hmem
    · exact .inl hq
    · exact .inr (List.mem_singleton.mp hmem).symm
  obtain ⟨i, request, outcome, -, hi, hrouter, hreceived, hcase⟩ | ⟨f, -, hne, hf, hreceived⟩ :=
    step_cases hs
  · have hnot : ∀ q, ¬s.service.Sent i q := by
      intro q hq
      obtain ⟨received, id, hr, -⟩ := (h.handled i q).mp hq
      rw [hi] at hr
      cases hr
    refine ⟨hservice, fun j received hj => ?_, fun j q => ?_⟩
    · rw [hreceived] at hj
      by_cases hji : j = i
      · subst hji
        rw [Function.update_self] at hj
        obtain rfl := Option.some.inj hj
        exact hrouter
      · rw [Function.update_of_ne hji] at hj
        exact h.routed j received hj
    · rw [hreceived]
      by_cases hji : j = i
      · subst hji
        rw [Function.update_self]
        rcases hcase with ⟨called, id, rfl, hf⟩ | ⟨hne, heq⟩
        · constructor
          · intro hq
            rcases hsent hf j q hq with hq | hq
            · exact absurd hq (hnot q)
            · obtain ⟨-, rfl⟩ := Service.Event.arrive.inj hq
              exact ⟨_, id, rfl, rfl⟩
          · rintro ⟨received, id', hr, hout⟩
            obtain rfl := Option.some.inj hr
            cases hout
            exact Service.sent_of_arrive hf
        · rw [heq]
          constructor
          · exact fun hq => absurd hq (hnot q)
          · rintro ⟨received, id, hr, hout⟩
            obtain rfl := Option.some.inj hr
            exact absurd hout (hne q id)
      · rw [Function.update_of_ne hji, ← h.handled j q]
        rcases hcase with ⟨called, id, rfl, hf⟩ | ⟨-, heq⟩
        · refine ⟨fun hq => (hsent hf j q hq).resolve_right fun ha => ?_,
            (Service.step_grows hf).1 j q⟩
          exact hji (Service.Event.arrive.inj ha).1.symm
        · rw [heq]
  · refine ⟨hservice, fun j received hj => h.routed j received (hreceived ▸ hj), fun j q => ?_⟩
    rw [hreceived, ← h.handled j q]
    exact ⟨fun hq => (hsent hf j q hq).resolve_right (hne j q), (Service.step_grows hf).1 j q⟩

lemma inv_of_run {s : Server ι b} {es : List (Event ι)}
    (hrun : (machine ι b app).run (init ι b app) es = some s) : Inv app s :=
  Machine.run_invariant (M := machine ι b app) (Inv app) (fun _ _ _ h hs => h.step hs) inv_init
    hrun

/-- What came in stays, with what the router made of it. -/
lemma received_of_step {s s' : Server ι b} {e : Event ι} (hs : step app s e = some s') {i : ι}
    {received : Received} (hi : s.received i = some received) : s'.received i = some received := by
  obtain ⟨j, request, outcome, -, hj, -, hreceived, -⟩ | ⟨f, -, -, -, hreceived⟩ := step_cases hs
  · rw [hreceived, Function.update_of_ne, hi]
    rintro rfl
    rw [hj] at hi
    cases hi
  · rw [hreceived, hi]

/-- A request that no handler runs for takes no step. -/
lemma Inv.not_by {s s' : Server ι b} (h : Inv app s) {e : Event ι}
    (hs : Server.step app s e = some s') {i : ι} {received : Received}
    (hi : s.received i = some received)
    (hne : ∀ called id, received.outcome ≠ .ok (.handle called, id)) : ¬e.By i := by
  intro hby
  obtain ⟨j, request, outcome, rfl, hj, -⟩ | ⟨f, rfl, hf, hservice, -⟩ := step_cases hs
  · obtain rfl : j = i := hby
    rw [hj] at hi
    cases hi
  · obtain ⟨x, hx⟩ := h.service.tracks.handler_of_by hservice hby hf
    obtain ⟨received', id, hr, hout⟩ := (h.handled i x.request).mp ⟨x, hx, rfl⟩
    rw [hi] at hr
    obtain rfl := Option.some.inj hr
    exact hne _ id hout

/-- A request that was answered without a handler keeps its answer, and takes no step. -/
lemma Inv.unhandled {s t : Server ι b} (h : Inv app s) {es : List (Event ι)}
    (hrun : (machine ι b app).run s es = some t) {i : ι} {received : Received}
    (hi : s.received i = some received)
    (hne : ∀ called id, received.outcome ≠ .ok (.handle called, id)) :
    (∀ e ∈ es, ¬e.By i) ∧ t.received i = some received := by
  induction es generalizing s with
  | nil =>
    obtain rfl : s = t := Option.some.inj hrun
    exact ⟨by simp, hi⟩
  | cons e es ih =>
    obtain ⟨s₁, hs, hrest⟩ := Machine.run_cons_eq_some.mp hrun
    obtain ⟨hby, ht⟩ := ih (h.step hs) hrest (received_of_step hs hi)
    exact ⟨List.forall_mem_cons.mpr ⟨h.not_by hs hi hne, hby⟩, ht⟩

end Server

/-! ### Who gets in -/

/-- The request carries the internal token; where the header is repeated, its first value
counts. -/
def Presents (internalToken : String) (request : HttpRequest) : Prop :=
  request.headers.get Headers.internalToken = some (.ofText internalToken)

section Guard

variable {app : App} {internalToken : String} {request : HttpRequest}
  {next : HttpRequest → Outcome}

/-- Without the header, the guard takes the request to present the empty token. -/
lemma presented_eq_iff :
    (request.headers.get Headers.internalToken).getD [] = HeaderValue.ofText internalToken ↔
      Presents internalToken request ∨
        internalToken = "" ∧ request.headers.get Headers.internalToken = none := by
  unfold Presents
  cases request.headers.get Headers.internalToken with
  | none =>
    rw [Option.getD_none, eq_comm, HeaderValue.ofText_eq_nil]
    simp
  | some value => simp

lemma gatewayGuard_of_eq (h : (request.headers.get Headers.internalToken).getD [] =
    HeaderValue.ofText internalToken) : gatewayGuard internalToken request next =
      .ok (next request, request.headers.get Headers.requestId) := by
  simp only [gatewayGuard, h, ne_eq, not_true_eq_false, if_false]

lemma gatewayGuard_of_ne (h : (request.headers.get Headers.internalToken).getD [] ≠
    HeaderValue.ofText internalToken) :
    gatewayGuard internalToken request next = .error .notInternal := by
  simp only [gatewayGuard, ne_eq, h, not_false_eq_true, if_true]

/-- What is answered without a handler satisfies `P`. -/
def Responds (P : Response → Prop) (outcome : Outcome) : Prop :=
  ∀ response, outcome = .respond response → P response

variable {P : Response → Prop}

lemma responds_handle (called : Request) : Responds P (.handle called) := by
  rintro response ⟨⟩

lemma responds_extracting {α : Type} {read : Except Response α} {next : α → Outcome}
    (hread : ∀ response, read = .error response → P response)
    (hnext : ∀ x, Responds P (next x)) : Responds P (extracting read next) := by
  unfold extracting
  split
  · rintro response ⟨⟩
    exact hread _ rfl
  · exact hnext _

lemma responds_authenticated {next : UserId → Outcome}
    (hcaller : P ProfileError.missingCaller.intoResponse)
    (hnext : ∀ userId, Responds P (next userId)) : Responds P (authenticated request next) := by
  refine responds_extracting (fun response h => ?_) hnext
  unfold caller at h
  split at h <;> cases h
  exact hcaller

/-- What `/profile` answers without a handler: the extractors reject, or the method router. -/
lemma responds_profile (extract : Extractors)
    (hcaller : P ProfileError.missingCaller.intoResponse)
    (hstring : ∀ response, extract.string request = .error response → P response)
    (hjson : ∀ response, extract.json request = .error response → P response)
    (hmethod : P (.methodNotAllowed "POST,GET,HEAD,PUT")) :
    Responds P (profile extract request) := by
  unfold profile
  split
  · exact responds_authenticated hcaller fun userId =>
      responds_extracting hstring fun body => responds_handle _
  · exact responds_authenticated hcaller fun userId => responds_handle _
  · exact responds_authenticated hcaller fun userId => responds_handle _
  · exact responds_authenticated hcaller fun userId =>
      responds_extracting hjson fun input => responds_handle _
  · rintro response ⟨⟩
    exact hmethod

lemma responds_history (hcaller : P ProfileError.missingCaller.intoResponse)
    (hmethod : P (.methodNotAllowed "GET,HEAD")) : Responds P (history request) := by
  unfold history
  split
  · exact responds_authenticated hcaller fun userId => responds_handle _
  · exact responds_authenticated hcaller fun userId => responds_handle _
  · rintro response ⟨⟩
    exact hmethod

lemma gatewayGuard_cases (internalToken : String) (request : HttpRequest)
    (next : HttpRequest → Outcome) :
    gatewayGuard internalToken request next = .error .notInternal ∨
      gatewayGuard internalToken request next =
        .ok (next request, request.headers.get Headers.requestId) := by
  by_cases h : (request.headers.get Headers.internalToken).getD [] = .ofText internalToken
  · exact .inr (gatewayGuard_of_eq h)
  · exact .inl (gatewayGuard_of_ne h)

lemma responds_fallback (h : P (.empty 404)) : Responds P (fallback request) := by
  rintro response ⟨⟩
  exact h

/-- Whatever is answered without a handler: the guard's refusal, or a response with `P`. -/
lemma router_responds {P : Response → Prop} (app : App) (request : HttpRequest)
    (hprofile : Responds P (profile app.extract request)) (hhistory : Responds P (history request))
    (hhealth : request.path = "/health" → Responds P (health request)) (hempty : P (.empty 404)) :
    router app request = .error .notInternal ∨
      ∃ answered id, router app request = .ok (answered, id) ∧ Responds P answered := by
  have hguard : ∀ {next : HttpRequest → Outcome}, Responds P (next request) →
      gatewayGuard app.internalToken request next = .error .notInternal ∨
        ∃ answered id, gatewayGuard app.internalToken request next = .ok (answered, id) ∧
          Responds P answered := by
    intro next hnext
    exact (gatewayGuard_cases app.internalToken request next).imp id fun h => ⟨_, _, h, hnext⟩
  unfold router
  split
  · exact hguard hprofile
  · split
    · exact hguard hhistory
    · split
      · rename_i hpath
        exact .inr ⟨_, _, rfl, hhealth hpath⟩
      · exact hguard (responds_fallback hempty)

/-- Whoever reached a handler came through the guard, on one of its routes. -/
lemma guarded_of_handle {called : Request} {id : Option HeaderValue}
    (h : router app request = .ok (.handle called, id)) :
    (request.path = "/profile" ∨ request.path = "/profile/history") ∧
      (request.headers.get Headers.internalToken).getD [] = .ofText app.internalToken := by
  have hguard : ∀ {next : HttpRequest → Outcome},
      gatewayGuard app.internalToken request next = .ok (.handle called, id) →
        next request = .handle called ∧
          (request.headers.get Headers.internalToken).getD [] = .ofText app.internalToken := by
    intro next h
    by_cases heq : (request.headers.get Headers.internalToken).getD [] = .ofText app.internalToken
    · rw [gatewayGuard_of_eq heq] at h
      exact ⟨(Prod.mk.inj (Except.ok.inj h)).1, heq⟩
    · rw [gatewayGuard_of_ne heq] at h
      cases h
  unfold router at h
  split at h
  · rename_i hpath
    exact ⟨.inl hpath, (hguard h).2⟩
  · split at h
    · rename_i hpath
      exact ⟨.inr hpath, (hguard h).2⟩
    · split at h
      · unfold health at h
        split at h <;> cases h
      · cases (hguard h).1

/-- No answer of an extractor or a method router is a `403`. -/
def NotForbidden (outcome : Outcome) : Prop :=
  ∀ response, outcome = .respond response → response.status ≠ 403

lemma notForbidden_profile (extract : Extractors) : NotForbidden (profile extract request) := by
  refine responds_profile (P := fun response => response.status ≠ 403) extract (by decide)
    (fun response h => ?_) (fun response h => ?_) (by decide)
  · have := extract.string_rejects request response h
    simp only [List.mem_cons, List.not_mem_nil, or_false] at this
    omega
  · have := extract.json_rejects request response h
    simp only [List.mem_cons, List.not_mem_nil, or_false] at this
    omega

lemma notForbidden_history : NotForbidden (history request) :=
  responds_history (P := fun response => response.status ≠ 403) (by decide) (by decide)

/-- Both routes sit behind the guard. -/
lemma router_guarded (app : App)
    (hpath : request.path = "/profile" ∨ request.path = "/profile/history") :
    ∃ next, router app request = gatewayGuard app.internalToken request next ∧
      NotForbidden (next request) := by
  unfold router
  rcases hpath with hpath | hpath
  · exact ⟨_, if_pos hpath, notForbidden_profile app.extract⟩
  · refine ⟨_, ?_, notForbidden_history⟩
    rw [if_neg (by rw [hpath]; decide), if_pos hpath]

end Guard

namespace Server

variable {ι : Type} [DecidableEq ι] {b : Backend} {app : App} {s s' : Server ι b} {i : ι}
  {request : HttpRequest}

/-- What may follow once `request` was received as `i`, if only the gateway gets in. -/
structure OnlyGateway (app : App) (s s' : Server ι b) (i : ι) (request : HttpRequest) :
    Prop where
  /-- A handler runs only for a request that carries the internal token. -/
  admitted : ∀ after t, (machine ι b app).run s' after = some t →
    (t.service.handler i).isSome → Presents app.internalToken request
  /-- Any other request is answered `403`, changes neither the profiles nor the idempotency
  table when it is received, and takes no further step. -/
  turnedAway : ¬Presents app.internalToken request →
    s'.service.profiles = s.service.profiles ∧ s'.service.idempotency = s.service.idempotency ∧
    ∀ after t, (machine ι b app).run s' after = some t → (∀ e ∈ after, ¬e.By i) ∧
      ∃ reply, t.reply i = some reply ∧ reply.response.status = 403

lemma finish_status (request : HttpRequest) (response : Response) :
    (finish request response).status = response.status := by
  unfold finish
  split <;> rfl

/-- What answered a request: the guard, the router, or a handler that returned. -/
lemma reply_cases {r : Reply} (h : s.reply i = some r) : ∃ received, s.received i = some received ∧
    ((∃ e, received.outcome = .error e ∧ r = ⟨finish received.request e.intoResponse, none⟩) ∨
      (∃ response id, received.outcome = .ok (.respond response, id) ∧
        r = ⟨finish received.request response, id⟩) ∨
      ∃ called id x a, received.outcome = .ok (.handle called, id) ∧
        s.service.handler i = some x ∧ x.rest = .pure a ∧
        r = ⟨finish received.request a.render, id⟩) := by
  unfold reply at h
  obtain ⟨received, hi, h⟩ := Option.bind_eq_some_iff.mp h
  refine ⟨received, hi, ?_⟩
  split at h
  · rename_i e he
    exact .inl ⟨e, he, (Option.some.inj h).symm⟩
  · rename_i response id hout
    exact .inr (.inl ⟨response, id, hout, (Option.some.inj h).symm⟩)
  · rename_i called id hout
    split at h
    · rename_i a dropped hx
      exact .inr (.inr ⟨called, id, _, a, hout, hx, rfl, (Option.some.inj h).symm⟩)
    · cases h

lemma reply_of_handler {received : Received} {called : Request} {id : Option HeaderValue}
    {x : Handling} {a : Answer} (hi : s.received i = some received)
    (hout : received.outcome = .ok (.handle called, id)) (hx : s.service.handler i = some x)
    (ha : x.rest = .pure a) : s.reply i = some ⟨finish received.request a.render, id⟩ := by
  obtain ⟨request, log, rest, dropped⟩ := x
  obtain rfl : rest = .pure a := ha
  simp only [reply, hi, Option.bind_some, hout, hx]

/-- What a request was answered stays. -/
lemma reply_of_step {r : Reply} {e : Event ι} (hs : step app s e = some s')
    (h : s.reply i = some r) : s'.reply i = some r := by
  obtain ⟨received, hi, hcase⟩ := reply_cases h
  have hi' := received_of_step hs hi
  rcases hcase with ⟨e, hout, rfl⟩ | ⟨response, id, hout, rfl⟩ |
    ⟨called, id, x, a, hout, hx, ha, rfl⟩
  · simp only [reply, hi', Option.bind_some, hout]
  · simp only [reply, hi', Option.bind_some, hout]
  · refine reply_of_handler hi' hout ?_ ha
    rcases step_service hs with heq | ⟨f, hf, -⟩
    · rw [heq, hx]
    · exact Service.handler_of_pure hf hx ha

lemma finish_headers (request : HttpRequest) (response : Response) :
    (finish request response).headers = response.headers := by
  unfold finish
  split <;> rfl

/-- A request the guard refused. -/
lemma onlyGateway_of_ne (h : Inv app s) (hs : step app s (.receive i request) = some s')
    (hpath : request.path = "/profile" ∨ request.path = "/profile/history")
    (hne : (request.headers.get Headers.internalToken).getD [] ≠
      HeaderValue.ofText app.internalToken) : OnlyGateway app s s' i request := by
  obtain ⟨next, hrouter, -⟩ := router_guarded app hpath
  rw [gatewayGuard_of_ne hne] at hrouter
  obtain ⟨j, request', outcome, he, hi, hrouter', hreceived, hcase⟩ | ⟨f, he, -⟩ := step_cases hs
  · obtain ⟨rfl, rfl⟩ := Event.receive.inj he
    rw [hrouter] at hrouter'
    subst hrouter'
    have hr : s'.received i = some ⟨request, .error .notInternal⟩ := by
      rw [hreceived, Function.update_self]
    have hservice : s'.service = s.service := by
      rcases hcase with ⟨called, id, h, -⟩ | ⟨-, h⟩
      · cases h
      · exact h
    refine ⟨fun after t hrun hx => ?_, fun _ => ?_⟩
    · obtain ⟨x, hx⟩ := Option.isSome_iff_exists.mp hx
      have ht := Machine.run_invariant (M := machine ι b app) (Inv app)
        (fun _ _ _ h hs => h.step hs) (h.step hs) hrun
      obtain ⟨received, id, hreceived', hout⟩ := (ht.handled i x.request).mp ⟨x, hx, rfl⟩
      rw [((h.step hs).unhandled hrun hr fun _ _ h => by cases h).2] at hreceived'
      obtain rfl := Option.some.inj hreceived'
      cases hout
    · refine ⟨by rw [hservice], by rw [hservice], fun after t hrun => ?_⟩
      obtain ⟨hby, ht⟩ := (h.step hs).unhandled hrun hr fun _ _ h => by cases h
      refine ⟨hby, ⟨finish request ProfileError.notInternal.intoResponse, none⟩, ?_, ?_⟩
      · simp only [reply, ht, Option.bind_some]
      · exact finish_status _ _
  · cases he

/-- A request the guard let in without the internal token. -/
lemma not_onlyGateway (hs : step app s (.receive i request) = some s')
    (hpath : request.path = "/profile" ∨ request.path = "/profile/history")
    (htoken : app.internalToken = "")
    (hnone : request.headers.get Headers.internalToken = none) :
    ¬OnlyGateway app s s' i request := by
  intro honly
  have hpresents : ¬Presents app.internalToken request := by
    rw [Presents, hnone]
    exact fun h => by cases h
  obtain ⟨next, hrouter, hforbidden⟩ := router_guarded app hpath
  rw [gatewayGuard_of_eq (presented_eq_iff.mpr (.inr ⟨htoken, hnone⟩))] at hrouter
  obtain ⟨j, request', outcome, he, hi, hrouter', hreceived, hcase⟩ | ⟨f, he, -⟩ := step_cases hs
  · obtain ⟨rfl, rfl⟩ := Event.receive.inj he
    rw [hrouter] at hrouter'
    subst hrouter'
    cases hnext : next request with
    | handle called =>
      rcases hcase with ⟨called', id, -, hf⟩ | ⟨hne, -⟩
      · obtain ⟨x, hx, -⟩ := Service.sent_of_arrive hf
        exact hpresents (honly.admitted [] s' rfl (by rw [hx]; rfl))
      · exact hne called _ (by rw [hnext])
    | respond response =>
      obtain ⟨-, -, hanswer⟩ := honly.turnedAway hpresents
      obtain ⟨-, answer, hreply, hstatus⟩ := hanswer [] s' rfl
      simp only [reply, hreceived, Function.update_self, Option.bind_some, hnext,
        Option.some.injEq] at hreply
      subst hreply
      rw [finish_status] at hstatus
      exact hforbidden response hnext hstatus
  · cases he

/-- In every run and for every configuration, a request to `/profile` or `/profile/history`
gets in only as the gateway, exactly where the configured token is not empty or the request
carries the header. -/
theorem only_gateway_gets_in (b : Backend) (ι : Type) [DecidableEq ι]
    (env : String → Option String) (settings : Settings) (extract : Extractors)
    (before : List (Event ι)) (s s' : Server ι b) (i : ι) (request : HttpRequest)
    (hpath : request.path = "/profile" ∨ request.path = "/profile/history")
    (hrun : (machine ι b ⟨(Config.fromEnv env).internalToken, settings, extract⟩).run
      (init ι b ⟨(Config.fromEnv env).internalToken, settings, extract⟩) before = some s)
    (hs : step ⟨(Config.fromEnv env).internalToken, settings, extract⟩ s
      (.receive i request) = some s') :
    OnlyGateway ⟨(Config.fromEnv env).internalToken, settings, extract⟩ s s' i request ↔
      (Config.fromEnv env).internalToken ≠ "" ∨
        ∃ value, (Headers.internalToken, value) ∈ request.headers := by
  generalize hconfig : (Config.fromEnv env).internalToken = token at *
  have hinv := inv_of_run hrun
  have hmem : (∃ value, (Headers.internalToken, value) ∈ request.headers) ↔
      request.headers.get Headers.internalToken ≠ none := by
    rw [ne_eq, HeaderMap.get_eq_none_iff]
    push Not
    rfl
  rw [hmem]
  by_cases hget : (request.headers.get Headers.internalToken).getD [] = HeaderValue.ofText token
  · rcases presented_eq_iff.mp hget with hpresents | ⟨htoken, hnone⟩
    · refine iff_of_true ⟨fun _ _ _ _ => hpresents, fun h => absurd hpresents h⟩ (.inr ?_)
      rw [hpresents]
      exact Option.some_ne_none _
    · refine iff_of_false (not_onlyGateway hs hpath htoken hnone) ?_
      simp [htoken, hnone]
  · refine iff_of_true (onlyGateway_of_ne hinv hs hpath hget) ?_
    by_contra hnot
    push Not at hnot
    exact hget (presented_eq_iff.mpr (.inr hnot))

/-- A profile as clients send it. -/
def Sample.content : ProfileInput := ⟨"1 Main St", "5550100"⟩

def Sample.body : String := "\x7b\"address\":\"1 Main St\",\"phone_number\":\"5550100\"\x7d"

def Sample.rejection (status : ℕ) (text : String) : Response :=
  ⟨status, [("content-type", "text/plain; charset=utf-8")], text⟩

/-- Extractors that know one body. -/
def Sample.extract : Extractors where
  string request :=
    if request.body.all (· < 128) then
      .ok (String.ofList (request.body.map fun b => Char.ofNat b.toNat))
    else .error (rejection 400 "Request body didn't contain valid UTF-8")
  json request :=
    if request.headers.get "content-type" ≠ some (.ofText "application/json") then
      .error (rejection 415 "Expected request with `Content-Type: application/json`")
    else if request.body = HeaderValue.ofText body then .ok content
    else .error (rejection 400 "Failed to parse the request body as JSON")
  string_rejects request response h := by
    split at h <;> cases h
    decide
  json_rejects request response h := by
    split at h
    · cases h
      decide
    · split at h <;> cases h
      decide

def Sample.settings : Settings :=
  .default (fun text => if text = body then some content else none) fun _ => 0

/-- `GET /profile` with the given headers. -/
def Sample.reading (headers : HeaderMap) : HttpRequest := ⟨.get, "/profile", headers, []⟩

open Sample in
/-- The gateway reads a profile. -/
theorem only_gateway_gets_in_default : ∃ s' : Server ℕ .sqlite,
    step ⟨(Config.fromEnv fun _ => none).internalToken, settings, extract⟩
      (init ℕ .sqlite ⟨(Config.fromEnv fun _ => none).internalToken, settings, extract⟩)
      (.receive 0 (reading [("x-internal-token", .ofText "dev-only-internal-token-change-me"),
        ("x-user-id", .ofText "u")])) = some s' ∧
    OnlyGateway ⟨(Config.fromEnv fun _ => none).internalToken, settings, extract⟩
      (init ℕ .sqlite ⟨(Config.fromEnv fun _ => none).internalToken, settings, extract⟩) s' 0
      (reading [("x-internal-token", .ofText "dev-only-internal-token-change-me"),
        ("x-user-id", .ofText "u")]) := by
  refine ⟨_, rfl, ?_⟩
  exact (only_gateway_gets_in .sqlite ℕ (fun _ => none) settings extract [] _ _ 0 _ (.inl rfl) rfl
    rfl).mpr (.inl (by decide))

open Sample in
/-- With an empty token, a request without the header reaches a handler. -/
theorem only_gateway_gets_in_fails : ∃ s' : Server ℕ .sqlite,
    step ⟨(Config.fromEnv fun _ => some "").internalToken, settings, extract⟩
      (init ℕ .sqlite ⟨(Config.fromEnv fun _ => some "").internalToken, settings, extract⟩)
      (.receive 0 (reading [("x-user-id", .ofText "u")])) = some s' ∧
    (s'.service.handler 0).isSome = true ∧
    ∀ value, (Headers.internalToken, value) ∉ (reading [("x-user-id", .ofText "u")]).headers := by
  refine ⟨_, rfl, rfl, ?_⟩
  rw [← HeaderMap.get_eq_none_iff]
  decide

end Server

end Knova.ProfileService
