import Knova.Profile.Preconditions
import Knova.System.Identity

/-!
# An issued entity tag is a usable precondition

A client that quotes a tag it was given is answered with the next one, or with the tag of a
write that was accepted in between.
-/

namespace Knova

open Library AuthService ProfileService

/-! ### Who answers with a tag -/

namespace ProfileService

variable {app : App} {request : HttpRequest}

/-- The response is no success and no stale precondition, or bears no tag. -/
def Plain (response : Response) : Prop :=
  response.status ∈ [200, 201, 412] → response.etag = none

lemma plain_of_rejected {response : Response} {statuses : List ℕ}
    (h : response.status ∈ statuses) (hne : ∀ status ∈ statuses, status ∉ [200, 201, 412]) :
    Plain response := fun hmem => absurd hmem (hne _ h)

/-- Only handlers answer with tags. -/
lemma router_plain (app : App) (request : HttpRequest) :
    router app request = .error .notInternal ∨
      ∃ answered id, router app request = .ok (answered, id) ∧ Responds Plain answered := by
  refine router_responds app request
    (responds_profile app.extract (fun _ => rfl) ?_ ?_ fun _ => rfl)
    (responds_history (fun _ => rfl) fun _ => rfl) (fun _ => ?_) fun _ => rfl
  · exact fun response hr => plain_of_rejected (app.extract.string_rejects _ _ hr) (by decide)
  · exact fun response hr => plain_of_rejected (app.extract.json_rejects _ _ hr) (by decide)
  · unfold health
    split
    all_goals
      rintro response ⟨⟩ -
      rfl

/-- A `PUT` that the guard and the extractors let through. -/
lemma router_put {user : UserId} {input : ProfileInput} (hpath : request.path = "/profile")
    (hmethod : request.method = .put)
    (htoken : (request.headers.get Headers.internalToken).getD [] = .ofText app.internalToken)
    (hcaller : caller request.headers = .ok user) (hjson : app.extract.json request = .ok input) :
    router app request = .ok (.handle (.update user request.headers input),
      request.headers.get Headers.requestId) := by
  have hprofile : profile app.extract request = .handle (.update user request.headers input) := by
    simp only [profile, hmethod, authenticated, extracting, hcaller, hjson, Except.mapError]
  rw [router, if_pos hpath, gatewayGuard_of_eq htoken, hprofile]

end ProfileService

namespace ProfileService.Server

variable {ι : Type} [DecidableEq ι] {b : Backend} {app : App} {s : Server ι b} {i : ι} {r : Reply}

/-- A success or a stale precondition that bears a tag comes from a handler. -/
lemma Inv.handler_of_etag (h : Inv app s) (hr : s.reply i = some r)
    (hstatus : r.response.status ∈ [200, 201, 412]) {tag : String}
    (htag : r.response.etag = some tag) : ∃ received called id x a,
      s.received i = some received ∧ received.outcome = .ok (.handle called, id) ∧
      s.service.handler i = some x ∧ x.request = called ∧ x.rest = .pure a ∧
      a.render.etag = some tag := by
  obtain ⟨received, hi, ⟨e, hout, rfl⟩ | ⟨response, id, hout, rfl⟩ |
    ⟨called, id, x, a, hout, hx, ha, rfl⟩⟩ := reply_cases hr
  · rw [Response.etag, finish_headers] at htag
    rw [finish_status] at hstatus
    rw [← h.routed i received hi] at hout
    rcases router_plain app received.request with herror | ⟨answered, id, hok, -⟩
    · rw [herror] at hout
      obtain rfl := Except.error.inj hout
      cases htag
    · rw [hok] at hout
      cases hout
  · rw [Response.etag, finish_headers] at htag
    rw [finish_status] at hstatus
    rw [← h.routed i received hi] at hout
    rcases router_plain app received.request with herror | ⟨answered, id', hok, hplain⟩
    · rw [herror] at hout
      cases hout
    · rw [hok] at hout
      obtain ⟨rfl, -⟩ := Prod.mk.inj (Except.ok.inj hout)
      have hnone : response.headers.lookup "etag" = none := hplain response rfl hstatus
      rw [hnone] at htag
      cases htag
  · obtain ⟨x', hx', hreq⟩ := (h.handled i called).mpr ⟨received, id, hi, hout⟩
    rw [hx] at hx'
    obtain rfl := Option.some.inj hx'
    rw [Response.etag, finish_headers] at htag
    exact ⟨received, called, id, x, a, hi, hout, hx, hreq, ha, htag⟩

end ProfileService.Server

/-! ### What arrives of a request -/

namespace HeaderMap

variable {headers : HeaderMap} {name : String} {value : HeaderValue}

/-- The name is in lower case. -/
def IsLower (name : String) : Prop := String.ofList (name.toList.map Char.toLower) = name

instance : DecidablePred IsLower := fun name =>
  inferInstanceAs (Decidable (String.ofList (name.toList.map Char.toLower) = name))

lemma ofWire_cons : HeaderMap.ofWire ((name, value) :: headers) =
    (String.ofList (name.toList.map Char.toLower),
      (value.dropWhile isBlank).rdropWhile isBlank) :: HeaderMap.ofWire headers := rfl

lemma get_append (a b : HeaderMap) (name : String) :
    HeaderMap.get (a ++ b) name = (a.get name).or (b.get name) := List.lookup_append

/-- Names in lower case are read as they are sent. -/
lemma get_ofWire (h : ∀ header ∈ headers, IsLower header.1) : (HeaderMap.ofWire headers).get name =
    (headers.get name).map fun value => (value.dropWhile isBlank).rdropWhile isBlank := by
  induction headers with
  | nil => rfl
  | cons header headers ih =>
    obtain ⟨other, value⟩ := header
    have hlower : String.ofList (other.toList.map Char.toLower) = other :=
      h (other, value) (List.mem_cons_self ..)
    have hrest := ih fun header hmem => h header (List.mem_cons_of_mem _ hmem)
    unfold HeaderMap.get at hrest ⊢
    rw [ofWire_cons, hlower, List.lookup_cons, List.lookup_cons]
    cases name == other with
    | true => rfl
    | false => exact hrest

lemma get_insert_of_ne {other : String} (hne : other ≠ name) :
    (headers.insert name value).get other = headers.get other := by
  unfold HeaderMap.get HeaderMap.insert
  rw [List.lookup_cons, beq_eq_false_iff_ne.mpr hne]
  induction headers with
  | nil => rfl
  | cons header headers ih =>
    obtain ⟨name', value'⟩ := header
    by_cases hname : name' = name
    · subst hname
      rw [List.filter_cons_of_neg (by simp), List.lookup_cons, beq_eq_false_iff_ne.mpr hne]
      exact ih
    · rw [List.filter_cons_of_pos (by simpa using hname), List.lookup_cons, List.lookup_cons]
      cases other == name' with
      | true => rfl
      | false => exact ih

end HeaderMap

namespace AuthService

variable {up : Upstream} {sub : UserId} {client client' sent sent' : HeaderMap} {name : String}
  {names : List String} {value : HeaderValue}

lemma get_copied (h : name ∈ names) (hvalue : client.get name = some value) :
    (copied names client).get name = some value := by
  induction names with
  | nil => cases h
  | cons other names ih =>
    unfold copied
    rw [List.filterMap_cons]
    by_cases hname : name = other
    · subst hname
      rw [hvalue]
      exact List.lookup_cons_self
    · have hrest := ih ((List.mem_cons.mp h).resolve_left hname)
      cases client.get other with
      | none => exact hrest
      | some value' =>
        unfold HeaderMap.get at hrest ⊢
        rw [Option.map_some, List.lookup_cons, beq_eq_false_iff_ne.mpr hname]
        exact hrest

/-- The names the gateway sends. -/
lemma Upstream.headers_names (h : up.headers sub client = some sent)
    {header : String × HeaderValue} (hmem : header ∈ sent) :
    header.1 ∈ [Headers.internalToken, Headers.userId] ++ forwardedToUpstream ++
      [Headers.requestId] := by
  unfold headers at h
  split at h
  · obtain rfl := Option.some.inj h
    rcases List.mem_append.mp hmem with hmem | hmem
    · rcases List.mem_append.mp hmem with hmem | hmem
      · simp only [List.mem_cons, List.not_mem_nil, or_false] at hmem
        rcases hmem with rfl | rfl
        · simp
        · simp
      · simp [name_of_copied hmem]
    · have := name_of_copied hmem
      simp only [List.mem_cons, List.not_mem_nil, or_false] at this
      simp [this]
  · cases h

/-- The gateway's own headers are read alike, whatever else is sent. -/
lemma Upstream.headers_get_own (h : up.headers sub client = some sent)
    (h' : up.headers sub client' = some sent') (added added' : HeaderMap)
    (hname : name = Headers.internalToken ∨ name = Headers.userId) :
    (HeaderMap.ofWire (sent ++ added)).get name =
      (HeaderMap.ofWire (sent' ++ added')).get name := by
  unfold headers at h h'
  split at h
  · rename_i token user htoken huser
    simp only [htoken, huser, Option.some.injEq] at h h'
    subst h h'
    rcases hname with rfl | rfl
    · rfl
    · rfl
  · cases h

/-- The client's precondition is copied, and read as it was sent. -/
lemma Upstream.headers_get_ifMatch (h : up.headers sub client = some sent)
    (hvalue : client.get "if-match" = some value) (added : HeaderMap) :
    (HeaderMap.ofWire (sent ++ added)).get "if-match" =
      some ((value.dropWhile isBlank).rdropWhile isBlank) := by
  have hnames : ∀ name ∈ [Headers.internalToken, Headers.userId] ++ forwardedToUpstream ++
      [Headers.requestId], HeaderMap.IsLower name := by decide
  have hlower : ∀ header ∈ sent, HeaderMap.IsLower header.1 :=
    fun header hmem => hnames _ (headers_names h hmem)
  have hsent : sent.get "if-match" = some value := by
    unfold headers at h
    split at h
    · obtain rfl := Option.some.inj h
      rw [HeaderMap.get_append, HeaderMap.get_append, get_copied (by decide) hvalue]
      rfl
    · cases h
  have happend : HeaderMap.ofWire (sent ++ added) =
      HeaderMap.ofWire sent ++ HeaderMap.ofWire added := List.map_append
  rw [happend, HeaderMap.get_append, HeaderMap.get_ofWire hlower, hsent]
  rfl

end AuthService

namespace AuthService

lemma propagate_request (uuid : String) (request : HttpRequest) :
    (propagate uuid request).1.method = request.method ∧
      (propagate uuid request).1.path = request.path ∧
      (propagate uuid request).1.headers.get "if-match" = request.headers.get "if-match" := by
  unfold propagate
  dsimp only
  split
  · exact ⟨rfl, rfl, HeaderMap.get_insert_of_ne (by decide)⟩
  · exact ⟨rfl, rfl, rfl⟩

/-- The tag of a response is relayed. -/
lemma relay_etag (response : Response) : (relay response).etag = response.etag := by
  unfold relay forwardedToClient Response.etag
  cases htype : response.headers.lookup "content-type" with
  | none =>
    cases hetag : response.headers.lookup "etag" with
    | none => simp [htype, hetag]
    | some tag => simp [htype, hetag]
  | some type =>
    cases hetag : response.headers.lookup "etag" with
    | none => simp [htype, hetag]
    | some tag =>
      simp only [List.filterMap_cons, htype, hetag, Option.map_some, List.filterMap_nil]
      rfl

/-- A base URL under which a proxied path is served adds nothing to it. -/
lemma basePath_eq_empty {base path : String} (hpath : path = "/profile" ∨ path = "/profile/history")
    (h : base ++ path = "/profile" ∨ base ++ path = "/profile/history") : base = "" := by
  have hlist : ∀ path', base ++ path = path' → base.toList ++ path.toList = path'.toList :=
    fun path' heq => String.toList_append ▸ congrArg String.toList heq
  have hself : base ++ path = path → base = "" := fun heq =>
    String.toList_eq_nil_iff.mp (List.append_left_eq_self.mp (hlist _ heq))
  rcases hpath with rfl | rfl
  · rcases h with h | h
    · exact hself h
    · exact absurd ⟨base.toList, hlist _ h⟩
        (by decide : ¬"/profile".toList <:+ "/profile/history".toList)
  · rcases h with h | h
    · exact absurd ⟨base.toList, hlist _ h⟩
        (by decide : ¬"/profile/history".toList <:+ "/profile".toList)
    · exact hself h

end AuthService

/-! ### Runs of both services -/

namespace System

variable {ι : Type} [DecidableEq ι] {b : Backend} {setup : Setup} {s s' t : System ι b} {i j : ι}

/-- What came in, and what was sent for it, stays. -/
lemma exchange_of_step {e : Event ι} (hs : step setup s e = some s') {x : Exchange}
    (hi : s.exchange i = some x) :
    ∃ y, s'.exchange i = some y ∧ y.request = x.request ∧ y.sent = x.sent := by
  obtain ⟨j, sent, uuid, proxied, -, hj, -, rfl⟩ | ⟨f, server, -, -, rfl⟩ |
    ⟨j, y, response, -, hj, rfl⟩ | ⟨claims, -, rfl⟩ | ⟨d, -, rfl⟩ := step_cases hs
  · refine ⟨x, (Function.update_of_ne ?_ ..).trans hi, rfl, rfl⟩
    rintro rfl
    rw [hj] at hi
    cases hi
  · exact ⟨x, hi, rfl, rfl⟩
  · by_cases hij : i = j
    · subst hij
      rw [hj] at hi
      obtain rfl := Option.some.inj hi
      exact ⟨_, Function.update_self .., rfl, rfl⟩
    · exact ⟨x, (Function.update_of_ne hij ..).trans hi, rfl, rfl⟩
  · exact ⟨x, hi, rfl, rfl⟩
  · exact ⟨x, hi, rfl, rfl⟩

/-- What the gateway makes of a new request. -/
lemma exchange_of_request {sent : HttpRequest} {uuid : String}
    (hs : step setup s (.request i sent uuid) = some s') : s.exchange i = none ∧ ∃ proxied x,
      AuthService.router setup.gateway s.tokens s.now (propagate uuid sent.ofWire).1 =
        some proxied ∧ s'.exchange i = some x ∧ x.request = (propagate uuid sent.ofWire).1 ∧
      x.sent = proxied.toOption := by
  obtain ⟨j, sent', uuid', proxied, he, hj, hrouter, rfl⟩ | ⟨f, server, -, hkind, -⟩ |
    ⟨j, x, response, hkind, -⟩ | ⟨claims, he, -⟩ | ⟨d, he, -⟩ := step_cases hs
  · cases he
    exact ⟨hj, proxied, _, hrouter, Function.update_self .., rfl, rfl⟩
  · rcases hkind with ⟨j, claims, upstream, added, he, -⟩ | ⟨g, he, -⟩ <;> cases he
  · rcases hkind with ⟨he, -⟩ | ⟨he, -⟩ <;> cases he
  · cases he
  · cases he

lemma exchange_of_run {es : List (Event ι)} (hrun : (machine ι b setup).run s es = some t)
    {x : Exchange} (hi : s.exchange i = some x) :
    ∃ y, t.exchange i = some y ∧ y.request = x.request ∧ y.sent = x.sent :=
  Machine.run_invariant (M := machine ι b setup)
    (fun u : System ι b => ∃ y, u.exchange i = some y ∧ y.request = x.request ∧ y.sent = x.sent)
    (fun _ _ _ ⟨_, hy, hreq, hsent⟩ hs => by
      obtain ⟨z, hz, hreq', hsent'⟩ := exchange_of_step hs hy
      exact ⟨z, hz, hreq'.trans hreq, hsent'.trans hsent⟩)
    ⟨x, hi, rfl, rfl⟩ hrun

/-- The answer to a request that was sent upstream is relayed, or the gateway gave up. -/
def Relayed (s : System ι b) (i : ι) (failed : Prop) : Prop :=
  ∀ x, s.exchange i = some x → x.sent ≠ none → ∀ response, x.answer = some response →
    failed ∧ response = AppError.upstream.intoResponse ∨
      ∃ r, s.server.reply i = some r ∧ response = relay r.response

lemma Relayed.step {failed : Prop} (h : s.Relayed i failed) {e : Event ι}
    (hs : System.step setup s e = some s') : s'.Relayed i (failed ∨ e = .fail i) := by
  have hkeep : s'.exchange i = s.exchange i →
      (∀ r, s.server.reply i = some r → s'.server.reply i = some r) →
      s'.Relayed i (failed ∨ e = .fail i) := by
    intro hexchange hreply x hx hsent response hresponse
    rw [hexchange] at hx
    rcases h x hx hsent response hresponse with ⟨hfailed, heq⟩ | ⟨r, hr, heq⟩
    · exact .inl ⟨.inl hfailed, heq⟩
    · exact .inr ⟨r, hreply r hr, heq⟩
  obtain ⟨j, sent, uuid, proxied, rfl, hj, hrouter, rfl⟩ | ⟨f, server, hf, -, rfl⟩ |
    ⟨j, y, response, hresponse, hj, rfl⟩ | ⟨claims, -, rfl⟩ | ⟨d, -, rfl⟩ := step_cases hs
  · by_cases hij : i = j
    · subst hij
      intro x hx hsent response hanswer
      dsimp only at hx
      rw [Function.update_self] at hx
      obtain rfl := Option.some.inj hx
      cases proxied with
      | error response => exact absurd rfl hsent
      | ok proxied => cases hanswer
    · exact hkeep (Function.update_of_ne hij ..) fun r hr => hr
  · exact hkeep rfl fun r hr => Server.reply_of_step hf hr
  · by_cases hij : i = j
    · subst hij
      intro x hx hsent response' hanswer
      dsimp only at hx
      rw [Function.update_self] at hx
      obtain rfl := Option.some.inj hx
      obtain rfl := Option.some.inj hanswer
      rcases hresponse with ⟨-, r, hr, heq⟩ | ⟨rfl, heq⟩
      · exact .inr ⟨r, hr, heq⟩
      · exact .inl ⟨.inr rfl, heq⟩
    · exact hkeep (Function.update_of_ne hij ..) fun r hr => hr
  · exact hkeep rfl fun r hr => hr
  · exact hkeep rfl fun r hr => hr

lemma relayed_of_run {es : List (Event ι)} (hrun : (machine ι b setup).run s es = some t)
    (hi : s.exchange i = none) : t.Relayed i (.fail i ∈ es) := by
  induction es using List.reverseRecOn generalizing t with
  | nil =>
    obtain rfl : s = t := Option.some.inj hrun
    intro x hx
    rw [hi] at hx
    cases hx
  | append_singleton es e ih =>
    obtain ⟨u, hu, hlast⟩ := Machine.run_append_eq_some.mp hrun
    obtain ⟨u', hstep, hnil⟩ := Machine.run_cons_eq_some.mp hlast
    obtain rfl := Option.some.inj hnil
    intro x hx hsent response hanswer
    rcases (ih hu).step hstep x hx hsent response hanswer with ⟨hfailed, heq⟩ | hrelayed
    · refine .inl ⟨?_, heq⟩
      rcases hfailed with hmem | rfl
      · exact List.mem_append_left _ hmem
      · exact List.mem_append_right _ (List.mem_singleton_self _)
    · exact .inr hrelayed

/-- A run of both services is a run of the profile service. -/
lemma run_service {es : List (Event ι)} (hrun : (machine ι b setup).run s es = some t) :
    ∃ fs, (Service.machine ι b setup.app.settings).run s.server.service fs =
        some t.server.service ∧ ∀ i env, .call i env ∈ fs → .server (.call i env) ∈ es := by
  induction es generalizing s with
  | nil =>
    obtain rfl : s = t := Option.some.inj hrun
    exact ⟨[], rfl, by simp⟩
  | cons e es ih =>
    obtain ⟨u, hstep, hrest⟩ := Machine.run_cons_eq_some.mp hrun
    obtain ⟨fs, hfs, hcalls⟩ := ih hrest
    have hsame : u.server.service = s.server.service → ∃ fs,
        (Service.machine ι b setup.app.settings).run s.server.service fs =
          some t.server.service ∧ ∀ i env, .call i env ∈ fs → .server (.call i env) ∈ e :: es :=
      fun heq => ⟨fs, heq ▸ hfs, fun i env hmem => List.mem_cons_of_mem _ (hcalls i env hmem)⟩
    obtain ⟨j, sent, uuid, proxied, -, -, -, rfl⟩ | ⟨f, server, hf, hkind, rfl⟩ |
      ⟨j, y, response, -, -, rfl⟩ | ⟨claims, -, rfl⟩ | ⟨d, -, rfl⟩ := step_cases hstep
    case inr.inl =>
      rcases Server.step_service hf with heq | ⟨g, hg, -, hcase⟩
      · exact hsame heq
      · refine ⟨g :: fs, Machine.run_cons_eq_some.mpr ⟨_, hg, hfs⟩, fun i env hmem => ?_⟩
        rcases List.mem_cons.mp hmem with rfl | hmem
        · rcases hcase with ⟨k, request, hcase⟩ | rfl
          · cases hcase
          · rcases hkind with ⟨k, claims, upstream, added, -, -, hkind⟩ | ⟨g', rfl, hkind⟩
            · cases hkind
            · obtain rfl := Server.Event.run.inj hkind
              exact List.mem_cons_self ..
        · exact List.mem_cons_of_mem _ (hcalls i env hmem)
    all_goals exact hsame rfl

/-- What a client is answered about a request that was sent upstream. -/
lemma Relayed.reply {failed : Prop} (h : s.Relayed i failed) {claims : Claims}
    {upstream : HttpRequest} (hsent : s.Sent i claims upstream) {given : Reply}
    (hgiven : s.reply i = some given) :
    failed ∧ given.response.status = 502 ∨ ∃ r, s.server.reply i = some r ∧
      given.response.status = r.response.status ∧ given.response.etag = r.response.etag := by
  obtain ⟨x, hx, hgiven⟩ := Option.bind_eq_some_iff.mp hgiven
  obtain ⟨response, hanswer, rfl⟩ := Option.map_eq_some_iff.mp hgiven
  obtain ⟨x', hx', hproxied⟩ := Option.bind_eq_some_iff.mp hsent
  rw [hx] at hx'
  obtain rfl := Option.some.inj hx'
  dsimp only
  rw [Server.finish_status, Response.etag, Server.finish_headers]
  rcases h x hx (by rw [hproxied]; exact Option.some_ne_none _) response hanswer with
    ⟨hfailed, rfl⟩ | ⟨r, hr, rfl⟩
  · exact .inl ⟨hfailed, rfl⟩
  · exact .inr ⟨r, hr, rfl, relay_etag _⟩

/-- The client of `i`, who is `sub`, received `tag` for its profile. -/
structure Issued (s : System ι b) (i : ι) (sub : UserId) (tag : String) : Prop where
  sent : ∃ claims upstream, s.Sent i claims upstream ∧ claims.sub = sub
  answered : ∃ given, s.reply i = some given ∧ given.response.status ∈ [200, 201, 412] ∧
    given.response.etag = some tag

/-- In the run of `es` from `s` to `t`, the request `j` is a `PUT` of a valid profile by `sub`
that quotes `tag`, and no fault meets it. -/
structure Quotes (setup : Setup) (s : System ι b) (es : List (Event ι)) (t : System ι b) (j : ι)
    (sub : UserId) (tag : String) (input : ProfileInput) : Prop where
  request : ∃ sent uuid u v, (machine ι b setup).Passes s es t (.request j sent uuid) u v ∧
    sent.method = .put ∧ sent.path = "/profile" ∧
    sent.ofWire.headers.get "if-match" = some (.ofText tag)
  sent : ∃ claims upstream, t.Sent j claims upstream ∧ claims.sub = sub
  body : ∀ received, t.server.received j = some received →
    setup.app.extract.json received.request = .ok input
  valid : input.validate = .ok ()
  available : .fail j ∉ es
  faultless : ∀ env, .server (.call j env) ∈ es → b.Faultless env

/-- Requests sent upstream for `sub` get through the guard, as requests of `user`. -/
structure Reaches (setup : Setup) (sub user : UserId) : Prop where
  basePath : setup.gateway.upstream.basePath = ""
  token : ∀ client headers added, setup.gateway.upstream.headers sub client = some headers →
    ((HeaderMap.ofWire (headers ++ added)).get Headers.internalToken).getD [] =
      .ofText setup.app.internalToken
  caller : ∀ client headers added, setup.gateway.upstream.headers sub client = some headers →
    ProfileService.caller (HeaderMap.ofWire (headers ++ added)) = .ok user

lemma Inv.arrived (h : Inv setup s) {received : Received} {claims : Claims}
    {upstream : HttpRequest} (hi : s.server.received i = some received)
    (hsent : s.Sent i claims upstream) : ∃ added, received.request = arriving upstream added := by
  obtain ⟨claims', upstream', added, hsent', hrequest⟩ := h.delivered i received hi
  obtain ⟨-, rfl⟩ := Prod.mk.inj (Option.some.inj (hsent.symm.trans hsent'))
  exact ⟨added, hrequest⟩

/-- A tag was answered by a handler, and what reached that handler shows how requests of its
client reach theirs. -/
lemma Issued.handler {es : List (Event ι)}
    (hrun : (machine ι b setup).run (init ι b setup) es = some s) {sub : UserId} {tag : String}
    (h : s.Issued i sub tag) : ∃ user x a, (sub.IsUuid → user = sub) ∧ Reaches setup sub user ∧
      s.server.service.handler i = some x ∧ x.request.user = user ∧ x.rest = .pure a ∧
      a.render.etag = some tag := by
  have hinv : Inv setup s := inv_of_run hrun
  obtain ⟨claims, upstream, hsent, rfl⟩ := h.sent
  obtain ⟨given, hgiven, hstatus, htag⟩ := h.answered
  obtain ⟨sent, uuid, u, v, -, hrouter⟩ := hsent.origin hrun
  obtain ⟨-, -, hheaders, -, hpath⟩ := proxy_eq_ok.mp (router_eq_ok hrouter)
  rcases (relayed_of_run hrun rfl).reply hsent hgiven with ⟨-, hfail⟩ | ⟨r, hr, hrs, hre⟩
  · rw [hfail] at hstatus
    exact absurd hstatus (by decide)
  · rw [hrs] at hstatus
    rw [hre] at htag
    obtain ⟨received, called, id, x, a, hreceived, hout, hx, rfl, ha, htag⟩ :=
      hinv.server.handler_of_etag hr hstatus htag
    have hrouted := hinv.server.routed i received hreceived
    rw [hout] at hrouted
    obtain ⟨added, hrequest⟩ := hinv.arrived hreceived hsent
    obtain ⟨hserved, htoken⟩ := guarded_of_handle hrouted
    have hcaller := caller_of_router hrouted
    rw [hrequest] at hserved htoken hcaller
    refine ⟨x.request.user, x, a, fun huuid => ?_, ⟨?_, fun client headers added' hh => ?_,
      fun client headers added' hh => ?_⟩, hx, rfl, ha, htag⟩
    · have hsub := (caller_of_headers hheaders huuid added).symm.trans hcaller
      exact (Except.ok.inj hsub).symm
    · refine basePath_eq_empty (path_of_router hrouter) ?_
      rw [← hpath]
      exact hserved
    · rw [Upstream.headers_get_own hh hheaders added' added (.inl rfl)]
      exact htoken
    · rw [ProfileService.caller, Upstream.headers_get_own hh hheaders added' added (.inr rfl)]
      exact hcaller

/-- A `PUT` that quotes a tag was answered by the handler of an update. -/
lemma Quotes.handler {es : List (Event ι)} (ht : Inv setup t)
    (hrun : (machine ι b setup).run s es = some t) {sub user : UserId} {tag : String}
    {input : ProfileInput} (h : Quotes setup s es t j sub tag input)
    (hreach : Reaches setup sub user) {answered : Reply} (hanswered : t.reply j = some answered) :
    s.exchange j = none ∧ ∃ y a headers, t.server.service.handler j = some y ∧
      y.request = .update user headers input ∧ y.rest = .pure a ∧
      headers.get "if-match" =
        some (((HeaderValue.ofText tag).dropWhile isBlank).rdropWhile isBlank) ∧
      answered.response.status = a.render.status ∧ answered.response.etag = a.render.etag := by
  obtain ⟨sent, uuid, u, v, ⟨before, after, -, hbefore, hstep, hafter⟩, hmethod, hpath, hmatch⟩ :=
    h.request
  obtain ⟨claims, upstream, hsent, rfl⟩ := h.sent
  obtain ⟨hj, proxied, x, hrouter, hx, -, hproxied⟩ := exchange_of_request hstep
  have hnew : s.exchange j = none := by
    cases hs : s.exchange j with
    | none => rfl
    | some x =>
      obtain ⟨y, hy, -⟩ := exchange_of_run hbefore hs
      rw [hj] at hy
      cases hy
  -- what was sent upstream is what the gateway made of the `PUT`
  obtain ⟨z, hz, -, hzsent⟩ := exchange_of_run hafter hx
  have hproxied : proxied = .ok (claims, upstream) := by
    obtain ⟨z', hz', hsent'⟩ := Option.bind_eq_some_iff.mp hsent
    rw [hz] at hz'
    obtain rfl := Option.some.inj hz'
    rw [hzsent, hproxied] at hsent'
    cases proxied with
    | error response => cases hsent'
    | ok proxied => rw [Option.some.inj hsent']
  rw [hproxied] at hrouter
  obtain ⟨-, -, hheaders, hupmethod, huppath⟩ := proxy_eq_ok.mp (router_eq_ok hrouter)
  obtain ⟨hpmethod, hppath, hpmatch⟩ := propagate_request uuid sent.ofWire
  rcases (relayed_of_run hrun hnew).reply hsent hanswered with ⟨hfail, -⟩ | ⟨r, hr, hrs, hre⟩
  · exact absurd hfail h.available
  · obtain ⟨received, hreceived, hcase⟩ := Server.reply_cases hr
    obtain ⟨added, hrequest⟩ := ht.arrived hreceived hsent
    have hrouted := ht.server.routed j received hreceived
    have hmethod' : received.request.method = .put := by
      rw [hrequest]
      exact hupmethod.trans (hpmethod.trans hmethod)
    have hpath' : received.request.path = "/profile" := by
      rw [hrequest]
      change upstream.path = "/profile"
      rw [huppath, hreach.basePath, String.empty_append, hppath]
      exact hpath
    have htoken := hreach.token _ _ added hheaders
    have hcaller := hreach.caller _ _ added hheaders
    have hbody := h.body received hreceived
    rw [router_put hpath' hmethod' (by rw [hrequest]; exact htoken)
      (by rw [hrequest]; exact hcaller) hbody] at hrouted
    have hout := hrouted.symm
    rcases hcase with ⟨e, herror, -⟩ | ⟨response, id, hrespond, -⟩ |
      ⟨called, id, y, a, hhandle, hy, ha, rfl⟩
    · rw [hout] at herror
      cases herror
    · rw [hout] at hrespond
      cases hrespond
    · rw [hout] at hhandle
      obtain ⟨hcalled, -⟩ := Prod.mk.inj (Except.ok.inj hhandle)
      obtain rfl := Outcome.handle.inj hcalled
      obtain ⟨y', hy', hreq⟩ := (ht.server.handled j _).mpr ⟨received, _, hreceived, hout⟩
      rw [hy] at hy'
      obtain rfl := Option.some.inj hy'
      refine ⟨hnew, y, a, _, hy, hreq, ha, ?_, ?_, ?_⟩
      · rw [hrequest]
        exact Upstream.headers_get_ifMatch hheaders (hpmatch.trans hmatch) added
      · rw [hrs, Server.finish_status]
      · rw [hre, Response.etag, Server.finish_headers]
        rfl

omit [DecidableEq ι] in
lemma judged_congr {user : UserId} {v : Version} {order : List (Library.Entry ι StoreCalls)}
    {response response' : Response} (h : Service.Judged user v order response)
    (hstatus : response'.status = response.status) (hetag : response'.etag = response.etag) :
    Service.Judged user v order response' := by
  obtain ⟨last, hlast, hle, happlied, hstale⟩ := h
  refine ⟨last, hlast, hle, fun heq => ?_, fun hne => ?_⟩
  · rw [hstatus, hetag]
    exact happlied heq
  · rw [hstatus, hetag]
    exact hstale hne

/-- An issued entity tag is a usable precondition. It is the tag of a version; a `PUT` that
quotes it is answered `200` with the next version's tag, exactly where no write that took
effect before wrote a later version, and `412` with the tag of the last one otherwise. -/
theorem issued_etag_usable (b : Backend) (ι : Type) [DecidableEq ι] (setup : Setup)
    (es es' : List (Event ι)) (s t : System ι b) (i j : ι) (sub : UserId) (tag : String)
    (input : ProfileInput) (answered : Reply)
    (hrun : (machine ι b setup).run (init ι b setup) es = some s)
    (hversions : ∀ user p, b.projection s.server.service.profiles.shared user = some p →
      p.version.get < 2 ^ 63 - 1)
    (hissued : s.Issued i sub tag) (hrun' : (machine ι b setup).run s es' = some t)
    (hquotes : Quotes setup s es' t j sub tag input) (hanswered : t.reply j = some answered) :
    ∃ user v order h pre post env r, (sub.IsUuid → user = sub) ∧ tag = v.toString ∧
      Linearizes Histories.contract Histories.empty t.server.service.profiles.history order h ∧
      order = pre ++ ⟨j, (.update user v input, env), r⟩ :: post ∧
      Service.Judged user v pre answered.response := by
  have hs : Inv setup s := inv_of_run hrun
  have ht : Inv setup t := inv_of_run (Machine.run_append_eq_some.mpr ⟨s, hrun, hrun'⟩)
  obtain ⟨user, x, a, huuid, hreach, hx, rfl, ha, htag⟩ := hissued.handler hrun
  obtain ⟨hnew, y, a', headers, hy, hreq, ha', hmatch, hstatus, hetag⟩ :=
    hquotes.handler ht hrun' hreach hanswered
  obtain ⟨fs, hfs, -⟩ := run_service hrun
  obtain ⟨fs', hfs', hcalls⟩ := run_service hrun'
  -- a tag is written in visible characters, so that it arrives as it was sent
  obtain ⟨before, h₀, hx₀⟩ := hs.server.service.explained
  obtain ⟨rev, -, hrev⟩ := hs.server.service.rev_of_etag hx₀ hx ha htag
  rw [hrev, HeaderValue.trim_ofText (visible_version rev.version), ← hrev] at hmatch
  have hunhandled : s.server.service.handler j = none := by
    cases hj : s.server.service.handler j with
    | none => rfl
    | some z =>
      obtain ⟨received, id, hreceived, -⟩ := (hs.server.handled j z.request).mp ⟨z, hj, rfl⟩
      obtain ⟨claims, upstream, added, hsent, -⟩ := hs.delivered j received hreceived
      unfold Sent at hsent
      rw [hnew] at hsent
      cases hsent
  obtain ⟨v, order, h, pre, post, env, r, hv, hlin, horder, hjudged⟩ :=
    Service.judged_of_quoted hfs hfs' hx ha htag (hversions x.request.user) hunhandled hy hreq
      hquotes.valid hmatch ha' fun env hmem => hquotes.faultless env (hcalls j env hmem)
  exact ⟨x.request.user, v, order, h, pre, post, env, r, huuid, hv, hlin, horder,
    judged_congr hjudged hstatus hetag⟩

/-- Without a tick or a revocation, clock and tokens stay. -/
lemma clock_of_run {es : List (Event ι)} (hrun : (machine ι b setup).run s es = some t)
    (hes : ∀ e ∈ es, (∀ claims, e ≠ .revoke claims) ∧ ∀ d, e ≠ .tick d) :
    t.tokens = s.tokens ∧ t.now = s.now := by
  induction es generalizing s with
  | nil =>
    obtain rfl : s = t := Option.some.inj hrun
    exact ⟨rfl, rfl⟩
  | cons e es ih =>
    obtain ⟨u, hstep, hrest⟩ := Machine.run_cons_eq_some.mp hrun
    obtain ⟨htokens, hnow⟩ := ih hrest fun e he => hes e (List.mem_cons_of_mem _ he)
    obtain ⟨hrevoke, htick⟩ := hes e (List.mem_cons_self ..)
    obtain ⟨j, sent, uuid, proxied, -, -, -, rfl⟩ | ⟨f, server, -, -, rfl⟩ |
      ⟨j, y, response, -, -, rfl⟩ | ⟨claims, rfl, -⟩ | ⟨d, rfl, -⟩ := step_cases hstep
    · exact ⟨htokens, hnow⟩
    · exact ⟨htokens, hnow⟩
    · exact ⟨htokens, hnow⟩
    · exact absurd rfl (hrevoke claims)
    · exact absurd rfl (htick d)

namespace Sample

/-- The profile service serves the request `i`, and its answer is relayed. -/
def relayed (i : ℕ) : List (Event ℕ) := [.deliver i [("host", .ofText "127.0.0.1:8081")],
  .server (.call i ⟨0, fun _ => false⟩), .server (.act i), .server (.act i), .server (.act i),
  .server (.ret i), .server (.resume i), .relay i]

/-- The state once alice's create was answered. -/
def created : System ℕ .sqlite := ((machine ℕ .sqlite built).run requested (relayed 0)).getD started

/-- An update that quotes the tag of the create. -/
def quoting : HttpRequest := ⟨.put, "/profile", [("Authorization", .ofText ("bearer " ++ token)),
  ("Content-Type", .ofText "application/json"), ("If-Match", .ofText "\"1\"")],
  HeaderValue.ofText Server.Sample.body⟩

/-- What the gateway makes of the update. -/
def forwardedQuoting : HttpRequest := ⟨.put, "/profile",
  [(Headers.internalToken, .ofText "secret"), (Headers.userId, .ofText alice.sub.asStr),
    ("content-type", .ofText "application/json"), ("if-match", .ofText "\"1\""),
    (Headers.requestId, .ofText uuid)], HeaderValue.ofText Server.Sample.body⟩

lemma run_created : (machine ℕ .sqlite built).run requested (relayed 0) = some created := by
  have hsome : ((machine ℕ .sqlite built).run requested (relayed 0)).isSome = true := by
    decide +kernel
  rw [created, ← Option.get_eq_getD, Option.some_get]
  exact hsome

lemma bearer_quoting : bearer (propagate uuid quoting.ofWire).1.headers = .ok token :=
  bearer_eq_ok (by decide +kernel) visible_token rfl

lemma router_quoting : AuthService.router built.gateway built.tokens 1700000000
    (propagate uuid quoting.ofWire).1 = some (.ok (alice, forwardedQuoting)) := by
  have hproxy : proxy built.gateway built.tokens 1700000000 (propagate uuid quoting.ofWire).1 =
      .ok (alice, forwardedQuoting) :=
    proxy_eq_ok.mpr ⟨authenticated_eq_ok.mpr ⟨token, bearer_quoting, verify_token⟩, rfl, rfl, rfl,
      rfl⟩
  exact router_profile rfl (by rintro name ⟨⟩) hproxy

/-- The state once the update has come in. -/
def quoted : System ℕ .sqlite := { created with
  exchange := Function.update created.exchange 1 (some ⟨(propagate uuid quoting.ofWire).1,
    (propagate uuid quoting.ofWire).2, some (alice, forwardedQuoting), none⟩) }

lemma step_quoting : (machine ℕ .sqlite built).step created (.request 1 quoting uuid) =
    some quoted := by
  obtain ⟨htokens, hnow⟩ := clock_of_run run_created (by simp [relayed])
  have hnone : created.exchange 1 = none := by
    refine Option.isNone_iff_eq_none.mp ?_
    decide +kernel
  refine step_request hnone ?_
  rw [htokens, hnow]
  exact router_quoting

/-- The state once the update was answered. -/
def updated : System ℕ .sqlite := ((machine ℕ .sqlite built).run quoted (relayed 1)).getD quoted

lemma run_updated : (machine ℕ .sqlite built).run quoted (relayed 1) = some updated := by
  have hsome : ((machine ℕ .sqlite built).run quoted (relayed 1)).isSome = true := by
    decide +kernel
  rw [updated, ← Option.get_eq_getD, Option.some_get]
  exact hsome

lemma issued_created : created.Issued 0 alice.sub "\"1\"" := by
  have hsent : requested.Sent 0 alice forwarded := rfl
  have hgiven : (created.reply 0).any (fun given => given.response.status = 201 ∧
      given.response.etag = some "\"1\"") = true := by
    decide +kernel
  obtain ⟨given, hgiven, hanswer⟩ := (Option.any_eq_true _ _).mp hgiven
  obtain ⟨hstatus, htag⟩ := of_decide_eq_true hanswer
  exact ⟨⟨alice, forwarded, hsent.run run_created, rfl⟩, given, hgiven, by simp [hstatus], htag⟩

lemma version_created (user : UserId) (p : Profile)
    (h : Backend.sqlite.projection created.server.service.profiles.shared user = some p) :
    p.version.get < 2 ^ 63 - 1 := by
  have hall : created.server.service.profiles.shared.value.committed.profiles.entries.all
      (fun row => row.2.version.val < 2 ^ 63 - 1) = true := by
    decide +kernel
  obtain ⟨row, hrow, rfl⟩ := Option.map_eq_some_iff.mp h
  have hlt := of_decide_eq_true (List.all_eq_true.mp hall _ (AList.mem_lookup_iff.mp hrow))
  dsimp only [fromSql] at hlt ⊢
  omega

/-- The events of the update. -/
def updating : List (Event ℕ) := .request 1 quoting uuid :: relayed 1

lemma run_updating : (machine ℕ .sqlite built).run created updating = some updated :=
  Machine.run_cons_eq_some.mpr ⟨quoted, step_quoting, run_updated⟩

lemma quotes_updating :
    Quotes built created updating updated 1 alice.sub "\"1\"" Server.Sample.content where
  request := ⟨quoting, uuid, created, quoted, ⟨[], relayed 1, rfl, rfl, step_quoting, run_updated⟩,
    rfl, rfl, by decide +kernel⟩
  sent := by
    have hsent : quoted.Sent 1 alice forwardedQuoting := rfl
    exact ⟨alice, forwardedQuoting, hsent.run run_updated, rfl⟩
  body received hreceived := by
    have hbody : (updated.server.received 1).all (fun received => match
        Server.Sample.extract.json received.request with
        | .ok input => input = Server.Sample.content
        | .error _ => false) = true := by
      decide +kernel
    rw [hreceived, Option.all_some] at hbody
    split at hbody
    · rename_i input hinput
      exact hinput.trans (congrArg Except.ok (of_decide_eq_true hbody))
    · cases hbody
  valid := by decide +kernel
  available := by simp [updating, relayed]
  faultless env henv := by
    have : env = ⟨0, fun _ => false⟩ := by simpa [updating, relayed] using henv
    subst this
    exact ⟨fun _ => rfl, by decide⟩

/-- The events up to the answer of the create. -/
def creatingAnswered : List (Event ℕ) :=
  .tick 1700000000 :: .request 0 forged uuid :: relayed 0

lemma run_creatingAnswered :
    (machine ℕ .sqlite built).run (init ℕ .sqlite built) creatingAnswered = some created := by
  have hstarted : (machine ℕ .sqlite built).step (init ℕ .sqlite built) (.tick 1700000000) =
      some started := rfl
  have hrequested :
      (machine ℕ .sqlite built).step started (.request 0 forged uuid) = some requested :=
    step_request (s := started) rfl router_forged
  exact Machine.run_cons_eq_some.mpr
    ⟨started, hstarted, Machine.run_cons_eq_some.mpr ⟨requested, hrequested, run_created⟩⟩

end Sample

open Sample in
/-- alice creates her profile, and updates it with the tag she was given. -/
theorem issued_etag_usable_update : ∃ answered, updated.reply 1 = some answered ∧
    answered.response.status = 200 ∧ answered.response.etag = some "\"2\"" ∧
    ∃ user v order h pre post env r, (alice.sub.IsUuid → user = alice.sub) ∧
      "\"1\"" = Version.toString v ∧
      Linearizes Histories.contract Histories.empty updated.server.service.profiles.history
        order h ∧
      order = pre ++ ⟨1, (.update user v Server.Sample.content, env), r⟩ :: post ∧
      Service.Judged user v pre answered.response := by
  have hanswered : (updated.reply 1).any (fun answered => answered.response.status = 200 ∧
      answered.response.etag = some "\"2\"") = true := by
    decide +kernel
  obtain ⟨answered, hanswered, hanswer⟩ := (Option.any_eq_true _ _).mp hanswered
  obtain ⟨hstatus, htag⟩ := of_decide_eq_true hanswer
  exact ⟨answered, hanswered, hstatus, htag, issued_etag_usable .sqlite ℕ built creatingAnswered
    updating created updated 0 1 alice.sub "\"1\"" Server.Sample.content answered
    run_creatingAnswered version_created issued_created run_updating quotes_updating hanswered⟩

end System

end Knova
