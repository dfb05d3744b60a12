import Knova.Profile.RequestsLinearizable
import Knova.System.Envelope

/-!
# Both services as their clients see them

To the clients of the gateway the two services are one object. A request takes effect at one
instant, in an order that is never against what a client could know; the gateway that gives a
request up cannot say whether it did.
-/

namespace Knova.System

open Library AuthService ProfileService

variable {ι : Type} [DecidableEq ι] {b : Backend} {setup : Setup} {s s' t u : System ι b} {i j : ι}

/-! ### The profile service in a run of both -/

lemma server_of_step {e : Event ι} (hs : step setup s e = some s') :
    s'.server = s.server ∨ ∃ f, Server.step setup.app s.server f = some s'.server := by
  obtain ⟨j, sent, uuid, proxied, -, -, -, rfl⟩ | ⟨f, server, hf, -, rfl⟩ |
    ⟨j, y, response, -, -, rfl⟩ | ⟨claims, -, rfl⟩ | ⟨d, -, rfl⟩ := step_cases hs
  case inr.inl => exact .inr ⟨f, hf⟩
  all_goals exact .inl rfl

lemma service_of_step {e : Event ι} (hs : step setup s e = some s') :
    s'.server.service = s.server.service ∨
      ∃ f, Service.step setup.app.settings s.server.service f = some s'.server.service := by
  rcases server_of_step hs with heq | ⟨f, hf⟩
  · exact .inl (congrArg Server.service heq)
  · exact (Server.step_service hf).imp id fun ⟨g, hg, _⟩ => ⟨g, hg⟩

lemma received_of_run {es : List (Event ι)} (hrun : (machine ι b setup).run u es = some s)
    {received : Received} (hi : u.server.received i = some received) :
    s.server.received i = some received :=
  Machine.run_invariant (M := machine ι b setup)
    (fun s : System ι b => s.server.received i = some received)
    (fun _ _ _ h hs => by
      rcases server_of_step hs with heq | ⟨f, hf⟩
      · rw [heq]
        exact h
      · exact Server.received_of_step hf h)
    hi hrun

/-- A request that reached a handler was sent upstream, and is what the router of the profile
service made of it. -/
lemma Inv.sent_of_handled (h : Inv setup s) {request : Request}
    (hi : s.server.service.Sent i request) : ∃ claims upstream added id,
      s.Sent i claims upstream ∧ ProfileService.router setup.app (arriving upstream added) =
        .ok (.handle request, id) := by
  obtain ⟨received, id, hreceived, hout⟩ := (h.server.handled i request).mp hi
  obtain ⟨claims, upstream, added, hsent, hrequest⟩ := h.delivered i received hreceived
  have hrouted := h.server.routed i received hreceived
  rw [hout, hrequest] at hrouted
  exact ⟨claims, upstream, added, id, hsent, hrouted⟩

/-- What is sent upstream has the method of the request that came in. -/
lemma Sent.method {es : List (Event ι)}
    (hrun : (machine ι b setup).run (init ι b setup) es = some s) {claims : Claims}
    {upstream : HttpRequest} (h : s.Sent i claims upstream) {x : Exchange}
    (hx : s.exchange i = some x) : upstream.method = x.request.method := by
  obtain ⟨sent, uuid, u, v, ⟨before, after, -, -, hstep, hafter⟩, hrouter⟩ := h.origin hrun
  obtain ⟨-, -, y, -, hy, hrequest, -⟩ := exchange_of_request hstep
  obtain ⟨z, hz, hkept, -⟩ := exchange_of_run hafter hy
  rw [hx] at hz
  obtain rfl := Option.some.inj hz
  obtain ⟨-, -, -, hmethod, -⟩ := proxy_eq_ok.mp (router_eq_ok hrouter)
  rw [hmethod, hkept, hrequest]

/-! ### What the handlers have shown -/

lemma occupied_of_run {es : List (Event ι)}
    (hrun : (machine ι b setup).run (init ι b setup) es = some s) :
    Service.Inv setup.app.settings s.server.service ∧
      Service.Occupied setup.app.settings s.server.service :=
  Machine.run_invariant (M := machine ι b setup)
    (fun s : System ι b => Service.Inv setup.app.settings s.server.service ∧
      Service.Occupied setup.app.settings s.server.service)
    (fun s s' e h hs => by
      rcases service_of_step hs with heq | ⟨f, hf⟩
      · rw [heq]
        exact h
      · exact ⟨h.1.step hf, h.2.step h.1 hf⟩)
    ⟨Service.inv_init, Service.occupied_init⟩ hrun

/-- One order explains what the handlers were sent and have answered, and whoever was answered
before another one was sent comes before it. -/
structure Shown (setup : Setup) (es : List (Event ι)) (s : System ι b)
    (seen : List (HistoryEvent ι Requests)) (order : List (Library.Entry ι Requests))
    (calls : List (Library.Entry ι StoreCalls)) (accounts : Accounts) : Prop where
  serial : Service.Serial setup.app.settings s.server.service seen order calls accounts
  answered : ∀ u, (machine ι b setup).Visits (init ι b setup) es u → ∀ i a,
    u.server.service.Answered i a → ∃ q r, .ret i q r ∈ seen
  precedes : ∀ u, (machine ι b setup).Visits (init ι b setup) es u → ∀ i a,
    u.server.service.Answered i a → ∀ j, (∀ q, ¬u.server.service.Sent j q) → ∀ q,
    .invoke j q ∈ seen → Precedes seen i j
  /-- Who was refused for its key met another create, which was sent before it was answered. -/
  conflicts : ∀ i q e, .ret i q (.error e) ∈ seen →
    e = .idempotencyInFlight ∨ e = .idempotencyReused →
    ∃ j q', j ≠ i ∧ Conflicts setup.app.settings q e q' ∧
      ∀ u, (machine ι b setup).Visits (init ι b setup) es u → ∀ a,
        u.server.service.Answered i a → u.server.service.Sent j q'

lemma shown_init : Shown setup [] (init ι b setup) [] [] [] Accounts.empty where
  serial := Service.serial_init
  answered u hu i a ha := by
    obtain rfl := Machine.visits_nil.mp hu
    obtain ⟨x, hx, -⟩ := ha
    cases hx
  precedes u hu i a ha := by
    obtain rfl := Machine.visits_nil.mp hu
    obtain ⟨x, hx, -⟩ := ha
    cases hx
  conflicts i q e hret := by cases hret

section Shown

variable {es : List (Event ι)} {seen : List (HistoryEvent ι Requests)}
  {order : List (Library.Entry ι Requests)} {calls : List (Library.Entry ι StoreCalls)}
  {accounts : Accounts}

/-- A step keeps what is known of conflicts: who had been answered keeps its rival, and who is
answered now has met one that was sent by then. -/
lemma Shown.conflicts_step (h : Shown setup es s seen order calls accounts)
    (hrun : (machine ι b setup).run (init ι b setup) es = some s) {event : Event ι}
    (hs : System.step setup s event = some s') {new : List (HistoryEvent ι Requests)}
    {order' : List (Library.Entry ι Requests)} {calls' : List (Library.Entry ι StoreCalls)}
    {accounts' : Accounts} (hserial : Service.Serial setup.app.settings s'.server.service
      (seen ++ new) order' calls' accounts') {q : Request} {e : ProfileError}
    (hret : .ret i q (.error e) ∈ seen ++ new)
    (he : e = .idempotencyInFlight ∨ e = .idempotencyReused) :
    ∃ j q', j ≠ i ∧ Conflicts setup.app.settings q e q' ∧
      ∀ u, (machine ι b setup).Visits (init ι b setup) (es ++ [event]) u → ∀ a,
        u.server.service.Answered i a → u.server.service.Sent j q' := by
  obtain ⟨hsent, hanswered⟩ := (hserial.returned _ _ _).mp hret
  by_cases hearlier : ∃ q r, .ret i q r ∈ seen
  · obtain ⟨q₀, r, hold⟩ := hearlier
    obtain ⟨hsent₀, hanswered₀⟩ := (hserial.returned _ _ _).mp (List.mem_append_left new hold)
    obtain rfl := hsent₀.unique hsent
    obtain ⟨x, hx, -⟩ := hsent
    obtain rfl := Prog.pure.inj ((hanswered₀.rest_eq hx).symm.trans (hanswered.rest_eq hx))
    obtain ⟨j, q', hne, hconflicts, hseen⟩ := h.conflicts i q₀ e hold he
    refine ⟨j, q', hne, hconflicts, fun u hu a ha => ?_⟩
    rcases (Machine.visits_snoc hrun hs).mp hu with hu | rfl
    · exact hseen u hu a ha
    · have hsent' : s.server.service.Sent j q' :=
        hseen s ⟨es, List.prefix_refl _, hrun⟩ _ ((h.serial.returned _ _ _).mp hold).2
      exact (hserial.invoked _ _).mp (List.mem_append_left _ ((h.serial.invoked _ _).mpr hsent'))
  · have hrun' : (machine ι b setup).run (init ι b setup) (es ++ [event]) = some s' :=
      Machine.run_append_eq_some.mpr ⟨s, hrun, Machine.run_cons_eq_some.mpr ⟨s', hs, rfl⟩⟩
    obtain ⟨hinv, hoccupied⟩ := occupied_of_run hrun'
    obtain ⟨j, q', hne, hsent', hconflicts⟩ := hoccupied.conflicts hinv hsent hanswered he
    refine ⟨j, q', hne, hconflicts, fun u hu a ha => ?_⟩
    rcases (Machine.visits_snoc hrun hs).mp hu with hu | rfl
    · exact absurd (h.answered u hu i a ha) hearlier
    · exact hsent'

lemma Shown.step (h : Shown setup es s seen order calls accounts)
    (hrun : (machine ι b setup).run (init ι b setup) es = some s) {e : Event ι}
    (hs : System.step setup s e = some s') : ∃ seen' order' calls' accounts',
      Shown setup (es ++ [e]) s' seen' order' calls' accounts' := by
  obtain ⟨new, order', calls', accounts', hserial⟩ : ∃ new order' calls' accounts',
      Service.Serial setup.app.settings s'.server.service (seen ++ new) order' calls'
        accounts' := by
    rcases service_of_step hs with heq | ⟨f, hf⟩
    · rw [heq]
      exact ⟨[], order, calls, accounts, by simpa using h.serial⟩
    · have hinv : Inv setup s := inv_of_run hrun
      obtain ⟨order', calls', accounts', hserial⟩ := h.serial.step hinv.server.service hf
      exact ⟨_, order', calls', accounts', hserial⟩
  refine ⟨seen ++ new, order', calls', accounts', hserial, fun u hu i a ha => ?_,
    fun u hu i a ha j hj q hq => ?_, fun i q e hret he => h.conflicts_step hrun hs hserial hret he⟩
  · rcases (Machine.visits_snoc hrun hs).mp hu with hu | rfl
    · obtain ⟨q, r, hret⟩ := h.answered u hu i a ha
      exact ⟨q, r, List.mem_append_left _ hret⟩
    · obtain ⟨x, hx, hrest⟩ := ha
      exact ⟨x.request, a, (hserial.returned _ _ _).mpr ⟨⟨x, hx, rfl⟩, x, hx, hrest⟩⟩
  · rcases (Machine.visits_snoc hrun hs).mp hu with hu | rfl
    · rcases List.mem_append.mp hq with hq | hq
      · obtain ⟨h₁, h₂, rfl, hret, q', hinvoke⟩ := h.precedes u hu i a ha j hj q hq
        exact ⟨h₁, h₂ ++ new, by simp, hret, q', List.mem_append_left _ hinvoke⟩
      · exact ⟨seen, new, rfl, h.answered u hu i a ha, q, hq⟩
    · exact absurd ((hserial.invoked _ _).mp hq) (hj q)

lemma shown_of_run (hrun : (machine ι b setup).run (init ι b setup) es = some s) :
    ∃ seen order calls accounts, Shown setup es s seen order calls accounts :=
  Machine.run_induction (M := machine ι b setup)
    (fun es s => ∃ seen order calls accounts, Shown setup es s seen order calls accounts)
    ⟨_, _, _, _, shown_init⟩
    (fun _ _ _ _ hrun ⟨_, _, _, _, h⟩ hs => h.step hrun hs) hrun

end Shown

/-! ### What the clients see -/

/-- How the client of `i` came to be answered `given` in the run of `es`, where requests took
effect in `order`. -/
inductive Explained (setup : Setup) (es : List (Event ι)) (s : System ι b)
    (order : List (Library.Entry ι Requests)) (i : ι) (given : Response) : Prop
  /-- The gateway refused the request by itself when it came in, and nothing was sent; that is an
  error, as long as the body is rejected with one. -/
  | refused {sent : HttpRequest} {uuid : String} {u v : System ι b} {response : Response} :
    (machine ι b setup).Passes (init ι b setup) es s (.request i sent uuid) u v →
    AuthService.router setup.gateway u.tokens u.now (propagate uuid sent.ofWire).1 =
      some (.error response) →
    given = Server.finish (propagate uuid sent.ofWire).1 response →
    ((∀ request rejection, setup.gateway.bytes request = .error rejection →
      400 ≤ rejection.status) → 400 ≤ given.status) →
    (∀ claims upstream, ¬s.Sent i claims upstream) → (∀ e ∈ order, e.id ≠ i) →
    Explained setup es s order i given
  /-- The gateway gave the request up, whatever becomes of it, and answered 502. -/
  | unavailable {x : Exchange} : s.exchange i = some x → .fail i ∈ es →
    given = Server.finish x.request AppError.upstream.intoResponse → given.status = 502 →
    Explained setup es s order i given
  /-- The profile service turned the request away before a handler ran, and so before it had any
  effect. -/
  | turnedAway {x : Exchange} {received : Received} {r : ProfileService.Reply} :
    s.exchange i = some x → s.server.received i = some received →
    (∀ called id, received.outcome ≠ .ok (.handle called, id)) → s.server.reply i = some r →
    given = Server.finish x.request (relay r.response) → 400 ≤ given.status →
    (∀ e ∈ order, e.id ≠ i) → Explained setup es s order i given
  /-- The request took effect, and the client was sent its answer. -/
  | served {x : Exchange} {request : Request} {answer : Answer} : s.exchange i = some x →
    ⟨i, request, answer⟩ ∈ order → given = Server.finish x.request (relay answer.render) →
    Explained setup es s order i given

/-- One request after another explains what the clients of both services see. -/
structure Linearized (setup : Setup) (es : List (Event ι)) (s : System ι b)
    (order : List (Library.Entry ι Requests)) (accounts : Accounts) : Prop where
  legal : Legal (Serves setup.app.settings) Accounts.empty order accounts
  once : (order.map Library.Entry.id).Nodup
  /-- What takes effect is what the gateway sent, for the user whose token it verified. -/
  sent : ∀ e ∈ order, ∃ claims upstream added id, s.Sent e.id claims upstream ∧
    ProfileService.router setup.app (arriving upstream added) = .ok (.handle e.op, id) ∧
    (claims.sub.IsUuid → e.op.user = claims.sub)
  explained : ∀ i given, s.reply i = some given → Explained setup es s order i given.response
  /-- Who is refused for an idempotency key met another create under it, which had come in before
  the refusal was sent. -/
  conflicts : ∀ d ∈ order, ∀ e, d.ret = .error e →
    e = .idempotencyInFlight ∨ e = .idempotencyReused →
    ∃ j q, j ≠ d.id ∧ s.server.service.Sent j q ∧ Conflicts setup.app.settings d.op e q ∧
      ∀ u, (machine ι b setup).Visits (init ι b setup) es u → u.reply d.id ≠ none →
        .fail d.id ∉ es → u.exchange j ≠ none
  /-- A client that was sent an answer knows that whatever comes in later comes after it. -/
  realTime : ∀ u, (machine ι b setup).Visits (init ι b setup) es u →
    ∀ e ∈ order, ∀ e' ∈ order, u.reply e.id ≠ none → .fail e.id ∉ es →
      u.exchange e'.id = none → [e, e'].Sublist order
  /-- The accounts are those the backend holds. -/
  held : (b.points ι).inv s.server.service.profiles.shared accounts.histories

/-- What is at the gateway without having been sent upstream was there before, or the gateway
refused it at this step. -/
lemma refused_of_step {e : Event ι} (hs : step setup s e = some s') {x : Exchange}
    (hx : s'.exchange i = some x) (hsent : x.sent = none) :
    s.exchange i = some x ∨ ∃ sent uuid response, e = .request i sent uuid ∧
      AuthService.router setup.gateway s.tokens s.now (propagate uuid sent.ofWire).1 =
        some (.error response) ∧
      x.request = (propagate uuid sent.ofWire).1 ∧ x.answer = some response := by
  obtain ⟨j, sent, uuid, proxied, rfl, -, hrouter, rfl⟩ | ⟨f, server, -, -, rfl⟩ |
    ⟨j, y, response, hkind, hy, rfl⟩ | ⟨claims, -, rfl⟩ | ⟨d, -, rfl⟩ := step_cases hs
  · obtain ⟨rfl, rfl⟩ | ⟨-, hi⟩ := update_eq_some hx
    · cases proxied with
      | error response => exact .inr ⟨sent, uuid, response, rfl, hrouter, rfl, rfl⟩
      | ok proxied => cases hsent
    · exact .inl hi
  · exact .inl hx
  · obtain ⟨rfl, rfl⟩ | ⟨-, hi⟩ := update_eq_some hx
    · obtain ⟨z, -, hz, hne, -⟩ := closes_of_step (hkind.imp And.left And.left) hs
      rw [hy] at hz
      obtain rfl := Option.some.inj hz
      exact absurd hsent hne
    · exact .inl hi
  · exact .inl hx
  · exact .inl hx

/-- Where nothing was sent upstream, the gateway had answered when the request came in. -/
lemma refused_of_run {es : List (Event ι)}
    (hrun : (machine ι b setup).run (init ι b setup) es = some s) {x : Exchange}
    (hx : s.exchange i = some x) (hsent : x.sent = none) : ∃ sent uuid u v response,
      (machine ι b setup).Passes (init ι b setup) es s (.request i sent uuid) u v ∧
      AuthService.router setup.gateway u.tokens u.now (propagate uuid sent.ofWire).1 =
        some (.error response) ∧
      x.request = (propagate uuid sent.ofWire).1 ∧ x.answer = some response := by
  induction es using List.reverseRecOn generalizing s with
  | nil =>
    obtain rfl := Option.some.inj hrun
    cases hx
  | append_singleton es e ih =>
    obtain ⟨u, hu, hlast⟩ := Machine.run_append_eq_some.mp hrun
    obtain ⟨u', hstep, hnil⟩ := Machine.run_cons_eq_some.mp hlast
    obtain rfl := Option.some.inj hnil
    rcases refused_of_step hstep hx hsent with hbefore | ⟨sent, uuid, response, rfl, hrest⟩
    · obtain ⟨sent, uuid, v, v', response, hpass, hrest⟩ := ih hu hbefore
      exact ⟨sent, uuid, v, v', response, hpass.snoc hstep, hrest⟩
    · exact ⟨sent, uuid, u, u', response, Machine.passes_last hu hstep, hrest⟩

/-- What the gateway refuses a request with is an error, as long as the body is rejected with
one. -/
lemma status_of_refused {g : Gateway} {tokens : TokenService} {now : ℕ} {request : HttpRequest}
    {response : Response}
    (hbytes : ∀ request rejection, g.bytes request = .error rejection → 400 ≤ rejection.status)
    (h : AuthService.router g tokens now request = some (.error response)) :
    400 ≤ response.status := by
  have hown : ∀ e : AppError, 400 ≤ e.intoResponse.status := by
    intro e
    cases e <;> decide
  have hproxy : proxy g tokens now request = .error response → 400 ≤ response.status := by
    intro hproxy
    unfold proxy at hproxy
    split at hproxy
    · cases hproxy
      exact hown _
    · split at hproxy
      · rename_i hrejected
        cases hproxy
        exact hbytes _ _ hrejected
      · split at hproxy
        · cases hproxy
          exact hown _
        · cases hproxy
  unfold AuthService.router at h
  split at h
  · split at h
    · cases h
      exact (by decide : 400 ≤ 405)
    · exact hproxy (Option.some.inj h)
  · split at h
    · split at h
      · exact hproxy (Option.some.inj h)
      · exact hproxy (Option.some.inj h)
      · cases h
        exact (by decide : 400 ≤ 405)
    · cases h

/-- No proxied path is that of the health check. -/
lemma ne_health {base path : String} (hpath : path = "/profile" ∨ path = "/profile/history") :
    base ++ path ≠ "/health" := by
  intro h
  have hlist : base.toList ++ path.toList = "/health".toList :=
    String.toList_append ▸ congrArg String.toList h
  have hsuffix : path.toList <:+ "/health".toList := ⟨base.toList, hlist⟩
  rcases hpath with rfl | rfl
  · exact absurd hsuffix (by decide)
  · exact absurd hsuffix (by decide)

/-- On a proxied path, what is answered without a handler is a failure. -/
lemma router_fails (app : App) {request : HttpRequest} (hpath : request.path ≠ "/health") :
    ProfileService.router app request = .error .notInternal ∨
      ∃ answered id, ProfileService.router app request = .ok (answered, id) ∧
        Responds (fun response => 400 ≤ response.status) answered := by
  refine router_responds app request (responds_profile app.extract (by decide)
      (fun response hr => ?_) (fun response hr => ?_) (by decide))
    (responds_history (by decide) (by decide)) (fun h => absurd h hpath) (by decide)
  · have := app.extract.string_rejects request response hr
    simp only [List.mem_cons, List.not_mem_nil, or_false] at this
    omega
  · have := app.extract.json_rejects request response hr
    simp only [List.mem_cons, List.not_mem_nil, or_false] at this
    omega

/-- A response that is relayed has lost what the gateway would take off anyway. -/
lemma finish_relay_finish {request request' : HttpRequest} {response : Response}
    (h : request'.method = request.method) :
    Server.finish request (relay (Server.finish request' response)) =
      Server.finish request (relay response) := by
  unfold Server.finish relay
  rw [h]
  split <;> rfl

/-- A request that reached a handler was answered by it, where its client was sent an answer and
the gateway did not give it up. -/
lemma answered_of_reply {es : List (Event ι)}
    (hrun : (machine ι b setup).run (init ι b setup) es = some u) (hreply : u.reply i ≠ none)
    (havailable : .fail i ∉ es) {claims : Claims} {upstream : HttpRequest}
    (hsent : u.Sent i claims upstream)
    (hhandled : ∀ received, u.server.received i = some received →
      ∃ called id, received.outcome = .ok (.handle called, id)) :
    ∃ a, u.server.service.Answered i a := by
  obtain ⟨given, hgiven⟩ := Option.ne_none_iff_exists'.mp hreply
  obtain ⟨x, hx, hanswer⟩ := Option.bind_eq_some_iff.mp hgiven
  obtain ⟨response, hresponse, -⟩ := Option.map_eq_some_iff.mp hanswer
  obtain ⟨x', hx', hproxied⟩ := Option.bind_eq_some_iff.mp hsent
  rw [hx] at hx'
  obtain rfl := Option.some.inj hx'
  rcases relayed_of_run hrun rfl x hx (by simp [hproxied]) response hresponse with
    ⟨hfail, -⟩ | ⟨r, hr, -⟩
  · exact absurd hfail havailable
  · obtain ⟨received, hreceived, hcase⟩ := Server.reply_cases hr
    obtain ⟨called, id, hout⟩ := hhandled received hreceived
    rcases hcase with ⟨e, herror, -⟩ | ⟨response, id', hrespond, -⟩ |
      ⟨called', id', y, a, -, hy, ha, -⟩
    · rw [hout] at herror
      cases herror
    · rw [hout] at hrespond
      cases hrespond
    · exact ⟨a, y, hy, ha⟩

section Linearized

variable {es : List (Event ι)} {seen : List (HistoryEvent ι Requests)}
  {order : List (Library.Entry ι Requests)} {calls : List (Library.Entry ι StoreCalls)}
  {accounts : Accounts}

/-- A request that took effect was sent to a handler. -/
lemma Shown.handled (h : Shown setup es s seen order calls accounts)
    {e : Library.Entry ι Requests} (he : e ∈ order) : s.server.service.Sent e.id e.op :=
  (h.serial.invoked _ _).mp (h.serial.linearizes.invoked e he)

lemma Shown.explains (h : Shown setup es s seen order calls accounts)
    (hrun : (machine ι b setup).run (init ι b setup) es = some s) {given : Reply}
    (hgiven : s.reply i = some given) : Explained setup es s order i given.response := by
  have hinv : Inv setup s := inv_of_run hrun
  obtain ⟨x, hx, hanswer⟩ := Option.bind_eq_some_iff.mp hgiven
  obtain ⟨response, hresponse, rfl⟩ := Option.map_eq_some_iff.mp hanswer
  cases hproxied : x.sent with
  | none =>
    have hnot : ∀ claims upstream, ¬s.Sent i claims upstream := by
      intro claims upstream hsent
      obtain ⟨x', hx', hsome⟩ := Option.bind_eq_some_iff.mp hsent
      rw [hx] at hx'
      obtain rfl := Option.some.inj hx'
      rw [hproxied] at hsome
      cases hsome
    obtain ⟨sent, uuid, u, v, own, hpass, hrouter, hrequest, hown⟩ :=
      refused_of_run hrun hx hproxied
    rw [hresponse] at hown
    obtain rfl := Option.some.inj hown
    refine .refused hpass hrouter (by rw [hrequest]) (fun hbytes => ?_) hnot ?_
    · rw [Server.finish_status]
      exact status_of_refused hbytes hrouter
    rintro e he rfl
    obtain ⟨claims, upstream, added, id, hsent, -⟩ := hinv.sent_of_handled (h.handled he)
    exact hnot claims upstream hsent
  | some proxied =>
    obtain ⟨claims, upstream⟩ := proxied
    have hsent : s.Sent i claims upstream := Option.bind_eq_some_iff.mpr ⟨x, hx, hproxied⟩
    rcases relayed_of_run hrun rfl x hx (by simp [hproxied]) response hresponse with
      ⟨hfail, rfl⟩ | ⟨r, hr, rfl⟩
    · exact .unavailable hx hfail rfl (Server.finish_status _ _)
    · obtain ⟨received, hreceived, hcase⟩ := Server.reply_cases hr
      obtain ⟨added, hrequest⟩ := hinv.arrived hreceived hsent
      have hrouted := hinv.server.routed i received hreceived
      -- who was turned away reached no handler
      have habsent : (∀ called id, received.outcome ≠ .ok (.handle called, id)) →
          ∀ e ∈ order, e.id ≠ i := by
        rintro hne e he rfl
        obtain ⟨received', id, hr', hout⟩ := (hinv.server.handled _ _).mp (h.handled he)
        rw [hreceived] at hr'
        obtain rfl := Option.some.inj hr'
        exact hne _ _ hout
      obtain ⟨sent, uuid, u, v, -, hrouter⟩ := hsent.origin hrun
      obtain ⟨-, -, -, -, hpath⟩ := proxy_eq_ok.mp (router_eq_ok hrouter)
      have hhealth : received.request.path ≠ "/health" := by
        rw [hrequest]
        change upstream.path ≠ _
        rw [hpath]
        exact ne_health (path_of_router hrouter)
      rcases hcase with ⟨e, hout, rfl⟩ | ⟨answer, id, hout, rfl⟩ |
        ⟨called, id, y, a, hout, hy, ha, rfl⟩
      · have hforbidden : e = .notInternal := by
          rw [← hrouted] at hout
          rcases router_fails setup.app hhealth with herror | ⟨answered, id, hok, -⟩
          · rw [herror] at hout
            exact (Except.error.inj hout).symm
          · rw [hok] at hout
            cases hout
        refine .turnedAway hx hreceived (by simp [hout]) hr rfl ?_ (habsent (by simp [hout]))
        rw [hforbidden, Server.finish_status]
        change 400 ≤ (Server.finish received.request _).status
        rw [Server.finish_status]
        decide
      · refine .turnedAway hx hreceived (by simp [hout]) hr rfl ?_ (habsent (by simp [hout]))
        rw [Server.finish_status]
        change 400 ≤ (Server.finish received.request answer).status
        rw [Server.finish_status]
        rw [← hrouted] at hout
        rcases router_fails setup.app hhealth with herror | ⟨answered, id', hok, hfails⟩
        · rw [herror] at hout
          cases hout
        · rw [hok] at hout
          obtain ⟨rfl, -⟩ := Prod.mk.inj (Except.ok.inj hout)
          exact hfails answer rfl
      · have hmethod : received.request.method = x.request.method := by
          rw [hrequest]
          exact hsent.method hrun hx
        have hret := (h.serial.returned i y.request a).mpr ⟨⟨y, hy, rfl⟩, y, hy, ha⟩
        exact .served hx (h.serial.linearizes.complete _ _ _ hret) (finish_relay_finish hmethod)

/-- Whoever took effect had been answered by its handler when its client was sent an answer. -/
lemma Shown.answered_of_reply (h : Shown setup es s seen order calls accounts)
    (hrun : (machine ι b setup).run (init ι b setup) es = some s)
    (hu : (machine ι b setup).Visits (init ι b setup) es u) {e : Library.Entry ι Requests}
    (he : e ∈ order) (hreply : u.reply e.id ≠ none) (havailable : .fail e.id ∉ es) :
    ∃ a, u.server.service.Answered e.id a := by
  have hs : Inv setup s := inv_of_run hrun
  obtain ⟨before, ⟨after, rfl⟩, hbefore⟩ := hu
  obtain ⟨u', hu', hafter⟩ := Machine.run_append_eq_some.mp hrun
  rw [hbefore] at hu'
  obtain rfl := Option.some.inj hu'
  obtain ⟨claims, upstream, -, -, hsent, -⟩ := hs.sent_of_handled (h.handled he)
  obtain ⟨received, id, hreceived, hout⟩ := (hs.server.handled _ _).mp (h.handled he)
  have hexchange : u.exchange e.id ≠ none := by
    intro hnone
    apply hreply
    rw [reply, hnone]
    rfl
  obtain ⟨x, hx⟩ := Option.ne_none_iff_exists'.mp hexchange
  obtain ⟨y, hy, -, hkept⟩ := exchange_of_run hafter hx
  obtain ⟨y', hy', hproxied⟩ := Option.bind_eq_some_iff.mp hsent
  rw [hy] at hy'
  obtain rfl := Option.some.inj hy'
  refine answered_of_reply hbefore hreply (fun hmem => havailable (List.mem_append_left _ hmem))
    (Option.bind_eq_some_iff.mpr ⟨x, hx, hkept ▸ hproxied⟩) fun received' hreceived' => ?_
  have hsame := received_of_run hafter hreceived'
  rw [hreceived] at hsame
  obtain rfl := Option.some.inj hsame
  exact ⟨_, id, hout⟩

lemma Shown.realTime (h : Shown setup es s seen order calls accounts)
    (hrun : (machine ι b setup).run (init ι b setup) es = some s)
    (hu : (machine ι b setup).Visits (init ι b setup) es u) {e e' : Library.Entry ι Requests}
    (he : e ∈ order) (he' : e' ∈ order) (hreply : u.reply e.id ≠ none)
    (havailable : .fail e.id ∉ es) (hlater : u.exchange e'.id = none) :
    [e, e'].Sublist order := by
  obtain ⟨a, ha⟩ := h.answered_of_reply hrun hu he hreply havailable
  -- the later one had not been sent by then
  have hnot : ∀ q, ¬u.server.service.Sent e'.id q := by
    intro q hq
    obtain ⟨before, -, hbefore⟩ := hu
    have hinv : Inv setup u := inv_of_run hbefore
    obtain ⟨claims, upstream, -, -, hsent, -⟩ := hinv.sent_of_handled hq
    unfold Sent at hsent
    rw [hlater] at hsent
    cases hsent
  exact h.serial.linearizes.realTime e he e' he' (h.precedes u hu e.id a ha e'.id hnot e'.op
    (h.serial.linearizes.invoked e' he'))

/-- A create that is refused for its key met another one, which had come in before its client saw
the refusal. -/
lemma Shown.met (h : Shown setup es s seen order calls accounts)
    (hrun : (machine ι b setup).run (init ι b setup) es = some s)
    {d : Library.Entry ι Requests} (hd : d ∈ order) {e : ProfileError} (hret : d.ret = .error e)
    (he : e = .idempotencyInFlight ∨ e = .idempotencyReused) :
    ∃ j q, j ≠ d.id ∧ s.server.service.Sent j q ∧ Conflicts setup.app.settings d.op e q ∧
      ∀ u, (machine ι b setup).Visits (init ι b setup) es u → u.reply d.id ≠ none →
        .fail d.id ∉ es → u.exchange j ≠ none := by
  have hanswered := h.serial.answered_of_conflict hd hret he
  obtain ⟨j, q, hne, hconflicts, hseen⟩ :=
    h.conflicts _ _ e ((h.serial.returned _ _ _).mpr ⟨h.handled hd, hanswered⟩) he
  refine ⟨j, q, hne, hseen s ⟨es, List.prefix_refl _, hrun⟩ _ hanswered, hconflicts,
    fun u hu hreply havailable hnone => ?_⟩
  obtain ⟨a, ha⟩ := h.answered_of_reply hrun hu hd hreply havailable
  have hsent := hseen u hu a ha
  obtain ⟨before, -, hbefore⟩ := hu
  have hinv : Inv setup u := inv_of_run hbefore
  obtain ⟨claims, upstream, -, -, hsent, -⟩ := hinv.sent_of_handled hsent
  unfold Sent at hsent
  rw [hnone] at hsent
  cases hsent

/-- The two services are one object to the clients of the gateway: in every run of both, one
request after another explains what they see. -/
theorem clients_linearizable (b : Backend) (ι : Type) [DecidableEq ι] (setup : Setup)
    (es : List (Event ι)) (s : System ι b)
    (hrun : (machine ι b setup).run (init ι b setup) es = some s) :
    ∃ order accounts, Linearized setup es s order accounts := by
  have hinv : Inv setup s := inv_of_run hrun
  obtain ⟨seen, order, calls, accounts, h⟩ := shown_of_run hrun
  refine ⟨order, accounts, h.serial.linearizes.legal, h.serial.linearizes.nodup, fun e he => ?_,
    fun i given hgiven => h.explains hrun hgiven,
    fun d hd e hret he => h.met hrun hd hret he,
    fun u hu e he e' he' hreply havailable hlater =>
      h.realTime hrun hu he he' hreply havailable hlater, h.serial.explained.inv⟩
  obtain ⟨claims, upstream, added, id, hsent, hrouted⟩ := hinv.sent_of_handled (h.handled he)
  refine ⟨claims, upstream, added, id, hsent, hrouted, fun huuid => ?_⟩
  obtain ⟨sent, uuid, u, v, -, hrouter⟩ := hsent.origin hrun
  obtain ⟨-, -, hheaders, -⟩ := proxy_eq_ok.mp (router_eq_ok hrouter)
  have hsub := (caller_of_headers hheaders huuid added).symm.trans (caller_of_router hrouted)
  exact (Except.ok.inj hsub).symm

open Sample in
/-- alice creates her profile, and updates it once she was answered. -/
theorem clients_linearizable_update :
    (machine ℕ .sqlite built).run (init ℕ .sqlite built) (creatingAnswered ++ updating) =
      some updated ∧
    ∃ order accounts, Linearized built (creatingAnswered ++ updating) updated order accounts := by
  have hrun : (machine ℕ .sqlite built).run (init ℕ .sqlite built) (creatingAnswered ++ updating) =
      some updated := Machine.run_append_eq_some.mpr ⟨created, run_creatingAnswered, run_updating⟩
  exact ⟨hrun, clients_linearizable .sqlite ℕ built _ updated hrun⟩

end Linearized

end Knova.System
