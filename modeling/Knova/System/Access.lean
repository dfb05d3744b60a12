import Knova.Auth.Authenticated
import Knova.Auth.Enumeration
import Knova.System.Platform

/-!
# No access without the password

Tokens come from logins, and a login issues one only for the password of the account. So a
handler of the profile service runs for a user only after a login presented that user's
password, and not long ago, as long as nobody else can sign tokens.
-/

namespace Knova

open Library AuthService ProfileService

/-- What the deployment relies on. -/
structure Deployment.Sound (d : Deployment) : Prop where
  jwt : d.setup.gateway.jwt.Lawful
  ids : ∀ username account, d.users.byUsername.lookup username = some account → account.id.IsUuid
  /-- No account has the password that throttled logins are checked with. -/
  unmatchable : ∀ username account, d.users.byUsername.lookup username = some account →
    (d.argon2.verify Login.unmatchable account.passwordHash).1 = false

/-- What the gateway received stands for as long as what it sent does. -/
lemma System.Inv.of_server {ι : Type} [DecidableEq ι] {b : Backend} {setup : System.Setup}
    {s s' : System ι b} (h : System.Inv setup s) (hserver : s'.server = s.server)
    (hsent : ∀ i claims upstream, s.Sent i claims upstream → s'.Sent i claims upstream) :
    System.Inv setup s' := by
  refine ⟨hserver ▸ h.server, fun i received hi => ?_⟩
  rw [hserver] at hi
  obtain ⟨claims, upstream, added, hi, hrequest⟩ := h.delivered i received hi
  exact ⟨claims, upstream, added, hsent i claims upstream hi, hrequest⟩

/-- Only the proxied routes send anything upstream. -/
lemma AuthService.router_of_serve {g : Gateway} {json : HttpRequest → Except Response LoginRequest}
    {tokens : TokenService} {now : ℕ} {request upstream : HttpRequest} {claims : Claims}
    (h : serve g json tokens now request = .proxied claims upstream) :
    router g tokens now request = some (.ok (claims, upstream)) := by
  unfold serve at h
  split at h
  · unfold login at h
    split at h
    · split at h <;> cases h
    · cases h
  · split at h
    · unfold logout at h
      split at h
      · split at h <;> cases h
      · cases h
    · split at h
      · unfold health at h
        split at h <;> cases h
      · split at h
        · cases h
        · cases h
        · rename_i hrouter
          cases h
          exact hrouter

namespace Platform

variable {ι : Type} [DecidableEq ι] {b : Backend} {d : Deployment} {s s' : Platform ι b} {i : ι}
  {claims : Claims} {upstream : HttpRequest}

/-- A token that is accepted was issued by a login of the run. -/
def Unforged (d : Deployment) (s : Platform ι b) : Event ι → Prop
  | .request _ sent uuid _ => ∀ token claims,
    bearer (correlated sent uuid).1.headers = .ok token →
    s.system.tokens.verify d.setup.gateway.jwt s.system.now token = .ok claims →
    ∃ userId, s.logins.IssuedFor token userId
  | _ => True

/-- A step of the request `i`. -/
def Event.By (i : ι) : Event ι → Prop
  | .request j _ _ _ | .respond j => j = i
  | .login _ => False
  | .system e => e.By i

/-- In the run of `es` to `s`, a login that presented the password of an account was issued
`token` for it at `time`. -/
def LogsIn (d : Deployment) (es : List (Event ι)) (s : Platform ι b) (token : String)
    (userId : UserId) (time : ℕ) : Prop :=
  ∃ j draw username u v, (machine ι b d).Passes (init ι b d) es s (.login (.act j draw)) u v ∧
    Logins.Issues d.logins u.logins v.logins j draw token userId username ∧
    v.logins.Presented d.logins j userId username ∧ u.system.now = time

/-- In the run of `es` to `s`, the request `i` presented a token that a login had been issued
for `userId`, and not long ago. -/
def Admitted (d : Deployment) (es : List (Event ι)) (s : Platform ι b) (i : ι) (userId : UserId) :
    Prop :=
  ∃ before sent uuid address after u token time,
    es = before ++ .request i sent uuid address :: after ∧
    (machine ι b d).run (init ι b d) before = some u ∧
    (machine ι b d).run u (.request i sent uuid address :: after) = some s ∧
    bearer (correlated sent uuid).1.headers = .ok token ∧ LogsIn d before u token userId time ∧
    time ≤ u.system.now ∧
    u.system.now ≤ time + d.setup.tokens.ttl + d.setup.tokens.validation.leeway

lemma LogsIn.snoc {es : List (Event ι)} {token : String} {userId : UserId} {time : ℕ}
    (h : LogsIn d es s token userId time) {e : Event ι} (hs : step d s e = some s') :
    LogsIn d (es ++ [e]) s' token userId time := by
  obtain ⟨j, draw, username, u, v, hpass, hissues, hpresented, htime⟩ := h
  exact ⟨j, draw, username, u, v, hpass.snoc hs, hissues, hpresented, htime⟩

lemma Admitted.snoc {es : List (Event ι)} {userId : UserId} (h : Admitted d es s i userId)
    {e : Event ι} (hs : step d s e = some s') : Admitted d (es ++ [e]) s' i userId := by
  obtain ⟨before, sent, uuid, address, after, u, token, time, rfl, hbefore, hafter, hrest⟩ := h
  refine ⟨before, sent, uuid, address, after ++ [e], u, token, time, by simp, hbefore, ?_, hrest⟩
  rw [← List.cons_append]
  exact Machine.run_append_eq_some.mpr ⟨s, hafter, Machine.run_cons_eq_some.mpr ⟨s', hs, rfl⟩⟩

/-! ### What a step leaves alone -/

/-- Wherever the request `i` stands, others stand where they stood. -/
lemma sent_put {x : Exchange} {j : ι} (h : (s.put i x).system.Sent j claims upstream) :
    j = i ∧ x.sent = some (claims, upstream) ∨ s.system.Sent j claims upstream := by
  unfold System.Sent put at h
  dsimp only at h
  by_cases hij : j = i
  · subst hij
    rw [Function.update_self] at h
    exact .inl ⟨rfl, h⟩
  · rw [Function.update_of_ne hij] at h
    exact .inr h

/-- What was sent stays sent, unless the request that sent it stands elsewhere. -/
lemma put_sent {x : Exchange} (hi : (s.system.exchange i).bind Exchange.sent = none) (j : ι)
    (claims : Claims) (upstream : HttpRequest) (h : s.system.Sent j claims upstream) :
    (s.put i x).system.Sent j claims upstream := by
  unfold System.Sent put at *
  dsimp only
  by_cases hij : j = i
  · subst hij
    rw [hi] at h
    cases h
  · rw [Function.update_of_ne hij]
    exact h

/-- The configuration is never changed, and both sides hold the same tokens. -/
structure Configured (d : Deployment) (s : Platform ι b) : Prop where
  tokens : s.logins.state.tokens = s.system.tokens
  ttl : s.system.tokens.ttl = d.setup.tokens.ttl
  validation : s.system.tokens.validation = d.setup.tokens.validation

lemma configured_init : (init ι b d).Configured d := ⟨rfl, rfl, rfl⟩

lemma Configured.step (h : s.Configured d) {e : Event ι} (hs : Platform.step d s e = some s') :
    s'.Configured d := by
  cases taken_of_step hs with
  | responded | answered | proxied => exact ⟨h.tokens, h.ttl, h.validation⟩
  | arrived hi hserve hlogins =>
    exact ⟨(Logins.tokens_of_step hlogins).trans h.tokens, h.ttl, h.validation⟩
  | loggedOut hi hserve => exact ⟨rfl, h.ttl, h.validation⟩
  | login hgoes hlogins =>
    exact ⟨(Logins.tokens_of_step hlogins).trans h.tokens, h.ttl, h.validation⟩
  | system hproceeds hsystem =>
    rename_i f system
    have htokens : system.tokens = s.system.tokens := by
      obtain ⟨_, _, _, _, rfl, _⟩ | ⟨_, _, -, -, rfl⟩ | ⟨_, _, _, -, -, rfl⟩ | ⟨_, rfl, -⟩ |
        ⟨_, -, rfl⟩ := System.step_cases hsystem
      · cases hproceeds
      · rfl
      · rfl
      · cases hproceeds
      · rfl
    exact ⟨h.tokens.trans htokens.symm, (congrArg TokenService.ttl htokens).trans h.ttl,
      (congrArg TokenService.validation htokens).trans h.validation⟩

/-- The wall clock never goes back. -/
lemma now_of_step {e : Event ι} (hs : step d s e = some s') : s.system.now ≤ s'.system.now := by
  cases taken_of_step hs with
  | responded | arrived | loggedOut | proxied | login | answered => exact le_rfl
  | system hproceeds hsystem =>
    obtain ⟨_, _, _, _, -, -, -, rfl⟩ | ⟨_, _, -, -, rfl⟩ | ⟨_, _, _, -, -, rfl⟩ | ⟨_, -, rfl⟩ |
      ⟨_, -, rfl⟩ := System.step_cases hsystem
    · exact le_rfl
    · exact le_rfl
    · exact le_rfl
    · exact le_rfl
    · exact Nat.le_add_right _ _

/-! ### What a run has done -/

omit [DecidableEq ι] in
/-- What is signed for an account expires when its lifetime is over. -/
lemma exp_le_of_issues {cfg : LoginSettings} {u v : Logins ι} {draw : Login.Draw} {token : String}
    {userId : UserId} {username : String}
    (h : Logins.Issues cfg u v i draw token userId username) : ∃ header issued secret,
      cfg.jwt.encode header issued secret = some token ∧ issued.sub = userId ∧
      issued.exp ≤ draw.unixNow + u.state.tokens.ttl :=
  ⟨_, _, _, h.signed, rfl, Nat.mod_le _ _⟩

/-- A token was issued to a login, and expires when its lifetime is over. -/
def Covered (d : Deployment) (es : List (Event ι)) (s : Platform ι b) (token : String)
    (userId : UserId) : Prop :=
  ∃ time, LogsIn d es s token userId time ∧ time ≤ s.system.now ∧ userId.IsUuid ∧
    ∃ header issued secret, d.setup.gateway.jwt.encode header issued secret = some token ∧
      issued.sub = userId ∧ issued.exp ≤ time + d.setup.tokens.ttl

lemma Covered.snoc {es : List (Event ι)} {token : String} {userId : UserId}
    (h : Covered d es s token userId) {e : Event ι} (hs : step d s e = some s') :
    Covered d (es ++ [e]) s' token userId := by
  obtain ⟨time, hlogsIn, htime, hrest⟩ := h
  exact ⟨time, hlogsIn.snoc hs, htime.trans (now_of_step hs), hrest⟩

/-- A request that was sent upstream for `claims` was admitted. -/
structure Vouched (d : Deployment) (es : List (Event ι)) (s : Platform ι b) (i : ι)
    (claims : Claims) (upstream : HttpRequest) : Prop where
  uuid : claims.sub.IsUuid
  headers : ∃ client, d.setup.gateway.upstream.headers claims.sub client = some upstream.headers
  admitted : Admitted d es s i claims.sub

/-- What holds after the run of `es`, if all tokens that were accepted in it were issued in it. -/
structure Traced (d : Deployment) (es : List (Event ι)) (s : Platform ι b) : Prop where
  configured : s.Configured d
  system : System.Inv d.setup s.system
  logins : s.logins.Sound d.logins
  issued : ∀ token userId, s.logins.IssuedFor token userId → Covered d es s token userId
  sent : ∀ i claims upstream, s.system.Sent i claims upstream → Vouched d es s i claims upstream

lemma traced_init : Traced d [] (init ι b d) where
  configured := configured_init
  system := System.inv_init
  logins := Logins.sound_start
  issued token userId h := by
    obtain ⟨i, x, t, username, ttlSecs, hx, -⟩ := h
    cases hx
  sent i claims upstream h := by cases h

/-- Logins keep account of what they issue. -/
lemma Traced.covered (hd : d.Sound) {es : List (Event ι)} (h : Traced d es s)
    (hrun : (machine ι b d).run (init ι b d) es = some s) {e : Logins.Event ι}
    (hgoes : Goes s.system.now e) (hlogins : Logins.step d.logins s.logins e = some s'.logins)
    (hs : step d s (.login e) = some s') {token : String} {userId : UserId}
    (hissued : s'.logins.IssuedFor token userId) :
    Covered d (es ++ [.login e]) s' token userId := by
  rcases Logins.issues_of_step hlogins hissued with hissued | ⟨j, draw, username, rfl, hissues⟩
  · exact (h.issued token userId hissued).snoc hs
  · obtain ⟨x, log, ttlSecs, hx, hlog⟩ := hissues.logged
    have hmem : (s.logins.now, ⟨.issue userId username, (.ok token, ttlSecs)⟩) ∈ x.log := by
      rw [hlog]
      simp
    have hpresented := (h.logins.step hlogins).presented hd.unmatchable hx hmem
    have hnow : draw.unixNow = s.system.now := of_decide_eq_true hgoes
    have huuid : userId.IsUuid := by
      obtain ⟨y, account, -, hlookup, rfl, -, -⟩ := hpresented
      exact hd.ids _ _ hlookup
    obtain ⟨header, issued, secret, hencode, hsub, hexp⟩ := exp_le_of_issues hissues
    rw [hnow, h.configured.tokens, h.configured.ttl] at hexp
    exact ⟨s.system.now, ⟨j, draw, username, s, s', Machine.passes_last hrun hs, hissues,
      hpresented, rfl⟩, now_of_step hs, huuid, header, issued, secret, hencode, hsub, hexp⟩

/-- Where the gateway sends a request upstream, it verified a token that a login was issued. -/
lemma Traced.vouched (hd : d.Sound) {es : List (Event ι)} (h : Traced d es s)
    (hrun : (machine ι b d).run (init ι b d) es = some s) {sent : HttpRequest} {uuid : String}
    {address : Option IpAddr} (hunforged : Unforged d s (.request i sent uuid address))
    (hs : step d s (.request i sent uuid address) = some s')
    (hserve : serve d.setup.gateway d.json s.system.tokens s.system.now (correlated sent uuid).1 =
      .proxied claims upstream) :
    Vouched d (es ++ [.request i sent uuid address]) s' i claims upstream := by
  obtain ⟨hauth, -, hheaders, -⟩ := proxy_eq_ok.mp (router_eq_ok (router_of_serve hserve))
  obtain ⟨token, hbearer, hverify⟩ := authenticated_eq_ok.mp hauth
  obtain ⟨userId, hissued⟩ := hunforged token claims hbearer hverify
  obtain ⟨time, hlogsIn, htime, huuid, header, issued, secret, hencode, rfl, hexp⟩ :=
    h.issued token userId hissued
  obtain ⟨kid, key, -, -, hdecode, -⟩ := TokenService.verify_eq_ok.mp hverify
  obtain ⟨-, -, hfresh, rfl⟩ := (hd.jwt.signed _ _ _ _ hencode _ _ _ _).mp hdecode
  rw [h.configured.validation] at hfresh
  refine ⟨huuid, ⟨_, hheaders⟩, es, sent, uuid, address, [], s, token, time, rfl, hrun,
    Machine.run_cons_eq_some.mpr ⟨s', hs, rfl⟩, hbearer, hlogsIn, htime, ?_⟩
  omega

lemma Traced.step (hd : d.Sound) {es : List (Event ι)} (h : Traced d es s)
    (hrun : (machine ι b d).run (init ι b d) es = some s) {e : Event ι} (hunforged : Unforged d s e)
    (hs : Platform.step d s e = some s') : Traced d (es ++ [e]) s' := by
  have hconfigured := h.configured.step hs
  have hissued : ∀ token userId, s.logins.IssuedFor token userId →
      Covered d (es ++ [e]) s' token userId :=
    fun token userId hissued => (h.issued token userId hissued).snoc hs
  have hsent : ∀ i claims upstream, s.system.Sent i claims upstream →
      Vouched d (es ++ [e]) s' i claims upstream := by
    intro i claims upstream hi
    obtain ⟨huuid, hheaders, hadmitted⟩ := h.sent i claims upstream hi
    exact ⟨huuid, hheaders, hadmitted.snoc hs⟩
  cases taken_of_step hs with
  | responded hi hserve =>
    refine ⟨hconfigured, h.system.of_server rfl (put_sent (by rw [hi]; rfl)), h.logins, hissued, ?_⟩
    intro j claims upstream hj
    rcases sent_put hj with ⟨-, hnone⟩ | hj
    · cases hnone
    · exact hsent j claims upstream hj
  | arrived hi hserve hlogins =>
    refine ⟨hconfigured, h.system.of_server rfl (put_sent (by rw [hi]; rfl)), h.logins.step hlogins,
      ?_, ?_⟩
    · intro token userId hnew
      rcases Logins.issues_of_step hlogins hnew with hold | ⟨j, draw, username, heq, -⟩
      · exact hissued token userId hold
      · cases heq
    · intro j claims upstream hj
      rcases sent_put (s := s) hj with ⟨-, hnone⟩ | hj
      · cases hnone
      · exact hsent j claims upstream hj
  | loggedOut hi hserve =>
    refine ⟨hconfigured, h.system.of_server rfl (put_sent (by rw [hi]; rfl)), ?_, hissued, ?_⟩
    · exact ⟨⟨h.logins.tracked.follows, h.logins.tracked.asked, h.logins.tracked.resumed,
        h.logins.tracked.dropped⟩, h.logins.checked⟩
    · intro j claims upstream hj
      rcases sent_put (s := s) hj with ⟨-, hnone⟩ | hj
      · cases hnone
      · exact hsent j claims upstream hj
  | proxied hi hserve =>
    refine ⟨hconfigured, h.system.of_server rfl (put_sent (by rw [hi]; rfl)), h.logins, hissued, ?_⟩
    intro j claims upstream hj
    rcases sent_put hj with ⟨rfl, heq⟩ | hj
    · cases heq
      exact h.vouched hd hrun hunforged hs hserve
    · exact hsent j claims upstream hj
  | login hgoes hlogins =>
    exact ⟨hconfigured, h.system, h.logins.step hlogins,
      fun token userId hnew => h.covered hd hrun hgoes hlogins hs hnew, hsent⟩
  | answered hi hnone hanswer hattempt hrest =>
    refine ⟨hconfigured, h.system.of_server rfl (put_sent (by rw [hi]; exact hnone)), h.logins,
      hissued, ?_⟩
    intro j claims upstream hj
    rcases sent_put hj with ⟨-, heq⟩ | hj
    · dsimp only at heq
      rw [hnone] at heq
      cases heq
    · exact hsent j claims upstream hj
  | system hproceeds hsystem =>
    refine ⟨hconfigured, h.system.step hsystem, h.logins, hissued, ?_⟩
    intro j claims upstream hj
    rcases System.sent_of_step j claims upstream hsystem with hiff | ⟨sent, uuid, rfl, -⟩
    · exact hsent j claims upstream (hiff.mp hj)
    · cases hproceeds

lemma traced_of_run (hd : d.Sound) {es : List (Event ι)}
    (hrun : (machine ι b d).run (init ι b d) es = some s)
    (hunforged : (machine ι b d).EveryStep (Unforged d) (init ι b d) es) : Traced d es s := by
  induction es using List.reverseRecOn generalizing s with
  | nil =>
    obtain rfl := Option.some.inj hrun
    exact traced_init
  | append_singleton es e ih =>
    obtain ⟨u, hbefore, hlast⟩ := Machine.run_append_eq_some.mp hrun
    obtain ⟨v, hs, hv⟩ := Machine.run_cons_eq_some.mp hlast
    obtain rfl := Option.some.inj hv
    obtain ⟨hfirst, hend⟩ := hunforged.append
    exact (ih hbefore hfirst).step hd hbefore (hend u hbefore).1 hs

/-- A handler runs for those requests that were admitted for its user. -/
lemma Traced.handled {es : List (Event ι)} (h : Traced d es s) {called : Request}
    (hi : s.system.server.service.Sent i called) : Admitted d es s i called.user := by
  obtain ⟨received, id, hreceived, houtcome⟩ := (h.system.server.handled i called).mp hi
  have hrouter := h.system.server.routed i received hreceived
  rw [houtcome] at hrouter
  have hcaller := ProfileService.caller_of_router hrouter
  obtain ⟨claims, upstream, added, hsent, hrequest⟩ := h.system.delivered i received hreceived
  obtain ⟨huuid, ⟨client, hheaders⟩, hadmitted⟩ := h.sent i claims upstream hsent
  rw [hrequest] at hcaller
  have hsub := (caller_of_headers hheaders huuid added).symm.trans hcaller
  rw [← Except.ok.inj hsub]
  exact hadmitted

/-- No access without the password. In every run in which nobody but the logins signed the tokens
that were accepted, a handler runs for a user, and a step touches the data of a user, only for a
request whose token a login with the password of that user was issued in the course of the run,
at most a lifetime and the leeway before the request came in. -/
theorem no_access_without_password (b : Backend) (ι : Type) [DecidableEq ι] (d : Deployment)
    (hd : d.Sound) (es : List (Event ι)) (s : Platform ι b)
    (hrun : (machine ι b d).run (init ι b d) es = some s)
    (hunforged : (machine ι b d).EveryStep (Unforged d) (init ι b d) es) :
    (∀ i called, s.system.server.service.Sent i called → Admitted d es s i called.user) ∧
    ∀ e s', (machine ι b d).step s e = some s' → ∀ user,
      s.system.server.service.Touches user s'.system.server.service →
      ∃ i, e.By i ∧ Admitted d es s i user := by
  have h := traced_of_run hd hrun hunforged
  refine ⟨fun i called hi => h.handled hi, fun e s' hs user htouches => ?_⟩
  cases taken_of_step hs with
  | responded | arrived | loggedOut | proxied | login | answered =>
    exact absurd htouches (Service.not_touches rfl)
  | system hproceeds hsystem =>
    obtain ⟨i, claims, upstream, hby, hsent, rfl⟩ := h.system.sent_of_touches hsystem htouches
      fun i claims upstream hi => ⟨(h.sent i claims upstream hi).uuid,
        (h.sent i claims upstream hi).headers⟩
    exact ⟨i, hby, (h.sent i claims upstream hsent).admitted⟩

lemma step_proxied {ι : Type} [DecidableEq ι] {b : Backend} {d : Deployment} {s : Platform ι b}
    {i : ι} {sent : HttpRequest} {uuid : String} {address : Option IpAddr} {claims : Claims}
    {upstream : HttpRequest} (hi : s.system.exchange i = none)
    (hserve : serve d.setup.gateway d.json s.system.tokens s.system.now (correlated sent uuid).1 =
      .proxied claims upstream) : (machine ι b d).step s (.request i sent uuid address) =
      some (s.put i ⟨(correlated sent uuid).1, (correlated sent uuid).2, some (claims, upstream),
        none⟩) := by
  simp only [step, hi, hserve]

namespace Sample

open System.Sample

/-- One account, and the services as they are built elsewhere. -/
def deployed : Deployment where
  setup := built
  argon2 := Logins.Sample.argon2
  users := ⟨AList.singleton "alice" ⟨alice.sub, "alice", Logins.Sample.alice.passwordHash⟩⟩
  decoyHash := Logins.Sample.decoyHash
  throttle := .new 5 20 (300 * 10 ^ 9)
  hashPermits := 2
  json _ := .ok ⟨"alice", "hunter2"⟩

def signIn : HttpRequest := ⟨.post, "/login", [("Content-Type", .ofText "application/json")],
  HeaderValue.ofText "\x7b\"username\":\"alice\",\"password\":\"hunter2\"\x7d"⟩

def draw : Login.Draw := ⟨1700000000, alice.jti⟩

def logging : List (Event ℕ) := [.system (.tick 1700000000), .request 1 signIn uuid none,
  .login (.act 1 draw), .login (.act 1 draw), .login (.spawn 1), .login (.finish 1 false),
  .login (.resume 1), .login (.act 1 draw), .login (.act 1 draw), .respond 1]

def host : HeaderMap := [("host", .ofText "127.0.0.1:8081")]

/-- alice's create, with the token, reaches the profile service. -/
def creating : List (Event ℕ) := [.request 0 forged uuid none,
  .system (.deliver 0 host)]

def loggedIn : Platform ℕ .sqlite :=
  ((machine ℕ .sqlite deployed).run (init ℕ .sqlite deployed) logging).getD
    (init ℕ .sqlite deployed)

lemma run_logging :
    (machine ℕ .sqlite deployed).run (init ℕ .sqlite deployed) logging = some loggedIn := by
  have hsome : ((machine ℕ .sqlite deployed).run (init ℕ .sqlite deployed) logging).isSome =
      true := by
    decide +kernel
  rw [loggedIn, ← Option.get_eq_getD, Option.some_get]
  exact hsome

lemma loggedIn_eq : loggedIn.logins.IssuedFor token alice.sub ∧
    loggedIn.system.exchange 0 = none ∧ loggedIn.system.tokens = built.tokens ∧
    loggedIn.system.now = 1700000000 ∧
    loggedIn.system.server = Server.init ℕ .sqlite built.app := by
  obtain ⟨s, hrun, h⟩ : ∃ s, (machine ℕ .sqlite deployed).run (init ℕ .sqlite deployed) logging =
      some s ∧ s.logins.IssuedFor token alice.sub ∧
      s.system.exchange 0 = none ∧ s.system.tokens = built.tokens ∧
      s.system.now = 1700000000 ∧
      s.system.server = Server.init ℕ .sqlite built.app := by
    refine ⟨_, rfl, ⟨1, _, 0, "alice", 900, rfl, ?_⟩, rfl, rfl, rfl, rfl⟩
    exact List.mem_append_right _ (List.mem_singleton.mpr rfl)
  rw [run_logging] at hrun
  rw [Option.some.inj hrun]
  exact h

/-- The state once the create has come in. -/
def entered : Platform ℕ .sqlite := loggedIn.put 0
  ⟨(correlated forged uuid).1,
    (correlated forged uuid).2,
    some (alice, forwarded), none⟩

lemma step_forged : (machine ℕ .sqlite deployed).step loggedIn
    (.request 0 forged uuid none) = some entered := by
  obtain ⟨-, hexchange, htokens, hnow, -⟩ := loggedIn_eq
  have hserve : serve deployed.setup.gateway deployed.json loggedIn.system.tokens
      loggedIn.system.now (correlated forged uuid).1 =
        .proxied alice forwarded := by
    rw [htokens, hnow, serve_of_path (by decide) (by decide) (by decide)]
    have hrouter := router_forged
    change router deployed.setup.gateway built.tokens 1700000000
      (correlated forged uuid).1 = _ at hrouter
    rw [hrouter]
  exact step_proxied hexchange hserve

/-- What the profile service makes of the create. -/
lemma step_received : (Server.step built.app
    (Server.init ℕ .sqlite built.app) (.receive 0
      (System.arriving forwarded host))).any (fun server =>
        (server.service.handler 0).any fun x => x.request.user = alice.sub) = true := by
  decide +kernel

lemma run_creating : ∃ s x, (machine ℕ .sqlite deployed).run (init ℕ .sqlite deployed)
    (logging ++ creating) = some s ∧ s.system.server.service.handler 0 = some x ∧
      x.request.user = alice.sub := by
  obtain ⟨server, hserver, hany⟩ := (Option.any_eq_true _ _).mp step_received
  obtain ⟨x, hx, huser⟩ := (Option.any_eq_true _ _).mp hany
  have hdelivered : (machine ℕ .sqlite deployed).step entered (.system (.deliver 0 host)) =
      some { entered with system := { entered.system with server } } := by
    obtain ⟨-, -, -, -, hinit⟩ := loggedIn_eq
    have hsent : (entered.system.exchange 0).bind Exchange.sent =
        some (alice, forwarded) := rfl
    have hsystem : System.step built entered.system (.deliver 0 host) =
        some { entered.system with server } := by
      simp only [System.step, hsent]
      rw [if_pos (by decide)]
      change Option.map _ (Server.step _ loggedIn.system.server _) = _
      rw [hinit, hserver]
      rfl
    simp only [step, Proceeds, if_true]
    change Option.map _ (System.step built entered.system _) = _
    rw [hsystem]
    rfl
  have hlast : (machine ℕ .sqlite deployed).run entered [.system (.deliver 0 host)] =
      some { entered with system := { entered.system with server } } :=
    Machine.run_cons_eq_some.mpr ⟨_, hdelivered, rfl⟩
  refine ⟨{ entered with system := { entered.system with server } }, x,
    Machine.run_append_eq_some.mpr ⟨loggedIn, run_logging, ?_⟩, hx, of_decide_eq_true huser⟩
  exact Machine.run_cons_eq_some.mpr ⟨entered, step_forged, hlast⟩

lemma sound : deployed.Sound where
  jwt := Jwt.ofTokens_lawful _
  ids username account h := by
    obtain ⟨rfl, rfl⟩ : username = "alice" ∧ account =
        ⟨alice.sub, "alice", Logins.Sample.alice.passwordHash⟩ := by
      simpa [deployed] using AList.mem_lookup_iff.mp h
    decide
  unmatchable username account h := by
    obtain ⟨rfl, rfl⟩ : username = "alice" ∧ account =
        ⟨alice.sub, "alice", Logins.Sample.alice.passwordHash⟩ := by
      simpa [deployed] using AList.mem_lookup_iff.mp h
    decide

/-- The one token that is presented is the one that the login was issued. -/
lemma unforged : (machine ℕ .sqlite deployed).EveryStep (Unforged deployed)
    (init ℕ .sqlite deployed) (logging ++ creating) := by
  refine Machine.EveryStep.concat ?_ ?_
  · have hall : ∀ e ∈ logging, ∀ s : Platform ℕ .sqlite, Unforged deployed s e := by
      have hbearer : bearer (correlated signIn uuid).1.headers =
          .error .missingBearer := rfl
      simp [logging, Unforged, hbearer]
    exact (Machine.everyStep_of_mem hall).imp (fun _ => True) (fun _ _ _ _ _ _ => trivial)
      (fun s e _ h => h s) trivial
  · intro s hs
    obtain rfl := Option.some.inj (run_logging.symm.trans hs)
    refine ⟨fun token claims hbearer _ => ⟨alice.sub, ?_⟩, fun s _ => ⟨trivial, ?_⟩⟩
    · rw [bearer_forged] at hbearer
      obtain rfl := Except.ok.inj hbearer
      exact loggedIn_eq.1
    · exact fun _ _ => trivial

end Sample

/-- alice logs in and creates her profile. -/
theorem no_access_without_password_create : ∃ (s : Platform ℕ .sqlite) (called : Request),
    (machine ℕ .sqlite Sample.deployed).run (init ℕ .sqlite Sample.deployed)
      (Sample.logging ++ Sample.creating) = some s ∧ s.system.server.service.Sent 0 called ∧
    called.user = System.Sample.alice.sub ∧
    Admitted Sample.deployed (Sample.logging ++ Sample.creating) s 0 System.Sample.alice.sub := by
  obtain ⟨s, x, hrun, hx, huser⟩ := Sample.run_creating
  have hsent : s.system.server.service.Sent 0 x.request := ⟨x, hx, rfl⟩
  have hadmitted := (no_access_without_password .sqlite ℕ Sample.deployed Sample.sound
    (Sample.logging ++ Sample.creating) s hrun Sample.unforged).1 0 x.request hsent
  rw [huser] at hadmitted
  exact ⟨s, x.request, hrun, hsent, huser, hadmitted⟩

end Platform

end Knova
