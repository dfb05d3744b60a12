import Knova.Auth.Revocation
import Knova.System.Access

/-!
# Logging out

A run of the platform is a run of its token service in use: logins issue tokens, requests present
them, logouts revoke them. So a token that was accepted once is accepted until it expires, unless
it was logged out, and then it is refused at least until it expires.
-/

namespace Knova

open Library

/-! ### What is remembered of a revocation -/

namespace Sessions

variable {J : Jwt} {s s' : Sessions} {e : Event}

/-- A revocation is retained as long as the token it is of has not expired. -/
def Remembered (s : Sessions) : Prop :=
  ∀ c ∈ s.revoked, s.service.revoked.lookup c.jti = some c.exp ∨ c.exp ≤ s.now

lemma Remembered.step (h : s.Remembered) (hs : Inv J s) (hid : s.Identified)
    (hstep : Sessions.step J s e = some s') : s'.Remembered := by
  obtain ⟨hservice, -, hrevoked, hnow, -⟩ | ⟨token, c, -, -, rfl⟩ | ⟨c, token, rfl, hmem, rfl⟩ :=
    step_cases hstep
  · intro c hc
    rw [hrevoked] at hc
    rw [hservice]
    exact (h c hc).imp id hnow.trans'
  · exact h
  · intro c' hc'
    dsimp only at hc' ⊢
    rw [TokenService.lookup_revoked_revoke]
    by_cases hjti : c'.jti = c.jti
    · have heq : c' = c := by
        rcases List.mem_append.mp hc' with hc' | hc'
        · obtain ⟨token', hmem'⟩ := hs.revoked c' hc'
          exact hid _ hmem' _ hmem hjti
        · exact List.mem_singleton.mp hc'
      rw [if_pos hjti, heq]
      exact .inl rfl
    · have hold : c' ∈ s.revoked := by
        rcases List.mem_append.mp hc' with hc' | hc'
        · exact hc'
        · exact absurd (congrArg Claims.jti (List.mem_singleton.mp hc')) hjti
      rw [if_neg hjti]
      rcases h c' hold with hlookup | hexpired
      · by_cases hexp : c'.exp ≤ s.now
        · exact .inr hexp
        · rw [hlookup]
          refine .inl (Option.filter_some_pos ?_)
          simpa using hexp
      · exact .inr hexpired

lemma Remembered.run {es : List Event} (h : s.Remembered) (hs : Inv J s)
    (hrun : (machine J).run s es = some s') (hid : s'.Identified) : s'.Remembered ∧ Inv J s' := by
  induction es generalizing s with
  | nil =>
    obtain rfl : s = s' := Option.some.inj hrun
    exact ⟨h, hs⟩
  | cons e es ih =>
    obtain ⟨s₁, hstep, hrest⟩ := Machine.run_cons_eq_some.mp hrun
    exact ih (h.step hs (hid.of_run hrun) hstep) (hs.step hstep) hrest

/-- A token that was accepted and not revoked is accepted until it expires. -/
lemma verify_of_not_revoked (hJ : J.Lawful) (hs : Inv J s) (hid : s.Identified) {token : String}
    {c : Claims} (hmem : (token, c) ∈ s.accepted) (hc : c ∉ s.revoked) :
    s.service.verify J s.now token = .ok c ↔ s.now - s.service.validation.leeway ≤ c.exp := by
  obtain ⟨kid, key, now, hkid, hkey, hdecode⟩ := hs.accepted token c hmem
  have hfree : c.jti ∉ s.service.revoked := by
    intro hrevoked
    obtain ⟨expiry, hlookup⟩ := Option.isSome_iff_exists.mp (AList.lookup_isSome.mpr hrevoked)
    obtain ⟨c', hc', hjti, -⟩ := hs.retained _ _ hlookup
    obtain ⟨token', hmem'⟩ := hs.revoked c' hc'
    obtain rfl : c' = c := hid _ hmem' _ hmem hjti
    exact hc hc'
  constructor
  · intro hverify
    obtain ⟨kid', key', hkid', hkey', hdecode', -⟩ := TokenService.verify_eq_ok.mp hverify
    obtain rfl := Option.some.inj (hkid.symm.trans hkid')
    obtain rfl := Option.some.inj (hkey.symm.trans hkey')
    exact ((hJ.expiry _ _ _ _ _ hdecode _ _).mp hdecode').1
  · intro hexp
    exact TokenService.verify_eq_ok.mpr
      ⟨kid, key, hkid, hkey, (hJ.expiry _ _ _ _ _ hdecode _ _).mpr ⟨hexp, rfl⟩, hfree⟩

/-- A token that was revoked is refused until it expires. -/
lemma Remembered.verify (h : s.Remembered) (hJ : J.Lawful) (hs : Inv J s) {token : String}
    {c : Claims} (hmem : (token, c) ∈ s.accepted) (hc : c ∈ s.revoked) (hexp : s.now < c.exp) :
    s.service.verify J s.now token = .error .invalidToken := by
  cases hverify : s.service.verify J s.now token with
  | error e => rw [TokenService.verify_error hverify]
  | ok c' =>
    obtain ⟨kid, key, now, hkid, hkey, hdecode⟩ := hs.accepted token c hmem
    obtain ⟨kid', key', hkid', hkey', hdecode', hfree⟩ := TokenService.verify_eq_ok.mp hverify
    obtain rfl := Option.some.inj (hkid.symm.trans hkid')
    obtain rfl := Option.some.inj (hkey.symm.trans hkey')
    obtain ⟨-, rfl⟩ := (hJ.expiry _ _ _ _ _ hdecode _ _).mp hdecode'
    rcases h c' hc with hlookup | hexpired
    · exact absurd (AList.lookup_isSome.mp (by rw [hlookup]; rfl)) hfree
    · omega

end Sessions

/-! ### The token service in a run of the platform -/

namespace Platform

open AuthService

variable {ι : Type} [DecidableEq ι] {b : Backend} {d : Deployment} {s s' : Platform ι b}
  {token : String} {claims : Claims}

/-- The token that a request presents, with its claims, if it is accepted. -/
def presented (d : Deployment) (s : Platform ι b) (sent : HttpRequest) (uuid : String) :
    Option (String × Claims) :=
  match bearer (correlated sent uuid).1.headers with
  | .error _ => none
  | .ok token =>
    match s.system.tokens.verify d.setup.gateway.jwt s.system.now token with
    | .error _ => none
    | .ok claims => some (token, claims)

/-- The claims that a request logs out. -/
def loggedOut (d : Deployment) (s : Platform ι b) (sent : HttpRequest) (uuid : String) :
    Option Claims :=
  match serve d.setup.gateway d.json s.system.tokens s.system.now (correlated sent uuid).1 with
  | .logout claims => some claims
  | _ => none

/-- What a step means to the token service. -/
def sessionEvents (d : Deployment) (s : Platform ι b) : Event ι → List Sessions.Event
  | .request _ sent uuid _ => (presented d s sent uuid).toList.map (fun p => .verify p.1) ++
    (loggedOut d s sent uuid).toList.map .revoke
  | .login (.act i draw) =>
    match (s.logins.attempt i).map LoginAttempt.rest with
    | some (.act (.issue userId username) _) => [.issue draw.jti userId username]
    | _ => []
  | .system (.tick n) => [.tick n]
  | _ => []

/-- What a run means to the token service. -/
def sessions (d : Deployment) : Platform ι b → List (Event ι) → List Sessions.Event
  | _, [] => []
  | s, e :: es =>
    match step d s e with
    | none => []
    | some s' => sessionEvents d s e ++ sessions d s' es

lemma sessions_append {es fs : List (Event ι)} {t : Platform ι b}
    (hrun : (machine ι b d).run s es = some t) :
    sessions d s (es ++ fs) = sessions d s es ++ sessions d t fs := by
  induction es generalizing s with
  | nil =>
    obtain rfl : s = t := Option.some.inj hrun
    rfl
  | cons e es ih =>
    obtain ⟨s', hs, hrest⟩ := Machine.run_cons_eq_some.mp hrun
    have hs' : step d s e = some s' := hs
    rw [List.cons_append, sessions, sessions, hs']
    dsimp only
    rw [ih hrest, List.append_assoc]

lemma sessions_snoc {es : List (Event ι)} {e : Event ι} {t : Platform ι b}
    (hrun : (machine ι b d).run s es = some t) (hs : (machine ι b d).step t e = some s') :
    sessions d s (es ++ [e]) = sessions d s es ++ sessionEvents d t e := by
  have hs' : step d t e = some s' := hs
  rw [sessions_append hrun, sessions, hs']
  dsimp only
  rw [sessions, List.append_nil]

/-- In the run of `es` to `s`, a request presented the token when it was accepted. -/
def Accepts (d : Deployment) (es : List (Event ι)) (s : Platform ι b) (token : String)
    (claims : Claims) : Prop :=
  ∃ i sent uuid address u v,
    (machine ι b d).Passes (init ι b d) es s (.request i sent uuid address) u v ∧
    presented d u sent uuid = some (token, claims)

/-- In the run of `es` to `s`, the token of `claims` was logged out. -/
def LogsOut (d : Deployment) (es : List (Event ι)) (s : Platform ι b) (claims : Claims) : Prop :=
  ∃ i sent uuid address u v,
    (machine ι b d).Passes (init ι b d) es s (.request i sent uuid address) u v ∧
    loggedOut d u sent uuid = some claims

section Requests

variable {P : Platform ι b → HttpRequest → String → Prop} {es : List (Event ι)}

/-- The requests of a run that goes on with an event that is none. -/
lemma request_snoc_of_ne {e : Event ι} (hrun : (machine ι b d).run (init ι b d) es = some s)
    (hs : step d s e = some s') (hne : ∀ i sent uuid address, e ≠ .request i sent uuid address) :
    (∃ i sent uuid address u v, (machine ι b d).Passes (init ι b d) (es ++ [e]) s'
      (.request i sent uuid address) u v ∧ P u sent uuid) ↔
    ∃ i sent uuid address u v, (machine ι b d).Passes (init ι b d) es s
      (.request i sent uuid address) u v ∧ P u sent uuid := by
  constructor
  · rintro ⟨i, sent, uuid, address, u, v, hpasses, h⟩
    rcases hpasses.cases_snoc hrun with hpasses | ⟨rfl, -, -⟩
    · exact ⟨i, sent, uuid, address, u, v, hpasses, h⟩
    · exact absurd rfl (hne i sent uuid address)
  · rintro ⟨i, sent, uuid, address, u, v, hpasses, h⟩
    exact ⟨i, sent, uuid, address, u, v, hpasses.snoc hs, h⟩

/-- The requests of a run that goes on with one more. -/
lemma request_snoc {i : ι} {sent : HttpRequest} {uuid : String} {address : Option IpAddr}
    (hrun : (machine ι b d).run (init ι b d) es = some s)
    (hs : step d s (.request i sent uuid address) = some s') :
    (∃ j sent' uuid' address' u v,
      (machine ι b d).Passes (init ι b d) (es ++ [.request i sent uuid address]) s'
        (.request j sent' uuid' address') u v ∧ P u sent' uuid') ↔
    (∃ j sent' uuid' address' u v, (machine ι b d).Passes (init ι b d) es s
      (.request j sent' uuid' address') u v ∧ P u sent' uuid') ∨ P s sent uuid := by
  constructor
  · rintro ⟨j, sent', uuid', address', u, v, hpasses, h⟩
    rcases hpasses.cases_snoc hrun with hpasses | ⟨heq, rfl, -⟩
    · exact .inl ⟨j, sent', uuid', address', u, v, hpasses, h⟩
    · cases heq
      exact .inr h
  · rintro (⟨j, sent', uuid', address', u, v, hpasses, h⟩ | h)
    · exact ⟨j, sent', uuid', address', u, v, hpasses.snoc hs, h⟩
    · exact ⟨i, sent, uuid, address, s, s', Machine.passes_last hrun hs, h⟩

end Requests

/-- Whoever logs out is authenticated. -/
lemma authenticated_of_logout {tokens : TokenService} {now : ℕ} {request : HttpRequest}
    (h : serve d.setup.gateway d.json tokens now request = .logout claims) :
    authenticated d.setup.gateway.jwt tokens now request.headers = .ok claims := by
  unfold serve at h
  split at h
  · unfold AuthService.login at h
    split at h
    · split at h <;> cases h
    · cases h
  · split at h
    · unfold logout at h
      split at h
      · split at h
        · cases h
        · rename_i c hauth
          cases h
          exact hauth
      · cases h
    · split at h
      · unfold health at h
        split at h <;> cases h
      · split at h <;> cases h

lemma presented_eq_some {sent : HttpRequest} {uuid : String} :
    presented d s sent uuid = some (token, claims) ↔
      bearer (correlated sent uuid).1.headers = .ok token ∧
      s.system.tokens.verify d.setup.gateway.jwt s.system.now token = .ok claims := by
  unfold presented
  constructor
  · intro h
    split at h
    · cases h
    · rename_i token' hbearer
      split at h
      · cases h
      · rename_i claims' hverify
        obtain ⟨rfl, rfl⟩ := Prod.mk.inj (Option.some.inj h)
        exact ⟨hbearer, hverify⟩
  · rintro ⟨hbearer, hverify⟩
    simp only [hbearer, hverify]

lemma loggedOut_eq_some {sent : HttpRequest} {uuid : String} :
    loggedOut d s sent uuid = some claims ↔ serve d.setup.gateway d.json s.system.tokens
      s.system.now (correlated sent uuid).1 = .logout claims := by
  unfold loggedOut
  constructor
  · intro h
    split at h
    · rename_i claims' hserve
      rw [hserve, Option.some.inj h]
    · cases h
  · intro h
    simp only [h]

/-- Whoever logs out presents the token. -/
lemma presented_of_loggedOut {sent : HttpRequest} {uuid : String}
    (h : loggedOut d s sent uuid = some claims) :
    ∃ token, presented d s sent uuid = some (token, claims) := by
  obtain ⟨token, hbearer, hverify⟩ :=
    authenticated_eq_ok.mp (authenticated_of_logout (loggedOut_eq_some.mp h))
  exact ⟨token, presented_eq_some.mpr ⟨hbearer, hverify⟩⟩

/-- The token service `t` in use is that of the platform after the run of `es`. -/
structure InUse (d : Deployment) (es : List (Event ι)) (s : Platform ι b) (t : Sessions) :
    Prop where
  service : t.service = s.system.tokens
  now : t.now = s.system.now
  issued : ∀ token userId, s.logins.IssuedFor token userId → token ∈ t.issued
  accepted : ∀ token claims, (token, claims) ∈ t.accepted ↔ Accepts d es s token claims
  revoked : ∀ claims, claims ∈ t.revoked ↔ LogsOut d es s claims

/-- A request changes the tokens by logging out. -/
lemma tokens_of_request {i : ι} {sent : HttpRequest} {uuid : String} {address : Option IpAddr}
    (hs : step d s (.request i sent uuid address) = some s') :
    s'.system.tokens = (loggedOut d s sent uuid).elim s.system.tokens
      (s.system.tokens.revoke s.system.now) ∧ s'.system.now = s.system.now ∧
    ∀ token userId, s'.logins.IssuedFor token userId → s.logins.IssuedFor token userId := by
  cases taken_of_step hs with
  | responded hnone hserve | proxied hnone hserve =>
    have hout : loggedOut d s sent uuid = none := by simp only [loggedOut, hserve]
    rw [hout]
    exact ⟨rfl, rfl, fun _ _ h => h⟩
  | loggedOut hnone hserve =>
    rw [loggedOut_eq_some.mpr hserve]
    exact ⟨rfl, rfl, fun _ _ h => h⟩
  | arrived hnone hserve hlogins =>
    have hout : loggedOut d s sent uuid = none := by simp only [loggedOut, hserve]
    rw [hout]
    refine ⟨rfl, rfl, fun token userId h => ?_⟩
    rcases Logins.issues_of_step hlogins h with h | ⟨j, draw, username, heq, -⟩
    · exact h
    · cases heq

/-- The token service accepts the token that a request presents. -/
lemma run_presented {t : Sessions} {sent : HttpRequest} {uuid : String}
    (hservice : t.service = s.system.tokens) (hnow : t.now = s.system.now) :
    (Sessions.machine d.setup.gateway.jwt).run t
      ((presented d s sent uuid).toList.map fun p => .verify p.1) =
        some { t with accepted := t.accepted ++ (presented d s sent uuid).toList } := by
  cases hpresented : presented d s sent uuid with
  | none =>
    simp only [Option.toList_none, List.map_nil, List.append_nil]
    rfl
  | some p =>
    obtain ⟨token, claims⟩ := p
    obtain ⟨-, hverify⟩ := presented_eq_some.mp hpresented
    rw [← hservice, ← hnow] at hverify
    exact Machine.run_cons_eq_some.mpr ⟨{ t with accepted := t.accepted ++ [(token, claims)] },
      by simp only [Sessions.step, hverify], rfl⟩

/-- The token service revokes what a request logs out. -/
lemma run_loggedOut {t : Sessions} {sent : HttpRequest} {uuid : String}
    (haccepted : ∀ claims, loggedOut d s sent uuid = some claims →
      claims ∈ t.accepted.map Prod.snd) :
    (Sessions.machine d.setup.gateway.jwt).run t ((loggedOut d s sent uuid).toList.map .revoke) =
      some { t with
        service := (loggedOut d s sent uuid).elim t.service (t.service.revoke t.now)
        revoked := t.revoked ++ (loggedOut d s sent uuid).toList } := by
  cases hout : loggedOut d s sent uuid with
  | none =>
    simp only [Option.toList_none, List.map_nil, List.append_nil, Option.elim_none]
    rfl
  | some claims =>
    refine Machine.run_cons_eq_some.mpr ⟨_, ?_, rfl⟩
    exact if_pos (haccepted claims hout)

section Step

variable {es : List (Event ι)} {e : Event ι} {t t' : Sessions}

/-- An event that is no request accepts no token and logs out nobody. -/
lemma InUse.other (h : InUse d es s t) (hrun : (machine ι b d).run (init ι b d) es = some s)
    (hs : step d s e = some s') (hne : ∀ i sent uuid address, e ≠ .request i sent uuid address)
    (hservice : t'.service = s'.system.tokens) (hnow : t'.now = s'.system.now)
    (hissued : ∀ token userId, s'.logins.IssuedFor token userId → token ∈ t'.issued)
    (haccepted : t'.accepted = t.accepted) (hrevoked : t'.revoked = t.revoked) :
    InUse d (es ++ [e]) s' t' := by
  refine ⟨hservice, hnow, hissued, fun token claims => ?_, fun claims => ?_⟩
  · rw [haccepted, h.accepted]
    exact (request_snoc_of_ne hrun hs hne).symm
  · rw [hrevoked, h.revoked]
    exact (request_snoc_of_ne hrun hs hne).symm

lemma InUse.request (h : InUse d es s t)
    (hrun : (machine ι b d).run (init ι b d) es = some s) {i : ι} {sent : HttpRequest}
    {uuid : String} {address : Option IpAddr}
    (hs : step d s (.request i sent uuid address) = some s') :
    ∃ t', (Sessions.machine d.setup.gateway.jwt).run t
      (sessionEvents d s (.request i sent uuid address)) = some t' ∧
      InUse d (es ++ [.request i sent uuid address]) s' t' := by
  obtain ⟨htokens, hnow, hissued⟩ := tokens_of_request hs
  refine ⟨_, Machine.run_append_eq_some.mpr ⟨_, run_presented h.service h.now,
    run_loggedOut fun claims hout => ?_⟩, ?_⟩
  · obtain ⟨token, hpresented⟩ := presented_of_loggedOut hout
    rw [hpresented]
    simp
  · refine ⟨?_, h.now.trans hnow.symm, fun token userId hlogin =>
      h.issued token userId (hissued token userId hlogin), fun token claims => ?_, fun claims => ?_⟩
    · rw [htokens]
      dsimp only
      rw [h.service, h.now]
    · rw [List.mem_append, h.accepted, Option.mem_toList]
      exact (request_snoc hrun hs).symm
    · rw [List.mem_append, h.revoked, Option.mem_toList]
      exact (request_snoc hrun hs).symm

/-- A token that a login asks for is issued by the token service. -/
lemma InUse.login (h : InUse d es s t) (hconfigured : s.Configured d)
    (hrun : (machine ι b d).run (init ι b d) es = some s) {f : Logins.Event ι} {logins : Logins ι}
    (hs : step d s (.login f) = some { s with logins }) (hgoes : Goes s.system.now f)
    (hlogins : Logins.step d.logins s.logins f = some logins) :
    ∃ t', (Sessions.machine d.setup.gateway.jwt).run t (sessionEvents d s (.login f)) = some t' ∧
      InUse d (es ++ [.login f]) { s with logins } t' := by
  have hquiet : (∀ token userId, logins.IssuedFor token userId →
      s.logins.IssuedFor token userId) → sessionEvents d s (.login f) = [] →
      ∃ t', (Sessions.machine d.setup.gateway.jwt).run t (sessionEvents d s (.login f)) = some t' ∧
        InUse d (es ++ [.login f]) { s with logins } t' := by
    intro hissued hnone
    rw [hnone]
    exact ⟨t, rfl, h.other hrun hs (by simp) h.service h.now
      (fun token userId hlogin => h.issued token userId (hissued token userId hlogin)) rfl rfl⟩
  have hold : (∀ i draw, f ≠ .act i draw) → ∀ token userId, logins.IssuedFor token userId →
      s.logins.IssuedFor token userId := by
    intro hne token userId hissued
    rcases Logins.issues_of_step hlogins hissued with hissued | ⟨j, draw, username, heq, -⟩
    · exact hissued
    · exact absurd heq (hne j draw)
  cases f with
  | act i draw =>
    obtain ⟨j, request, address, heq, -⟩ | ⟨j, draw', x, a, k, r, state, heq, hx, -, hrest, hexec,
      rfl⟩ | ⟨j, x, username, offered, k, heq, -⟩ | ⟨j, panics, v, heq, -⟩ |
      ⟨j, x, username, offered, k, v, outcome, heq, -⟩ |
      ⟨j, x, username, offered, k, v, heq, -⟩ | ⟨n, heq, -⟩ := Logins.step_cases hlogins
    all_goals cases heq
    have hmap : (s.logins.attempt i).map LoginAttempt.rest = some (.act a k) := by
      rw [hx, Option.map_some, hrest]
    by_cases ha : ∃ userId username, a = .issue userId username
    · obtain ⟨userId, username, rfl⟩ := ha
      have hevents : sessionEvents d s (.login (.act i draw)) =
          [.issue draw.jti userId username] := by
        simp only [sessionEvents, hmap]
      have hnow : draw.unixNow = t.now := (of_decide_eq_true hgoes).trans h.now.symm
      obtain ⟨hr, rfl⟩ := Prod.mk.inj (Option.some.inj hexec)
      rw [hconfigured.tokens, ← h.service, hnow] at hr
      have hanswer : t.service.issue d.setup.gateway.jwt t.now draw.jti userId username = r.1 :=
        congrArg Prod.fst hr
      rw [hevents]
      cases hissue : t.service.issue d.setup.gateway.jwt t.now draw.jti userId username with
      | error e =>
        refine ⟨t, Machine.run_cons_eq_some.mpr ⟨t, by simp only [Sessions.step, hissue], rfl⟩, ?_⟩
        refine h.other hrun hs (by simp) h.service h.now (fun token' userId' hlogin => ?_) rfl rfl
        rcases Logins.issuedFor_answer hx rfl hlogin with hlogin | ⟨username', ttlSecs, heq⟩
        · exact h.issued token' userId' hlogin
        · cases heq
          cases hissue.symm.trans hanswer
      | ok token =>
        refine ⟨{ t with issued := t.issued ++ [token] }, Machine.run_cons_eq_some.mpr
          ⟨_, by simp only [Sessions.step, hissue], rfl⟩, ?_⟩
        refine h.other hrun hs (by simp) h.service h.now (fun token' userId' hlogin => ?_) rfl rfl
        rcases Logins.issuedFor_answer hx rfl hlogin with hlogin | ⟨username', ttlSecs, heq⟩
        · exact List.mem_append_left _ (h.issued token' userId' hlogin)
        · cases heq
          obtain rfl := Except.ok.inj (hissue.symm.trans hanswer)
          exact List.mem_append_right _ (List.mem_singleton_self _)
    · have hevents : sessionEvents d s (.login (.act i draw)) = [] := by
        simp only [sessionEvents, hmap]
        split
        · rename_i userId username k' heq
          cases heq
          exact absurd ⟨userId, username, rfl⟩ ha
        · rfl
      refine hquiet (fun token userId hlogin => ?_) hevents
      rcases Logins.issuedFor_answer hx rfl hlogin with hlogin | ⟨username, ttlSecs, heq⟩
      · exact hlogin
      · cases heq
        exact absurd ⟨userId, username, rfl⟩ ha
  | arrive | spawn | finish | resume | drop | tick => exact hquiet (hold (by simp)) rfl

/-- A step of the platform is one of its token service. -/
lemma InUse.step (h : InUse d es s t) (hconfigured : s.Configured d)
    (hrun : (machine ι b d).run (init ι b d) es = some s) (hs : Platform.step d s e = some s') :
    ∃ t', (Sessions.machine d.setup.gateway.jwt).run t (sessionEvents d s e) = some t' ∧
      InUse d (es ++ [e]) s' t' := by
  have htaken := taken_of_step hs
  cases htaken with
  | responded | arrived | loggedOut | proxied => exact h.request hrun hs
  | login hgoes hlogins => exact h.login hconfigured hrun hs hgoes hlogins
  | answered =>
    exact ⟨t, rfl, h.other hrun hs (by simp) h.service h.now h.issued rfl rfl⟩
  | system hproceeds hsystem =>
    obtain ⟨j, sent, uuid, proxied, rfl, -⟩ | ⟨f, server, -, hcase, rfl⟩ |
      ⟨j, x, response, hcase, -, rfl⟩ | ⟨claims, rfl, -⟩ | ⟨n, rfl, rfl⟩ :=
        System.step_cases hsystem
    · cases hproceeds
    · refine ⟨t, ?_, h.other hrun hs (by simp) h.service h.now h.issued rfl rfl⟩
      rcases hcase with ⟨j, claims, upstream, added, rfl, -⟩ | ⟨g, rfl, -⟩ <;> rfl
    · refine ⟨t, ?_, h.other hrun hs (by simp) h.service h.now h.issued rfl rfl⟩
      rcases hcase with ⟨rfl, -⟩ | ⟨rfl, -⟩ <;> rfl
    · cases hproceeds
    · refine ⟨{ t with now := t.now + n }, rfl, ?_⟩
      exact h.other hrun hs (by simp) h.service (congrArg (· + n) h.now) h.issued rfl rfl

end Step

/-- Only accepted tokens are verified. -/
lemma presented_of_mem {e : Event ι} (h : .verify token ∈ sessionEvents d s e) :
    ∃ i sent uuid address claims, e = .request i sent uuid address ∧
      presented d s sent uuid = some (token, claims) := by
  cases e with
  | request i sent uuid address =>
    rcases List.mem_append.mp h with h | h
    · obtain ⟨⟨token', claims⟩, hp, heq⟩ := List.mem_map.mp h
      cases heq
      exact ⟨i, sent, uuid, address, claims, rfl, Option.mem_toList.mp hp⟩
    · obtain ⟨claims, -, heq⟩ := List.mem_map.mp h
      cases heq
  | login f =>
    cases f with
    | act i draw =>
      simp only [sessionEvents] at h
      split at h
      · simp at h
      · cases h
    | _ => cases h
  | respond i => cases h
  | system f =>
    cases f with
    | tick n => simp [sessionEvents] at h
    | _ => cases h

lemma inUse_init {active : KeyMaterial} {retired : List KeyMaterial} {ttl : ℕ}
    (htokens : d.setup.tokens = .new active retired ttl) :
    InUse d [] (init ι b d) (Sessions.start 0 active retired ttl) where
  service := htokens.symm
  now := rfl
  issued token userId h := by
    obtain ⟨i, x, t, username, ttlSecs, hx, -⟩ := h
    cases hx
  accepted token claims := by
    refine ⟨fun h => (by cases h), ?_⟩
    rintro ⟨i, sent, uuid, address, u, v, ⟨before, after, heq, -⟩, -⟩
    cases before <;> cases heq
  revoked claims := by
    refine ⟨fun h => (by cases h), ?_⟩
    rintro ⟨i, sent, uuid, address, u, v, ⟨before, after, heq, -⟩, -⟩
    cases before <;> cases heq

/-- Every run of the platform is a run of its token service, in which only tokens that were issued
in it are accepted. -/
theorem sessions_of_run {active : KeyMaterial} {retired : List KeyMaterial} {ttl : ℕ}
    (htokens : d.setup.tokens = .new active retired ttl) {es : List (Event ι)}
    (hrun : (machine ι b d).run (init ι b d) es = some s)
    (hunforged : (machine ι b d).EveryStep (Unforged d) (init ι b d) es) :
    ∃ t, (Sessions.machine d.setup.gateway.jwt).run (Sessions.start 0 active retired ttl)
      (sessions d (init ι b d) es) = some t ∧ InUse d es s t ∧
      ∀ token, .verify token ∈ sessions d (init ι b d) es → token ∈ t.issued := by
  refine (Machine.run_induction (M := machine ι b d) (fun es (s : Platform ι b) =>
    s.Configured d ∧ ((machine ι b d).EveryStep (Unforged d) (init ι b d) es → ∃ t,
      (Sessions.machine d.setup.gateway.jwt).run (Sessions.start 0 active retired ttl)
        (sessions d (init ι b d) es) = some t ∧ InUse d es s t ∧
      ∀ token, .verify token ∈ sessions d (init ι b d) es → token ∈ t.issued))
    ⟨configured_init, fun _ => ⟨_, rfl, inUse_init htokens, fun token h => by cases h⟩⟩
    ?_ hrun).2 hunforged
  intro es s e s' hrun ⟨hconfigured, ih⟩ hs
  refine ⟨hconfigured.step hs, fun hunforged => ?_⟩
  obtain ⟨t, ht, hinUse, hown⟩ := ih hunforged.append.1
  obtain ⟨t', ht', hinUse'⟩ := hinUse.step hconfigured hrun hs
  obtain ⟨tokens, -, hissued, -⟩ := Sessions.issued_of_run ht'
  rw [sessions_snoc hrun hs]
  refine ⟨t', Machine.run_append_eq_some.mpr ⟨t, ht, ht'⟩, hinUse', fun token hmem => ?_⟩
  rw [hissued]
  refine List.mem_append_left _ ?_
  rcases List.mem_append.mp hmem with hmem | hmem
  · exact hown token hmem
  · obtain ⟨i, sent, uuid, address, claims, rfl, hpresented⟩ := presented_of_mem hmem
    obtain ⟨hbearer, hverify⟩ := presented_eq_some.mp hpresented
    obtain ⟨userId, hlogin⟩ := (hunforged.append.2 s hrun).1 token claims hbearer hverify
    exact hinUse.issued token userId hlogin

/-- Logging out works, over runs of both services together: a token that was accepted once is
accepted until a minute after its expiry, unless it was logged out, and then every request that
presents it before its expiry is refused. -/
theorem logout_holds (b : Backend) (ι : Type) [DecidableEq ι] (d : Deployment)
    (hJ : d.setup.gateway.jwt.Lawful) (active : KeyMaterial) (retired : List KeyMaterial) (ttl : ℕ)
    (htokens : d.setup.tokens = .new active retired ttl) (es : List (Event ι)) (s : Platform ι b)
    (hrun : (machine ι b d).run (init ι b d) es = some s)
    (hunforged : (machine ι b d).EveryStep (Unforged d) (init ι b d) es)
    (hfresh : ((sessions d (init ι b d) es).filterMap Sessions.Event.drawn).Nodup)
    (token : String) (claims : Claims) (haccepts : Accepts d es s token claims)
    (sent : HttpRequest) (uuid : String)
    (hbearer : bearer (correlated sent uuid).1.headers = .ok token) :
    (¬LogsOut d es s claims →
      (authenticated d.setup.gateway.jwt s.system.tokens s.system.now
        (correlated sent uuid).1.headers = .ok claims ↔ s.system.now ≤ claims.exp + 60)) ∧
    (LogsOut d es s claims → s.system.now < claims.exp →
      authenticated d.setup.gateway.jwt s.system.tokens s.system.now
        (correlated sent uuid).1.headers = .error .invalidToken) := by
  obtain ⟨t, ht, hinUse, hown⟩ := sessions_of_run htokens hrun hunforged
  have hid : t.Identified := Sessions.identified_of_issued hJ ht hfresh hown
  have hstart : (Sessions.start 0 active retired ttl).Remembered := fun c hc => by cases hc
  obtain ⟨hremembered, hinv⟩ := hstart.run Sessions.inv_start ht hid
  have hmem : (token, claims) ∈ t.accepted := (hinUse.accepted token claims).mpr haccepts
  have hauthenticated : authenticated d.setup.gateway.jwt s.system.tokens s.system.now
      (correlated sent uuid).1.headers = t.service.verify d.setup.gateway.jwt t.now token := by
    simp only [authenticated, hbearer, hinUse.service, hinUse.now]
  have hleeway : t.service.validation.leeway = 60 := by
    have hconfigured : s.Configured d := Machine.run_invariant (M := machine ι b d)
      (Configured d) (fun _ _ _ h hs => h.step hs) configured_init hrun
    rw [hinUse.service, hconfigured.validation, htokens]
    rfl
  rw [hauthenticated, ← hinUse.now]
  refine ⟨fun hkept => ?_, fun hout hexp => ?_⟩
  · rw [Sessions.verify_of_not_revoked hJ hinv hid hmem
      fun hc => hkept ((hinUse.revoked claims).mp hc), hleeway, Nat.sub_le_iff_le_add]
  · exact hremembered.verify hJ hinv hmem ((hinUse.revoked claims).mpr hout) hexp

end Platform

/-! ### A run -/

namespace Platform

open AuthService

/-- A `POST` to `/logout` with a token logs out. -/
lemma serve_of_post {g : Gateway} {json : HttpRequest → Except Response LoginRequest}
    {tokens : TokenService} {now : ℕ} {request : HttpRequest} {claims : Claims}
    (hpath : request.path = "/logout") (hmethod : request.method = .post)
    (hauth : authenticated g.jwt tokens now request.headers = .ok claims) :
    serve g json tokens now request = .logout claims := by
  rw [serve, if_neg (by rw [hpath]; decide), if_pos hpath]
  simp only [logout, hmethod, hauth]

lemma step_loggedOut {ι : Type} [DecidableEq ι] {b : Backend} {d : Deployment}
    {s : Platform ι b} {i : ι} {sent : HttpRequest} {uuid : String} {address : Option IpAddr}
    {claims : Claims} (hi : s.system.exchange i = none)
    (hserve : serve d.setup.gateway d.json s.system.tokens s.system.now (correlated sent uuid).1 =
      .logout claims) : (machine ι b d).step s (.request i sent uuid address) =
      some ((s.put i ⟨(correlated sent uuid).1, (correlated sent uuid).2, none,
        some (.empty 204)⟩).revoke claims) := by
  simp only [step, hi, hserve]

namespace Sample

open System.Sample

def signOut : HttpRequest :=
  ⟨.post, "/logout", [("Authorization", .ofText ("bearer " ++ token))], []⟩

/-- alice logs in and logs out. -/
def leaving : List (Event ℕ) := logging ++ [.request 0 signOut uuid none]

def left : Platform ℕ .sqlite := (loggedIn.put 0 ⟨(correlated signOut uuid).1,
  (correlated signOut uuid).2, none, some (.empty 204)⟩).revoke alice

lemma bearer_signOut : bearer (correlated signOut uuid).1.headers = .ok token :=
  bearer_eq_ok (by decide +kernel) visible_token rfl

lemma presented_signOut : presented deployed loggedIn signOut uuid = some (token, alice) := by
  obtain ⟨-, -, htokens, hnow, -⟩ := loggedIn_eq
  refine presented_eq_some.mpr ⟨bearer_signOut, ?_⟩
  rw [htokens, hnow]
  exact verify_token

lemma loggedOut_signOut : loggedOut deployed loggedIn signOut uuid = some alice := by
  have hauth : authenticated deployed.setup.gateway.jwt loggedIn.system.tokens
      loggedIn.system.now (correlated signOut uuid).1.headers = .ok alice := by
    obtain ⟨hbearer, hverify⟩ := presented_eq_some.mp presented_signOut
    exact authenticated_eq_ok.mpr ⟨token, hbearer, hverify⟩
  exact loggedOut_eq_some.mpr (serve_of_post (by decide) (by decide) hauth)

lemma step_signOut : (machine ℕ .sqlite deployed).step loggedIn (.request 0 signOut uuid none) =
    some left :=
  step_loggedOut loggedIn_eq.2.1 (loggedOut_eq_some.mp loggedOut_signOut)

lemma run_leaving : (machine ℕ .sqlite deployed).run (init ℕ .sqlite deployed) leaving =
    some left :=
  Machine.run_append_eq_some.mpr
    ⟨loggedIn, run_logging, Machine.run_cons_eq_some.mpr ⟨left, step_signOut, rfl⟩⟩

lemma unforged_leaving : (machine ℕ .sqlite deployed).EveryStep (Unforged deployed)
    (init ℕ .sqlite deployed) leaving := by
  refine unforged.append.1.concat fun s hs => ?_
  obtain rfl := Option.some.inj (run_logging.symm.trans hs)
  refine ⟨fun token' claims hbearer _ => ⟨alice.sub, ?_⟩, fun s _ => trivial⟩
  rw [bearer_signOut] at hbearer
  obtain rfl := Except.ok.inj hbearer
  exact loggedIn_eq.1

lemma fresh_leaving : ((sessions deployed (init ℕ .sqlite deployed) leaving).filterMap
    Sessions.Event.drawn).Nodup := by
  have hlast : (sessionEvents deployed loggedIn (.request 0 signOut uuid none)).filterMap
      Sessions.Event.drawn = [] := by
    simp only [sessionEvents, presented_signOut, loggedOut_signOut]
    rfl
  rw [leaving, sessions_snoc run_logging step_signOut, List.filterMap_append, hlast,
    List.append_nil]
  decide +kernel

end Sample

open Sample System.Sample in
/-- Once alice is logged out, her token is refused. -/
theorem logout_holds_alice : ∃ s : Platform ℕ .sqlite,
    (machine ℕ .sqlite deployed).run (init ℕ .sqlite deployed) leaving = some s ∧
    LogsOut deployed leaving s alice ∧
    authenticated deployed.setup.gateway.jwt s.system.tokens s.system.now
      (correlated signOut uuid).1.headers = .error .invalidToken := by
  have hpasses : (machine ℕ .sqlite deployed).Passes (init ℕ .sqlite deployed) leaving left
      (.request 0 signOut uuid none) loggedIn left :=
    Machine.passes_last run_logging step_signOut
  have hout : LogsOut deployed leaving left alice :=
    ⟨0, signOut, uuid, none, loggedIn, left, hpasses, loggedOut_signOut⟩
  have hnow : left.system.now < alice.exp := by
    change loggedIn.system.now < alice.exp
    rw [loggedIn_eq.2.2.2.1]
    decide
  exact ⟨left, run_leaving, hout, (logout_holds .sqlite ℕ deployed (Jwt.ofTokens_lawful _)
    ⟨"k1", "s1"⟩ [] 900 rfl leaving left run_leaving unforged_leaving fresh_leaving token alice
    ⟨0, signOut, uuid, none, loggedIn, left, hpasses, presented_signOut⟩ signOut uuid
    bearer_signOut).2 hout hnow⟩

end Platform

end Knova
