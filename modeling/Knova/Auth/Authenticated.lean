import Knova.Auth.LoginProgress

/-!
# Whoever is issued a token presented the password

A login issues a token only when the password of the account was verified, in every run of
logins and whatever else they did.
-/

namespace Knova

open Library

/-- Whoever is authenticated has an account, and its password was offered. -/
lemma UserDirectory.authenticate_eq_authenticated {A : Argon2} {decoyHash : String}
    {users : UserDirectory} {username offered : String} {account : UserRecord}
    (h : (users.authenticate A decoyHash username offered).1 = .authenticated account) :
    users.byUsername.lookup username = some account ∧
      (A.verify offered account.passwordHash).1 = true := by
  unfold authenticate at h
  dsimp only at h
  split at h
  · rename_i user hlookup hmatched
    obtain rfl := Authentication.authenticated.inj h
    rw [hlookup] at hmatched
    exact ⟨hlookup, hmatched⟩
  · cases h

/-- A login that asked for a token was authenticated. -/
lemma Login.Reached.of_issue {request : LoginRequest} {address : Option IpAddr}
    {log : List (Prog.Performed LoginE)} {rest : LoginProg LoginAnswer} {userId : UserId}
    {username : String} {r : (LoginAct.issue userId username).Ans}
    (h : Reached request address log rest) (hmem : ⟨.issue userId username, r⟩ ∈ log) :
    ∃ throttled account, account.id = userId ∧ account.username = username ∧
      ⟨.authenticate request.username (offered request throttled),
        some (.authenticated account)⟩ ∈ log := by
  cases h with
  | concluding throttled outcome log' rest' hconcluding =>
    cases hconcluding with
    | answered account r' answer =>
      simp only [passed, List.cons_append, List.mem_append, List.mem_cons, List.mem_map,
        List.not_mem_nil] at hmem
      rcases hmem with h | ⟨source, -, h⟩ | h | h | h | h | h <;> cases h
      exact ⟨throttled, account, rfl, rfl, by simp⟩
    | panicked | recording | recordingAddress | rejected | clearing | issuing =>
      simp [passed] at hmem
  | arrived | shed | checkingAddress | refusing | refused | checkingAccount | verifying =>
    simp [passed] at hmem

namespace Logins

variable {ι : Type} [DecidableEq ι] {cfg : LoginSettings} {s s' : Logins ι} {token : String}
  {userId : UserId}

/-- Logins issue tokens, and leave the keys and the revocations alone. -/
lemma tokens_of_step {e : Event ι} (hs : step cfg s e = some s') :
    s'.state.tokens = s.state.tokens := by
  obtain ⟨i, request, address, -, -, rfl⟩ | ⟨i, draw, x, a, k, r, state, -, -, -, -, hexec, rfl⟩ |
    ⟨i, x, username, offered, k, -, -, -, -, -, rfl⟩ | ⟨i, panics, v, -, -, -, rfl⟩ |
    ⟨i, x, username, offered, k, v, outcome, -, -, -, -, -, -, rfl⟩ |
    ⟨i, x, username, offered, k, v, -, -, -, -, -, rfl⟩ | ⟨d, -, rfl⟩ := step_cases hs
  case inr.inl =>
    cases a with
    | acquire =>
      simp only [Login.exec] at hexec
      split at hexec <;> cases hexec <;> rfl
    | authenticate => cases hexec
    | release | overAddress | overAccount | bumpAccount | bumpAddress | recordSuccess | issue =>
      cases hexec
      rfl
  all_goals rfl

/-- A login was issued a token for an account. -/
def IssuedFor (s : Logins ι) (token : String) (userId : UserId) : Prop :=
  ∃ i x t username ttlSecs, s.attempt i = some x ∧
    (t, ⟨.issue userId username, (.ok token, ttlSecs)⟩) ∈ x.log

/-- What the logins of a run have done. -/
structure Sound (cfg : LoginSettings) (s : Logins ι) : Prop where
  tracked : s.Tracked
  /-- A verification ends as the directory says. -/
  checked : ∀ i v outcome, s.verification i = some v → v.outcome = some (some outcome) →
    outcome = (cfg.users.authenticate cfg.argon2 cfg.decoyHash v.username v.offered).1

omit [DecidableEq ι] in
lemma sound_start {state : AppState} : (start ι state).Sound cfg where
  tracked := tracked_start
  checked i v outcome h := by cases h

lemma Sound.step (h : s.Sound cfg) {e : Event ι} (hs : Logins.step cfg s e = some s') :
    s'.Sound cfg := by
  refine ⟨h.tracked.step hs, ?_⟩
  obtain ⟨i, request, address, -, -, rfl⟩ | ⟨i, draw, x, a, k, r, state, -, -, -, -, -, rfl⟩ |
    ⟨i, x, username, offered, k, -, -, -, -, -, rfl⟩ | ⟨i, panics, v, -, hv, -, rfl⟩ |
    ⟨i, x, username, offered, k, v, outcome, -, -, -, -, -, -, rfl⟩ |
    ⟨i, x, username, offered, k, v, -, -, -, -, -, rfl⟩ | ⟨d, -, rfl⟩ := step_cases hs
  · exact h.checked
  · exact h.checked
  · intro j w outcome hw hout
    obtain ⟨rfl, rfl⟩ | ⟨-, hj⟩ := update_eq_some hw
    · cases hout
    · exact h.checked j w outcome hj hout
  · intro j w outcome hw hout
    obtain ⟨rfl, rfl⟩ | ⟨-, hj⟩ := update_eq_some hw
    · dsimp only at hout
      split at hout
      · cases hout
      · exact (Option.some.inj (Option.some.inj hout)).symm
    · exact h.checked j w outcome hj hout
  · exact h.checked
  · exact h.checked
  · exact h.checked

/-- Tokens that were issued once a handler was updated. -/
lemma issuedFor_update {i : ι} {y : LoginAttempt}
    (hs' : s'.attempt = Function.update s.attempt i (some y)) (h : s'.IssuedFor token userId) :
    s.IssuedFor token userId ∨ ∃ t username ttlSecs,
      (t, ⟨.issue userId username, (.ok token, ttlSecs)⟩) ∈ y.log := by
  obtain ⟨j, x, t, username, ttlSecs, hx, hmem⟩ := h
  rw [hs'] at hx
  obtain ⟨rfl, rfl⟩ | ⟨-, hj⟩ := update_eq_some hx
  · exact .inr ⟨t, username, ttlSecs, hmem⟩
  · exact .inl ⟨j, x, t, username, ttlSecs, hj, hmem⟩

/-- The login `i` is issued a token for an account. -/
structure Issues (cfg : LoginSettings) (s s' : Logins ι) (i : ι) (draw : Login.Draw)
    (token : String) (userId : UserId) (username : String) : Prop where
  logged : ∃ x log ttlSecs, s'.attempt i = some x ∧
    x.log = log ++ [(s.now, ⟨.issue userId username, (.ok token, ttlSecs)⟩)]
  signed : cfg.jwt.encode ⟨.hs256, some s.state.tokens.activeKid⟩
    (s.state.tokens.claims draw.unixNow draw.jti userId username) s.state.tokens.encoding =
      some token

/-- A step answers one call at most. -/
lemma issuedFor_answer {i : ι} {x : LoginAttempt} {a : LoginAct} {r : a.Ans}
    {rest : LoginProg LoginAnswer} (hx : s.attempt i = some x)
    (hs' : s'.attempt = s.answer i x a r rest) (h : s'.IssuedFor token userId) :
    s.IssuedFor token userId ∨ ∃ username ttlSecs,
      (⟨a, r⟩ : Prog.Performed LoginE) = ⟨.issue userId username, (.ok token, ttlSecs)⟩ := by
  rcases issuedFor_update hs' h with h | ⟨t, username, ttlSecs, hmem⟩
  · exact .inl h
  · rcases List.mem_append.mp hmem with hmem | hmem
    · exact .inl ⟨i, x, t, username, ttlSecs, hx, hmem⟩
    · exact .inr ⟨username, ttlSecs, (Prod.mk.inj (List.mem_singleton.mp hmem)).2.symm⟩

/-- Tokens are issued when a login asks for one, and then they are signed. -/
theorem issues_of_step {e : Event ι} (hs : step cfg s e = some s')
    (hissued : s'.IssuedFor token userId) : s.IssuedFor token userId ∨
      ∃ i draw username, e = .act i draw ∧ Issues cfg s s' i draw token userId username := by
  obtain ⟨i, request, address, -, -, rfl⟩ |
    ⟨i, draw, x, a, k, r, state, rfl, hx, -, -, hexec, rfl⟩ |
    ⟨i, x, username, offered, k, -, -, -, -, -, rfl⟩ | ⟨i, panics, v, -, -, -, rfl⟩ |
    ⟨i, x, username, offered, k, v, outcome, -, hx, -, -, -, -, rfl⟩ |
    ⟨i, x, username, offered, k, v, -, hx, -, -, -, rfl⟩ | ⟨d, -, rfl⟩ := step_cases hs
  · rcases issuedFor_update rfl hissued with hissued | ⟨t, username, ttlSecs, hmem⟩
    · exact .inl hissued
    · cases hmem
  · rcases issuedFor_answer hx rfl hissued with hissued | ⟨username, ttlSecs, heq⟩
    · exact .inl hissued
    · cases heq
      refine .inr ⟨i, draw, username, rfl, ?_, ?_⟩
      · exact ⟨_, x.log, ttlSecs, Function.update_self .., rfl⟩
      · obtain ⟨hans, -⟩ := Prod.mk.inj (Option.some.inj hexec)
        have hissue := (Prod.mk.inj hans).1
        unfold TokenService.issue at hissue
        split at hissue
        · cases hissue
        · rename_i token' hencode
          obtain rfl := Except.ok.inj hissue
          exact hencode
  · exact .inl hissued
  · exact .inl hissued
  · rcases issuedFor_answer hx rfl hissued with hissued | ⟨username', ttlSecs, heq⟩
    · exact .inl hissued
    · cases heq
  · rcases issuedFor_update (y := { x with dropped := true }) rfl hissued with
      hissued | ⟨t, username', ttlSecs, hmem⟩
    · exact .inl hissued
    · exact .inl ⟨i, x, t, username', ttlSecs, hx, hmem⟩
  · exact .inl hissued

/-- The login `i` presented the password of an account. -/
def Presented (cfg : LoginSettings) (s : Logins ι) (i : ι) (userId : UserId) (username : String) :
    Prop :=
  ∃ x account, s.attempt i = some x ∧
    cfg.users.byUsername.lookup x.request.username = some account ∧
    account.id = userId ∧ account.username = username ∧
    (cfg.argon2.verify x.request.password account.passwordHash).1 = true

omit [DecidableEq ι] in
/-- Whoever was issued a token presented the password. -/
theorem Sound.presented (h : s.Sound cfg)
    (hunmatchable : ∀ username account, cfg.users.byUsername.lookup username = some account →
      (cfg.argon2.verify Login.unmatchable account.passwordHash).1 = false)
    {i : ι} {x : LoginAttempt} {username : String} {t : ℕ}
    {r : (LoginAct.issue userId username).Ans}
    (hx : s.attempt i = some x) (hmem : (t, ⟨.issue userId username, r⟩) ∈ x.log) :
    s.Presented cfg i userId username := by
  obtain ⟨throttled, account, rfl, rfl, hauthenticated⟩ :=
    (h.tracked.reached hx).of_issue (List.mem_map_of_mem hmem)
  obtain ⟨v, hv, houtcome⟩ := h.tracked.resumed i x _ _ _ hx hauthenticated
  obtain ⟨x', throttled', log, hx', husername, hoffered, -⟩ := h.tracked.asked i v hv
  rw [hx] at hx'
  obtain rfl := Option.some.inj hx'
  obtain ⟨hlookup, hverify⟩ :=
    UserDirectory.authenticate_eq_authenticated (h.checked i v _ hv houtcome).symm
  rw [husername] at hlookup
  rw [hoffered] at hverify
  -- no account can be authenticated while it is throttled
  cases throttled' with
  | true =>
    have := hunmatchable _ _ hlookup
    rw [Login.offered, if_pos rfl] at hverify
    rw [hverify] at this
    cases this
  | false => exact ⟨x, account, hx, hlookup, rfl, rfl, hverify⟩

end Logins

end Knova
