import Knova.Auth.Config
import Knova.Auth.Login
import Knova.Auth.Rotation

/-!
# The lifetime of a token

Login answers a lifetime, the token carries an expiry, and verification enforces one. They
agree, but for the leeway of the library and an expiry beyond a `u64`.
-/

namespace Knova

open Library

/-- A token determines the claims it was made from. -/
lemma Jwt.Lawful.claims_unique {J : Jwt} (hJ : J.Lawful) {h h' : Header} {c c' : Claims}
    {secret secret' token : String} (he : J.encode h c secret = some token)
    (he' : J.encode h' c' secret' = some token) : c = c' := by
  have hdecode : J.decode token secret ⟨[h.alg, h'.alg], [], 0⟩ 0 = some c :=
    (hJ.signed _ _ _ _ he _ _ _ _).mpr ⟨rfl, by simp, by simp, rfl⟩
  exact ((hJ.signed _ _ _ _ he' _ _ _ _).mp hdecode).2.2.2

namespace AuthService

open TokenService

/-- Where no `kid` is repeated, the active key is kept. -/
lemma kept_active {active : KeyMaterial} {retired : List KeyMaterial}
    (hkids : ((active :: retired).map KeyMaterial.kid).Nodup) :
    kept (active :: retired) active.kid = some active := by
  have hretired : retired.filter (fun key => key.kid = active.kid) = [] := by
    refine List.filter_eq_nil_iff.mpr fun key hkey => ?_
    have hne := (List.nodup_cons.mp hkids).1
    simp only [decide_eq_true_eq]
    exact fun heq => hne (heq ▸ List.mem_map_of_mem hkey)
  simp [kept, hretired]

/-- A token answered at `iat` is verified at `now`, as its `response` says. -/
structure LivesAsTold (J : Jwt) (service : TokenService) (ttl iat : ℕ) (jti : String)
    (response : LoginResponse) (now : ℕ) : Prop where
  exp : ∃ header claims secret, J.encode header claims secret = some response.accessToken ∧
    claims.exp = iat + ttl
  accepted : iat ≤ now → now ≤ iat + response.expiresIn → jti ∉ service.revoked →
    ∃ claims, service.verify J now response.accessToken = .ok claims
  rejected : iat + response.expiresIn < now →
    ∃ e, service.verify J now response.accessToken = .error e

/-- What a login that succeeds answers. -/
lemma issue_of_conclude {J : Jwt} {instant : ℕ} {draw : Login.Draw} {username : String}
    {address : Option IpAddr} {user : UserRecord} {state state' : AppState}
    {response : LoginResponse}
    (h : (Login.conclude username address (some (.authenticated user))).eval
      (Login.exec J instant draw) state = some (.ok response, state')) :
    state.tokens.issue J draw.unixNow draw.jti user.id user.username =
      .ok response.accessToken ∧ response.expiresIn = state.tokens.ttlSecs ∧
      state'.tokens = state.tokens := by
  obtain ⟨r, state₁, hrecord, h⟩ := Prog.eval_act_eq_some h
  obtain ⟨-, rfl⟩ := Prod.mk.inj (Option.some.inj hrecord)
  obtain ⟨⟨issued, ttlSecs⟩, state₂, hissue, h⟩ := Prog.eval_act_eq_some h
  obtain ⟨hissued, rfl⟩ := Prod.mk.inj (Option.some.inj hissue)
  obtain ⟨htoken, rfl⟩ := Prod.mk.inj hissued
  cases issued with
  | error e => cases h
  | ok accessToken =>
    obtain ⟨hanswer, rfl⟩ := Prod.mk.inj (Option.some.inj h)
    obtain rfl := Except.ok.inj hanswer
    exact ⟨htoken, rfl, rfl⟩

/-- Revocations change nothing that is issued. -/
lemma issue_revokeAll {J : Jwt} {service : TokenService} (revocations : List (ℕ × Claims)) :
    (service.revokeAll revocations).issue J = service.issue J ∧
    (service.revokeAll revocations).ttlSecs = service.ttlSecs := by
  induction revocations generalizing service with
  | nil => exact ⟨rfl, rfl⟩
  | cons r revocations ih => exact @ih (service.revoke r.1 r.2)

/-- When a token of the configured service verifies. -/
lemma verify_iff {J : Jwt} (hJ : J.Lawful) {config : Config}
    (hkids : ((config.activeKey :: config.retiredKeys).map KeyMaterial.kid).Nodup)
    {revocations : List (ℕ × Claims)} {claims : Claims} {token : String} {now : ℕ}
    (he : J.encode ⟨.hs256, some config.activeKey.kid⟩ claims config.activeKey.secret =
      some token) :
    (∃ c, (config.tokens.revokeAll revocations).verify J now token = .ok c) ↔
      now - 60 ≤ claims.exp ∧ claims.jti ∉ (config.tokens.revokeAll revocations).revoked := by
  obtain ⟨hdecoding, hvalidation, -⟩ := revokeAll_frame config.tokens revocations
  constructor
  · rintro ⟨c, hc⟩
    obtain ⟨kid, key, -, -, hdecode, hrevoked⟩ := verify_eq_ok.mp hc
    rw [hvalidation] at hdecode
    obtain ⟨-, -, hexp, rfl⟩ := (hJ.signed _ _ _ _ he _ _ _ _).mp hdecode
    exact ⟨hexp, hrevoked⟩
  · rintro ⟨hexp, hrevoked⟩
    refine ⟨claims, verify_eq_ok.mpr ⟨config.activeKey.kid, config.activeKey.secret, ?_, ?_, ?_,
      hrevoked⟩⟩
    · rw [hJ.header _ _ _ _ he]
      rfl
    · rw [hdecoding]
      exact (lookup_foldl_insert _ _).trans (by rw [kept_active hkids]; rfl)
    · rw [hvalidation]
      exact (hJ.signed _ _ _ _ he _ _ _ _).mpr ⟨rfl, by simp [Config.tokens, new], hexp, rfl⟩

/-- For every configuration without repeated `kid`s, every login and every later revocations:
the token lives as told exactly when its expiry fits a `u64` and it is not verified, unrevoked,
in the minute after it expires. -/
theorem lifetime (J : Jwt) (hJ : J.Lawful) (env : String → Option String) (config : Config)
    (ttl : ℕ) (httl : parseU64 (Config.var env "TOKEN_TTL_SECS" "900").toList = some ttl)
    (hconfig : Config.fromEnv env = .ok config)
    (hkids : ((config.activeKey :: config.retiredKeys).map KeyMaterial.kid).Nodup)
    (earlier later : List (ℕ × Claims)) (throttle : LoginThrottle) (hashPermits instant : ℕ)
    (draw : Login.Draw) (username : String) (address : Option IpAddr) (user : UserRecord)
    (response : LoginResponse) (state : AppState)
    (hlogin : (Login.conclude username address (some (.authenticated user))).eval
      (Login.exec J instant draw) ⟨throttle, hashPermits, config.tokens.revokeAll earlier⟩ =
        some (.ok response, state)) (now : ℕ) :
    LivesAsTold J (state.tokens.revokeAll later) ttl draw.unixNow draw.jti response now ↔
      draw.unixNow + ttl < 2 ^ 64 ∧ ¬(draw.unixNow + ttl < now ∧ now ≤ draw.unixNow + ttl + 60 ∧
        draw.jti ∉ (state.tokens.revokeAll later).revoked) := by
  obtain rfl : ttl = config.tokenTtl :=
    Option.some.inj (httl.symm.trans (Config.fromEnv_eq_ok hconfig))
  obtain ⟨hissue, hexpires, htokens⟩ := issue_of_conclude hlogin
  dsimp only at hissue hexpires htokens
  obtain ⟨hissue', hexpires'⟩ := @issue_revokeAll J config.tokens earlier
  rw [hissue'] at hissue
  rw [hexpires'] at hexpires
  have hlater : state.tokens.revokeAll later = config.tokens.revokeAll (earlier ++ later) := by
    rw [htokens, revokeAll, revokeAll, ← List.foldl_append]
    rfl
  rw [hlater]
  have hencode : J.encode ⟨.hs256, some config.activeKey.kid⟩
      (config.tokens.claims draw.unixNow draw.jti user.id user.username)
      config.activeKey.secret = some response.accessToken := by
    unfold issue at hissue
    split at hissue
    · cases hissue
    · rename_i token he
      rw [← Except.ok.inj hissue]
      exact he
  have hverify := @verify_iff J hJ config hkids (earlier ++ later) _ _ now hencode
  have hexp : (config.tokens.claims draw.unixNow draw.jti user.id user.username).exp =
      (draw.unixNow + config.tokenTtl) % 2 ^ 64 := rfl
  have hjti : (config.tokens.claims draw.unixNow draw.jti user.id user.username).jti =
      draw.jti := rfl
  rw [hexp, hjti] at hverify
  constructor
  · rintro ⟨⟨header, claims, secret, he, hclaims⟩, -, hrejected⟩
    have hfits : draw.unixNow + config.tokenTtl < 2 ^ 64 := by
      rw [← hJ.claims_unique hencode he, hexp] at hclaims
      omega
    refine ⟨hfits, fun ⟨hlate, hslack, hrevoked⟩ => ?_⟩
    obtain ⟨e, he⟩ := hrejected (by rw [hexpires]; exact hlate)
    obtain ⟨c, hc⟩ := hverify.mpr ⟨by rw [Nat.mod_eq_of_lt hfits]; omega, hrevoked⟩
    rw [he] at hc
    cases hc
  · rintro ⟨hfits, hslack⟩
    rw [Nat.mod_eq_of_lt hfits] at hexp hverify
    refine ⟨⟨_, _, _, hencode, hexp⟩, fun _ hnow hrevoked => ?_, fun hnow => ?_⟩
    · have hnow' : now ≤ draw.unixNow + config.tokenTtl := by rwa [hexpires] at hnow
      exact hverify.mpr ⟨by omega, hrevoked⟩
    · have hnow' : draw.unixNow + config.tokenTtl < now := by rwa [hexpires] at hnow
      cases hv : (config.tokens.revokeAll (earlier ++ later)).verify J now
          response.accessToken with
      | error e => exact ⟨e, rfl⟩
      | ok c =>
        obtain ⟨hle, hrevoked⟩ := hverify.mp ⟨c, hv⟩
        exact absurd ⟨hnow', by omega, hrevoked⟩ hslack

open Jwt.Sample

namespace Sample

/-- Tokens live for 15 minutes. -/
def env (key : String) : Option String :=
  [("TOKEN_TTL_SECS", "900"), ("JWT_SECRET", "s1")].lookup key

def config : Config := ⟨"127.0.0.1:8080", key, [], 900, "alice", "correct-horse-battery-staple",
  "http://127.0.0.1:8081", "dev-only-internal-token-change-me"⟩

def state : AppState := ⟨.default, 2, config.tokens⟩

/-- What `alice` is answered. -/
def answered : Option (LoginAnswer × AppState) :=
  (Login.conclude "alice" none (some (.authenticated ⟨⟨"u1"⟩, "alice", "$argon2id$"⟩))).eval
    (Login.exec codec 0 ⟨1700000000, "a"⟩) state

end Sample

open Sample

set_option maxRecDepth 4000 in
/-- Eight minutes after the login. -/
theorem lifetime_eight_minutes :
    LivesAsTold codec config.tokens 900 1700000000 "a" ⟨aliceToken, "Bearer", 900⟩ 1700000500 :=
  (lifetime codec (Jwt.ofTokens_lawful _) env config 900 (by decide) (by decide) (by decide) [] []
    .default 2 0 ⟨1700000000, "a"⟩ "alice" none ⟨⟨"u1"⟩, "alice", "$argon2id$"⟩
    ⟨aliceToken, "Bearer", 900⟩ state rfl 1700000500).mpr ⟨by decide, by decide⟩

set_option maxRecDepth 4000 in
/-- A minute after the lifetime that login answered, the token is still accepted. -/
theorem lifetime_fails :
    Config.fromEnv env = .ok config ∧
    answered = some (.ok ⟨aliceToken, "Bearer", 900⟩, state) ∧
    config.tokens.verify codec 1700000960 aliceToken = .ok alice ∧
    ¬LivesAsTold codec config.tokens 900 1700000000 "a" ⟨aliceToken, "Bearer", 900⟩ 1700000960 := by
  refine ⟨by decide, rfl, rfl, fun h => ?_⟩
  obtain ⟨e, he⟩ := h.rejected (by decide)
  have hv : config.tokens.verify codec 1700000960 aliceToken = .ok alice := rfl
  rw [hv] at he
  cases he

end AuthService

end Knova
