import Knova.Auth.Error
import Knova.Library.HashMap

/-!
# Bearer tokens

Issuing, verification and revocation. `jsonwebtoken` is a parameter; what the service
relies on is stated as `Jwt.Lawful`. Clock readings are whole seconds and are arguments, as
are the identifiers `Uuid::new_v4` draws.
-/

namespace Knova

open Library

/-- One signing or verification key, named by its `kid`. -/
structure KeyMaterial where
  kid : String
  secret : String
  deriving DecidableEq

/-- Claims carried by an issued token. -/
structure Claims where
  sub : UserId
  username : String
  jti : String
  exp : ℕ
  iat : ℕ
  deriving DecidableEq

/-- The algorithms `jsonwebtoken` knows. -/
inductive Algorithm
  | hs256
  | hs384
  | hs512
  | es256
  | es384
  | rs256
  | rs384
  | rs512
  | ps256
  | ps384
  | ps512
  | edDsa
  deriving DecidableEq

/-- The header of a token, as far as the service writes or reads it. -/
structure Header where
  alg : Algorithm
  kid : Option String
  deriving DecidableEq

/-- What `decode` checks beyond the signature. -/
structure Validation where
  algorithms : List Algorithm
  requiredSpecClaims : List String
  /-- Seconds for which an expired token is still accepted. -/
  leeway : ℕ
  deriving DecidableEq

/-- `Validation::new`. -/
def Validation.new (alg : Algorithm) : Validation := ⟨[alg], ["exp"], 60⟩

/-- The functions of `jsonwebtoken` the service calls, for HMAC secrets; `none` is an error. -/
structure Jwt where
  encode : Header → Claims → String → Option String
  decodeHeader : String → Option Header
  decode : (token secret : String) → Validation → (now : ℕ) → Option Claims

/-- What the service relies on. -/
structure Jwt.Lawful (J : Jwt) : Prop where
  /-- A token carries the header it was encoded with. -/
  header : ∀ h c secret token, J.encode h c secret = some token → J.decodeHeader token = some h
  /-- A token verifies exactly under the secret that signed it, and carries its claims. -/
  signed : ∀ h c secret token, J.encode h c secret = some token →
    ∀ secret' (v : Validation) now c', J.decode token secret' v now = some c' ↔
      secret' = secret ∧ h.alg ∈ v.algorithms ∧ now - v.leeway ≤ c.exp ∧ c' = c
  /-- A token that was accepted once is accepted as long as its expiry and the leeway say. -/
  expiry : ∀ token secret (v : Validation) now c, J.decode token secret v now = some c →
    ∀ now' c', J.decode token secret v now' = some c' ↔ now' - v.leeway ≤ c.exp ∧ c' = c

namespace Jwt

/-- A codec that knows finitely many tokens, each with the header, the claims and the secret
it was made from. -/
def ofTokens (known : HashMap String (Header × Claims × String)) : Jwt where
  encode h c secret :=
    (known.entries.find? fun q => decide (q.2 = (h, c, secret))).map Sigma.fst
  decodeHeader token := (known.lookup token).map Prod.fst
  decode token secret v now :=
    match known.lookup token with
    | some (h, c, secret') =>
      if secret = secret' ∧ h.alg ∈ v.algorithms ∧ now - v.leeway ≤ c.exp then some c else none
    | none => none

lemma ofTokens_lawful (known : HashMap String (Header × Claims × String)) :
    (ofTokens known).Lawful := by
  have hlookup : ∀ {h c secret token}, (ofTokens known).encode h c secret = some token →
      known.lookup token = some (h, c, secret) := by
    intro h c secret token he
    obtain ⟨⟨token', q⟩, hfind, rfl⟩ := Option.map_eq_some_iff.mp he
    obtain rfl : q = (h, c, secret) := by simpa using List.find?_some hfind
    exact AList.mem_lookup_iff.mpr (List.mem_of_find?_eq_some hfind)
  refine ⟨fun h c secret token he => ?_, fun h c secret token he secret' v now c' => ?_,
    fun token secret v now c hd now' c' => ?_⟩
  · simp [ofTokens, hlookup he]
  · simp [ofTokens, hlookup he, and_assoc, eq_comm]
  · simp only [ofTokens] at hd ⊢
    cases hknown : known.lookup token with
    | none => simp [hknown] at hd
    | some q =>
      obtain ⟨h, c₀, secret₀⟩ := q
      simp only [hknown, Option.ite_none_right_eq_some, Option.some.injEq] at hd ⊢
      obtain ⟨⟨hsecret, halg, -⟩, rfl⟩ := hd
      simp [hsecret, halg, eq_comm]

lemma decode_ofTokens {known : HashMap String (Header × Claims × String)} {token secret : String}
    {h : Header} {c : Claims} {v : Validation} {now : ℕ}
    (hknown : known.lookup token = some (h, c, secret)) (halg : h.alg ∈ v.algorithms)
    (hexp : now - v.leeway ≤ c.exp) : (ofTokens known).decode token secret v now = some c := by
  simpa [ofTokens, hknown, halg] using hexp

end Jwt

/-- Signs, validates and revokes claims. -/
structure TokenService where
  activeKid : String
  encoding : String
  /-- Every key whose tokens are still accepted, by its `kid`. -/
  decoding : HashMap String String
  validation : Validation
  ttl : ℕ
  /-- Revoked `jti`s mapped to the expiry after which they can be forgotten. -/
  revoked : HashMap String ℕ

namespace TokenService

/-- Builds a service that signs with `active` and also accepts tokens signed by any key in
`retired`. -/
def new (active : KeyMaterial) (retired : List KeyMaterial) (ttl : ℕ) : TokenService where
  activeKid := active.kid
  encoding := active.secret
  decoding := (active :: retired).foldl (fun decoding key => decoding.insert key.kid key.secret) ∅
  validation := { Validation.new .hs256 with
    algorithms := [.hs256], requiredSpecClaims := ["exp", "sub"] }
  ttl := ttl
  revoked := ∅

/-- Lifetime of tokens issued by this service, in seconds. -/
def ttlSecs (s : TokenService) : ℕ := s.ttl

/-- The claims of a token issued at `now`; `exp` is a `u64`. -/
def claims (s : TokenService) (now : ℕ) (jti : String) (userId : UserId) (username : String) :
    Claims :=
  ⟨userId, username, jti, (now + s.ttl) % 2 ^ 64, now⟩

/-- Issues a token for the given account. -/
def issue (J : Jwt) (s : TokenService) (now : ℕ) (jti : String) (userId : UserId)
    (username : String) : Except AppError String :=
  match J.encode ⟨.hs256, some s.activeKid⟩ (s.claims now jti userId username) s.encoding with
  | none => .error .tokenSigning
  | some token => .ok token

/-- Validates a token's key, signature, algorithm, expiry and revocation. -/
def verify (J : Jwt) (s : TokenService) (now : ℕ) (token : String) : Except AppError Claims :=
  match (J.decodeHeader token).bind Header.kid with
  | none => .error .invalidToken
  | some kid =>
    match s.decoding.lookup kid with
    | none => .error .invalidToken
    | some key =>
      match J.decode token key s.validation now with
      | none => .error .invalidToken
      | some claims => if claims.jti ∈ s.revoked then .error .invalidToken else .ok claims

/-- Revokes a single token, effective immediately. -/
def revoke (s : TokenService) (now : ℕ) (claims : Claims) : TokenService :=
  { s with
    revoked := (s.revoked.retain fun _ expiry => decide (expiry > now)).insert claims.jti
      claims.exp }

/-- How many revocations are currently retained. -/
def revokedCount (s : TokenService) : ℕ := s.revoked.keys.length

variable {J : Jwt} {s : TokenService} {now : ℕ} {token : String} {claims : Claims}

/-- What an accepted token passed. -/
theorem verify_eq_ok : s.verify J now token = .ok claims ↔ ∃ kid key,
    (J.decodeHeader token).bind Header.kid = some kid ∧ s.decoding.lookup kid = some key ∧
    J.decode token key s.validation now = some claims ∧ claims.jti ∉ s.revoked := by
  unfold verify
  constructor
  · intro h
    split at h
    · cases h
    · rename_i kid hkid
      split at h
      · cases h
      · rename_i key hkey
        split at h
        · cases h
        · rename_i c hdecode
          split at h
          · cases h
          · rename_i hrevoked
            obtain rfl := Except.ok.inj h
            exact ⟨kid, key, hkid, hkey, hdecode, hrevoked⟩
  · rintro ⟨kid, key, hkid, hkey, hdecode, hrevoked⟩
    simp only [hkid, hkey, hdecode, if_neg hrevoked]

/-- Every rejection reads the same. -/
theorem verify_error {e : AppError} (h : s.verify J now token = .error e) :
    e = .invalidToken := by
  unfold verify at h
  repeat' split at h
  all_goals cases h
  all_goals rfl

lemma lookup_revoked_revoke {jti : String} : (s.revoke now claims).revoked.lookup jti =
    if jti = claims.jti then some claims.exp
    else (s.revoked.lookup jti).filter fun expiry => decide (expiry > now) := by
  simp only [revoke]
  split
  · rename_i heq
    rw [heq, AList.lookup_insert]
  · rename_i hne
    rw [AList.lookup_insert_ne hne, HashMap.lookup_retain]

end TokenService

/-! ### Two tokens signed under one key -/

namespace Jwt.Sample

def key : KeyMaterial := ⟨"k1", "s1"⟩

def alice : Claims := ⟨⟨"u1"⟩, "alice", "a", 1700000900, 1700000000⟩

def bob : Claims := ⟨⟨"u2"⟩, "bob", "b", 1700000910, 1700000010⟩

def aliceToken : String :=
  "eyJ0eXAiOiJKV1QiLCJhbGciOiJIUzI1NiIsImtpZCI6ImsxIn0." ++
  "eyJzdWIiOiJ1MSIsInVzZXJuYW1lIjoiYWxpY2UiLCJqdGkiOiJhIiwiZXhwIjoxNzAwMDAwOTAwLCJpYXQi" ++
  "OjE3MDAwMDAwMDB9.PHsSWSbYnOWuNHMnBI49L6PJ-n4godMMsFy1mKQYM_w"

def bobToken : String :=
  "eyJ0eXAiOiJKV1QiLCJhbGciOiJIUzI1NiIsImtpZCI6ImsxIn0." ++
  "eyJzdWIiOiJ1MiIsInVzZXJuYW1lIjoiYm9iIiwianRpIjoiYiIsImV4cCI6MTcwMDAwMDkxMCwiaWF0Ijox" ++
  "NzAwMDAwMDEwfQ.Xx9mzNCcmQDbAEsQ8mz-6ntJyRZronk0yCx_c0dSXJQ"

def codec : Jwt := .ofTokens
  ((AList.singleton bobToken (⟨.hs256, some "k1"⟩, bob, "s1")).insert aliceToken
    (⟨.hs256, some "k1"⟩, alice, "s1"))

end Jwt.Sample

end Knova
