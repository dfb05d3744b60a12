import Knova.Auth.Token

/-!
# Key rotation

A service accepts tokens signed under another one's active key for as long as it keeps that
key under its `kid`. Where several keys repeat a `kid`, only the last one is kept, the active
key being the first.
-/

namespace Knova.TokenService

open Library

variable {J : Jwt}

/-- The key a service keeps under a `kid`: the last one of its keys that has it. -/
def kept (keys : List KeyMaterial) (kid : String) : Option KeyMaterial :=
  (keys.filter fun key => key.kid = kid).getLast?

lemma lookup_foldl_insert (keys : List KeyMaterial) (kid : String) :
    (keys.foldl (fun decoding key => decoding.insert key.kid key.secret)
      (∅ : HashMap String String)).lookup kid = (kept keys kid).map KeyMaterial.secret := by
  induction keys using List.reverseRecOn with
  | nil => rfl
  | append_singleton keys key ih =>
    rw [List.foldl_append, List.foldl_cons, List.foldl_nil]
    by_cases hkid : key.kid = kid
    · rw [hkid, AList.lookup_insert]
      simp [kept, hkid]
    · rw [AList.lookup_insert_ne (Ne.symm hkid), ih]
      simp [kept, hkid]

lemma eq_of_kept {keys : List KeyMaterial} {key last : KeyMaterial}
    (h : kept keys key.kid = some last) (hsecret : last.secret = key.secret) : last = key := by
  have hkid : last.kid = key.kid := by
    simpa using (List.mem_filter.mp (List.mem_of_getLast? h)).2
  obtain ⟨kid, secret⟩ := key
  obtain ⟨kid', secret'⟩ := last
  exact congr (congrArg KeyMaterial.mk hkid) hsecret

/-- A service in which some revocations ran, each at its time. -/
def revokeAll (s : TokenService) (revocations : List (ℕ × Claims)) : TokenService :=
  revocations.foldl (fun s r => s.revoke r.1 r.2) s

/-- Revocations leave the keys and the validation alone, and revoke what they name only. -/
lemma revokeAll_frame (s : TokenService) (revocations : List (ℕ × Claims)) :
    (s.revokeAll revocations).decoding = s.decoding ∧
    (s.revokeAll revocations).validation = s.validation ∧
    ∀ jti, jti ∈ (s.revokeAll revocations).revoked →
      jti ∈ s.revoked ∨ ∃ r ∈ revocations, r.2.jti = jti := by
  induction revocations generalizing s with
  | nil => exact ⟨rfl, rfl, fun jti h => .inl h⟩
  | cons r revocations ih =>
    obtain ⟨hdecoding, hvalidation, hrevoked⟩ := ih (s.revoke r.1 r.2)
    refine ⟨hdecoding, hvalidation, fun jti hjti => ?_⟩
    rcases hrevoked jti hjti with h | ⟨r', hr', h⟩
    · by_cases heq : jti = r.2.jti
      · exact .inr ⟨r, List.mem_cons_self .., heq.symm⟩
      · left
        rw [← AList.lookup_isSome] at h ⊢
        rw [lookup_revoked_revoke, if_neg heq] at h
        obtain ⟨expiry, hexpiry⟩ := Option.isSome_iff_exists.mp h
        rw [(Option.filter_eq_some_iff.mp hexpiry).1]
        rfl
    · exact .inr ⟨r', List.mem_cons_of_mem _ hr', h⟩

/-- A token of one service, not revoked in another, verifies there until it expires if and only
if the other keeps the first one's active key under its `kid`. -/
theorem rotation (J : Jwt) (hJ : J.Lawful) (active₁ active₂ : KeyMaterial)
    (retired₁ retired₂ : List KeyMaterial) (ttl₁ ttl₂ : ℕ)
    (iat : ℕ) (jti : String) (userId : UserId) (username token : String)
    (hiat : iat + ttl₁ < 2 ^ 64)
    (hissue : (new active₁ retired₁ ttl₁).issue J iat jti userId username = .ok token)
    (revocations : List (ℕ × Claims)) (hrevoked : ∀ r ∈ revocations, r.2.jti ≠ jti) (now : ℕ)
    (hexp : now ≤ iat + ttl₁) :
    ((new active₂ retired₂ ttl₂).revokeAll revocations).verify J now token =
      .ok ⟨userId, username, jti, iat + ttl₁, iat⟩ ↔
    kept (active₂ :: retired₂) active₁.kid = some active₁ := by
  have hencode : J.encode ⟨.hs256, some active₁.kid⟩ ⟨userId, username, jti, iat + ttl₁, iat⟩
      active₁.secret = some token := by
    simp only [issue, claims, new, Nat.mod_eq_of_lt hiat] at hissue
    split at hissue
    · cases hissue
    · rename_i token' he
      rw [he, Except.ok.inj hissue]
  obtain ⟨hdecoding, hvalidation, hframe⟩ :=
    revokeAll_frame (new active₂ retired₂ ttl₂) revocations
  rw [verify_eq_ok, hJ.header _ _ _ _ hencode, hdecoding, hvalidation]
  constructor
  · rintro ⟨kid, key, hkid, hkey, hdecode, -⟩
    obtain rfl : active₁.kid = kid := Option.some.inj hkid
    obtain ⟨rfl, -⟩ := (hJ.signed _ _ _ _ hencode _ _ _ _).mp hdecode
    obtain ⟨last, hlast, hsecret⟩ :=
      Option.map_eq_some_iff.mp ((lookup_foldl_insert _ _).symm.trans hkey)
    rw [hlast, eq_of_kept hlast hsecret]
  · intro hkept
    refine ⟨active₁.kid, active₁.secret, rfl, ?_, ?_, fun hjti => ?_⟩
    · exact (lookup_foldl_insert _ _).trans (by rw [hkept]; rfl)
    · refine (hJ.signed _ _ _ _ hencode _ _ _ _).mpr ⟨rfl, by simp [new], ?_, rfl⟩
      dsimp only
      omega
    · rcases hframe jti hjti with h | ⟨r, hr, h⟩
      · simp [new] at h
      · exact hrevoked r hr h

open Jwt.Sample

set_option maxRecDepth 4000 in
/-- The signing key was rotated and the old one retired: a token of before still verifies. -/
theorem rotation_retired :
    ((new ⟨"k2", "s2"⟩ [key] 900).revokeAll [(1700000200, bob)]).verify codec 1700000500
      aliceToken = .ok alice :=
  (rotation codec (Jwt.ofTokens_lawful _) key ⟨"k2", "s2"⟩ [] [key] 900 900 1700000000
    "a" ⟨"u1"⟩ "alice" aliceToken (by decide) rfl [(1700000200, bob)] (by decide) 1700000500
    (by decide)).mpr (by decide)

set_option maxRecDepth 4000 in
/-- The secret was changed under the old `kid`: the service rejects what it has just issued. -/
theorem rotation_fails :
    let s := new key [⟨"k1", "s0"⟩] 900
    codec.Lawful ∧ key ∈ key :: [⟨"k1", "s0"⟩] ∧
      s.issue codec 1700000000 "a" ⟨"u1"⟩ "alice" = .ok aliceToken ∧
      s.verify codec 1700000000 aliceToken = .error .invalidToken :=
  ⟨Jwt.ofTokens_lawful _, by decide, rfl, rfl⟩

end Knova.TokenService
