import Knova.Auth.Rotation
import Mathlib.Data.List.Dedup
import Mathlib.Data.List.Induction

/-!
# What the revocation list retains

Each revocation purges what has expired and inserts one token. Over any sequence of them the
list is what was revoked and has not expired, and the token revoked last.
-/

namespace Knova.TokenService

open Library

/-- A `jti` names one token. -/
def DistinctJtis (revocations : List (ℕ × Claims)) : Prop :=
  ∀ r ∈ revocations, ∀ r' ∈ revocations, r.2.jti = r'.2.jti → r.2 = r'.2

variable {s : TokenService} {revocations : List (ℕ × Claims)} {now : ℕ} {claims : Claims}

lemma revokeAll_concat (r : ℕ × Claims) :
    s.revokeAll (revocations ++ [r]) = (s.revokeAll revocations).revoke r.1 r.2 := by
  simp [revokeAll]

/-- What was revoked and has not expired at `now`, and `last`. -/
def Retained (revocations : List (ℕ × Claims)) (now : ℕ) (last : Claims) (jti : String)
    (exp : ℕ) : Prop :=
  ∃ r ∈ revocations, r.2.jti = jti ∧ r.2.exp = exp ∧ (now < r.2.exp ∨ r.2 = last)

/-- What is still live was live at every purge before. -/
lemma lookup_revokeAll (hempty : s.revoked = ∅)
    (hordered : ((revocations ++ [(now, claims)]).map Prod.fst).Pairwise (· ≤ ·))
    (hdistinct : DistinctJtis (revocations ++ [(now, claims)])) (jti : String) (exp : ℕ) :
    (s.revokeAll (revocations ++ [(now, claims)])).revoked.lookup jti = some exp ↔
      Retained (revocations ++ [(now, claims)]) now claims jti exp := by
  induction revocations using List.reverseRecOn generalizing now claims exp with
  | nil =>
    rw [revokeAll_concat, lookup_revoked_revoke, revokeAll, List.foldl_nil, hempty]
    unfold Retained
    split
    · rename_i heq
      simp [heq]
    · rename_i hne
      simp [Ne.symm hne]
  | append_singleton revocations r ih =>
    obtain ⟨before, earlier⟩ := r
    rw [List.map_append, List.pairwise_append] at hordered
    have hle : before ≤ now := hordered.2.2 before (by simp) now (by simp)
    have hlookup := fun exp => ih hordered.1
      (fun r hr r' hr' => hdistinct r (List.mem_append_left _ hr) r' (List.mem_append_left _ hr'))
      exp
    rw [revokeAll_concat, lookup_revoked_revoke]
    split
    · rename_i heq
      subst heq
      constructor
      · intro h
        obtain rfl := Option.some.inj h
        exact ⟨(now, claims), by simp, rfl, rfl, .inr rfl⟩
      · rintro ⟨r, hr, hjti, rfl, -⟩
        rw [hdistinct r hr (now, claims) (by simp) hjti]
    · rename_i hne
      rw [Option.filter_eq_some_iff, hlookup, decide_eq_true_eq]
      constructor
      · rintro ⟨⟨r, hr, hjti, rfl, -⟩, hlive⟩
        exact ⟨r, List.mem_append_left _ hr, hjti, rfl, .inl hlive⟩
      · rintro ⟨r, hr, rfl, rfl, hkept⟩
        have hlive : now < r.2.exp := by
          rcases hkept with hlive | heq
          · exact hlive
          · exact absurd (congrArg Claims.jti heq) hne
        refine ⟨⟨r, ?_, rfl, rfl, .inl (hle.trans_lt hlive)⟩, hlive⟩
        rcases List.mem_append.mp hr with hr | hr
        · exact hr
        · obtain rfl := List.mem_singleton.mp hr
          exact absurd rfl hne

/-- The revoked tokens that have not expired. -/
def unexpired (revocations : List (ℕ × Claims)) (now : ℕ) : List Claims :=
  ((revocations.map Prod.snd).filter fun c => now < c.exp).dedup

/-- After a revocation the list is exactly the revoked tokens that have not expired, and the one
just revoked, each with its own expiry. -/
theorem revocation_list_exact (active : KeyMaterial) (retired : List KeyMaterial) (ttl : ℕ)
    (revocations : List (ℕ × Claims)) (now : ℕ) (claims : Claims)
    (hordered : ((revocations ++ [(now, claims)]).map Prod.fst).Pairwise (· ≤ ·))
    (hdistinct : DistinctJtis (revocations ++ [(now, claims)])) :
    (∀ jti exp, ((new active retired ttl).revokeAll
        (revocations ++ [(now, claims)])).revoked.lookup jti = some exp ↔
      Retained (revocations ++ [(now, claims)]) now claims jti exp) ∧
    ((new active retired ttl).revokeAll (revocations ++ [(now, claims)])).revokedCount ≤
      (unexpired (revocations ++ [(now, claims)]) now).length + 1 := by
  have hexact := @lookup_revokeAll (new active retired ttl) revocations now claims rfl hordered
    hdistinct
  refine ⟨hexact, ?_⟩
  have hsubset : ((new active retired ttl).revokeAll
      (revocations ++ [(now, claims)])).revoked.keys ⊆
      (claims :: unexpired (revocations ++ [(now, claims)]) now).map Claims.jti := by
    intro jti hjti
    obtain ⟨exp, hexp⟩ := Option.isSome_iff_exists.mp (AList.lookup_isSome.mpr hjti)
    obtain ⟨r, hr, rfl, -, hkept⟩ := (hexact jti exp).mp hexp
    refine List.mem_map_of_mem ?_
    rcases hkept with hlive | heq
    · refine List.mem_cons_of_mem _ (List.mem_dedup.mpr (List.mem_filter.mpr ⟨?_, ?_⟩))
      · exact List.mem_map_of_mem hr
      · exact decide_eq_true hlive
    · rw [heq]
      exact List.mem_cons_self
  have hlength := (List.subperm_of_subset (AList.keys_nodup _) hsubset).length_le
  rwa [List.length_map, List.length_cons] at hlength

open Jwt.Sample

/-- Two tokens, the first revoked again as it expires, which drops neither. -/
theorem revocation_list_exact_two :
    (∀ jti exp, ((new key [] 900).revokeAll [(1700000100, alice), (1700000500, bob),
        (1700000900, alice)]).revoked.lookup jti = some exp ↔
      Retained [(1700000100, alice), (1700000500, bob), (1700000900, alice)] 1700000900 alice jti
        exp) ∧
    ((new key [] 900).revokeAll [(1700000100, alice), (1700000500, bob),
      (1700000900, alice)]).revokedCount ≤ 2 :=
  revocation_list_exact key [] 900 [(1700000100, alice), (1700000500, bob)] 1700000900 alice
    (by decide) (by unfold DistinctJtis; decide)

end Knova.TokenService
