import Knova.Auth.Token
import Knova.Library.Machine

/-!
# Revocation

Runs of one token service: tokens are issued, presented and revoked while the clock
advances. A revocation is forgotten at the expiry it names, a token is accepted for the
leeway beyond it; in between, another revocation brings a revoked token back.
-/

namespace Knova

open Library

/-- A token service in use, with what has happened so far. -/
structure Sessions where
  service : TokenService
  now : ℕ
  issued : List String
  /-- The tokens `verify` accepted, with their claims. -/
  accepted : List (String × Claims)
  revoked : List Claims

namespace Sessions

inductive Event
  /-- A token is issued under an identifier `Uuid::new_v4` draws. -/
  | issue (jti : String) (userId : UserId) (username : String)
  | verify (token : String)
  /-- Claims that `verify` accepted are revoked. -/
  | revoke (claims : Claims)
  | tick (d : ℕ)

def start (now : ℕ) (active : KeyMaterial) (retired : List KeyMaterial) (ttl : ℕ) : Sessions :=
  ⟨.new active retired ttl, now, [], [], []⟩

def step (J : Jwt) (s : Sessions) : Event → Option Sessions
  | .issue jti userId username =>
    match s.service.issue J s.now jti userId username with
    | .ok token => some { s with issued := s.issued ++ [token] }
    | .error _ => some s
  | .verify token =>
    match s.service.verify J s.now token with
    | .ok claims => some { s with accepted := s.accepted ++ [(token, claims)] }
    | .error _ => some s
  | .revoke claims =>
    if claims ∈ s.accepted.map Prod.snd then
      some { s with service := s.service.revoke s.now claims, revoked := s.revoked ++ [claims] }
    else none
  | .tick d => some { s with now := s.now + d }

abbrev machine (J : Jwt) : Machine where
  State := Sessions
  Event := Event
  step := step J

variable {J : Jwt} {s s' : Sessions} {e : Event}

/-- Everything one step can do. -/
theorem step_cases (h : step J s e = some s') :
    (s'.service = s.service ∧ s'.accepted = s.accepted ∧ s'.revoked = s.revoked ∧
      s.now ≤ s'.now ∧ ∀ c, e ≠ .revoke c) ∨
    (∃ token c, e = .verify token ∧ s.service.verify J s.now token = .ok c ∧
      s' = { s with accepted := s.accepted ++ [(token, c)] }) ∨
    ∃ c token, e = .revoke c ∧ (token, c) ∈ s.accepted ∧
      s' = { s with service := s.service.revoke s.now c, revoked := s.revoked ++ [c] } := by
  cases e with
  | issue jti userId username =>
    left
    simp only [step] at h
    split at h <;> obtain rfl := Option.some.inj h <;> simp
  | verify token =>
    simp only [step] at h
    split at h
    · rename_i c hc
      exact .inr (.inl ⟨token, c, rfl, hc, (Option.some.inj h).symm⟩)
    · obtain rfl := Option.some.inj h
      exact .inl ⟨rfl, rfl, rfl, le_refl _, by simp⟩
  | revoke c =>
    right; right
    simp only [step] at h
    split at h
    · rename_i hmem
      obtain ⟨⟨token, c'⟩, hacc, rfl⟩ := List.mem_map.mp hmem
      exact ⟨c', token, rfl, hacc, (Option.some.inj h).symm⟩
    · cases h
  | tick d =>
    obtain rfl := Option.some.inj h
    exact .inl ⟨rfl, rfl, rfl, Nat.le_add_right _ _, by simp⟩

/-- No token that was accepted once is accepted after its revocation. -/
def Rejects (J : Jwt) (s : Sessions) : Prop :=
  ∀ token c, (token, c) ∈ s.accepted → c ∈ s.revoked →
    s.service.verify J s.now token = .error .invalidToken

/-- Accepted tokens are told apart by their identifiers: `Uuid::new_v4` does not repeat. -/
def Identified (s : Sessions) : Prop :=
  ∀ p ∈ s.accepted, ∀ q ∈ s.accepted, p.2.jti = q.2.jti → p.2 = q.2

/-- No revocation runs while that of another token is past the expiry it names by at most the
leeway. -/
def Keeps (s : Sessions) : Event → Prop
  | .revoke c => ∀ q ∈ s.service.revoked.entries, q.1 ≠ c.jti → q.2 ≤ s.now →
    q.2 < s.now - s.service.validation.leeway
  | _ => True

instance (s : Sessions) : Decidable s.Identified :=
  inferInstanceAs (Decidable (∀ p ∈ s.accepted, ∀ q ∈ s.accepted, p.2.jti = q.2.jti → p.2 = q.2))

instance (s : Sessions) : DecidablePred s.Keeps
  | .issue _ _ _ => .isTrue trivial
  | .verify _ => .isTrue trivial
  | .revoke c => inferInstanceAs (Decidable (∀ q ∈ s.service.revoked.entries, q.1 ≠ c.jti →
      q.2 ≤ s.now → q.2 < s.now - s.service.validation.leeway))
  | .tick _ => .isTrue trivial

/-- What holds in every state of every run. -/
structure Inv (J : Jwt) (s : Sessions) : Prop where
  accepted : ∀ token c, (token, c) ∈ s.accepted → ∃ kid key now,
    (J.decodeHeader token).bind Header.kid = some kid ∧ s.service.decoding.lookup kid = some key ∧
    J.decode token key s.service.validation now = some c
  revoked : ∀ c ∈ s.revoked, ∃ token, (token, c) ∈ s.accepted
  retained : ∀ jti expiry, s.service.revoked.lookup jti = some expiry →
    ∃ c ∈ s.revoked, c.jti = jti ∧ c.exp = expiry

/-- Every revocation is retained or no longer needed. -/
def Lasting (s : Sessions) : Prop :=
  ∀ c ∈ s.revoked, s.service.revoked.lookup c.jti = some c.exp ∨
    c.exp < s.now - s.service.validation.leeway

lemma inv_start {now ttl : ℕ} {active : KeyMaterial} {retired : List KeyMaterial} :
    Inv J (start now active retired ttl) := by
  constructor <;> simp [start, TokenService.new]

theorem Inv.step (hs : Inv J s) (h : step J s e = some s') : Inv J s' := by
  obtain ⟨hservice, hacc, hrev, -⟩ | ⟨token, c, -, hv, rfl⟩ | ⟨c, token, -, hmem, rfl⟩ :=
    step_cases h
  · constructor
    · rw [hacc, hservice]
      exact hs.accepted
    · rw [hacc, hrev]
      exact hs.revoked
    · rw [hrev, hservice]
      exact hs.retained
  · refine ⟨fun token' c' hm => ?_, fun c' hc' => ?_, hs.retained⟩
    · rcases List.mem_append.mp hm with hm | hm
      · exact hs.accepted token' c' hm
      · obtain ⟨rfl, rfl⟩ := Prod.mk.inj (List.mem_singleton.mp hm)
        obtain ⟨kid, key, hkid, hkey, hdecode, -⟩ := TokenService.verify_eq_ok.mp hv
        exact ⟨kid, key, s.now, hkid, hkey, hdecode⟩
    · obtain ⟨token', hm⟩ := hs.revoked c' hc'
      exact ⟨token', List.mem_append_left _ hm⟩
  · refine ⟨hs.accepted, fun c' hc' => ?_, fun jti expiry hl => ?_⟩
    · rcases List.mem_append.mp hc' with hc' | hc'
      · exact hs.revoked c' hc'
      · rw [List.mem_singleton.mp hc']
        exact ⟨token, hmem⟩
    · dsimp only at hl ⊢
      rw [TokenService.lookup_revoked_revoke] at hl
      split at hl
      · rename_i heq
        exact ⟨c, by simp, heq.symm, Option.some.inj hl⟩
      · obtain ⟨hl, -⟩ := Option.filter_eq_some_iff.mp hl
        obtain ⟨c', hc', hjti⟩ := hs.retained jti expiry hl
        exact ⟨c', List.mem_append_left _ hc', hjti⟩

/-- Acceptance is never forgotten. -/
lemma accepted_of_run {es : List Event} (hrun : (machine J).run s es = some s')
    {p : String × Claims} (hp : p ∈ s.accepted) : p ∈ s'.accepted := by
  refine Machine.run_invariant (M := machine J) (fun t : Sessions => p ∈ t.accepted) ?_ hp hrun
  intro t e t' ht hstep
  obtain ⟨-, hacc, -⟩ | ⟨token, c, -, -, rfl⟩ | ⟨c, token, -, -, rfl⟩ := step_cases hstep
  · rwa [hacc]
  · exact List.mem_append_left _ ht
  · exact ht

lemma Identified.of_run {es : List Event} (hrun : (machine J).run s es = some s')
    (h : s'.Identified) : s.Identified :=
  fun p hp q hq => h p (accepted_of_run hrun hp) q (accepted_of_run hrun hq)

theorem Lasting.step (hl : s.Lasting) (hs : Inv J s) (hid : s.Identified) (hk : s.Keeps e)
    (h : step J s e = some s') : s'.Lasting := by
  obtain ⟨hservice, -, hrev, hnow, -⟩ | ⟨token, c, -, -, rfl⟩ | ⟨c, token, rfl, hmem, rfl⟩ :=
    step_cases h
  · intro c hc
    rw [hrev] at hc
    rw [hservice]
    rcases hl c hc with hl | hl
    · exact .inl hl
    · right
      omega
  · exact hl
  · intro c' hc'
    dsimp only at hc' ⊢
    rw [TokenService.lookup_revoked_revoke]
    by_cases hjti : c'.jti = c.jti
    · -- the same token, revoked once more
      have heq : c' = c := by
        rcases List.mem_append.mp hc' with hc' | hc'
        · obtain ⟨token', hm⟩ := hs.revoked c' hc'
          exact hid _ hm _ hmem hjti
        · exact List.mem_singleton.mp hc'
      exact .inl (by rw [heq, if_pos rfl])
    · have hc' : c' ∈ s.revoked := by
        rcases List.mem_append.mp hc' with hc' | hc'
        · exact hc'
        · exact absurd (congrArg Claims.jti (List.mem_singleton.mp hc')) hjti
      rw [if_neg hjti]
      rcases hl c' hc' with hl | hl
      · by_cases hexp : c'.exp ≤ s.now
        · exact .inr (hk ⟨c'.jti, c'.exp⟩ (AList.mem_lookup_iff.mp hl) hjti hexp)
        · left
          rw [hl]
          simp only [Option.filter_some, gt_iff_lt, decide_eq_true_eq]
          rw [if_pos (by omega)]
      · exact .inr hl

/-- Where every revocation lasts, revoked tokens are rejected. -/
lemma Lasting.rejects (hJ : J.Lawful) (hl : s.Lasting) (hs : Inv J s) : s.Rejects J := by
  intro token c hmem hc
  cases hv : s.service.verify J s.now token with
  | error e => rw [TokenService.verify_error hv]
  | ok c' =>
    obtain ⟨kid, key, hkid, hkey, hdecode, hfree⟩ := TokenService.verify_eq_ok.mp hv
    obtain ⟨kid', key', now, hkid', hkey', hdecode'⟩ := hs.accepted token c hmem
    obtain rfl := Option.some.inj (hkid.symm.trans hkid')
    obtain rfl := Option.some.inj (hkey.symm.trans hkey')
    obtain ⟨hexp, rfl⟩ := (hJ.expiry _ _ _ _ _ hdecode' _ _).mp hdecode
    rcases hl c' hc with hl | hl
    · exact absurd (AList.lookup_isSome.mp (by rw [hl]; rfl)) hfree
    · omega

/-- A revocation that runs while that of another token is in its leeway brings that token
back. -/
lemma not_rejects_of_not_keeps (hJ : J.Lawful) (hs : Inv J s) (hk : ¬s.Keeps e)
    (h : step J s e = some s') : ¬s'.Rejects J := by
  obtain ⟨-, -, -, -, hno⟩ | ⟨token, c', rfl, -⟩ | ⟨c, token, rfl, -, rfl⟩ := step_cases h
  · cases e with
    | revoke c => exact absurd rfl (hno c)
    | _ => exact absurd trivial hk
  · exact absurd trivial hk
  · simp only [Keeps, not_forall] at hk
    obtain ⟨⟨jti, expiry⟩, hentry, hne, hpast, hleeway⟩ := hk
    dsimp only at hne hpast hleeway
    have hl : s.service.revoked.lookup jti = some expiry := AList.mem_lookup_iff.mpr hentry
    obtain ⟨c₀, hc₀, rfl, rfl⟩ := hs.retained jti expiry hl
    obtain ⟨token₀, hmem⟩ := hs.revoked c₀ hc₀
    obtain ⟨kid, key, now, hkid, hkey, hdecode⟩ := hs.accepted token₀ c₀ hmem
    have haccepts : (s.service.revoke s.now c).verify J s.now token₀ = .ok c₀ := by
      refine TokenService.verify_eq_ok.mpr ⟨kid, key, hkid, hkey, ?_, ?_⟩
      · exact (hJ.expiry _ _ _ _ _ hdecode _ _).mpr ⟨by omega, rfl⟩
      · rw [← AList.lookup_eq_none, TokenService.lookup_revoked_revoke, if_neg hne, hl]
        simp [Option.filter_some, hpast]
    intro hrejects
    have := hrejects token₀ c₀ hmem (List.mem_append_left _ hc₀)
    rw [haccepts] at this
    cases this

lemma lasting_start {now ttl : ℕ} {active : KeyMaterial} {retired : List KeyMaterial} :
    (start now active retired ttl).Lasting := by
  intro c hc
  cases hc

/-! ### Runs over tokens issued in the run -/

/-- The identifier drawn for an issue. -/
def Event.drawn : Event → Option String
  | .issue jti _ _ => some jti
  | _ => none

/-- The tokens issued in a run, with their claims: each identifier was drawn for one of them. -/
lemma issued_of_run {es : List Event} (hrun : (machine J).run s es = some s') :
    ∃ tokens claims, s'.issued = s.issued ++ tokens ∧
      List.Forall₂ (fun t c => ∃ h secret, J.encode h c secret = some t) tokens claims ∧
      (claims.map Claims.jti).Sublist (es.filterMap Event.drawn) := by
  induction es generalizing s with
  | nil =>
    obtain rfl : s = s' := Option.some.inj hrun
    exact ⟨[], [], by simp, .nil, .slnil⟩
  | cons e es ih =>
    obtain ⟨s₁, hstep, hrest⟩ := Machine.run_cons_eq_some.mp hrun
    obtain ⟨tokens, claims, htokens, hencode, hsub⟩ := ih hrest
    have hskip : s₁.issued = s.issued → ∃ tokens claims, s'.issued = s.issued ++ tokens ∧
        List.Forall₂ (fun t c => ∃ h secret, J.encode h c secret = some t) tokens claims ∧
        (claims.map Claims.jti).Sublist ((e :: es).filterMap Event.drawn) := by
      intro hsame
      refine ⟨tokens, claims, hsame ▸ htokens, hencode, hsub.trans ?_⟩
      exact (List.sublist_cons_self e es).filterMap _
    cases e with
    | issue jti userId username =>
      simp only [step] at hstep
      split at hstep
      · rename_i token hissue
        obtain rfl := Option.some.inj hstep
        refine ⟨token :: tokens, s.service.claims s.now jti userId username :: claims, ?_, ?_, ?_⟩
        · rw [htokens]
          simp
        · refine .cons ?_ hencode
          simp only [TokenService.issue] at hissue
          split at hissue
          · cases hissue
          · rename_i token' he
            rw [← Except.ok.inj hissue]
            exact ⟨_, _, he⟩
        · exact hsub.cons_cons jti
      · exact hskip (by rw [← Option.some.inj hstep])
    | verify token =>
      simp only [step] at hstep
      split at hstep <;> exact hskip (by rw [← Option.some.inj hstep])
    | revoke c =>
      simp only [step] at hstep
      split at hstep
      · exact hskip (by rw [← Option.some.inj hstep])
      · cases hstep
    | tick d => exact hskip (by rw [← Option.some.inj hstep])

lemma presented_of_run {es : List Event} (hrun : (machine J).run s es = some s')
    {p : String × Claims} (hp : p ∈ s'.accepted) : p ∈ s.accepted ∨ .verify p.1 ∈ es := by
  induction es generalizing s with
  | nil =>
    obtain rfl : s = s' := Option.some.inj hrun
    exact .inl hp
  | cons e es ih =>
    obtain ⟨s₁, hstep, hrest⟩ := Machine.run_cons_eq_some.mp hrun
    rcases ih hrest with hp | hmem
    · obtain ⟨-, hacc, -⟩ | ⟨token, c, rfl, -, rfl⟩ | ⟨c, token, -, -, rfl⟩ := step_cases hstep
      · exact .inl (hacc ▸ hp)
      · rcases List.mem_append.mp hp with hp | hp
        · exact .inl hp
        · rw [List.mem_singleton.mp hp]
          exact .inr (List.mem_cons_self ..)
      · exact .inl hp
    · exact .inr (List.mem_cons_of_mem _ hmem)

/-- Tokens issued in the run, under identifiers that do not repeat, are told apart. -/
theorem identified_of_issued (hJ : J.Lawful) {now ttl : ℕ} {active : KeyMaterial}
    {retired : List KeyMaterial} {es : List Event}
    (hrun : (machine J).run (start now active retired ttl) es = some s)
    (hfresh : (es.filterMap Event.drawn).Nodup)
    (hown : ∀ token, .verify token ∈ es → token ∈ s.issued) : s.Identified := by
  obtain ⟨tokens, claims, htokens, hencode, hsub⟩ := issued_of_run hrun
  have hs : Inv J s := Machine.run_invariant _ (fun _ _ _ hs hstep => hs.step hstep) inv_start hrun
  have hclaims : ∀ p ∈ s.accepted, p.2 ∈ claims := by
    intro p hp
    have hmem : p.1 ∈ tokens := by
      rcases presented_of_run hrun hp with h | h
      · cases h
      · simpa [start, htokens] using hown p.1 h
    obtain ⟨kid, key, now, -, -, hdecode⟩ := hs.accepted p.1 p.2 hp
    obtain ⟨k, hk, htoken⟩ := List.mem_iff_getElem.mp hmem
    have hk' : k < claims.length := hencode.length_eq ▸ hk
    obtain ⟨h, secret, he⟩ := hencode.get hk hk'
    -- the token carries the claims it was encoded with
    rw [← htoken] at hdecode
    obtain ⟨-, -, -, hc⟩ := (hJ.signed _ _ _ _ he _ _ _ _).mp hdecode
    rw [hc]
    exact List.get_mem claims ⟨k, hk'⟩
  intro p hp q hq hjti
  exact List.inj_on_of_nodup_map (hfresh.sublist hsub) (hclaims p hp) (hclaims q hq) hjti

/-! ### Every run -/

/-- In a run whose revocations all keep, every revocation lasts. -/
lemma Lasting.run {es : List Event} (hl : s.Lasting) (hs : Inv J s)
    (hrun : (machine J).run s es = some s') (hid : s'.Identified)
    (hk : (machine J).EveryStep Keeps s es) : s'.Lasting ∧ Inv J s' := by
  induction es generalizing s with
  | nil =>
    obtain rfl : s = s' := Option.some.inj hrun
    exact ⟨hl, hs⟩
  | cons e es ih =>
    obtain ⟨s₁, hstep, hrest⟩ := Machine.run_cons_eq_some.mp hrun
    exact ih (hl.step hs (hid.of_run hrun) hk.1 hstep) (hs.step hstep) hrest (hk.2 s₁ hstep)

/-- In a run in which every state rejects revoked tokens, every revocation keeps. -/
lemma everyStep_keeps {es : List Event} (hJ : J.Lawful) (hs : Inv J s)
    (hrun : (machine J).run s es = some s')
    (hr : ∀ es₁ es₂ s₁, es = es₁ ++ es₂ → (machine J).run s es₁ = some s₁ → s₁.Rejects J) :
    (machine J).EveryStep Keeps s es := by
  induction es generalizing s with
  | nil => trivial
  | cons e es ih =>
    obtain ⟨s₁, hstep, hrest⟩ := Machine.run_cons_eq_some.mp hrun
    refine ⟨?_, fun s₂ hs₂ => ?_⟩
    · by_contra hk
      exact not_rejects_of_not_keeps hJ hs hk hstep
        (hr [e] es s₁ rfl (Machine.run_cons_eq_some.mpr ⟨s₁, hstep, rfl⟩))
    · obtain rfl := Option.some.inj (hstep.symm.trans hs₂)
      refine ih (hs.step hstep) hrest fun es₁ es₂ t hes ht => ?_
      exact hr (e :: es₁) es₂ t (by rw [hes]; rfl) (Machine.run_cons_eq_some.mpr ⟨s₁, hstep, ht⟩)

/-- Every state of a run rejects the tokens revoked by then, if and only if no revocation runs
while that of another token is in its leeway. -/
theorem revocation_permanent (J : Jwt) (hJ : J.Lawful) (now ttl : ℕ) (active : KeyMaterial)
    (retired : List KeyMaterial) (es : List Event) (s : Sessions)
    (hrun : (machine J).run (start now active retired ttl) es = some s) (hid : s.Identified) :
    (∀ es₁ es₂ s₁, es = es₁ ++ es₂ →
      (machine J).run (start now active retired ttl) es₁ = some s₁ → s₁.Rejects J) ↔
    (machine J).EveryStep Keeps (start now active retired ttl) es := by
  constructor
  · exact everyStep_keeps hJ inv_start hrun
  · rintro hk es₁ es₂ s₁ rfl hrun₁
    obtain ⟨s₁', hrun₁', hrest⟩ := Machine.run_append_eq_some.mp hrun
    obtain rfl := Option.some.inj (hrun₁.symm.trans hrun₁')
    obtain ⟨hl, hs⟩ := lasting_start.run inv_start hrun₁ (hid.of_run hrest) hk.append.1
    exact hl.rejects hJ hs

open Jwt.Sample

set_option maxRecDepth 4000 in
/-- Two tokens, both revoked long before they expire. -/
theorem revocation_permanent_two :
    let es : List Event := [.issue "a" ⟨"u1"⟩ "alice", .tick 10, .issue "b" ⟨"u2"⟩ "bob",
      .verify aliceToken, .verify bobToken, .revoke alice, .tick 100, .revoke bob]
    ∃ s, (machine codec).run (start 1700000000 key [] 900) es = some s ∧
      alice ∈ s.revoked ∧ s.service.verify codec s.now aliceToken = .error .invalidToken := by
  intro es
  refine ⟨_, rfl, by decide +kernel, ?_⟩
  have hkeeps : (machine codec).EveryStep Keeps (start 1700000000 key [] 900) es := by
    decide +kernel
  exact (revocation_permanent codec (Jwt.ofTokens_lawful _) 1700000000 900 key [] es _ rfl
    (by decide +kernel)).mpr hkeeps es [] _ (by simp) rfl aliceToken alice (by decide +kernel)
    (by decide +kernel)

set_option maxRecDepth 4000 in
/-- The second revocation runs in the second in which the first token expires: it drops the
first revocation, and the first token is accepted for another minute. -/
theorem revocation_permanent_fails :
    let es : List Event := [.issue "a" ⟨"u1"⟩ "alice", .tick 10, .issue "b" ⟨"u2"⟩ "bob",
      .verify aliceToken, .verify bobToken, .revoke alice, .tick 890, .revoke bob, .tick 60]
    ∃ s, (machine codec).run (start 1700000000 key [] 900) es = some s ∧ codec.Lawful ∧
      s.Identified ∧ alice ∈ s.revoked ∧
      s.service.verify codec s.now aliceToken = .ok alice :=
  ⟨_, rfl, Jwt.ofTokens_lawful _, by decide +kernel, by decide +kernel, rfl⟩

end Sessions

end Knova
