import Knova.Auth.Authenticated
import Knova.Auth.Permits

/-!
# Every outcome of a login is deserved

A login is refused for want of a permit only while others hold them all, throttled only after
as many failures of others as the limit allows, rejected only for its password or for these, and
let in only with the password of the account. The calls that the logins made say which.
-/

namespace Knova

open Library

/-! ### What a login has done when it answers -/

namespace Login

/-- The answer to a login whose token was asked for. -/
def granted : Except AppError String × ℕ → LoginAnswer
  | (.error e, _) => .error e
  | (.ok accessToken, ttlSecs) => .ok ⟨accessToken, "Bearer", ttlSecs⟩

/-- The calls of a login as far as the outcome of its verification. -/
def verified (request : LoginRequest) (address : Option IpAddr) (throttled : Bool)
    (outcome : Option Authentication) : List (Prog.Performed LoginE) :=
  passed address ++ [⟨.overAccount request.username, throttled⟩,
    ⟨.authenticate request.username (offered request throttled), outcome⟩]

/-- All calls of a login and what it answers. -/
inductive Outcome (request : LoginRequest) (address : Option IpAddr) :
    List (Prog.Performed LoginE) → LoginAnswer → Prop
  | shed : Outcome request address [⟨.acquire, false⟩] (.error .overloaded)
  | refused (source : IpAddr) : address = some source → Outcome request address
      [⟨.acquire, true⟩, ⟨.overAddress source, true⟩, ⟨.release, ()⟩] (.error .addressThrottled)
  | panicked (throttled : Bool) :
    Outcome request address (verified request address throttled none) (.error .blockingTask)
  | rejected (throttled : Bool) : Outcome request address
      (verified request address throttled (some .rejected) ++
        ⟨.bumpAccount request.username, ()⟩ :: address.toList.map fun a => ⟨.bumpAddress a, ()⟩)
      (.error .invalidCredentials)
  | authenticated (throttled : Bool) (user : UserRecord) (r : Except AppError String × ℕ) :
    Outcome request address
      (verified request address throttled (some (.authenticated user)) ++
        [⟨.recordSuccess request.username, ()⟩, ⟨.issue user.id user.username, r⟩]) (granted r)

variable {request : LoginRequest} {address : Option IpAddr}

lemma ends_conclude (throttled : Bool) (outcome : Option Authentication) :
    (conclude request.username address outcome).Ends (Outcome request address)
      (verified request address throttled outcome) := by
  cases outcome with
  | none => exact .panicked throttled
  | some outcome =>
    cases outcome with
    | rejected =>
      cases address with
      | none =>
        intro r
        exact .rejected throttled
      | some source =>
        intro r r'
        rw [List.append_assoc]
        exact .rejected throttled
    | authenticated user =>
      intro r r'
      rw [List.append_assoc]
      obtain ⟨issued, ttlSecs⟩ := r'
      cases issued with
      | error e => exact .authenticated throttled user (.error e, ttlSecs)
      | ok accessToken => exact .authenticated throttled user (.ok accessToken, ttlSecs)

lemma ends_checkAccount : (Prog.act (.overAccount request.username) fun throttled : Bool =>
    checked request address (if throttled then .accountThrottled else .allowed) :
      LoginProg LoginAnswer).Ends (Outcome request address) (passed address) := by
  intro (throttled : Bool)
  dsimp only
  rw [checked_eq]
  intro outcome
  rw [List.append_assoc]
  exact ends_conclude throttled outcome

/-- Every login that runs to its end ends in one of these ways. -/
theorem ends_login : (login request address).Ends (Outcome request address) [] := by
  intro admitted
  cases admitted with
  | false => exact .shed
  | true =>
    cases address with
    | none => exact ends_checkAccount
    | some source =>
      intro throttled
      cases throttled with
      | true =>
        intro r
        exact .refused source rfl
      | false => exact ends_checkAccount

/-- A login that records a failure of its address has made no such call before. -/
lemma Reached.recordingAddress_log {log : List (Prog.Performed LoginE)} {source : IpAddr}
    {k : Unit → LoginProg LoginAnswer}
    (h : Reached request address log (.act (.bumpAddress source) k)) :
    ∃ throttled, log = verified request address throttled (some .rejected) ++
      [⟨.bumpAccount request.username, ()⟩] := by
  cases h with
  | concluding throttled outcome log rest h =>
    cases h with
    | recordingAddress source k hsource =>
      refine ⟨throttled, ?_⟩
      rw [verified, List.append_assoc]
      rfl

lemma Reached.checkingAddress_log {log : List (Prog.Performed LoginE)} {source : IpAddr}
    {k : Bool → LoginProg LoginAnswer}
    (h : Reached request address log (.act (.overAddress source) k)) :
    log = [⟨.acquire, true⟩] := by
  cases h with
  | checkingAddress source k hsource => rfl
  | concluding throttled outcome log rest h => cases h

lemma Reached.arrived_log {log : List (Prog.Performed LoginE)} {k : Bool → LoginProg LoginAnswer}
    (h : Reached request address log (.act .acquire k)) : log = [] := by
  cases h with
  | arrived k => rfl
  | concluding throttled outcome log rest h => cases h

end Login

namespace Logins

open Login

variable {ι : Type} [DecidableEq ι] {cfg : LoginSettings} {s s' : Logins ι} {i j : ι}
  {x : LoginAttempt} {t : ℕ} {c : Prog.Performed LoginE}

/-! ### The calls that were made -/

/-- The login `i` made the call `c` at `t`. -/
def Made (s : Logins ι) (i : ι) (t : ℕ) (c : Prog.Performed LoginE) : Prop :=
  ∃ x, s.attempt i = some x ∧ (t, c) ∈ x.log

/-- The event `e` answers a call of the login `i`. -/
inductive Answers (cfg : LoginSettings) (s : Logins ι) (i : ι) (s' : Logins ι) :
    Event ι → (a : LoginAct) → a.Ans → Prop
  | called {draw : Draw} {a : LoginAct} {r : a.Ans} :
    exec cfg.jwt s.now draw a s.state = some (r, s'.state) → Answers cfg s i s' (.act i draw) a r
  | resumed {username offered : String} {outcome : Option Authentication} :
    s'.state = s.state → Answers cfg s i s' (.resume i) (.authenticate username offered) outcome

/-- What a step means to the calls of the logins. -/
inductive CallStep (cfg : LoginSettings) (s : Logins ι) (e : Event ι) (s' : Logins ι) : Prop
  /-- No call is answered. -/
  | quiet (made : ∀ j t c, s'.Made j t c ↔ s.Made j t c)
    (throttle : s'.state.throttle = s.state.throttle) (now : s.now ≤ s'.now)
  /-- A call of `i` is answered. -/
  | answers (i : ι) (x : LoginAttempt) (a : LoginAct) (r : a.Ans)
    (k : a.Ans → LoginProg LoginAnswer) (attempt : s.attempt i = some x) (rest : x.rest = .act a k)
    (made : ∀ j t c, s'.Made j t c ↔ s.Made j t c ∨ j = i ∧ t = s.now ∧ c = ⟨a, r⟩)
    (now : s'.now = s.now) (answered : Answers cfg s i s' e a r)

/-- Only the calls of a login that is updated may change. -/
lemma made_update {y : LoginAttempt}
    (hs' : s'.attempt = Function.update s.attempt i (some y)) :
    s'.Made j t c ↔ if j = i then (t, c) ∈ y.log else s.Made j t c := by
  by_cases hj : j = i
  · subst hj
    simp [Made, hs']
  · simp [Made, hs', hj]

lemma made_answer {a : LoginAct} {r : a.Ans} {rest : LoginProg LoginAnswer}
    (hx : s.attempt i = some x) (hs' : s'.attempt = s.answer i x a r rest) :
    s'.Made j t c ↔ s.Made j t c ∨ j = i ∧ t = s.now ∧ c = ⟨a, r⟩ := by
  rw [made_update hs']
  by_cases hj : j = i
  · subst hj
    simp [Made, hx]
  · simp [hj]

theorem callStep_of_step {e : Event ι} (hs : step cfg s e = some s') : CallStep cfg s e s' := by
  obtain ⟨i, request, address, -, hi, rfl⟩ | ⟨i, draw, x, a, k, r, state, rfl, hx, -, hrest,
    hexec, rfl⟩ | ⟨i, x, username, offered, k, -, -, -, -, -, rfl⟩ |
    ⟨i, panics, v, -, -, -, rfl⟩ | ⟨i, x, username, offered, k, v, outcome, rfl, hx, -, hrest,
      -, -, rfl⟩ | ⟨i, x, username, offered, k, v, -, hx, -, -, -, rfl⟩ |
    ⟨d, -, rfl⟩ := step_cases hs
  · refine .quiet (fun j t c => ?_) rfl (le_refl _)
    rw [made_update rfl]
    by_cases hj : j = i
    · subst hj
      simp [Made, hi]
    · simp [hj]
  · exact .answers i x a r k hx hrest (fun j t c => made_answer hx rfl) rfl (.called hexec)
  · exact .quiet (fun _ _ _ => Iff.rfl) rfl (le_refl _)
  · exact .quiet (fun _ _ _ => Iff.rfl) rfl (le_refl _)
  · exact .answers i x _ outcome k hx hrest (fun j t c => made_answer hx rfl) rfl (.resumed rfl)
  · refine .quiet (fun j t c => ?_) rfl (le_refl _)
    rw [made_update (y := { x with dropped := true }) rfl]
    by_cases hj : j = i
    · subst hj
      simp [Made, hx]
    · simp [hj]
  · exact .quiet (fun _ _ _ => Iff.rfl) rfl (Nat.le_add_right _ _)

/-! ### What the counters count -/

/-- So many logins have made the call `c` since `opened`. -/
def MadeSince (s : Logins ι) (c : Prog.Performed LoginE) (n opened : ℕ) : Prop :=
  ∃ S : Set ι, (n : ℕ∞) ≤ S.encard ∧ ∀ j ∈ S, ∃ t, opened ≤ t ∧ s.Made j t c

/-- A counter counts logins that made the call `c` in its window. -/
structure Counts (s : Logins ι) (c : Prog.Performed LoginE) (f : Failures) : Prop where
  opened : f.windowStarted ≤ s.now
  made : s.MadeSince c f.count f.windowStarted

/-- Every failure that the throttle counts was recorded by a login of its own. -/
structure Backed (s : Logins ι) : Prop where
  account : ∀ username f, s.state.throttle.byAccount.lookup username = some f →
    s.Counts ⟨.bumpAccount username, ()⟩ f
  address : ∀ source f, s.state.throttle.byAddress.lookup source = some f →
    s.Counts ⟨.bumpAddress source, ()⟩ f
  /-- What was counted before a success is forgotten. -/
  cleared : ∀ username f, s.state.throttle.byAccount.lookup username = some f →
    ∀ j t, s.Made j t ⟨.recordSuccess username, ()⟩ → t ≤ f.windowStarted
  past : ∀ j t c, s.Made j t c → t ≤ s.now

omit [DecidableEq ι] in
lemma Counts.mono {f : Failures} (h : s.Counts c f)
    (hmade : ∀ j t c, s.Made j t c → s'.Made j t c) (hnow : s.now ≤ s'.now) : s'.Counts c f := by
  obtain ⟨hopened, S, hcount, hS⟩ := h
  refine ⟨hopened.trans hnow, S, hcount, fun j hj => ?_⟩
  obtain ⟨t, ht, hj⟩ := hS j hj
  exact ⟨t, ht, hmade j t c hj⟩

omit [DecidableEq ι] in
/-- A login that had not made the call yet makes it, and is counted. -/
lemma counts_bumped {failures : Option Failures} {window : ℕ}
    (h : ∀ f, failures = some f → s.Counts c f) (hnot : ∀ t, ¬s.Made i t c)
    (hmade : ∀ j t d, s'.Made j t d ↔ s.Made j t d ∨ j = i ∧ t = s.now ∧ d = c)
    (hnow : s'.now = s.now) : s'.Counts c (Failures.bumped window s.now failures) := by
  have hi : s'.Made i s.now c := (hmade i s.now c).mpr (.inr ⟨rfl, rfl, rfl⟩)
  cases hlive : failures.filter (Failures.live window s.now) with
  | none =>
    rw [Failures.bumped_of_lapsed hlive]
    refine ⟨hnow.ge, {i}, by simp, fun j hj => ?_⟩
    obtain rfl := Set.mem_singleton_iff.mp hj
    exact ⟨s.now, le_refl _, hi⟩
  | some f =>
    obtain ⟨hopened, S, hcount, hS⟩ := h f (Option.filter_eq_some_iff.mp hlive).1
    rw [Failures.bumped_of_live hlive]
    refine ⟨hopened.trans hnow.ge, insert i S, ?_, fun j hj => ?_⟩
    · have hfresh : i ∉ S := fun hmem => by
        obtain ⟨t, -, hmade⟩ := hS i hmem
        exact hnot t hmade
      rw [Set.encard_insert_of_notMem hfresh]
      -- the counter may wrap, which only makes it smaller
      have hle : (((f.count + 1) % 2 ^ 32 : ℕ) : ℕ∞) ≤ ((f.count + 1 : ℕ) : ℕ∞) :=
        Nat.cast_le.mpr (Nat.mod_le _ _)
      push_cast at hle
      exact hle.trans (add_le_add_left hcount 1)
    · rcases hj with rfl | hj
      · exact ⟨s.now, hopened, hi⟩
      · obtain ⟨t, ht, hj⟩ := hS j hj
        exact ⟨t, ht, (hmade j t c).mpr (.inl hj)⟩

section Effects

variable {e : Event ι} {a : LoginAct} {r : a.Ans}

omit [DecidableEq ι] in
/-- An answered call keeps the counter of an account or takes it away, or it counts a failure. -/
lemma Answers.account (h : Answers cfg s i s' e a r) (username : String) :
    (∀ f, s'.state.throttle.byAccount.lookup username = some f →
      s.state.throttle.byAccount.lookup username = some f ∧
      (⟨a, r⟩ : Prog.Performed LoginE) ≠ ⟨.recordSuccess username, ()⟩) ∨
    ((⟨a, r⟩ : Prog.Performed LoginE) = ⟨.bumpAccount username, ()⟩ ∧
      s'.state.throttle.byAccount.lookup username = some (Failures.bumped s.state.throttle.window
        s.now (s.state.throttle.byAccount.lookup username))) := by
  cases h with
  | resumed hstate => exact .inl fun f hf => ⟨by rwa [hstate] at hf, by simp⟩
  | called hexec =>
    generalize s'.state = state at hexec
    cases a with
    | acquire =>
      simp only [exec] at hexec
      split at hexec <;> cases hexec <;> exact .inl fun f hf => ⟨hf, by simp⟩
    | authenticate username offered => cases hexec
    | release | overAddress | bumpAddress | issue =>
      cases hexec
      exact .inl fun f hf => ⟨hf, by simp⟩
    | overAccount name =>
      cases hexec
      refine .inl fun f hf => ⟨?_, by simp⟩
      change («over» _ _ _ _ _).2.lookup username = some f at hf
      rw [lookup_over] at hf
      split at hf
      · rename_i hname
        rw [hname]
        exact (Option.filter_eq_some_iff.mp hf).1
      · exact hf
    | bumpAccount name =>
      cases hexec
      change (∀ f, (bump _ _ _ _).lookup username = some f → _) ∨
        (_ ∧ (bump _ _ _ _).lookup username = _)
      rw [lookup_bump]
      split
      · rename_i hname
        exact .inr ⟨by rw [hname], by rw [hname]⟩
      · exact .inl fun f hf => ⟨hf, by simp⟩
    | recordSuccess name =>
      cases hexec
      refine .inl fun f hf => ?_
      change (s.state.throttle.recordSuccess name).byAccount.lookup username = some f at hf
      rw [LoginThrottle.lookup_recordSuccess_byAccount] at hf
      split at hf
      · cases hf
      · rename_i hname
        exact ⟨hf, by simp [Ne.symm hname]⟩

omit [DecidableEq ι] in
lemma Answers.address (h : Answers cfg s i s' e a r) (source : IpAddr) :
    (∀ f, s'.state.throttle.byAddress.lookup source = some f →
      s.state.throttle.byAddress.lookup source = some f) ∨
    ((⟨a, r⟩ : Prog.Performed LoginE) = ⟨.bumpAddress source, ()⟩ ∧
      s'.state.throttle.byAddress.lookup source = some (Failures.bumped s.state.throttle.window
        s.now (s.state.throttle.byAddress.lookup source))) := by
  cases h with
  | resumed hstate => exact .inl fun f hf => by rwa [hstate] at hf
  | called hexec =>
    generalize s'.state = state at hexec
    cases a with
    | acquire =>
      simp only [exec] at hexec
      split at hexec <;> cases hexec <;> exact .inl fun f hf => hf
    | authenticate username offered => cases hexec
    | release | overAccount | bumpAccount | recordSuccess | issue =>
      cases hexec
      exact .inl fun f hf => hf
    | overAddress a =>
      cases hexec
      refine .inl fun f hf => ?_
      change («over» _ _ _ _ _).2.lookup source = some f at hf
      rw [lookup_over] at hf
      split at hf
      · rename_i ha
        rw [ha]
        exact (Option.filter_eq_some_iff.mp hf).1
      · exact hf
    | bumpAddress a =>
      cases hexec
      change (∀ f, (bump _ _ _ _).lookup source = some f → _) ∨
        (_ ∧ (bump _ _ _ _).lookup source = _)
      rw [lookup_bump]
      split
      · rename_i ha
        exact .inr ⟨by rw [ha], by rw [ha]⟩
      · exact .inl fun f hf => hf

omit [DecidableEq ι] in
/-- No call changes the limits or what tokens are issued with. -/
lemma Answers.settings (h : Answers cfg s i s' e a r) :
    s'.state.throttle.accountLimit = s.state.throttle.accountLimit ∧
    s'.state.throttle.addressLimit = s.state.throttle.addressLimit ∧
    s'.state.throttle.window = s.state.throttle.window := by
  cases h with
  | resumed hstate => simp [hstate]
  | called hexec =>
    generalize s'.state = state at hexec
    cases a with
    | acquire =>
      simp only [exec] at hexec
      split at hexec <;> cases hexec <;> exact ⟨rfl, rfl, rfl⟩
    | authenticate username offered => cases hexec
    | _ =>
      cases hexec
      exact ⟨rfl, rfl, rfl⟩

end Effects

omit [DecidableEq ι] in
lemma not_made (hx : s.attempt i = some x) (hlog : c ∉ x.log.map Prod.snd) (t : ℕ) :
    ¬s.Made i t c := by
  rintro ⟨y, hy, hmem⟩
  rw [hx] at hy
  obtain rfl := Option.some.inj hy
  exact hlog (List.mem_map_of_mem hmem)

omit [DecidableEq ι] in
/-- No login records its failure twice. -/
lemma Tracked.bumps_once (ht : s.Tracked) {a : LoginAct} {k : a.Ans → LoginProg LoginAnswer}
    (hx : s.attempt i = some x) (hrest : x.rest = .act a k) {r : a.Ans}
    (hc : (∃ username, (⟨a, r⟩ : Prog.Performed LoginE) = ⟨.bumpAccount username, ()⟩) ∨
      ∃ source, (⟨a, r⟩ : Prog.Performed LoginE) = ⟨.bumpAddress source, ()⟩) :
    ∀ t, ¬s.Made i t ⟨a, r⟩ := by
  have hreached := ht.reached hx
  rw [hrest] at hreached
  refine not_made hx ?_
  rcases hc with ⟨username, hc⟩ | ⟨source, hc⟩
  · cases hc
    obtain ⟨-, throttled, hlog⟩ := hreached.recording_log
    rw [hlog]
    simp [passed]
  · cases hc
    obtain ⟨throttled, hlog⟩ := hreached.recordingAddress_log
    rw [hlog]
    simp [verified, passed]

omit [DecidableEq ι] in
lemma backed_start {accountLimit addressLimit window permits : ℕ} {tokens : TokenService} :
    (start ι ⟨.new accountLimit addressLimit window, permits, tokens⟩).Backed where
  account username f hf := by cases hf
  address source f hf := by cases hf
  cleared username f hf := by cases hf
  past j t c h := by
    obtain ⟨x, hx, -⟩ := h
    cases hx

/-- Every step leaves the counters backed. -/
lemma Backed.step (h : s.Backed) (ht : s.Tracked) {e : Event ι}
    (hs : Logins.step cfg s e = some s') : s'.Backed := by
  cases callStep_of_step hs with
  | quiet made throttle now =>
    have hmono : ∀ j t c, s.Made j t c → s'.Made j t c := fun j t c => (made j t c).mpr
    refine ⟨fun username f hf => ?_, fun source f hf => ?_, fun username f hf j t hj => ?_,
      fun j t c hj => ?_⟩
    · rw [throttle] at hf
      exact (h.account username f hf).mono hmono now
    · rw [throttle] at hf
      exact (h.address source f hf).mono hmono now
    · rw [throttle] at hf
      exact h.cleared username f hf j t ((made j t _).mp hj)
    · exact (h.past j t c ((made j t c).mp hj)).trans now
  | answers i x a r k attempt rest made now answered =>
    have hmono : ∀ j t c, s.Made j t c → s'.Made j t c := fun j t c hj => (made j t c).mpr (.inl hj)
    refine ⟨fun username f hf => ?_, fun source f hf => ?_, fun username f hf j t hj => ?_,
      fun j t c hj => ?_⟩
    · rcases answered.account username with hkept | ⟨hc, hbumped⟩
      · exact (h.account username f (hkept f hf).1).mono hmono now.ge
      · rw [hbumped] at hf
        obtain rfl := Option.some.inj hf
        have hnot := ht.bumps_once attempt rest (r := r) (.inl ⟨username, hc⟩)
        rw [hc] at hnot made
        exact counts_bumped (h.account username) hnot made now
    · rcases answered.address source with hkept | ⟨hc, hbumped⟩
      · exact (h.address source f (hkept f hf)).mono hmono now.ge
      · rw [hbumped] at hf
        obtain rfl := Option.some.inj hf
        have hnot := ht.bumps_once attempt rest (r := r) (.inr ⟨source, hc⟩)
        rw [hc] at hnot made
        exact counts_bumped (h.address source) hnot made now
    · rcases answered.account username with hkept | ⟨hc, hbumped⟩
      · obtain ⟨hf', hne⟩ := hkept f hf
        rcases (made j t _).mp hj with hj | ⟨-, -, heq⟩
        · exact h.cleared username f hf' j t hj
        · exact absurd heq.symm hne
      · rcases (made j t _).mp hj with hj | ⟨-, -, heq⟩
        · rw [hbumped] at hf
          obtain rfl := Option.some.inj hf
          cases hlive : (s.state.throttle.byAccount.lookup username).filter
              (Failures.live s.state.throttle.window s.now) with
          | none =>
            rw [Failures.bumped_of_lapsed hlive]
            exact h.past j t _ hj
          | some g =>
            rw [Failures.bumped_of_live hlive]
            exact h.cleared username g (Option.filter_eq_some_iff.mp hlive).1 j t hj
        · rw [hc] at heq
          cases heq
    · rw [now]
      rcases (made j t c).mp hj with hj | ⟨-, rfl, -⟩
      · exact h.past j t c hj
      · exact le_refl _

/-- What holds in every state of a run. -/
structure Accountable (cfg : LoginSettings) (state : AppState) (s : Logins ι) : Prop where
  sound : s.Sound cfg
  backed : s.Backed
  conserved : Conserved state.hashPermits s
  tokens : s.state.tokens = state.tokens
  accountLimit : s.state.throttle.accountLimit = state.throttle.accountLimit
  addressLimit : s.state.throttle.addressLimit = state.throttle.addressLimit
  window : s.state.throttle.window = state.throttle.window

lemma Accountable.step {state : AppState} (h : s.Accountable cfg state) {e : Event ι}
    (hs : Logins.step cfg s e = some s') : s'.Accountable cfg state := by
  obtain ⟨haccount, haddress, hwindow⟩ :
      s'.state.throttle.accountLimit = s.state.throttle.accountLimit ∧
      s'.state.throttle.addressLimit = s.state.throttle.addressLimit ∧
      s'.state.throttle.window = s.state.throttle.window := by
    cases callStep_of_step hs with
    | quiet made throttle now => simp [throttle]
    | answers i x a r k attempt rest made now answered => exact answered.settings
  exact ⟨h.sound.step hs, h.backed.step h.sound.tracked hs,
    h.conserved.step h.sound.tracked hs, (tokens_of_step hs).trans h.tokens,
    haccount.trans h.accountLimit, haddress.trans h.addressLimit, hwindow.trans h.window⟩

lemma accountable_of_run {accountLimit addressLimit window permits : ℕ} {tokens : TokenService}
    {es : List (Event ι)} (hrun : (machine ι cfg).run
      (start ι ⟨.new accountLimit addressLimit window, permits, tokens⟩) es = some s) :
    s.Accountable cfg ⟨.new accountLimit addressLimit window, permits, tokens⟩ :=
  Machine.run_invariant (M := machine ι cfg) (Accountable cfg _) (fun _ _ _ h hs => h.step hs)
    ⟨sound_start, backed_start, conserved_start, rfl, rfl, rfl, rfl⟩ hrun

/-! ### When a call was answered -/

/-- In the run of `es`, a call of the login `i` was answered by the event `e`, in the state `u`. -/
structure AnsweredIn (cfg : LoginSettings) (state : AppState) (es : List (Event ι)) (s : Logins ι)
    (i : ι) (a : LoginAct) (r : a.Ans) (e : Event ι) (u : Logins ι) : Prop where
  passes : ∃ v, (machine ι cfg).Passes (start ι state) es s e u v ∧ Answers cfg u i v e a r
  asks : ∃ x k, u.attempt i = some x ∧ x.rest = .act a k

lemma AnsweredIn.run {state : AppState} {es : List (Event ι)} {a : LoginAct} {r : a.Ans}
    {e : Event ι} {u : Logins ι} (h : AnsweredIn cfg state es s i a r e u) :
    ∃ before, (machine ι cfg).run (start ι state) before = some u := by
  obtain ⟨v, ⟨before, after, -, hbefore, -⟩, -⟩ := h.passes
  exact ⟨before, hbefore⟩

lemma AnsweredIn.mem {state : AppState} {es : List (Event ι)} {a : LoginAct} {r : a.Ans}
    {e : Event ι} {u : Logins ι} (h : AnsweredIn cfg state es s i a r e u) : e ∈ es := by
  obtain ⟨v, ⟨before, after, rfl, -⟩, -⟩ := h.passes
  simp

/-- Every call that was made was answered in the course of the run. -/
theorem exists_answeredIn {state : AppState} {es : List (Event ι)}
    (hrun : (machine ι cfg).run (start ι state) es = some s) {a : LoginAct} {r : a.Ans}
    (h : s.Made i t ⟨a, r⟩) : ∃ e u, AnsweredIn cfg state es s i a r e u ∧ u.now = t := by
  refine Machine.run_induction (M := machine ι cfg) (fun es (s : Logins ι) =>
    ∀ i t a r, s.Made i t ⟨a, r⟩ → ∃ e u, AnsweredIn cfg state es s i a r e u ∧ u.now = t)
    ?_ ?_ hrun i t a r h
  · rintro i t a r ⟨x, hx, -⟩
    cases hx
  · intro es s d s' hrun ih hs i t a r hmade
    have hbefore : s.Made i t ⟨a, r⟩ →
        ∃ e u, AnsweredIn cfg state (es ++ [d]) s' i a r e u ∧ u.now = t := by
      intro hmade
      obtain ⟨e, u, ⟨⟨v, hpasses, hanswers⟩, hasks⟩, hnow⟩ := ih i t a r hmade
      exact ⟨e, u, ⟨⟨v, hpasses.snoc hs, hanswers⟩, hasks⟩, hnow⟩
    cases callStep_of_step hs with
    | quiet made throttle now => exact hbefore ((made i t _).mp hmade)
    | answers j x b q k attempt rest made now answered =>
      rcases (made i t _).mp hmade with hmade | ⟨rfl, rfl, heq⟩
      · exact hbefore hmade
      · cases heq
        exact ⟨d, s, ⟨⟨s', Machine.passes_last hrun hs, answered⟩, x, k, attempt, rest⟩, rfl⟩

/-- A verification that ended without an outcome was ended by a panic. -/
lemma finish_mem_of_panicked {state : AppState} {es : List (Event ι)}
    (hrun : (machine ι cfg).run (start ι state) es = some s) {v : Verification}
    (hv : s.verification i = some v) (hout : v.outcome = some none) : .finish i true ∈ es := by
  refine Machine.run_induction (M := machine ι cfg) (fun es (s : Logins ι) => ∀ i v,
    s.verification i = some v → v.outcome = some none → Event.finish i true ∈ es)
    (fun i v hv => by cases hv) ?_ hrun i v hv hout
  intro es s e s' _ ih hs j w hw hout
  have hbefore : s.verification j = some w → Event.finish j true ∈ es ++ [e] :=
    fun hw => List.mem_append_left _ (ih j w hw hout)
  obtain ⟨i, request, address, -, -, rfl⟩ | ⟨i, draw, x, a, k, r, state, -, -, -, -, -, rfl⟩ |
    ⟨i, x, username, offered, k, -, -, -, -, -, rfl⟩ | ⟨i, panics, v, rfl, hv, -, rfl⟩ |
    ⟨i, x, username, offered, k, v, outcome, -, -, -, -, -, -, rfl⟩ |
    ⟨i, x, username, offered, k, v, -, -, -, -, -, rfl⟩ | ⟨d, -, rfl⟩ := step_cases hs
  · exact hbefore hw
  · exact hbefore hw
  · obtain ⟨rfl, rfl⟩ | ⟨-, hj⟩ := update_eq_some hw
    · cases hout
    · exact hbefore hj
  · obtain ⟨rfl, rfl⟩ | ⟨-, hj⟩ := update_eq_some hw
    · cases panics with
      | true => exact List.mem_append_right _ (List.mem_singleton_self _)
      | false => simp at hout
    · exact hbefore hj
  · exact hbefore hw
  · exact hbefore hw
  · exact hbefore hw

omit [DecidableEq ι] in
/-- The outcome of a login's verification is what the directory says of the password that it
offered. -/
lemma Sound.outcome_eq (h : s.Sound cfg) (hx : s.attempt i = some x) {throttled : Bool}
    {outcome : Option Authentication} {more : List (Prog.Performed LoginE)}
    (hlog : x.log.map Prod.snd = verified x.request x.address throttled outcome ++ more) :
    ∃ v, s.verification i = some v ∧ v.outcome = some outcome ∧
      ∀ authentication, outcome = some authentication → authentication =
        (cfg.users.authenticate cfg.argon2 cfg.decoyHash x.request.username
          (offered x.request throttled)).1 := by
  obtain ⟨v, hv, hout⟩ := h.tracked.resumed i x x.request.username (offered x.request throttled)
    outcome hx (by rw [hlog]; simp [verified])
  refine ⟨v, hv, hout, ?_⟩
  rintro authentication rfl
  obtain ⟨y, throttled', log, hy, husername, hoffered, hlog'⟩ := h.tracked.asked i v hv
  rw [hx] at hy
  obtain rfl := Option.some.inj hy
  rw [hlog, verified, List.append_assoc] at hlog'
  have hsame := (List.cons.inj (List.append_cancel_left hlog')).1
  obtain rfl : throttled = throttled' := by
    cases hsame
    rfl
  rw [h.checked i v authentication hv hout, husername, hoffered]

/-! ### What each answer says -/

/-- Why the login `i` is answered as it is. -/
inductive Deserved (cfg : LoginSettings) (state : AppState) (es : List (Event ι)) (s : Logins ι)
    (i : ι) (x : LoginAttempt) : LoginAnswer → Prop
  /-- It asked for a permit while others held them all. -/
  | overloaded {e : Event ι} {u : Logins ι} : AnsweredIn cfg state es s i .acquire false e u →
    ¬u.Holds i → {j | u.Holds j}.encard = state.hashPermits →
    Deserved cfg state es s i x (.error .overloaded)
  /-- Its address was checked when others had failed too often within the window. -/
  | addressThrottled {source : IpAddr} {e : Event ι} {u : Logins ι} {opened : ℕ} :
    x.address = some source → AnsweredIn cfg state es s i (.overAddress source) true e u →
    u.now - opened < state.throttle.window →
    u.MadeSince ⟨.bumpAddress source, ()⟩ state.throttle.addressLimit opened →
    (∀ t, ¬u.Made i t ⟨.bumpAddress source, ()⟩) →
    Deserved cfg state es s i x (.error .addressThrottled)
  /-- Its verification panicked. -/
  | panicked : .finish i true ∈ es → Deserved cfg state es s i x (.error .blockingTask)
  /-- Its password is not that of the account. -/
  | rejected : (cfg.users.authenticate cfg.argon2 cfg.decoyHash x.request.username
      x.request.password).1 = .rejected →
    Deserved cfg state es s i x (.error .invalidCredentials)
  /-- The account was checked when others had failed too often within the window, and nobody had
  logged in since. -/
  | accountThrottled {e : Event ι} {u : Logins ι} {opened : ℕ} :
    AnsweredIn cfg state es s i (.overAccount x.request.username) true e u →
    u.now - opened < state.throttle.window →
    u.MadeSince ⟨.bumpAccount x.request.username, ()⟩ state.throttle.accountLimit opened →
    (∀ t, ¬u.Made i t ⟨.bumpAccount x.request.username, ()⟩) →
    (∀ j t, u.Made j t ⟨.recordSuccess x.request.username, ()⟩ → t ≤ opened) →
    Deserved cfg state es s i x (.error .invalidCredentials)
  /-- Its password is that of the account, which was below its limit. -/
  | authenticated {e : Event ι} {u : Logins ι} {user : UserRecord} {draw : Draw} :
    AnsweredIn cfg state es s i (.overAccount x.request.username) false e u →
    u.state.throttle.accountOver u.now x.request.username = false →
    (cfg.users.authenticate cfg.argon2 cfg.decoyHash x.request.username
      x.request.password).1 = .authenticated user → .act i draw ∈ es →
    Deserved cfg state es s i x (granted (state.tokens.issue cfg.jwt draw.unixNow draw.jti user.id
      user.username, state.tokens.ttlSecs))

/-- A key that is over its limit has a counter that says so, in a window that is open. -/
lemma exists_of_over {K : Type} [DecidableEq K] {counters : HashMap K Failures} {key : K}
    {now limit window : ℕ} (h : («over» now counters key limit window).1 = true) :
    ∃ f, counters.lookup key = some f ∧ now - f.windowStarted < window ∧ limit ≤ f.count := by
  rw [over_eq] at h
  cases hlive : (counters.lookup key).filter (Failures.live window now) with
  | none =>
    rw [hlive] at h
    cases h
  | some f =>
    rw [hlive] at h
    obtain ⟨hf, hopen⟩ := Option.filter_eq_some_iff.mp hlive
    exact ⟨f, hf, Failures.live_iff.mp hopen, of_decide_eq_true h⟩

omit [DecidableEq ι] in
lemma exists_made (hx : s.attempt i = some x) (hlog : c ∈ x.log.map Prod.snd) :
    ∃ t, s.Made i t c := by
  obtain ⟨⟨t, c⟩, hmem, rfl⟩ := List.mem_map.mp hlog
  exact ⟨t, x, hx, hmem⟩

omit [DecidableEq ι] in
lemma MadeSince.of_le {n n' opened : ℕ} (h : s.MadeSince c n' opened) (hn : n ≤ n') :
    s.MadeSince c n opened := by
  obtain ⟨S, hcount, hS⟩ := h
  exact ⟨S, (Nat.cast_le.mpr hn).trans hcount, hS⟩

section Causes

variable {state : AppState} {es : List (Event ι)} {e : Event ι} {u : Logins ι}

/-- A login is refused a permit when others hold all of them. -/
lemma AnsweredIn.overloaded (h : AnsweredIn cfg state es s i .acquire false e u)
    (hu : u.Accountable cfg state) : Deserved cfg state es s i x (.error .overloaded) := by
  obtain ⟨v, -, hanswers⟩ := h.passes
  obtain ⟨y, k, hy, hrest⟩ := h.asks
  have hnone : u.state.hashPermits = 0 := by
    cases hanswers with
    | called hexec =>
      simp only [exec] at hexec
      split at hexec
      · cases hexec
      · omega
  have hreached := hu.sound.tracked.reached hy
  rw [hrest] at hreached
  have hconserved := hu.conserved
  rw [Conserved, hnone, Nat.cast_zero, zero_add] at hconserved
  exact .overloaded h (hu.sound.tracked.not_holds_of_arrived hy hreached.arrived_log).2 hconserved

/-- An address is refused when others have failed from it too often. -/
lemma AnsweredIn.addressThrottled {source : IpAddr} (hsource : x.address = some source)
    (h : AnsweredIn cfg state es s i (.overAddress source) true e u)
    (hu : u.Accountable cfg state) : Deserved cfg state es s i x (.error .addressThrottled) := by
  obtain ⟨v, -, hanswers⟩ := h.passes
  obtain ⟨y, k, hy, hrest⟩ := h.asks
  have hover : («over» u.now u.state.throttle.byAddress source u.state.throttle.addressLimit
      u.state.throttle.window).1 = true := by
    cases hanswers with
    | called hexec => exact (Prod.mk.inj (Option.some.inj hexec)).1
  obtain ⟨f, hf, hopen, hlimit⟩ := exists_of_over hover
  rw [hu.window] at hopen
  rw [hu.addressLimit] at hlimit
  have hreached := hu.sound.tracked.reached hy
  rw [hrest] at hreached
  refine .addressThrottled hsource h hopen ((hu.backed.address source f hf).made.of_le hlimit) ?_
  refine not_made hy ?_
  rw [hreached.checkingAddress_log]
  simp

/-- An account is locked when others have failed to log in to it too often. -/
lemma AnsweredIn.accountThrottled
    (h : AnsweredIn cfg state es s i (.overAccount x.request.username) true e u)
    (hu : u.Accountable cfg state) :
    Deserved cfg state es s i x (.error .invalidCredentials) := by
  obtain ⟨v, -, hanswers⟩ := h.passes
  obtain ⟨y, k, hy, hrest⟩ := h.asks
  have hover : («over» u.now u.state.throttle.byAccount x.request.username
      u.state.throttle.accountLimit u.state.throttle.window).1 = true := by
    cases hanswers with
    | called hexec => exact (Prod.mk.inj (Option.some.inj hexec)).1
  obtain ⟨f, hf, hopen, hlimit⟩ := exists_of_over hover
  rw [hu.window] at hopen
  rw [hu.accountLimit] at hlimit
  have hreached := hu.sound.tracked.reached hy
  rw [hrest] at hreached
  refine .accountThrottled h hopen ((hu.backed.account _ f hf).made.of_le hlimit) ?_
    (hu.backed.cleared _ f hf)
  refine not_made hy ?_
  rw [hreached.checkingAccount_log.2]
  simp [passed]

end Causes

/-- Every answer has its reason, in every run of logins whatever else they do. -/
theorem outcomes_deserved (cfg : LoginSettings) (accountLimit addressLimit window permits : ℕ)
    (tokens : TokenService) (ι : Type) [DecidableEq ι]
    (hunmatchable : ∀ username account, cfg.users.byUsername.lookup username = some account →
      (cfg.argon2.verify unmatchable account.passwordHash).1 = false)
    (es : List (Event ι)) (s : Logins ι)
    (hrun : (machine ι cfg).run
      (start ι ⟨.new accountLimit addressLimit window, permits, tokens⟩) es = some s)
    (i : ι) (x : LoginAttempt) (answer : LoginAnswer) (hx : s.attempt i = some x)
    (hrest : x.rest = .pure answer) :
    Deserved cfg ⟨.new accountLimit addressLimit window, permits, tokens⟩ es s i x answer := by
  have hs := accountable_of_run hrun
  have hfollows := hs.sound.tracked.follows i x hx
  rw [hrest] at hfollows
  have houtcome : Outcome x.request x.address (x.log.map Prod.snd) answer :=
    ends_login.follows hfollows
  -- every call in the log was answered in some state of the run
  have hanswered : ∀ (a : LoginAct) (r : a.Ans), ⟨a, r⟩ ∈ x.log.map Prod.snd → ∃ e u,
      AnsweredIn cfg ⟨.new accountLimit addressLimit window, permits, tokens⟩ es s i a r e u ∧
      u.Accountable cfg ⟨.new accountLimit addressLimit window, permits, tokens⟩ := by
    intro a r hmem
    obtain ⟨t, hmade⟩ := exists_made hx hmem
    obtain ⟨e, u, h, -⟩ := exists_answeredIn hrun hmade
    obtain ⟨before, hbefore⟩ := h.run
    exact ⟨e, u, h, accountable_of_run hbefore⟩
  generalize hlog : x.log.map Prod.snd = log at houtcome hanswered
  cases houtcome with
  | shed =>
    obtain ⟨e, u, h, hu⟩ := hanswered .acquire false (by simp)
    exact h.overloaded hu
  | refused source hsource =>
    obtain ⟨e, u, h, hu⟩ := hanswered (.overAddress source) true (by simp)
    exact h.addressThrottled hsource hu
  | panicked throttled =>
    have hlog' : x.log.map Prod.snd = verified x.request x.address throttled none ++ [] := by
      simpa using hlog
    obtain ⟨v, hv, hout, -⟩ := hs.sound.outcome_eq hx hlog'
    exact .panicked (finish_mem_of_panicked hrun hv hout)
  | rejected throttled =>
    obtain ⟨v, hv, hout, heq⟩ := hs.sound.outcome_eq hx hlog
    cases throttled with
    | true =>
      obtain ⟨e, u, h, hu⟩ := hanswered (.overAccount x.request.username) true (by simp [verified])
      exact h.accountThrottled hu
    | false => exact .rejected (heq .rejected rfl).symm
  | authenticated throttled user r =>
    obtain ⟨v, hv, hout, heq⟩ := hs.sound.outcome_eq hx hlog
    have hauthenticated := (heq (.authenticated user) rfl).symm
    cases throttled with
    | true =>
      -- nobody is authenticated with the password that throttled logins are checked with
      obtain ⟨hlookup, hverify⟩ := UserDirectory.authenticate_eq_authenticated hauthenticated
      have hfalse := hunmatchable _ _ hlookup
      rw [offered, if_pos rfl, hfalse] at hverify
      cases hverify
    | false =>
      obtain ⟨e, u, h, hu⟩ := hanswered (.overAccount x.request.username) false
        (by simp [verified])
      have hbelow : u.state.throttle.accountOver u.now x.request.username = false := by
        obtain ⟨v, -, hanswers⟩ := h.passes
        cases hanswers with
        | called hexec => exact (Prod.mk.inj (Option.some.inj hexec)).1
      obtain ⟨e', u', h', hu'⟩ := hanswered (.issue user.id user.username) r (by simp)
      obtain ⟨v', -, hanswers⟩ := h'.passes
      cases hanswers with
      | @called draw _ _ hexec =>
        have hr := (Prod.mk.inj (Option.some.inj hexec)).1
        rw [hu'.tokens] at hr
        rw [← hr]
        exact .authenticated h hbelow hauthenticated h'.mem

open Sample in
/-- The second of two failed logins is rejected because the first one locked the account. -/
theorem outcomes_deserved_locked : ∃ (s : Logins ℕ) (x : LoginAttempt),
    (machine ℕ ⟨argon2, .ofTokens ∅, directory, decoyHash⟩).run idle (wrong 0 ++ wrong 1) =
      some s ∧ s.attempt 1 = some x ∧ x.rest = .pure (.error .invalidCredentials) ∧
    Deserved ⟨argon2, .ofTokens ∅, directory, decoyHash⟩ idle.state (wrong 0 ++ wrong 1) s 1 x
      (.error .invalidCredentials) := by
  refine ⟨_, _, rfl, rfl, rfl, outcomes_deserved ⟨argon2, .ofTokens ∅, directory, decoyHash⟩ 1 20
    (300 * 10 ^ 9) 1 (.new ⟨"k1", "s1"⟩ [] 900) ℕ (fun username account h => ?_)
    (wrong 0 ++ wrong 1) _ rfl 1 _ _ rfl rfl⟩
  obtain ⟨rfl, rfl⟩ : username = "alice" ∧ account = alice := by
    simpa [directory] using AList.mem_lookup_iff.mp h
  decide

end Logins

end Knova
