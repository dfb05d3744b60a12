import Knova.Auth.Login

/-!
# How far a login has come

A login takes a permit, checks the throttle, verifies a password, and records the outcome.
In every state of every run each handler has come as far as its log says, and each
verification is the one its handler asked for.
-/

namespace Knova

open Library

namespace Login

/-- The password a login verifies: its own, unless the account is throttled. -/
def offered (request : LoginRequest) (throttled : Bool) : String :=
  if throttled then unmatchable else request.password

/-- The calls of a login whose address, if it has one, was not refused. -/
def passed (address : Option IpAddr) : List (Prog.Performed LoginE) :=
  ⟨.acquire, true⟩ :: address.toList.map fun a => ⟨.overAddress a, false⟩

/-- The calls made after a verification and what is left of the handler. -/
inductive Concluding (username : String) (address : Option IpAddr) :
    Option Authentication → List (Prog.Performed LoginE) → LoginProg LoginAnswer → Prop
  | panicked : Concluding username address none [] (.pure (.error .blockingTask))
  | recording (k : Unit → LoginProg LoginAnswer) :
    Concluding username address (some .rejected) [] (.act (.bumpAccount username) k)
  | recordingAddress (source : IpAddr) (k : Unit → LoginProg LoginAnswer) :
    address = some source → Concluding username address (some .rejected)
      [⟨.bumpAccount username, ()⟩] (.act (.bumpAddress source) k)
  | rejected : Concluding username address (some .rejected)
      (⟨.bumpAccount username, ()⟩ :: address.toList.map fun a => ⟨.bumpAddress a, ()⟩)
      (.pure (.error .invalidCredentials))
  | clearing (user : UserRecord) (k : Unit → LoginProg LoginAnswer) :
    Concluding username address (some (.authenticated user)) []
      (.act (.recordSuccess username) k)
  | issuing (user : UserRecord) (k : Except AppError String × ℕ → LoginProg LoginAnswer) :
    Concluding username address (some (.authenticated user))
      [⟨.recordSuccess username, ()⟩] (.act (.issue user.id user.username) k)
  | answered (user : UserRecord) (r : Except AppError String × ℕ) (answer : LoginAnswer) :
    Concluding username address (some (.authenticated user))
      [⟨.recordSuccess username, ()⟩, ⟨.issue user.id user.username, r⟩] (.pure answer)

/-- The calls a login has made and what is left of it. -/
inductive Reached (request : LoginRequest) (address : Option IpAddr) :
    List (Prog.Performed LoginE) → LoginProg LoginAnswer → Prop
  | arrived (k : Bool → LoginProg LoginAnswer) : Reached request address [] (.act .acquire k)
  | shed : Reached request address [⟨.acquire, false⟩] (.pure (.error .overloaded))
  | checkingAddress (source : IpAddr) (k : Bool → LoginProg LoginAnswer) :
    address = some source →
    Reached request address [⟨.acquire, true⟩] (.act (.overAddress source) k)
  | refusing (source : IpAddr) (k : Unit → LoginProg LoginAnswer) : Reached request address
      [⟨.acquire, true⟩, ⟨.overAddress source, true⟩] (.act .release k)
  | refused (source : IpAddr) : Reached request address
      [⟨.acquire, true⟩, ⟨.overAddress source, true⟩, ⟨.release, ()⟩]
      (.pure (.error .addressThrottled))
  | checkingAccount (k : Bool → LoginProg LoginAnswer) :
    Reached request address (passed address) (.act (.overAccount request.username) k)
  | verifying (throttled : Bool) : Reached request address
      (passed address ++ [⟨.overAccount request.username, throttled⟩])
      (.act (.authenticate request.username (offered request throttled))
        (conclude request.username address))
  | concluding (throttled : Bool) (outcome : Option Authentication)
    (log : List (Prog.Performed LoginE)) (rest : LoginProg LoginAnswer) :
    Concluding request.username address outcome log rest → Reached request address
      (passed address ++ ⟨.overAccount request.username, throttled⟩ ::
        ⟨.authenticate request.username (offered request throttled), outcome⟩ :: log) rest

variable {request : LoginRequest} {address : Option IpAddr} {username : String}
  {log : List (Prog.Performed LoginE)} {rest : LoginProg LoginAnswer}

lemma concluding_of_follows {outcome : Option Authentication}
    (h : (conclude username address outcome).Follows log rest) :
    Concluding username address outcome log rest := by
  match outcome with
  | none =>
    obtain ⟨rfl, rfl⟩ := Prog.follows_pure_iff.mp h
    exact .panicked
  | some .rejected =>
    obtain ⟨rfl, rfl⟩ | ⟨-, log', rfl, h'⟩ := Prog.follows_act_iff.mp h
    · exact .recording _
    · cases address with
      | none =>
        obtain ⟨rfl, rfl⟩ := Prog.follows_pure_iff.mp h'
        exact .rejected
      | some source =>
        obtain ⟨rfl, rfl⟩ | ⟨-, log'', rfl, h''⟩ := Prog.follows_act_iff.mp h'
        · exact .recordingAddress source _ rfl
        · obtain ⟨rfl, rfl⟩ := Prog.follows_pure_iff.mp h''
          exact .rejected
  | some (.authenticated user) =>
    obtain ⟨rfl, rfl⟩ | ⟨-, log', rfl, h'⟩ := Prog.follows_act_iff.mp h
    · exact .clearing user _
    · obtain ⟨rfl, rfl⟩ | ⟨⟨issued, ttlSecs⟩, log'', rfl, h''⟩ := Prog.follows_act_iff.mp h'
      · exact .issuing user _
      · cases issued with
        | error e =>
          obtain ⟨rfl, rfl⟩ := Prog.follows_pure_iff.mp h''
          exact .answered user _ _
        | ok accessToken =>
          obtain ⟨rfl, rfl⟩ := Prog.follows_pure_iff.mp h''
          exact .answered user _ _

/-- What follows a check, by its verdict. -/
def checked (request : LoginRequest) (address : Option IpAddr) : Verdict → LoginProg LoginAnswer
  | .addressThrottled => .act .release fun _ => .pure (.error .addressThrottled)
  | .accountThrottled => .act (.authenticate request.username unmatchable)
      (conclude request.username address)
  | .allowed => .act (.authenticate request.username request.password)
      (conclude request.username address)

lemma checked_eq (throttled : Bool) :
    checked request address (if throttled then .accountThrottled else .allowed) =
      .act (.authenticate request.username (offered request throttled))
        (conclude request.username address) := by
  cases throttled <;> rfl

/-- What follows a check that went as far as the account. -/
lemma reached_of_checkAccount (h : (Prog.act (.overAccount request.username) fun throttled : Bool =>
      checked request address (if throttled then .accountThrottled else .allowed) :
        LoginProg LoginAnswer).Follows log rest) :
    Reached request address (passed address ++ log) rest := by
  obtain ⟨rfl, rfl⟩ | ⟨throttled, log', rfl, h'⟩ := Prog.follows_act_iff.mp h
  · rw [List.append_nil]
    exact .checkingAccount _
  · rw [checked_eq] at h'
    obtain ⟨rfl, rfl⟩ | ⟨outcome, log'', rfl, h''⟩ := Prog.follows_act_iff.mp h'
    · exact .verifying throttled
    · exact .concluding throttled outcome log'' rest (concluding_of_follows h'')

/-- Everything a login can have done. -/
theorem reached_of_follows (h : (login request address).Follows log rest) :
    Reached request address log rest := by
  obtain ⟨rfl, rfl⟩ | ⟨admitted, log', rfl, h'⟩ := Prog.follows_act_iff.mp h
  · exact .arrived _
  · cases admitted with
    | false =>
      obtain ⟨rfl, rfl⟩ := Prog.follows_pure_iff.mp h'
      exact .shed
    | true =>
      change (check request.username address (checked request address)).Follows log' rest at h'
      cases address with
      | none => exact reached_of_checkAccount h'
      | some source =>
        obtain ⟨rfl, rfl⟩ | ⟨reached, log'', rfl, h''⟩ := Prog.follows_act_iff.mp h'
        · exact .checkingAddress source _ rfl
        · cases reached with
          | false => exact reached_of_checkAccount h''
          | true =>
            obtain ⟨rfl, rfl⟩ | ⟨-, log₃, rfl, h₃⟩ := Prog.follows_act_iff.mp h''
            · exact .refusing source _
            · obtain ⟨rfl, rfl⟩ := Prog.follows_pure_iff.mp h₃
              exact .refused source

/-- A login that waits for its verification has been let through by its check. -/
lemma Reached.verifying_log {offered' : String}
    {k : Option Authentication → LoginProg LoginAnswer}
    (h : Reached request address log (.act (.authenticate username offered') k)) :
    ∃ throttled, log = passed address ++ [⟨.overAccount request.username, throttled⟩] ∧
      username = request.username ∧ offered' = offered request throttled := by
  cases h with
  | verifying throttled => exact ⟨throttled, rfl, rfl, rfl⟩
  | concluding throttled outcome log rest h => cases h

lemma Reached.checkingAccount_log {k : Bool → LoginProg LoginAnswer}
    (h : Reached request address log (.act (.overAccount username) k)) :
    username = request.username ∧ log = passed address := by
  cases h with
  | checkingAccount k => exact ⟨rfl, rfl⟩
  | concluding throttled outcome log rest h => cases h

lemma Reached.recording_log {k : Unit → LoginProg LoginAnswer}
    (h : Reached request address log (.act (.bumpAccount username) k)) :
    username = request.username ∧ ∃ throttled, log = passed address ++
      [⟨.overAccount request.username, throttled⟩,
        ⟨.authenticate request.username (offered request throttled), some .rejected⟩] := by
  cases h with
  | concluding throttled outcome log rest h =>
    cases h with
    | recording k => exact ⟨rfl, throttled, rfl⟩

end Login

namespace Logins

open Login

variable {ι : Type} [DecidableEq ι] {cfg : LoginSettings} {s s' : Logins ι}

/-- Everything one step can do. -/
theorem step_cases {e : Event ι} (hs : step cfg s e = some s') :
    (∃ i request address, e = .arrive i request address ∧ s.attempt i = none ∧
      s' = { s with
        attempt := Function.update s.attempt i
          (some ⟨request, address, [], login request address, false⟩) }) ∨
    (∃ i draw x a k r state, e = .act i draw ∧ s.attempt i = some x ∧ x.dropped = false ∧
      x.rest = .act a k ∧ exec cfg.jwt s.now draw a s.state = some (r, state) ∧
      s' = { s with state, attempt := s.answer i x a r (k r) }) ∨
    (∃ i x username offered k, e = .spawn i ∧ s.attempt i = some x ∧ x.dropped = false ∧
      x.rest = .act (.authenticate username offered) k ∧ s.verification i = none ∧
      s' = { s with verification :=
        Function.update s.verification i (some ⟨username, offered, none, 0⟩) }) ∨
    (∃ i panics v, e = .finish i panics ∧ s.verification i = some v ∧ v.outcome = none ∧
      s' = { s with
        state := { s.state with hashPermits := s.state.hashPermits + 1 }
        verification := Function.update s.verification i (some ⟨v.username, v.offered,
          some (if panics then none
            else some (cfg.users.authenticate cfg.argon2 cfg.decoyHash v.username v.offered).1),
          (cfg.users.authenticate cfg.argon2 cfg.decoyHash v.username v.offered).2⟩) }) ∨
    (∃ i x username offered k v outcome, e = .resume i ∧ s.attempt i = some x ∧
      x.dropped = false ∧ x.rest = .act (.authenticate username offered) k ∧
      s.verification i = some v ∧ v.outcome = some outcome ∧
      s' = { s with
        attempt := s.answer i x (.authenticate username offered) outcome (k outcome) }) ∨
    (∃ i x username offered k v, e = .drop i ∧ s.attempt i = some x ∧ x.dropped = false ∧
      x.rest = .act (.authenticate username offered) k ∧ s.verification i = some v ∧
      s' = { s with attempt :=
        Function.update s.attempt i (some { x with dropped := true }) }) ∨
    ∃ d, e = .tick d ∧ s' = { s with now := s.now + d } := by
  cases e with
  | arrive i request address =>
    left
    simp only [step] at hs
    split at hs
    · rename_i hi
      exact ⟨i, request, address, rfl, hi, (Option.some.inj hs).symm⟩
    · cases hs
  | act i draw =>
    right; left
    simp only [step] at hs
    split at hs
    · rename_i request address log a k hi
      split at hs
      · rename_i r state he
        exact ⟨i, draw, _, a, k, r, state, rfl, hi, rfl, rfl, he, (Option.some.inj hs).symm⟩
      · cases hs
    · cases hs
  | spawn i =>
    right; right; left
    simp only [step] at hs
    split at hs
    · rename_i request address log username offered k hi hv
      exact ⟨i, _, username, offered, k, rfl, hi, rfl, rfl, hv, (Option.some.inj hs).symm⟩
    · cases hs
  | finish i panics =>
    right; right; right; left
    simp only [step] at hs
    split at hs
    · rename_i username offered work hv
      exact ⟨i, panics, _, rfl, hv, rfl, (Option.some.inj hs).symm⟩
    · cases hs
  | resume i =>
    right; right; right; right; left
    simp only [step] at hs
    split at hs
    · rename_i request address log username offered k username' offered' outcome work hi hv
      exact ⟨i, _, username, offered, k, _, outcome, rfl, hi, rfl, rfl, hv, rfl,
        (Option.some.inj hs).symm⟩
    · cases hs
  | drop i =>
    right; right; right; right; right; left
    simp only [step] at hs
    split at hs
    · rename_i request address log username offered k v hi hv
      exact ⟨i, _, username, offered, k, v, rfl, hi, rfl, rfl, hv, (Option.some.inj hs).symm⟩
    · cases hs
  | tick d => exact .inr (.inr (.inr (.inr (.inr (.inr ⟨d, rfl, (Option.some.inj hs).symm⟩)))))

/-- What holds of the handlers and their verifications in every state of a run. -/
structure Tracked (s : Logins ι) : Prop where
  follows : ∀ i x, s.attempt i = some x →
    (login x.request x.address).Follows (x.log.map Prod.snd) x.rest
  /-- A verification is one that its handler asked for. -/
  asked : ∀ i v, s.verification i = some v → ∃ x throttled log, s.attempt i = some x ∧
    v.username = x.request.username ∧ v.offered = offered x.request throttled ∧
    x.log.map Prod.snd = passed x.address ++ ⟨.overAccount x.request.username, throttled⟩ :: log
  /-- A handler goes on with the outcome of its verification. -/
  resumed : ∀ i x username offered outcome, s.attempt i = some x →
    ⟨.authenticate username offered, outcome⟩ ∈ x.log.map Prod.snd →
    ∃ v, s.verification i = some v ∧ v.outcome = some outcome
  /-- Only a handler that waits is dropped. -/
  dropped : ∀ i x, s.attempt i = some x → x.dropped = true → ∃ v, s.verification i = some v

omit [DecidableEq ι] in
lemma Tracked.reached (h : s.Tracked) {i : ι} {x : LoginAttempt} (hx : s.attempt i = some x) :
    Reached x.request x.address (x.log.map Prod.snd) x.rest :=
  reached_of_follows (h.follows i x hx)

omit [DecidableEq ι] in
lemma tracked_start {state : AppState} : (start ι state).Tracked where
  follows _ _ h := by cases h
  asked _ _ h := by cases h
  resumed _ _ _ _ _ h := by cases h
  dropped _ _ h := by cases h

/-- An answered call keeps the handlers tracked: one on the shared state, or the outcome of
the verification. -/
lemma Tracked.answer (h : s.Tracked) {i : ι} {x : LoginAttempt} {a : LoginAct} {r : a.Ans}
    {k : a.Ans → LoginProg LoginAnswer} (hx : s.attempt i = some x) (hdrop : x.dropped = false)
    (hrest : x.rest = .act a k)
    (ha : ∀ username offered outcome, (⟨a, r⟩ : Prog.Performed LoginE) =
      ⟨.authenticate username offered, outcome⟩ →
      ∃ v, s.verification i = some v ∧ v.outcome = some outcome) (state : AppState) :
    Tracked { s with state, attempt := s.answer i x a r (k r) } where
  follows j y hy := by
    obtain ⟨rfl, rfl⟩ | ⟨hne, hj⟩ := update_eq_some hy
    · have hfollows := h.follows j x hx
      rw [hrest] at hfollows
      simpa using hfollows.snoc r
    · exact h.follows j y hj
  asked j v hv := by
    obtain ⟨y, throttled, log, hy, husername, hoffered, hlog⟩ := h.asked j v hv
    by_cases hj : j = i
    · subst hj
      rw [hx] at hy
      obtain rfl := Option.some.inj hy
      exact ⟨_, throttled, log ++ [⟨a, r⟩], Function.update_self .., husername, hoffered, by
        simp [hlog]⟩
    · exact ⟨y, throttled, log, (Function.update_of_ne hj ..).trans hy, husername, hoffered, hlog⟩
  resumed j y username offered outcome hy hmem := by
    obtain ⟨rfl, rfl⟩ | ⟨hne, hj⟩ := update_eq_some hy
    · rw [List.map_append, List.mem_append, List.map_singleton, List.mem_singleton] at hmem
      rcases hmem with hmem | hmem
      · exact h.resumed j x username offered outcome hx hmem
      · exact ha username offered outcome hmem.symm
    · exact h.resumed j y username offered outcome hj hmem
  dropped j y hy hydrop := by
    obtain ⟨rfl, rfl⟩ | ⟨hne, hj⟩ := update_eq_some hy
    · rw [hdrop] at hydrop
      cases hydrop
    · exact h.dropped j y hj hydrop

/-- A verification that starts or ends is the one its handler asked for. -/
lemma Tracked.verification (h : s.Tracked) {i : ι} {x : LoginAttempt} {username offered' : String}
    {throttled : Bool} {log : List (Prog.Performed LoginE)} (hx : s.attempt i = some x)
    (husername : username = x.request.username) (hoffered : offered' = offered x.request throttled)
    (hlog : x.log.map Prod.snd =
      passed x.address ++ ⟨.overAccount x.request.username, throttled⟩ :: log)
    (hnone : ∀ v, s.verification i = some v → v.outcome = none)
    (outcome : Option (Option Authentication)) (work : ℕ) (state : AppState) :
    Tracked { s with
      state
      verification :=
        Function.update s.verification i (some ⟨username, offered', outcome, work⟩) } where
  follows := h.follows
  asked j w hw := by
    obtain ⟨rfl, rfl⟩ | ⟨hne, hj⟩ := update_eq_some hw
    · exact ⟨x, throttled, log, hx, husername, hoffered, hlog⟩
    · exact h.asked j w hj
  resumed j y username offered outcome hy hmem := by
    obtain ⟨w, hw, hout⟩ := h.resumed j y username offered outcome hy hmem
    by_cases hj : j = i
    · subst hj
      rw [hnone w hw] at hout
      cases hout
    · exact ⟨w, (Function.update_of_ne hj ..).trans hw, hout⟩
  dropped j y hy hydrop := by
    obtain ⟨w, hw⟩ := h.dropped j y hy hydrop
    by_cases hj : j = i
    · subst hj
      exact ⟨_, Function.update_self ..⟩
    · exact ⟨w, (Function.update_of_ne hj ..).trans hw⟩

lemma Tracked.arrive (h : s.Tracked) {i : ι} (hi : s.attempt i = none) (request : LoginRequest)
    (address : Option IpAddr) : Tracked { s with
      attempt := Function.update s.attempt i
        (some ⟨request, address, [], login request address, false⟩) } where
  follows j y hy := by
    obtain ⟨rfl, rfl⟩ | ⟨hne, hj⟩ := update_eq_some hy
    · exact .refl _
    · exact h.follows j y hj
  asked j v hv := by
    obtain ⟨y, throttled, log, hy, hrest⟩ := h.asked j v hv
    have hj : j ≠ i := by
      rintro rfl
      rw [hi] at hy
      cases hy
    exact ⟨y, throttled, log, (Function.update_of_ne hj ..).trans hy, hrest⟩
  resumed j y username offered outcome hy hmem := by
    obtain ⟨rfl, rfl⟩ | ⟨hne, hj⟩ := update_eq_some hy
    · cases hmem
    · exact h.resumed j y username offered outcome hj hmem
  dropped j y hy hydrop := by
    obtain ⟨rfl, rfl⟩ | ⟨hne, hj⟩ := update_eq_some hy
    · cases hydrop
    · exact h.dropped j y hj hydrop

lemma Tracked.drop (h : s.Tracked) {i : ι} {x : LoginAttempt} {v : Verification}
    (hx : s.attempt i = some x) (hv : s.verification i = some v) :
    Tracked { s with
      attempt := Function.update s.attempt i (some { x with dropped := true }) } where
  follows j y hy := by
    obtain ⟨rfl, rfl⟩ | ⟨hne, hj⟩ := update_eq_some hy
    · exact h.follows j x hx
    · exact h.follows j y hj
  asked j w hw := by
    obtain ⟨y, throttled, log, hy, hrest⟩ := h.asked j w hw
    by_cases hj : j = i
    · subst hj
      rw [hx] at hy
      obtain rfl := Option.some.inj hy
      exact ⟨_, throttled, log, Function.update_self .., hrest⟩
    · exact ⟨y, throttled, log, (Function.update_of_ne hj ..).trans hy, hrest⟩
  resumed j y username offered outcome hy hmem := by
    obtain ⟨rfl, rfl⟩ | ⟨hne, hj⟩ := update_eq_some hy
    · exact h.resumed j x username offered outcome hx hmem
    · exact h.resumed j y username offered outcome hj hmem
  dropped j y hy hydrop := by
    obtain ⟨rfl, rfl⟩ | ⟨hne, hj⟩ := update_eq_some hy
    · exact ⟨v, hv⟩
    · exact h.dropped j y hj hydrop

lemma Tracked.step (h : s.Tracked) {e : Event ι} (hs : Logins.step cfg s e = some s') :
    s'.Tracked := by
  obtain ⟨i, request, address, -, hi, rfl⟩ | ⟨i, draw, x, a, k, r, state, -, hx, hdrop, hrest,
    hexec, rfl⟩ | ⟨i, x, username, offered, k, -, hx, hdrop, hrest, hv, rfl⟩ |
    ⟨i, panics, v, -, hv, hout, rfl⟩ | ⟨i, x, username, offered, k, v, outcome, -, hx, hdrop, hrest,
      hv, hout, rfl⟩ | ⟨i, x, username, offered, k, v, -, hx, hdrop, hrest, hv, rfl⟩ |
    ⟨d, -, rfl⟩ := step_cases hs
  · exact h.arrive hi request address
  · refine h.answer hx hdrop hrest (fun username offered outcome heq => ?_) state
    cases heq
    cases hexec
  · have hreached := h.reached hx
    rw [hrest] at hreached
    obtain ⟨throttled, hlog, husername, hoffered⟩ := hreached.verifying_log
    refine h.verification hx husername hoffered hlog (fun v' hv' => ?_) none 0 s.state
    rw [hv] at hv'
    cases hv'
  · obtain ⟨x, throttled, log, hx, husername, hoffered, hlog⟩ := h.asked i v hv
    refine h.verification hx husername hoffered hlog (fun v' hv' => ?_) _ _ _
    rw [hv] at hv'
    obtain rfl := Option.some.inj hv'
    exact hout
  · refine h.answer hx hdrop hrest (fun username offered outcome heq => ?_) s.state
    cases heq
    exact ⟨v, hv, hout⟩
  · exact h.drop hx hv
  · exact ⟨h.follows, h.asked, h.resumed, h.dropped⟩

/-- In every state of a run. -/
theorem tracked_of_run {state : AppState} {es : List (Event ι)}
    (hrun : (machine ι cfg).run (start ι state) es = some s) : s.Tracked :=
  Machine.run_invariant Tracked (fun _ _ _ h hs => h.step hs) tracked_start hrun

end Logins

end Knova
