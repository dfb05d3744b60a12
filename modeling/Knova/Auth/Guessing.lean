import Knova.Auth.Permits

/-!
# Guessing one account's password from many logins

A login on an account is let through when its check finds the account below its limit; its own
password is then verified. The failure counts against the account only when the handler goes
on and records it, after the verification has given its permit back.
-/

namespace Knova.Logins

open Library Login

variable {ι : Type} [DecidableEq ι] {cfg : LoginSettings}

/-- In these calls the account was found below its limit. -/
def through (username : String) (calls : List (Prog.Performed LoginE)) : Bool :=
  calls.any fun
    | ⟨.overAccount name, throttled⟩ => name == username && !throttled
    | _ => false

/-- In these calls an outcome was recorded for the account. -/
def recorded (username : String) (calls : List (Prog.Performed LoginE)) : Bool :=
  calls.any fun
    | ⟨.bumpAccount name, _⟩ => name == username
    | ⟨.recordSuccess name, _⟩ => name == username
    | _ => false

/-- The login `i` on the account was let through by its check. -/
def letThrough (username : String) (s : Logins ι) (i : ι) : Bool :=
  match s.attempt i with
  | some x => x.request.username == username && through username (x.log.map Prod.snd)
  | none => false

/-- The call on the shared state that an event performs. -/
def called (s : Logins ι) : Event ι → Option LoginAct
  | .act i _ =>
    match s.attempt i with
    | some ⟨_, _, _, .act a _, _⟩ => some a
    | _ => none
  | _ => none

/-- Whose own password has been verified against the account once the event has happened: a
login let through whose verification ends, or whose failure is recorded. -/
def verifies (username : String) (s : Logins ι) : Event ι → List ι
  | .finish i false => if letThrough username s i then [i] else []
  | .act i draw =>
    if called s (.act i draw) = some (.bumpAccount username) ∧ letThrough username s i then [i]
    else []
  | _ => []

/-- Whose own password is verified against the account in the course of some events. -/
def verifiedIn (cfg : LoginSettings) (username : String) : Logins ι → List (Event ι) → List ι
  | _, [] => []
  | s, e :: es =>
    match step cfg s e with
    | none => []
    | some s' => verifies username s e ++ verifiedIn cfg username s' es

/-- The window of the account that was opened at `opened` is open. -/
def WindowOpen (username : String) (opened : ℕ) (s : Logins ι) : Prop :=
  ∃ f ∈ s.state.throttle.byAccount.lookup username,
    f.windowStarted = opened ∧ s.now - opened < s.state.throttle.window

/-- An event that happens in that window; one that opens it does. -/
def Within (cfg : LoginSettings) (username : String) (opened : ℕ) (s : Logins ι) (e : Event ι) :
    Prop :=
  ∀ s' ∈ step cfg s e, WindowOpen username opened s'

/-- A login on the account was let through, its verification has ended, and the outcome is
not recorded. -/
def overdue (username : String) (s : Logins ι) (i : ι) : Bool :=
  match s.attempt i, s.verification i with
  | some x, some ⟨_, _, some (some _), _⟩ => letThrough username s i &&
    !recorded username (x.log.map Prod.snd)
  | _, _ => false

/-- No login on the account is checked while the outcome of another one is overdue, and its
counter does not overflow. -/
structure Prompt (username : String) (s : Logins ι) (e : Event ι) : Prop where
  check : called s e = some (.overAccount username) → ∀ j, overdue username s j = false
  record : called s e = some (.bumpAccount username) →
    ∀ f ∈ s.state.throttle.byAccount.lookup username, f.count + 1 < 2 ^ 32

instance (username : String) (opened : ℕ) (s : Logins ι) :
    Decidable (WindowOpen username opened s) :=
  inferInstanceAs (Decidable (∃ f ∈ s.state.throttle.byAccount.lookup username, _))

instance (username : String) (opened : ℕ) (s : Logins ι) (e : Event ι) :
    Decidable (Within cfg username opened s e) :=
  inferInstanceAs (Decidable (∀ s' ∈ step cfg s e, _))

instance [Fintype ι] (username : String) (s : Logins ι) (e : Event ι) :
    Decidable (Prompt username s e) :=
  decidable_of_iff ((called s e = some (.overAccount username) →
      ∀ j, overdue username s j = false) ∧ (called s e = some (.bumpAccount username) →
      ∀ f ∈ s.state.throttle.byAccount.lookup username, f.count + 1 < 2 ^ 32))
    ⟨fun h => ⟨h.1, h.2⟩, fun h => ⟨h.check, h.record⟩⟩

/-! ### Logins that may still be counted -/

/-- A login on the account was let through, and its outcome may still be recorded. -/
def Pending (username : String) (s : Logins ι) (i : ι) : Prop :=
  (∃ x, s.attempt i = some x ∧ x.request.username = username ∧
    through username (x.log.map Prod.snd) ∧ recorded username (x.log.map Prod.snd) = false) ∧
  ∀ v, s.verification i = some v → v.outcome ≠ some none

/-- The verification of `i` has ended. -/
def Ended (s : Logins ι) (i : ι) : Prop := ∃ v, s.verification i = some v ∧ v.outcome ≠ none

variable {s s' : Logins ι} {username : String} {i j : ι} {x : LoginAttempt}

lemma through_append {calls more : List (Prog.Performed LoginE)} :
    through username (calls ++ more) = (through username calls || through username more) :=
  List.any_append

lemma recorded_append {calls more : List (Prog.Performed LoginE)} :
    recorded username (calls ++ more) = (recorded username calls || recorded username more) :=
  List.any_append

lemma through_passed {address : Option IpAddr} : through username (passed address) = false := by
  cases address <;> rfl

lemma recorded_passed {address : Option IpAddr} : recorded username (passed address) = false := by
  cases address <;> rfl

omit [DecidableEq ι] in
lemma letThrough_iff (hx : s.attempt i = some x) : letThrough username s i = true ↔
    x.request.username = username ∧ through username (x.log.map Prod.snd) = true := by
  simp [letThrough, hx]

omit [DecidableEq ι] in
lemma pending_iff (hx : s.attempt i = some x) : Pending username s i ↔
    (letThrough username s i = true ∧ recorded username (x.log.map Prod.snd) = false) ∧
      ∀ v, s.verification i = some v → v.outcome ≠ some none := by
  rw [letThrough_iff hx, Pending]
  simp [hx, and_assoc]

omit [DecidableEq ι] in
/-- Whether a login is pending depends on its handler and its verification alone. -/
lemma pending_congr (hattempt : s'.attempt j = s.attempt j)
    (hverification : s'.verification j = s.verification j) :
    Pending username s' j ↔ Pending username s j := by
  rw [Pending, Pending, hattempt, hverification]

omit [DecidableEq ι] in
lemma ended_congr (hverification : s'.verification j = s.verification j) :
    Ended s' j ↔ Ended s j := by
  rw [Ended, Ended, hverification]

omit [DecidableEq ι] in
/-- A login that is pending holds its permit, or its outcome is overdue. -/
lemma Tracked.holds_of_pending (ht : s.Tracked) (h : Pending username s j)
    (hoverdue : overdue username s j = false) : s.Holds j := by
  obtain ⟨⟨x, hx, husername, hthrough, hrecorded⟩, hpanicked⟩ := h
  cases hv : s.verification j with
  | some v =>
    refine .inr ⟨v, hv, ?_⟩
    obtain ⟨name, offered', outcome, work⟩ := v
    match outcome with
    | none => rfl
    | some none => exact absurd rfl (hpanicked _ hv)
    | some (some outcome) =>
      simp [overdue, hx, hv, letThrough, husername, hthrough, hrecorded] at hoverdue
  | none =>
    refine .inl ⟨x, hx, ?_, hv⟩
    have hreached := ht.reached hx
    generalize x.log.map Prod.snd = log at hreached hthrough
    generalize x.rest = rest at hreached
    cases hreached with
    | arrived k => cases hthrough
    | shed => cases hthrough
    | checkingAddress source k hsource => cases hthrough
    | refusing source k => cases hthrough
    | refused source => cases hthrough
    | checkingAccount k =>
      rw [through_passed] at hthrough
      cases hthrough
    | verifying throttled => exact carries_passed (by simp)
    | concluding throttled outcome log rest hc =>
      refine carries_passed ?_
      cases hc <;> simp

omit [DecidableEq ι] in
/-- Nothing is recorded before the verification has ended. -/
lemma Tracked.not_recorded (ht : s.Tracked) (hx : s.attempt i = some x) {v : Verification}
    (hv : s.verification i = some v) (hout : v.outcome = none) :
    recorded username (x.log.map Prod.snd) = false := by
  have hreached := ht.reached hx
  have hverified : ∀ name offered' outcome,
      ⟨.authenticate name offered', outcome⟩ ∉ x.log.map Prod.snd := by
    intro name offered' outcome hmem
    obtain ⟨w, hw, hw'⟩ := ht.resumed i x name offered' outcome hx hmem
    rw [hv] at hw
    obtain rfl := Option.some.inj hw
    rw [hout] at hw'
    cases hw'
  generalize x.log.map Prod.snd = log at hreached hverified ⊢
  generalize x.rest = rest at hreached
  cases hreached with
  | checkingAccount k => exact recorded_passed
  | verifying throttled => rw [recorded_append, recorded_passed]; rfl
  | concluding throttled outcome log rest hc =>
    exact absurd (by simp) (hverified x.request.username (offered x.request throttled) outcome)
  | _ => rfl

/-- What a step means to one account. -/
inductive GuessStep (username : String) (s : Logins ι) (e : Event ι) (s' : Logins ι) : Prop
  /-- No login is let through and no outcome recorded. -/
  | quiet
    (verified : ∀ i ∈ verifies username s e, Pending username s' i ∧ Ended s' i)
    (pending : ∀ j, Pending username s' j → Pending username s j)
    (kept : ∀ j, Pending username s j → Ended s j → Pending username s' j ∧ Ended s' j)
    (counter : s'.state.throttle.byAccount.lookup username =
        s.state.throttle.byAccount.lookup username ∨
      s'.state.throttle.byAccount.lookup username =
        (s.state.throttle.byAccount.lookup username).filter
          (Failures.live s.state.throttle.window s.now))
  /-- The login `i` is let through. -/
  | admits (i : ι) (verified : verifies username s e = [])
    (pending : ∀ j, Pending username s' j → j = i ∨ Pending username s j)
    (fresh : ¬Pending username s i) (holds : s.Holds i)
    (kept : ∀ j, Pending username s j → Ended s j → Pending username s' j ∧ Ended s' j)
    (below : s.state.throttle.accountOver s.now username = false)
    (counter : s'.state.throttle.byAccount.lookup username =
      (s.state.throttle.byAccount.lookup username).filter
        (Failures.live s.state.throttle.window s.now))
    (prompt : Prompt username s e → ∀ j, overdue username s j = false)
  /-- The failure of the login `i` is recorded. -/
  | records (i : ι) (verified : verifies username s e = [i]) (was : Pending username s i)
    (pending : ∀ j, Pending username s' j → j ≠ i ∧ Pending username s j)
    (kept : ∀ j, j ≠ i → Pending username s j → Ended s j →
      Pending username s' j ∧ Ended s' j)
    (counter : s'.state.throttle.byAccount.lookup username =
      some (Failures.bumped s.state.throttle.window s.now
        (s.state.throttle.byAccount.lookup username)))
    (prompt : Prompt username s e →
      ∀ f ∈ s.state.throttle.byAccount.lookup username, f.count + 1 < 2 ^ 32)
  /-- The failure of a login that was throttled is recorded. -/
  | refuses (verified : verifies username s e = [])
    (pending : ∀ j, Pending username s' j → Pending username s j)
    (kept : ∀ j, Pending username s j → Ended s j → Pending username s' j ∧ Ended s' j)
    (counter : s'.state.throttle.byAccount.lookup username =
      some (Failures.bumped s.state.throttle.window s.now
        (s.state.throttle.byAccount.lookup username)))
    (prompt : Prompt username s e →
      ∀ f ∈ s.state.throttle.byAccount.lookup username, f.count + 1 < 2 ^ 32)
  /-- A success closes the window of the account. -/
  | clears (pending : ∀ j, Pending username s' j → Pending username s j)
    (counter : s'.state.throttle.byAccount.lookup username = none)

/-! ### One step -/

section Step

variable {e : Event ι} {a : LoginAct} {r : a.Ans} {rest : LoginProg LoginAnswer}
  {state : AppState}

/-- Who may still be counted after a call of `i` was answered. -/
lemma pending_answer : Pending username { s with state, attempt := s.answer i x a r rest } j ↔
    if j = i then (x.request.username = username ∧
      through username (x.log.map Prod.snd ++ [⟨a, r⟩]) = true ∧
      recorded username (x.log.map Prod.snd ++ [⟨a, r⟩]) = false) ∧
        ∀ v, s.verification i = some v → v.outcome ≠ some none
    else Pending username s j := by
  by_cases hj : j = i
  · subst hj
    simp [Pending, answer]
  · simp [Pending, answer, hj]

lemma pending_answer_of_ne (hj : j ≠ i) :
    Pending username { s with state, attempt := s.answer i x a r rest } j ↔
      Pending username s j := by
  rw [pending_answer, if_neg hj]

/-- A call that neither checks the account nor records an outcome for it. -/
lemma pending_answer_of_neutral (hx : s.attempt i = some x)
    (hthrough : through username [⟨a, r⟩] = false)
    (hrecorded : recorded username [⟨a, r⟩] = false) :
    Pending username { s with state, attempt := s.answer i x a r rest } j ↔
      Pending username s j := by
  rw [pending_answer, through_append, recorded_append, hthrough, hrecorded, Bool.or_false,
    Bool.or_false]
  split
  · rename_i hj
    subst hj
    simp [Pending, hx]
  · rfl

omit [DecidableEq ι] in
/-- A step that concerns no login on the account. -/
lemma GuessStep.of_iff (verified : verifies username s e = [])
    (hpending : ∀ j, Pending username s' j ↔ Pending username s j)
    (hverification : ∀ j, Ended s j → s'.verification j = s.verification j)
    (counter : s'.state.throttle.byAccount.lookup username =
      s.state.throttle.byAccount.lookup username) : GuessStep username s e s' := by
  refine .quiet (by simp [verified]) (fun j => (hpending j).mp) (fun j hj hended => ?_)
    (.inl counter)
  exact ⟨(hpending j).mpr hj, (ended_congr (hverification j hended)).mpr hended⟩

omit [DecidableEq ι] in
lemma called_act {i : ι} {draw : Draw} {k : a.Ans → LoginProg LoginAnswer}
    (hx : s.attempt i = some x) (hrest : x.rest = .act a k) : called s (.act i draw) = some a := by
  obtain ⟨request, address, log, rest, dropped⟩ := x
  obtain rfl : rest = _ := hrest
  simp only [called, hx]

omit [DecidableEq ι] in
lemma verifies_act {i : ι} {draw : Draw} {k : a.Ans → LoginProg LoginAnswer}
    (hx : s.attempt i = some x) (hrest : x.rest = .act a k) (ha : a ≠ .bumpAccount username) :
    verifies username s (.act i draw) = [] := by
  simp [verifies, called_act hx hrest, ha]

/-- The check of an account. -/
lemma Tracked.guess_overAccount (ht : s.Tracked) {draw : Draw} {name : String}
    {k : Bool → LoginProg LoginAnswer} (hx : s.attempt i = some x)
    (hrest : x.rest = .act (.overAccount name) k) {throttled : Bool}
    (hover : (s.state.throttle.overAccount s.now name).1 = throttled)
    (hexec : state.throttle = (s.state.throttle.overAccount s.now name).2) :
    GuessStep username s (.act i draw)
      { s with state, attempt := s.answer i x (.overAccount name) throttled (k throttled) } := by
  have hreached := ht.reached hx
  rw [hrest] at hreached
  obtain ⟨hname, hlog⟩ := hreached.checkingAccount_log
  have hverified : verifies username s (.act i draw) = [] := verifies_act hx hrest (by simp)
  have hcounter := @lookup_over String _ s.now s.state.throttle.accountLimit
    s.state.throttle.window s.state.throttle.byAccount name username
  have hbyAccount : state.throttle.byAccount = («over» s.now s.state.throttle.byAccount name
      s.state.throttle.accountLimit s.state.throttle.window).2 := by rw [hexec]; rfl
  rw [← hbyAccount] at hcounter
  by_cases husername : username = name
  · subst husername
    rw [if_pos rfl] at hcounter
    cases throttled with
    | true =>
      have hthrough : through username [⟨.overAccount username, true⟩] = false := by
        simp [through]
      refine .quiet (by simp [hverified])
        (fun j => (pending_answer_of_neutral hx hthrough rfl).mp) (fun j hj hended => ?_)
        (.inr hcounter)
      exact ⟨(pending_answer_of_neutral hx hthrough rfl).mpr hj, hended⟩
    | false =>
      have hfresh : ¬Pending username s i := by
        rw [pending_iff hx, letThrough_iff hx, hlog, through_passed]
        simp
      refine .admits i hverified (fun j hj => ?_) hfresh ?_ (fun j hj hended => ?_) hover
        hcounter fun hprompt => ?_
      · rw [pending_answer] at hj
        split at hj
        · exact .inl ‹_›
        · exact .inr hj
      · refine .inl ⟨x, hx, ?_, ht.verification_eq_none hx ?_⟩
        · rw [hlog, ← List.append_nil (passed x.address)]
          exact carries_passed (by simp)
        · intro throttled log heq
          rw [hlog] at heq
          simp at heq
      · have hne : j ≠ i := fun h => hfresh (h ▸ hj)
        exact ⟨(pending_answer_of_ne hne).mpr hj, hended⟩
      · exact hprompt.check (called_act hx hrest)
  · rw [if_neg husername] at hcounter
    refine .of_iff hverified (fun j => pending_answer_of_neutral hx ?_ rfl) (fun j _ => rfl)
      hcounter
    simp [through, Ne.symm husername]

/-- The record of a failure. -/
lemma Tracked.guess_bumpAccount (ht : s.Tracked) {draw : Draw} {name : String}
    {k : Unit → LoginProg LoginAnswer} (hx : s.attempt i = some x)
    (hrest : x.rest = .act (.bumpAccount name) k)
    (hexec : state.throttle = s.state.throttle.bumpAccount s.now name) :
    GuessStep username s (.act i draw)
      { s with state, attempt := s.answer i x (.bumpAccount name) () (k ()) } := by
  have hreached := ht.reached hx
  rw [hrest] at hreached
  obtain ⟨hname, throttled, hlog⟩ := hreached.recording_log
  have hcounter := @lookup_bump String _ s.now s.state.throttle.window
    s.state.throttle.byAccount name username
  have hbyAccount : state.throttle.byAccount =
      bump s.now s.state.throttle.byAccount name s.state.throttle.window := by rw [hexec]; rfl
  rw [← hbyAccount] at hcounter
  by_cases husername : username = name
  · subst husername
    rw [if_pos rfl] at hcounter
    have hrecorded : recorded username (x.log.map Prod.snd) = false := by
      rw [hlog, recorded_append, recorded_passed]
      rfl
    have hpending : ∀ j, Pending username
        { s with state, attempt := s.answer i x (.bumpAccount username) () (k ()) } j →
        j ≠ i ∧ Pending username s j := by
      intro j hj
      rw [pending_answer] at hj
      split at hj
      · rw [recorded_append] at hj
        simp [recorded] at hj
      · exact ⟨‹_›, hj⟩
    have hkept : ∀ j, j ≠ i → Pending username s j → Ended s j → Pending username
        { s with state, attempt := s.answer i x (.bumpAccount username) () (k ()) } j ∧
          Ended s j :=
      fun j hne hj hended => ⟨(pending_answer_of_ne hne).mpr hj, hended⟩
    have hprompt : Prompt username s (.act i draw) →
        ∀ f ∈ s.state.throttle.byAccount.lookup username, f.count + 1 < 2 ^ 32 := by
      intro hprompt
      exact hprompt.record (called_act hx hrest)
    cases hthrough : letThrough username s i with
    | true =>
      have hverifies : verifies username s (.act i draw) = [i] := by
        simp [verifies, called_act hx hrest, hthrough]
      refine .records i hverifies ?_ hpending hkept hcounter hprompt
      refine (pending_iff hx).mpr ⟨⟨hthrough, hrecorded⟩, fun v hv hout => ?_⟩
      obtain ⟨v', hv', hout'⟩ := ht.resumed i x x.request.username
        (offered x.request throttled) (some .rejected) hx (by rw [hlog]; simp)
      rw [hv] at hv'
      obtain rfl := Option.some.inj hv'
      rw [hout] at hout'
      cases hout'
    | false =>
      have hverifies : verifies username s (.act i draw) = [] := by
        simp [verifies, hthrough]
      have hi : ¬Pending username s i := by
        rw [pending_iff hx, hthrough]
        simp
      exact .refuses hverifies (fun j hj => (hpending j hj).2)
        (fun j hj => hkept j (fun h => hi (h ▸ hj)) hj) hcounter hprompt
  · rw [if_neg husername] at hcounter
    refine .of_iff (verifies_act hx hrest (by simp [Ne.symm husername]))
      (fun j => pending_answer_of_neutral hx rfl ?_) (fun j _ => rfl) hcounter
    simp [recorded, Ne.symm husername]

/-- The record of a success. -/
lemma guess_recordSuccess {draw : Draw} {name : String}
    {k : Unit → LoginProg LoginAnswer} (hx : s.attempt i = some x)
    (hrest : x.rest = .act (.recordSuccess name) k)
    (hexec : state.throttle = s.state.throttle.recordSuccess name) :
    GuessStep username s (.act i draw)
      { s with state, attempt := s.answer i x (.recordSuccess name) () (k ()) } := by
  have hcounter := @LoginThrottle.lookup_recordSuccess_byAccount s.state.throttle name username
  rw [← hexec] at hcounter
  by_cases husername : username = name
  · subst husername
    refine .clears (fun j hj => ?_) (hcounter.trans (if_pos rfl))
    rw [pending_answer] at hj
    split at hj
    · rw [recorded_append] at hj
      simp [recorded] at hj
    · exact hj
  · refine .of_iff (verifies_act hx hrest (by simp))
      (fun j => pending_answer_of_neutral hx rfl ?_) (fun j _ => rfl)
      (hcounter.trans (if_neg husername))
    simp [recorded, Ne.symm husername]

/-- A call of a handler on the shared state, by the call. -/
lemma Tracked.guess_act (ht : s.Tracked) {draw : Draw} {k : a.Ans → LoginProg LoginAnswer}
    (hx : s.attempt i = some x) (hrest : x.rest = .act a k)
    (hexec : exec cfg.jwt s.now draw a s.state = some (r, state)) :
    GuessStep username s (.act i draw)
      { s with state, attempt := s.answer i x a r (k r) } := by
  have hreached := ht.reached hx
  rw [hrest] at hreached
  have hneutral : a ≠ .bumpAccount username →
      through username [⟨a, r⟩] = false → recorded username [⟨a, r⟩] = false →
      state.throttle.byAccount.lookup username = s.state.throttle.byAccount.lookup username →
      GuessStep username s (.act i draw)
        { s with state, attempt := s.answer i x a r (k r) } := by
    intro hbump hthrough hrecorded hcounter
    exact .of_iff (verifies_act hx hrest hbump)
      (fun j => pending_answer_of_neutral hx hthrough hrecorded) (fun j _ => rfl) hcounter
  cases a with
  | acquire =>
    refine hneutral (by simp) rfl rfl ?_
    simp only [exec] at hexec
    split at hexec <;> obtain ⟨-, rfl⟩ := Prod.mk.inj (Option.some.inj hexec) <;> rfl
  | release | overAddress | bumpAddress | issue =>
    refine hneutral (by simp) rfl rfl ?_
    obtain ⟨-, rfl⟩ := Prod.mk.inj (Option.some.inj hexec)
    rfl
  | authenticate name offered => cases hexec
  | overAccount name =>
    obtain ⟨rfl, rfl⟩ := Prod.mk.inj (Option.some.inj hexec)
    exact ht.guess_overAccount hx hrest rfl rfl
  | bumpAccount name =>
    obtain ⟨rfl, rfl⟩ := Prod.mk.inj (Option.some.inj hexec)
    exact ht.guess_bumpAccount hx hrest rfl
  | recordSuccess name =>
    obtain ⟨rfl, rfl⟩ := Prod.mk.inj (Option.some.inj hexec)
    exact guess_recordSuccess hx hrest rfl

/-- What happens to a verification alone. -/
lemma Tracked.guess_finish (ht : s.Tracked) {panics : Bool} {v v' : Verification}
    (hv : s.verification i = some v) (hout : v.outcome = none)
    (hv' : v'.outcome ≠ none) (hpanics : panics = false → v'.outcome ≠ some none)
    (hthrottle : state.throttle = s.state.throttle) :
    GuessStep username s (.finish i panics)
      { s with state, verification := Function.update s.verification i (some v') } := by
  obtain ⟨x, throttled, calls, hx, -, -, hlog⟩ := ht.asked i v hv
  have hkept : ∀ j, j ≠ i → (Pending username { s with
      state, verification := Function.update s.verification i (some v') } j ↔
        Pending username s j) :=
    fun j hj => pending_congr rfl (Function.update_of_ne hj _ _)
  refine .quiet (fun j hj => ?_) (fun j hj => ?_) (fun j hj hended => ?_) (.inl (by rw [hthrottle]))
  · obtain ⟨rfl, hpanics', hthrough⟩ : j = i ∧ panics = false ∧ letThrough username s i := by
      cases panics with
      | true => cases hj
      | false =>
        simp only [verifies] at hj
        split at hj
        · rename_i hthrough
          exact ⟨List.mem_singleton.mp hj, rfl, hthrough⟩
        · cases hj
    have hrecorded : recorded username (x.log.map Prod.snd) = false := ht.not_recorded hx hv hout
    refine ⟨⟨⟨x, hx, ?_⟩, fun w hw => ?_⟩, v', ?_, hv'⟩
    · obtain ⟨husername, hthrough⟩ := (letThrough_iff hx).mp hthrough
      exact ⟨husername, hthrough, hrecorded⟩
    · obtain rfl : v' = w := by simpa using hw
      exact hpanics hpanics'
    · exact Function.update_self _ _ _
  · by_cases hji : j = i
    · subst hji
      refine ⟨hj.1, fun w hw => ?_⟩
      rw [hv] at hw
      obtain rfl := Option.some.inj hw
      simp [hout]
    · exact (hkept j hji).mp hj
  · have hne : j ≠ i := by
      rintro rfl
      obtain ⟨w, hw, hw'⟩ := hended
      rw [hv] at hw
      obtain rfl := Option.some.inj hw
      exact hw' hout
    exact ⟨(hkept j hne).mpr hj, (ended_congr (Function.update_of_ne hne _ _)).mpr hended⟩

/-- Every step means one of these to an account. -/
theorem Tracked.guess_step (ht : s.Tracked) (hs : Logins.step cfg s e = some s') :
    GuessStep username s e s' := by
  obtain ⟨i, request, address, rfl, hi, rfl⟩ | ⟨i, draw, x, a, k, r, state, rfl, hx, hdrop, hrest,
    hexec, rfl⟩ | ⟨i, x, name, offered, k, rfl, hx, -, hrest, hv, rfl⟩ |
    ⟨i, panics, v, rfl, hv, hout, rfl⟩ | ⟨i, x, name, offered, k, v, outcome, rfl, hx, -, hrest,
      hv, hout, rfl⟩ | ⟨i, x, name, offered, k, v, rfl, hx, -, -, hv, rfl⟩ |
    ⟨d, rfl, rfl⟩ := step_cases hs
  · refine .of_iff rfl (fun j => ?_) (fun j _ => rfl) rfl
    by_cases hj : j = i
    · subst hj
      simp [Pending, hi, through]
    · exact pending_congr (Function.update_of_ne hj _ _) rfl
  · exact ht.guess_act hx hrest hexec
  · refine .of_iff rfl (fun j => ?_) (fun j hended => ?_) rfl
    · by_cases hj : j = i
      · subst hj
        simp [Pending, hv]
      · exact pending_congr rfl (Function.update_of_ne hj _ _)
    · refine Function.update_of_ne ?_ _ _
      rintro rfl
      obtain ⟨w, hw, -⟩ := hended
      rw [hv] at hw
      cases hw
  · refine ht.guess_finish hv hout (by simp) (fun hpanics => ?_) rfl
    simp [hpanics]
  · exact .of_iff rfl (fun j => pending_answer_of_neutral hx rfl rfl) (fun j _ => rfl) rfl
  · refine .of_iff rfl (fun j => ?_) (fun j _ => rfl) rfl
    by_cases hj : j = i
    · subst hj
      simp [Pending, hx]
    · exact pending_congr (Function.update_of_ne hj _ _) rfl
  · exact .of_iff rfl (fun j => Iff.rfl) (fun j _ => rfl) rfl

end Step

/-! ### Whole runs -/

omit [DecidableEq ι] in
lemma Conserved.holds_le {permits : ℕ} (h : Conserved permits s) :
    {j | s.Holds j}.encard ≤ permits := by
  rw [Conserved] at h
  rw [← h]
  exact le_add_self

lemma step_accountLimit {e : Event ι} (hs : Logins.step cfg s e = some s') :
    s'.state.throttle.accountLimit = s.state.throttle.accountLimit := by
  obtain ⟨i, request, address, -, -, rfl⟩ | ⟨i, draw, x, a, k, r, state, -, -, -, -,
    hexec, rfl⟩ | ⟨i, x, name, offered, k, -, -, -, -, -, rfl⟩ |
    ⟨i, panics, v, -, -, -, rfl⟩ | ⟨i, x, name, offered, k, v, outcome, -, -, -, -, -, -, rfl⟩ |
    ⟨i, x, name, offered, k, v, -, -, -, -, -, rfl⟩ | ⟨d, -, rfl⟩ := step_cases hs
  case inr.inl =>
    cases a with
    | acquire =>
      simp only [exec] at hexec
      split at hexec <;> obtain ⟨-, rfl⟩ := Prod.mk.inj (Option.some.inj hexec) <;> rfl
    | authenticate name offered => cases hexec
    | _ =>
      obtain ⟨-, rfl⟩ := Prod.mk.inj (Option.some.inj hexec)
      rfl
  all_goals rfl

/-- What holds in every state while all steps are prompt. -/
structure Bounded (username : String) (limit permits : ℕ) (s : Logins ι) : Prop where
  tracked : s.Tracked
  conserved : Conserved permits s
  limit_eq : s.state.throttle.accountLimit = limit
  pending : {j | Pending username s j}.encard ≤ permits

lemma Bounded.step {limit permits : ℕ} {e : Event ι} (h : Bounded username limit permits s)
    (hprompt : Prompt username s e) (hs : Logins.step cfg s e = some s') :
    Bounded username limit permits s' := by
  refine ⟨h.tracked.step hs, h.conserved.step h.tracked hs,
    (step_accountLimit hs).trans h.limit_eq, ?_⟩
  have hle : (∀ j, Pending username s' j → Pending username s j) →
      {j | Pending username s' j}.encard ≤ permits :=
    fun hpending => (Set.encard_le_encard hpending).trans h.pending
  cases (h.tracked.guess_step hs : GuessStep username s e s') with
  | quiet verified pending kept counter => exact hle pending
  | admits i verified pending fresh holds kept below counter prompt =>
    -- no outcome is overdue, so whoever is pending holds a permit
    have hholds : {j | Pending username s' j} ⊆ {j | s.Holds j} := by
      intro j hj
      rcases pending j hj with rfl | hj'
      · exact holds
      · exact h.tracked.holds_of_pending hj' (prompt hprompt j)
    exact (Set.encard_le_encard hholds).trans h.conserved.holds_le
  | records i verified was pending kept counter prompt => exact hle fun j hj => (pending j hj).2
  | refuses verified pending kept counter prompt => exact hle pending
  | clears pending counter => exact hle pending

/-- The failures of the logins in `R` were recorded in the window that is open, and with the
logins that are pending they stay within the bound. -/
structure Counted (username : String) (limit permits : ℕ) (R : Set ι) (s : Logins ι) : Prop where
  total : R.encard + {j | Pending username s j}.encard + 1 ≤ limit + permits
  counter : R = ∅ ∨ ∃ f ∈ s.state.throttle.byAccount.lookup username,
    f.live s.state.throttle.window s.now = true ∧ R.encard ≤ f.count

/-- The password of `i` was verified; its failure was recorded, or may still be. -/
def Accounted (username : String) (R : Set ι) (s : Logins ι) (i : ι) : Prop :=
  i ∈ R ∨ Pending username s i ∧ Ended s i

omit [DecidableEq ι] in
/-- No more failures were recorded in a window than its counter shows. -/
lemma encard_le_count {R : Set ι} {failures : Option Failures} {window now : ℕ}
    (hcounter : R = ∅ ∨ ∃ f ∈ failures, f.live window now = true ∧ R.encard ≤ f.count)
    {f : Failures} (hf : f ∈ failures) : R.encard ≤ f.count := by
  rcases hcounter with rfl | ⟨g, hg, -, hle⟩
  · simp
  · rw [hf] at hg
    obtain rfl := Option.some.inj hg
    exact hle

omit [DecidableEq ι] in
/-- One more failure is recorded in the open window. -/
lemma encard_le_bumped {R : Set ι} {failures : Option Failures} {window now : ℕ} (n : ℕ∞)
    (hcounter : R = ∅ ∨ ∃ f ∈ failures, f.live window now = true ∧ R.encard ≤ f.count)
    (hcount : ∀ f ∈ failures, f.count + 1 < 2 ^ 32) (hn : n ≤ R.encard + 1) :
    n ≤ (Failures.bumped window now failures).count := by
  cases hlive : failures.filter (Failures.live window now) with
  | none =>
    rw [Failures.bumped_of_lapsed hlive]
    rcases hcounter with rfl | ⟨f, hf, hf', -⟩
    · simpa using hn
    · rw [Option.mem_def.mp hf, Option.filter_some_pos hf'] at hlive
      cases hlive
  | some f =>
    obtain ⟨hf, -⟩ := Option.filter_eq_some_iff.mp hlive
    rw [Failures.bumped_of_live hlive, Nat.mod_eq_of_lt (hcount f hf)]
    refine hn.trans ?_
    push_cast
    exact add_le_add_left (encard_le_count hcounter hf) 1

omit [DecidableEq ι] in
/-- Whoever is accounted for stays so, if that is true of those that may still be counted and of
those whose password is verified in the step. -/
lemma accounted_of_step {R R' : Set ι} {verified : List ι} (hR : R ⊆ R')
    (hkept : ∀ j, Pending username s j → Ended s j → Accounted username R' s' j)
    (hverified : ∀ j ∈ verified, Accounted username R' s' j) (i : ι)
    (hi : Accounted username R s i ∨ i ∈ verified) : Accounted username R' s' i := by
  rcases hi with (hi | ⟨hi, hended⟩) | hi
  · exact .inl (hR hi)
  · exact hkept i hi hended
  · exact hverified i hi

lemma Counted.step {limit permits opened : ℕ} {R : Set ι} {e : Event ι}
    (h : Counted username limit permits R s) (hb : Bounded username limit permits s)
    (hb' : Bounded username limit permits s') (hprompt : Prompt username s e)
    (hwithin : WindowOpen username opened s') (hs : Logins.step cfg s e = some s') :
    ∃ R', Counted username limit permits R' s' ∧
      ∀ i, Accounted username R s i ∨ i ∈ verifies username s e → Accounted username R' s' i := by
  obtain ⟨f, hf, hopened, hopen⟩ := hwithin
  have hlive : f.live s'.state.throttle.window s'.now = true := by
    rw [Failures.live_iff, hopened]
    exact hopen
  -- fewer logins may be counted
  have htotal : ∀ {R' : Set ι}, R' = R → (∀ j, Pending username s' j → Pending username s j) →
      R'.encard + {j | Pending username s' j}.encard + 1 ≤ limit + permits := by
    rintro R' rfl hpending
    exact (add_le_add_left (add_le_add_right (Set.encard_le_encard hpending) _) 1).trans h.total
  -- the counter is the same as before
  have hcounter : f ∈ s.state.throttle.byAccount.lookup username →
      R = ∅ ∨ ∃ f ∈ s'.state.throttle.byAccount.lookup username,
        f.live s'.state.throttle.window s'.now = true ∧ R.encard ≤ f.count := by
    intro hf'
    exact .inr ⟨f, hf, hlive, encard_le_count h.counter hf'⟩
  cases (hb.tracked.guess_step hs : GuessStep username s e s') with
  | quiet verified pending kept counter =>
    have hf' : f ∈ s.state.throttle.byAccount.lookup username := by
      rcases counter with counter | counter
      · rwa [counter] at hf
      · rw [counter] at hf
        exact (Option.filter_eq_some_iff.mp hf).1
    exact ⟨R, ⟨htotal rfl pending, hcounter hf'⟩, accounted_of_step (Set.Subset.refl R)
      (fun j hj hended => .inr (kept j hj hended)) fun j hj => .inr (verified j hj)⟩
  | admits i verified pending fresh holds kept below counter prompt =>
    rw [counter] at hf
    obtain ⟨hf', hlive'⟩ := Option.filter_eq_some_iff.mp hf
    refine ⟨R, ⟨?_, hcounter hf'⟩, accounted_of_step (Set.Subset.refl R)
      (fun j hj hended => .inr (kept j hj hended)) (by simp [verified])⟩
    · -- the account was below its limit
      rw [LoginThrottle.accountOver, over_eq, hf, hb.limit_eq] at below
      have hcount : f.count < limit := by simpa using below
      have hbelow : R.encard + 1 ≤ limit := by
        have hle : ((f.count + 1 : ℕ) : ℕ∞) ≤ limit := Nat.cast_le.mpr hcount
        push_cast at hle
        exact (add_le_add_left (encard_le_count h.counter hf') 1).trans hle
      rw [add_right_comm]
      exact add_le_add hbelow hb'.pending
  | records i verified was pending kept counter prompt =>
    rw [counter] at hf
    have hinsert : (insert i R).encard ≤ R.encard + 1 := Set.encard_insert_le R i
    refine ⟨insert i R, ⟨?_, .inr ⟨f, by rw [counter]; exact hf, hlive, ?_⟩⟩,
      accounted_of_step (Set.subset_insert i R) ?_ (by simp [verified, Accounted])⟩
    · have hfewer : {j | Pending username s' j}.encard + 1 ≤ {j | Pending username s j}.encard := by
        have hmem : i ∈ {j | Pending username s j} := was
        rw [← Set.encard_sdiff_singleton_add_one hmem]
        exact add_le_add_left (Set.encard_le_encard fun j hj => (pending j hj).symm) 1
      calc (insert i R).encard + {j | Pending username s' j}.encard + 1
          ≤ R.encard + 1 + {j | Pending username s' j}.encard + 1 := by gcongr
        _ = R.encard + ({j | Pending username s' j}.encard + 1) + 1 := by ring
        _ ≤ R.encard + {j | Pending username s j}.encard + 1 := by gcongr
        _ ≤ limit + permits := h.total
    · obtain rfl := Option.some.inj hf
      exact encard_le_bumped _ h.counter (prompt hprompt) hinsert
    · intro j hj hended
      by_cases hji : j = i
      · exact .inl (.inl hji)
      · exact .inr (kept j hji hj hended)
  | refuses verified pending kept counter prompt =>
    rw [counter] at hf
    refine ⟨R, ⟨htotal rfl pending, .inr ⟨f, by rw [counter]; exact hf, hlive, ?_⟩⟩,
      accounted_of_step (Set.Subset.refl R) (fun j hj hended => .inr (kept j hj hended))
        (by simp [verified])⟩
    obtain rfl := Option.some.inj hf
    exact encard_le_bumped _ h.counter (prompt hprompt) le_self_add
  | clears pending counter =>
    rw [counter] at hf
    cases hf

/-- While the window is open. -/
lemma Counted.run {limit permits opened : ℕ} {R : Set ι} {es : List (Event ι)}
    (h : Counted username limit permits R s) (hb : Bounded username limit permits s)
    (hprompt : (machine ι cfg).EveryStep (Prompt username) s es)
    (hwithin : (machine ι cfg).EveryStep (Within cfg username opened) s es)
    (hrun : (machine ι cfg).run s es = some s') :
    ∃ R', Counted username limit permits R' s' ∧ ∀ i,
      Accounted username R s i ∨ i ∈ verifiedIn cfg username s es → Accounted username R' s' i := by
  induction es generalizing s R with
  | nil =>
    obtain rfl : s = s' := Option.some.inj hrun
    exact ⟨R, h, fun i hi => hi.elim id fun hi => by cases hi⟩
  | cons e es ih =>
    obtain ⟨t, hs, hrest⟩ := Machine.run_cons_eq_some.mp hrun
    have hb' := hb.step hprompt.1 hs
    obtain ⟨R₁, h₁, haccounted⟩ := h.step hb hb' hprompt.1 (hwithin.1 t hs) hs
    obtain ⟨R₂, h₂, haccounted'⟩ := ih h₁ hb' (hprompt.2 t hs) (hwithin.2 t hs) hrest
    refine ⟨R₂, h₂, fun i hi => haccounted' i ?_⟩
    have hs' : Logins.step cfg s e = some t := hs
    rw [verifiedIn, hs', List.mem_append] at hi
    rcases hi with hi | hi | hi
    · exact .inl (haccounted i (.inl hi))
    · exact .inl (haccounted i (.inr hi))
    · exact .inr hi

/-- In every run whose steps are prompt: while a window of the account stays open, at most
`accountLimit + hashPermits - 1` logins have their own password verified against it. -/
theorem guesses_bounded (cfg : LoginSettings) (state : AppState) (ι : Type) [DecidableEq ι]
    (username : String) (opened : ℕ) (before es : List (Event ι)) (s t : Logins ι)
    (hlimit : 1 ≤ state.throttle.accountLimit)
    (hbefore : (machine ι cfg).run (start ι state) before = some s)
    (hrun : (machine ι cfg).run s es = some t)
    (hprompt : (machine ι cfg).EveryStep (Prompt username) (start ι state) (before ++ es))
    (hwithin : (machine ι cfg).EveryStep (Within cfg username opened) s es) :
    (verifiedIn cfg username s es).dedup.length ≤
      state.throttle.accountLimit + state.hashPermits - 1 := by
  have hstart : Bounded username state.throttle.accountLimit state.hashPermits (start ι state) := by
    refine ⟨tracked_start, conserved_start, rfl, ?_⟩
    have hnone : {j | Pending username (start ι state) j} = ∅ := by
      ext j
      simp [Pending, start]
    rw [hnone, Set.encard_empty]
    exact zero_le
  have hb := Machine.run_invariant_of_everyStep (M := machine ι cfg)
    (Bounded username state.throttle.accountLimit state.hashPermits)
    (fun _ _ _ h hP hs => h.step hP hs) hstart hprompt.append.1 hbefore
  have hcounted : Counted username state.throttle.accountLimit state.hashPermits ∅ s := by
    refine ⟨?_, .inl rfl⟩
    rw [Set.encard_empty, zero_add, add_comm]
    exact add_le_add (Nat.one_le_cast.mpr hlimit) hb.pending
  obtain ⟨R, hR, haccounted⟩ := hcounted.run hb (hprompt.append.2 s hbefore) hwithin hrun
  have hsub : (↑(verifiedIn cfg username s es).toFinset : Set ι) ⊆
      R ∪ {j | Pending username t j} := by
    intro i hi
    refine (haccounted i (.inr (by simpa using hi))).imp id And.left
  have hcard : ((verifiedIn cfg username s es).dedup.length : ℕ∞) + 1 ≤
      state.throttle.accountLimit + state.hashPermits := by
    rw [← List.card_toFinset, ← Set.encard_coe_eq_coe_finsetCard]
    calc _ ≤ (R ∪ {j | Pending username t j}).encard + 1 := by gcongr
      _ ≤ R.encard + {j | Pending username t j}.encard + 1 := by
        gcongr
        exact Set.encard_union_le _ _
      _ ≤ _ := hR.total
  have hle : (verifiedIn cfg username s es).dedup.length + 1 ≤
      state.throttle.accountLimit + state.hashPermits := by exact_mod_cast hcard
  omega

namespace Sample

/-- The account limit is 2, and there is one permit. -/
def guarded : AppState := ⟨.new 2 20 (300 * 10 ^ 9), 1, .new ⟨"k1", "s1"⟩ [] 900⟩

/-- A login of `alice` with a wrong password, as far as the end of its verification. -/
def guess (i : Fin 3) : List (Event (Fin 3)) := [.arrive i ⟨"alice", "wrong"⟩ none,
  .act i ⟨1700000000, "a"⟩, .act i ⟨1700000000, "a"⟩, .spawn i, .finish i false]

/-- The rest of it: the failure is recorded. -/
def record (i : Fin 3) : List (Event (Fin 3)) := [.resume i, .act i ⟨1700000000, "a"⟩]

def settings : LoginSettings := ⟨argon2, .ofTokens ∅, directory, decoyHash⟩

end Sample

open Sample in
/-- Two logins, one after the other, within the window that the first one opens. -/
theorem guesses_bounded_two : ∃ s t,
    (machine (Fin 3) settings).run (start (Fin 3) guarded) (guess 0 ++ [.resume 0]) = some s ∧
    (machine (Fin 3) settings).run s (.act 0 ⟨1700000000, "a"⟩ :: (guess 1 ++ record 1)) = some t ∧
    (verifiedIn settings "alice" s
      (.act 0 ⟨1700000000, "a"⟩ :: (guess 1 ++ record 1))).dedup.length = 2 ∧
    (verifiedIn settings "alice" s
      (.act 0 ⟨1700000000, "a"⟩ :: (guess 1 ++ record 1))).dedup.length ≤ 2 + 1 - 1 :=
  ⟨_, _, rfl, rfl, by decide, guesses_bounded settings guarded (Fin 3) "alice" 0
    (guess 0 ++ [.resume 0]) (.act 0 ⟨1700000000, "a"⟩ :: (guess 1 ++ record 1)) _ _ (by decide)
    rfl rfl (by decide) (by decide)⟩

open Sample in
/-- A third login is checked while the failure of the second one, whose permit is back, is not
recorded: three passwords are verified in one window. -/
theorem guesses_bounded_fails : ∃ s t,
    (machine (Fin 3) settings).run (start (Fin 3) guarded) (guess 0 ++ [.resume 0]) = some s ∧
    (machine (Fin 3) settings).run s (.act 0 ⟨1700000000, "a"⟩ :: (guess 1 ++ guess 2)) = some t ∧
    (machine (Fin 3) settings).EveryStep (Within settings "alice" 0) s
      (.act 0 ⟨1700000000, "a"⟩ :: (guess 1 ++ guess 2)) ∧
    ¬(verifiedIn settings "alice" s
      (.act 0 ⟨1700000000, "a"⟩ :: (guess 1 ++ guess 2))).dedup.length ≤ 2 + 1 - 1 :=
  ⟨_, _, rfl, rfl, by decide, by decide⟩

end Knova.Logins
