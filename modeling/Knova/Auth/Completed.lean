import Knova.Auth.LoginProgress
import Knova.Library.Completion

/-!
# No login is stuck

A login makes six calls at most and starts one verification. No call waits for another login: a
permit that is not there is refused, and a verification that has started can end.
-/

namespace Knova

open Library

namespace Login

variable {request : LoginRequest} {username : String} {address : Option IpAddr}

lemma within_conclude (outcome : Option Authentication) :
    (conclude username address outcome).Within 2 := by
  cases outcome with
  | none => exact Prog.within_pure
  | some outcome =>
    cases outcome with
    | rejected =>
      intro r
      cases address with
      | none => exact Prog.within_pure
      | some source =>
        intro r'
        exact Prog.within_pure
    | authenticated user =>
      rintro r ⟨issued, ttlSecs⟩
      cases issued <;> exact Prog.within_pure

/-- What follows the checks takes three calls: the verification, and two that record its
outcome. -/
lemma within_checked (verdict : Verdict) : (checked request address verdict).Within 3 := by
  cases verdict with
  | addressThrottled =>
    intro r
    exact Prog.within_pure
  | accountThrottled | allowed => exact within_conclude

/-- No login makes more than six calls. -/
theorem within_login : (login request address).Within 6 := by
  have haccount : (Prog.act (.overAccount request.username) fun throttled : Bool =>
      checked request address (if throttled then .accountThrottled else .allowed) :
        LoginProg LoginAnswer).Within 4 :=
    fun throttled => within_checked _
  intro admitted
  cases admitted with
  | false => exact Prog.within_pure
  | true =>
    cases address with
    | none => exact haccount.mono (Nat.le_add_right 4 1)
    | some source =>
      intro throttled
      cases throttled with
      | true =>
        intro r
        exact Prog.within_pure
      | false => exact haccount

end Login

namespace Logins

open Login

variable {ι : Type} [DecidableEq ι] {cfg : LoginSettings} {s s' : Logins ι} {i : ι}

/-- Whose step an event is. -/
def Event.owner {ι : Type} : Event ι → Option ι
  | .arrive i _ _ | .act i _ | .spawn i | .finish i _ | .resume i | .drop i => some i
  | .tick _ => none

/-- How many steps of a verification are left: it starts, and it ends. -/
def unverified : Option Verification → ℕ
  | none => 2
  | some ⟨_, _, none, _⟩ => 1
  | some ⟨_, _, some _, _⟩ => 0

/-- At most `n` steps of a login that has arrived are left. -/
def Left (s : Logins ι) (i : ι) (n : ℕ) : Prop :=
  ∃ x k, s.attempt i = some x ∧ x.rest.Within k ∧
    k + unverified (s.verification i) + (if x.dropped then 0 else 1) ≤ n

/-- A step leaves other logins alone. -/
lemma untouched_of_step {e : Event ι} (hs : step cfg s e = some s') (hi : e.owner ≠ some i) :
    s'.attempt i = s.attempt i ∧ s'.verification i = s.verification i := by
  obtain ⟨j, request, address, rfl, -, rfl⟩ | ⟨j, draw, x, a, k, r, state, rfl, -, -, -, -, rfl⟩ |
    ⟨j, x, username, offered, k, rfl, -, -, -, -, rfl⟩ | ⟨j, panics, v, rfl, -, -, rfl⟩ |
    ⟨j, x, username, offered, k, v, outcome, rfl, -, -, -, -, -, rfl⟩ |
    ⟨j, x, username, offered, k, v, rfl, -, -, -, -, rfl⟩ | ⟨d, rfl, rfl⟩ := step_cases hs
  · exact ⟨Function.update_of_ne (fun h => hi (congrArg some h.symm)) _ _, rfl⟩
  · exact ⟨Function.update_of_ne (fun h => hi (congrArg some h.symm)) _ _, rfl⟩
  · exact ⟨rfl, Function.update_of_ne (fun h => hi (congrArg some h.symm)) _ _⟩
  · exact ⟨rfl, Function.update_of_ne (fun h => hi (congrArg some h.symm)) _ _⟩
  · exact ⟨Function.update_of_ne (fun h => hi (congrArg some h.symm)) _ _, rfl⟩
  · exact ⟨Function.update_of_ne (fun h => hi (congrArg some h.symm)) _ _, rfl⟩
  · exact ⟨rfl, rfl⟩

/-- Before it arrives, a login can only arrive. -/
lemma arrive_of_owner {e : Event ι} (hs : step cfg s e = some s') (hi : e.owner = some i)
    (hnone : s.attempt i = none) (hverification : s.verification i = none) :
    ∃ request address, e = .arrive i request address := by
  obtain ⟨j, request, address, rfl, -, -⟩ | ⟨j, draw, x, a, k, r, state, rfl, hj, -⟩ |
    ⟨j, x, username, offered, k, rfl, hj, -⟩ | ⟨j, panics, v, rfl, hj, -⟩ |
    ⟨j, x, username, offered, k, v, outcome, rfl, hj, -⟩ |
    ⟨j, x, username, offered, k, v, rfl, hj, -⟩ | ⟨d, rfl, -⟩ := step_cases hs
  case inl =>
    obtain rfl := Option.some.inj hi
    exact ⟨request, address, rfl⟩
  case inr.inr.inr.inr.inr.inr => cases hi
  all_goals
    obtain rfl := Option.some.inj hi
    simp [hnone, hverification] at hj

/-- A login that arrives has nine steps left. -/
lemma left_of_arrive {request : LoginRequest} {address : Option IpAddr}
    (hs : step cfg s (.arrive i request address) = some s')
    (hverification : s.verification i = none) : s'.Left i 9 := by
  simp only [step] at hs
  split at hs
  · obtain rfl := Option.some.inj hs
    refine ⟨_, 6, Function.update_self .., within_login, ?_⟩
    simp [hverification, unverified]
  · cases hs

/-- A step of a login takes one of the steps it has left. -/
lemma left_of_owner {e : Event ι} (hs : step cfg s e = some s') (hi : e.owner = some i) {n : ℕ}
    (h : s.Left i n) : ∃ m < n, s'.Left i m := by
  obtain ⟨x, k, hx, hk, hn⟩ := h
  obtain ⟨j, request, address, rfl, hj, rfl⟩ |
    ⟨j, draw, y, a, q, r, state, rfl, hj, hd, hrest, -, rfl⟩ |
    ⟨j, y, username, offered, q, rfl, hj, hd, -, hv, rfl⟩ | ⟨j, panics, v, rfl, hv, hout, rfl⟩ |
    ⟨j, y, username, offered, q, v, outcome, rfl, hj, hd, hrest, -, -, rfl⟩ |
    ⟨j, y, username, offered, q, v, rfl, hj, hd, -, -, rfl⟩ | ⟨d, rfl, -⟩ := step_cases hs
  · obtain rfl := Option.some.inj hi
    rw [hx] at hj
    cases hj
  · obtain rfl := Option.some.inj hi
    rw [hx] at hj
    obtain rfl := Option.some.inj hj
    rw [hrest] at hk
    obtain ⟨k, rfl, hq⟩ := hk.exists_succ
    exact ⟨_, by dsimp only; omega, _, k, Function.update_self .., hq r, le_refl _⟩
  · obtain rfl := Option.some.inj hi
    rw [hv, unverified] at hn
    refine ⟨_, ?_, x, k, hx, hk, le_refl _⟩
    dsimp only
    rw [Function.update_self, unverified]
    omega
  · obtain rfl := Option.some.inj hi
    obtain ⟨username, offered, outcome, work⟩ := v
    obtain rfl : outcome = none := hout
    rw [hv, unverified] at hn
    refine ⟨_, ?_, x, k, hx, hk, le_refl _⟩
    dsimp only
    rw [Function.update_self, unverified]
    omega
  · obtain rfl := Option.some.inj hi
    rw [hx] at hj
    obtain rfl := Option.some.inj hj
    rw [hrest] at hk
    obtain ⟨k, rfl, hq⟩ := hk.exists_succ
    exact ⟨_, by dsimp only; omega, _, k, Function.update_self .., hq outcome, le_refl _⟩
  · obtain rfl := Option.some.inj hi
    rw [hx] at hj
    obtain rfl := Option.some.inj hj
    rw [hd] at hn
    refine ⟨_, ?_, _, k, Function.update_self .., hk, le_refl _⟩
    simp at hn ⊢
    omega
  · cases hi

/-- Every login is answered, unless its client gave it up, and no verification is running. -/
def Served (s : Logins ι) : Prop :=
  (∀ i x, s.attempt i = some x → x.dropped = false → ∃ answer, x.rest = .pure answer) ∧
    ∀ i v, s.verification i = some v → v.outcome ≠ none

/-- A step that serves a login that has arrived. -/
def Event.serves {ι : Type} : Event ι → Bool
  | .act _ _ | .spawn _ | .finish _ false | .resume _ => true
  | .finish _ true | .arrive _ _ _ | .drop _ | .tick _ => false

/-- While a login is unanswered or a verification is running, some step serves a login, whatever
the wall clock shows. -/
theorem exists_serves (unixNow : ℕ) (hnot : ¬s.Served) : ∃ e : Event ι, e.serves = true ∧
    (∀ i draw, e = .act i draw → draw.unixNow = unixNow) ∧ (step cfg s e).isSome := by
  by_cases hquiet : ∀ i v, s.verification i = some v → v.outcome ≠ none
  · have hwaiting : ∃ i x, s.attempt i = some x ∧ x.dropped = false ∧
        ∀ answer, x.rest ≠ .pure answer := by
      by_contra hall
      push Not at hall
      exact hnot ⟨hall, hquiet⟩
    obtain ⟨i, ⟨request, address, log, rest, dropped⟩, hx, hd, hrest⟩ := hwaiting
    obtain rfl : dropped = false := hd
    cases rest with
    | pure answer => exact absurd rfl (hrest answer)
    | act a k =>
      cases a with
      | authenticate username offered =>
        cases hv : s.verification i with
        | none => exact ⟨.spawn i, rfl, by simp, by simp [step, hx, hv]⟩
        | some v =>
          -- it has ended, so the handler can go on
          obtain ⟨name, password, outcome, work⟩ := v
          obtain ⟨outcome, rfl⟩ := Option.ne_none_iff_exists'.mp (hquiet i _ hv)
          exact ⟨.resume i, rfl, by simp, by simp [step, hx, hv]⟩
      | acquire =>
        refine ⟨.act i ⟨unixNow, ""⟩, rfl, by simp, ?_⟩
        by_cases hpermits : 0 < s.state.hashPermits <;> simp [step, hx, exec, hpermits]
      | _ => exact ⟨.act i ⟨unixNow, ""⟩, rfl, by simp, by simp [step, hx, exec]⟩
  · push Not at hquiet
    obtain ⟨i, ⟨username, offered, outcome, work⟩, hv, hout⟩ := hquiet
    obtain rfl : outcome = none := hout
    exact ⟨.finish i false, rfl, by simp, by simp [step, hv]⟩

lemma attempt_of_arrive {request : LoginRequest} {address : Option IpAddr}
    (hs : step cfg s (.arrive i request address) = some s') : ∃ y, s'.attempt i = some y := by
  simp only [step] at hs
  split at hs
  · obtain rfl := Option.some.inj hs
    exact ⟨_, Function.update_self ..⟩
  · cases hs

/-- A login that has arrived stays. -/
lemma attempt_of_step {e : Event ι} (hs : step cfg s e = some s') {x : LoginAttempt}
    (hx : s.attempt i = some x) : ∃ y, s'.attempt i = some y := by
  have hupdate : s'.attempt = s.attempt ∨
      ∃ j y, s'.attempt = Function.update s.attempt j (some y) := by
    obtain ⟨j, request, address, -, -, rfl⟩ | ⟨j, draw, x, a, k, r, state, -, -, -, -, -, rfl⟩ |
      ⟨j, x, username, offered, k, -, -, -, -, -, rfl⟩ | ⟨j, panics, v, -, -, -, rfl⟩ |
      ⟨j, x, username, offered, k, v, outcome, -, -, -, -, -, -, rfl⟩ |
      ⟨j, x, username, offered, k, v, -, -, -, -, -, rfl⟩ | ⟨d, -, rfl⟩ := step_cases hs
    · exact .inr ⟨j, _, rfl⟩
    · exact .inr ⟨j, _, rfl⟩
    · exact .inl rfl
    · exact .inl rfl
    · exact .inr ⟨j, _, rfl⟩
    · exact .inr ⟨j, _, rfl⟩
    · exact .inl rfl
  rcases hupdate with heq | ⟨j, y, heq⟩
  · exact ⟨x, by rw [heq, hx]⟩
  · rw [heq]
    by_cases hij : i = j
    · subst hij
      exact ⟨y, Function.update_self ..⟩
    · exact ⟨x, (Function.update_of_ne hij ..).trans hx⟩

end Logins

end Knova
