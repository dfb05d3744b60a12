import Knova.Auth.Completed
import Knova.Profile.Answered
import Knova.System.Access

/-!
# Every client is answered

Whatever a client asks the platform for, its request is answered after boundedly many steps:
by the authorization service itself, by a login, or by the profile service behind the gateway.
-/

namespace Knova

open Library

/-! ### The profile service -/

namespace ProfileService.Server

variable {ι : Type} [DecidableEq ι] {b : Backend} {app : App} {s s' : Server ι b} {i : ι}

/-- Whose step an event is. -/
def Event.owner {ι : Type} : Event ι → Option ι
  | .receive i _ => some i
  | .run e => e.owner

/-- The request `i` has not come in. -/
structure Idle (s : Server ι b) (i : ι) : Prop where
  received : s.received i = none
  handler : s.service.handler i = none
  thread : s.service.profiles.thread i = none

/-- At most `n` steps of the request `i` are left. -/
def Left (s : Server ι b) (i : ι) (n : ℕ) : Prop :=
  s.Idle i ∧ 14 ≤ n ∨ s.received i ≠ none ∧
    (s.service.handler i = none ∧ s.service.profiles.thread i = none ∨ s.service.Left i n)

/-- A step leaves other requests alone. -/
lemma untouched_of_step {e : Event ι} (hs : step app s e = some s') (hi : e.owner ≠ some i) :
    s'.received i = s.received i ∧ s'.service.handler i = s.service.handler i ∧
      s'.service.profiles.thread i = s.service.profiles.thread i := by
  obtain ⟨j, request, outcome, rfl, -, -, hreceived, hcase⟩ | ⟨f, rfl, -, hf, hreceived⟩ :=
    step_cases hs
  · have hne : i ≠ j := fun h => hi (congrArg some h.symm)
    rw [hreceived, Function.update_of_ne hne]
    refine ⟨rfl, ?_⟩
    rcases hcase with ⟨called, id, -, hf⟩ | ⟨-, heq⟩
    · exact Service.untouched_of_step hf hi
    · rw [heq]
      exact ⟨rfl, rfl⟩
  · rw [hreceived]
    exact ⟨rfl, Service.untouched_of_step hf hi⟩

/-- Before it comes in, a request can only come in. -/
lemma Idle.receive_of_owner (h : s.Idle i) {e : Event ι} (hs : step app s e = some s')
    (hi : e.owner = some i) : ∃ request, e = .receive i request := by
  obtain ⟨j, request, outcome, rfl, -⟩ | ⟨f, rfl, hne, hf, -⟩ := step_cases hs
  · obtain rfl := Option.some.inj hi
    exact ⟨request, rfl⟩
  · have harrived := Service.arrived_of_owner hf hi h.handler h.thread
    cases f with
    | arrive j request => exact absurd rfl (hne j request)
    | _ => cases harrived

/-- A step of a request takes one of the steps it has left. -/
lemma left_of_owner {e : Event ι} (hs : step app s e = some s') (hi : e.owner = some i) {n : ℕ}
    (h : s.Left i n) : ∃ m < n, s'.Left i m := by
  obtain ⟨j, request, outcome, rfl, hj, -, hreceived, hcase⟩ | ⟨f, rfl, hne, hf, hreceived⟩ :=
    step_cases hs
  · obtain rfl := Option.some.inj hi
    have hcame : s'.received j ≠ none := by simp [hreceived]
    rcases h with ⟨hidle, hn⟩ | ⟨hsome, -⟩
    · rcases hcase with ⟨called, id, -, hf⟩ | ⟨-, heq⟩
      · obtain ⟨m, hm, hleft⟩ := Service.left_of_owner (i := j) hf rfl
          (.inl ⟨hidle.handler, hidle.thread, hn⟩)
        exact ⟨m, hm, .inr ⟨hcame, .inr hleft⟩⟩
      · refine ⟨0, by omega, .inr ⟨hcame, .inl ?_⟩⟩
        rw [heq]
        exact ⟨hidle.handler, hidle.thread⟩
    · exact absurd hj hsome
  · have hnone : s.service.handler i = none → s.service.profiles.thread i = none → False := by
      intro hhandler hthread
      have harrived := Service.arrived_of_owner hf hi hhandler hthread
      cases f with
      | arrive j request => exact hne j request rfl
      | _ => cases harrived
    rcases h with ⟨hidle, -⟩ | ⟨hsome, ⟨hhandler, hthread⟩ | hleft⟩
    · exact (hnone hidle.handler hidle.thread).elim
    · exact (hnone hhandler hthread).elim
    · obtain ⟨m, hm, hleft⟩ := Service.left_of_owner hf hi hleft
      exact ⟨m, hm, .inr ⟨by rwa [hreceived], .inr hleft⟩⟩

/-- The step of an untouched request changes nothing about what it has left. -/
lemma Left.congr {n : ℕ} (h : s.Left i n) (hsame : s'.received i = s.received i ∧
    s'.service.handler i = s.service.handler i ∧
    s'.service.profiles.thread i = s.service.profiles.thread i) : s'.Left i n := by
  obtain ⟨hreceived, hhandler, hthread⟩ := hsame
  rcases h with ⟨⟨hi, hh, ht⟩, hn⟩ | ⟨hsome, hleft⟩
  · exact .inl ⟨⟨hreceived.trans hi, hhandler.trans hh, hthread.trans ht⟩, hn⟩
  · refine .inr ⟨by rwa [hreceived], ?_⟩
    unfold Service.Left at hleft ⊢
    rwa [hhandler, hthread]

lemma reachable_of_step {e : Event ι} (hs : step app s e = some s')
    (h : (b.object ι).Reachable s.service.profiles) :
    (b.object ι).Reachable s'.service.profiles := by
  rcases step_service hs with heq | ⟨f, hf, -⟩
  · rw [heq]
    exact h
  · exact Service.reachable_of_step hf h

end ProfileService.Server

/-! ### The gateway -/

namespace System

variable {ι : Type} [DecidableEq ι] {b : Backend} {setup : Setup} {s s' : System ι b} {i : ι}

/-- Whose step an event is. -/
def Event.owner {ι : Type} : Event ι → Option ι
  | .request i _ _ | .deliver i _ | .relay i | .fail i => some i
  | .server e => e.owner
  | .revoke _ | .tick _ => none

end System

/-! ### The platform -/

namespace Platform

open AuthService ProfileService

variable {ι : Type} [DecidableEq ι] {b : Backend} {d : Deployment} {s s' : Platform ι b} {i : ι}

/-- Whose step an event is. -/
def Event.owner {ι : Type} : Event ι → Option ι
  | .request i _ _ _ | .respond i => some i
  | .login e => e.owner
  | .system e => e.owner

/-- The request an event brings. -/
def Event.brought {ι : Type} : Event ι → Option ι
  | .request i _ _ _ => some i
  | _ => none

/-- The request `i` has not been made. -/
structure Idle (s : Platform ι b) (i : ι) : Prop where
  exchange : s.system.exchange i = none
  attempt : s.logins.attempt i = none
  verification : s.logins.verification i = none
  server : s.system.server.Idle i

/-- The step that a client is still to be answered in. -/
def unanswered (x : Exchange) : ℕ := if x.answer.isNone then 1 else 0

/-- At most `n` steps of the request `i` are left. -/
inductive Left (s : Platform ι b) (i : ι) (n : ℕ) : Prop
  | idle : s.Idle i → 16 ≤ n → Left s i n
  /-- The authorization service has answered it. -/
  | answered {x : Exchange} : s.system.exchange i = some x → x.sent = none →
    s.system.server.Idle i → s.logins.attempt i = none → s.logins.verification i = none →
    x.answer ≠ none → Left s i n
  | login {x : Exchange} {m : ℕ} : s.system.exchange i = some x → x.sent = none →
    s.system.server.Idle i → s.logins.Left i m → m + unanswered x ≤ n → Left s i n
  | proxied {x : Exchange} {m : ℕ} : s.system.exchange i = some x → x.sent ≠ none →
    s.logins.attempt i = none → s.logins.verification i = none → s.system.server.Left i m →
    m + unanswered x ≤ n → Left s i n

/-- A step does not concern the request `i`. -/
structure Untouched (s s' : Platform ι b) (i : ι) : Prop where
  exchange : s'.system.exchange i = s.system.exchange i
  logins : s'.logins.attempt i = s.logins.attempt i ∧
    s'.logins.verification i = s.logins.verification i
  server : s'.system.server.received i = s.system.server.received i ∧
    s'.system.server.service.handler i = s.system.server.service.handler i ∧
    s'.system.server.service.profiles.thread i = s.system.server.service.profiles.thread i

lemma untouched_put {j : ι} (hne : i ≠ j) (x : Exchange) : Untouched s (s.put j x) i :=
  ⟨Function.update_of_ne hne _ _, ⟨rfl, rfl⟩, rfl, rfl, rfl⟩

/-- A step leaves other requests alone. -/
lemma untouched_of_step {e : Event ι} (hs : step d s e = some s') (hi : e.owner ≠ some i) :
    Untouched s s' i := by
  cases taken_of_step hs with
  | responded | proxied | answered =>
    exact untouched_put (fun h => hi (congrArg some h.symm)) _
  | loggedOut hnone hserve =>
    obtain ⟨hexchange, hlogins, hserver⟩ : Untouched s (s.put _ _) i :=
      untouched_put (fun h => hi (congrArg some h.symm)) _
    exact ⟨hexchange, hlogins, hserver⟩
  | arrived hnone hserve hlogins =>
    obtain ⟨hexchange, -, hserver⟩ : Untouched s (s.put _ _) i :=
      untouched_put (fun h => hi (congrArg some h.symm)) _
    exact ⟨hexchange, Logins.untouched_of_step hlogins hi, hserver⟩
  | login hgoes hlogins => exact ⟨rfl, Logins.untouched_of_step hlogins hi, rfl, rfl, rfl⟩
  | system hproceeds hsystem =>
    obtain ⟨j, sent, uuid, proxied, rfl, -⟩ | ⟨f, server, hf, hcase, rfl⟩ |
      ⟨j, x, response, hcase, -, rfl⟩ | ⟨claims, rfl, -⟩ | ⟨n, rfl, rfl⟩ :=
        System.step_cases hsystem
    · cases hproceeds
    · refine ⟨rfl, ⟨rfl, rfl⟩, Server.untouched_of_step hf ?_⟩
      rcases hcase with ⟨j, claims, upstream, added, rfl, -, rfl⟩ | ⟨g, rfl, rfl⟩ <;> exact hi
    · refine ⟨Function.update_of_ne ?_ _ _, ⟨rfl, rfl⟩, rfl, rfl, rfl⟩
      rintro rfl
      rcases hcase with ⟨rfl, -⟩ | ⟨rfl, -⟩ <;> exact hi rfl
    · cases hproceeds
    · exact ⟨rfl, ⟨rfl, rfl⟩, rfl, rfl, rfl⟩

lemma Untouched.idle_server (h : Untouched s s' i) (hi : s.system.server.Idle i) :
    s'.system.server.Idle i :=
  ⟨h.server.1.trans hi.received, h.server.2.1.trans hi.handler, h.server.2.2.trans hi.thread⟩

lemma Untouched.idle (h : Untouched s s' i) (hi : s.Idle i) : s'.Idle i :=
  ⟨h.exchange.trans hi.exchange, h.logins.1.trans hi.attempt, h.logins.2.trans hi.verification,
    h.idle_server hi.server⟩

lemma Untouched.left (h : Untouched s s' i) {n : ℕ} (hleft : s.Left i n) : s'.Left i n := by
  cases hleft with
  | idle hi hn => exact .idle (h.idle hi) hn
  | answered hx hsent hserver hattempt hverification hanswer =>
    exact .answered (h.exchange.trans hx) hsent (h.idle_server hserver)
      (h.logins.1.trans hattempt) (h.logins.2.trans hverification) hanswer
  | login hx hsent hserver hlogin hn =>
    refine .login (h.exchange.trans hx) hsent (h.idle_server hserver) ?_ hn
    unfold Logins.Left at hlogin ⊢
    rwa [h.logins.1, h.logins.2]
  | proxied hx hsent hattempt hverification hserver hn =>
    exact .proxied (h.exchange.trans hx) hsent (h.logins.1.trans hattempt)
      (h.logins.2.trans hverification) (hserver.congr h.server) hn

/-- A request that has not reached a login takes no step of one. -/
lemma not_login {e : Logins.Event ι} {logins : Logins ι} {now : ℕ} (hgoes : Goes now e)
    (hs : Logins.step d.logins s.logins e = some logins) (hi : e.owner = some i)
    (hattempt : s.logins.attempt i = none) (hverification : s.logins.verification i = none) :
    False := by
  obtain ⟨request, address, rfl⟩ := Logins.arrive_of_owner hs hi hattempt hverification
  cases hgoes

/-- What a step of the proxy or of the profile service does to the request that takes it. -/
lemma system_cases {e : System.Event ι} {system : System ι b} (hproceeds : Proceeds e)
    (hs : System.step d.setup s.system e = some system) (hi : e.owner = some i) :
    (∃ f server, Server.step d.setup.app s.system.server f = some server ∧ f.owner = some i ∧
      (∀ request, f = .receive i request → ∃ claims upstream, s.system.Sent i claims upstream) ∧
      system = { s.system with server }) ∨
    ∃ x response, s.system.exchange i = some x ∧ x.sent ≠ none ∧ x.answer = none ∧
      system = { s.system with
        exchange :=
          Function.update s.system.exchange i (some { x with answer := some response }) } := by
  have hcloses := fun he : e = .relay i ∨ e = .fail i => System.closes_of_step he hs
  obtain ⟨j, sent, uuid, proxied, rfl, -⟩ | ⟨f, server, hf, hcase, rfl⟩ |
    ⟨j, x, response, hcase, -, -⟩ | ⟨claims, rfl, -⟩ | ⟨n, rfl, -⟩ := System.step_cases hs
  · cases hproceeds
  · left
    rcases hcase with ⟨j, claims, upstream, added, rfl, hsent, rfl⟩ | ⟨g, rfl, rfl⟩
    · obtain rfl := Option.some.inj hi
      exact ⟨_, server, hf, rfl, fun request _ => ⟨claims, upstream, hsent⟩, rfl⟩
    · exact ⟨_, server, hf, hi, fun request h => (by cases h), rfl⟩
  · right
    rcases hcase with ⟨rfl, -⟩ | ⟨rfl, -⟩ <;> obtain rfl := Option.some.inj hi
    · exact hcloses (.inl rfl)
    · exact hcloses (.inr rfl)
  · cases hproceeds
  · cases hi

/-- A request that was not sent upstream takes no step there. -/
lemma not_system {e : System.Event ι} {system : System ι b} (hproceeds : Proceeds e)
    (hs : System.step d.setup s.system e = some system) (hi : e.owner = some i)
    (hidle : s.system.server.Idle i)
    (hsent : ∀ x, s.system.exchange i = some x → x.sent = none) : False := by
  rcases system_cases hproceeds hs hi with ⟨f, server, hf, howner, hreceive, -⟩ |
    ⟨x, response, hx, hne, -⟩
  · obtain ⟨request, rfl⟩ := hidle.receive_of_owner hf howner
    obtain ⟨claims, upstream, h⟩ := hreceive request rfl
    obtain ⟨x, hx, hproxied⟩ := Option.bind_eq_some_iff.mp h
    rw [hsent x hx] at hproxied
    cases hproxied
  · exact hne (hsent x hx)

/-- Before it is made, a request can only be made. -/
lemma Idle.brought_of_owner (h : s.Idle i) {e : Event ι} (hs : step d s e = some s')
    (hi : e.owner = some i) : e.brought = some i := by
  cases taken_of_step hs with
  | responded | arrived | loggedOut | proxied => exact hi
  | login hgoes hlogins => exact (not_login hgoes hlogins hi h.attempt h.verification).elim
  | answered hx hsent hanswer hattempt hrest =>
    obtain rfl := Option.some.inj hi
    rw [h.exchange] at hx
    cases hx
  | system hproceeds hsystem =>
    refine (not_system hproceeds hsystem hi h.server fun x hx => ?_).elim
    rw [h.exchange] at hx
    cases hx

/-- A request that is made has fifteen steps left at most. -/
lemma Idle.left_of_owner (h : s.Idle i) {e : Event ι} (hs : step d s e = some s')
    (hi : e.owner = some i) : s'.Left i 15 := by
  cases taken_of_step hs with
  | responded hnone hserve | loggedOut hnone hserve =>
    obtain rfl := Option.some.inj hi
    exact .answered (Function.update_self ..) rfl ⟨h.server.received, h.server.handler,
      h.server.thread⟩ h.attempt h.verification (by simp)
  | arrived hnone hserve hlogins =>
    obtain rfl := Option.some.inj hi
    exact .login (Function.update_self ..) rfl ⟨h.server.received, h.server.handler,
      h.server.thread⟩ (Logins.left_of_arrive hlogins h.verification) (by simp [unanswered])
  | proxied hnone hserve =>
    obtain rfl := Option.some.inj hi
    exact .proxied (Function.update_self ..) (by simp) h.attempt h.verification
      (.inl ⟨⟨h.server.received, h.server.handler, h.server.thread⟩, le_refl _⟩)
      (by simp [unanswered])
  | login hgoes hlogins => exact (not_login hgoes hlogins hi h.attempt h.verification).elim
  | answered hx hsent hanswer hattempt hrest =>
    obtain rfl := Option.some.inj hi
    rw [h.exchange] at hx
    cases hx
  | system hproceeds hsystem =>
    refine (not_system hproceeds hsystem hi h.server fun x hx => ?_).elim
    rw [h.exchange] at hx
    cases hx

/-- A step of a request takes one of the steps it has left. -/
lemma left_of_owner {e : Event ι} (hs : step d s e = some s') (hi : e.owner = some i) {n : ℕ}
    (h : s.Left i n) : ∃ m < n, s'.Left i m := by
  cases h with
  | idle hidle hn => exact ⟨15, by omega, hidle.left_of_owner hs hi⟩
  | answered hx hsent hserver hattempt hverification hanswer =>
    exfalso
    cases taken_of_step hs with
    | responded hnone | arrived hnone | loggedOut hnone | proxied hnone =>
      obtain rfl := Option.some.inj hi
      rw [hx] at hnone
      cases hnone
    | login hgoes hlogins => exact not_login hgoes hlogins hi hattempt hverification
    | answered hy hsent' hanswer' hattempt' hrest =>
      obtain rfl := Option.some.inj hi
      rw [hattempt] at hattempt'
      cases hattempt'
    | system hproceeds hsystem =>
      refine not_system hproceeds hsystem hi hserver fun y hy => ?_
      rw [hx] at hy
      obtain rfl := Option.some.inj hy
      exact hsent
  | @login x m hx hsent hserver hlogin hn =>
    cases taken_of_step hs with
    | responded hnone | arrived hnone | loggedOut hnone | proxied hnone =>
      obtain rfl := Option.some.inj hi
      rw [hx] at hnone
      cases hnone
    | login hgoes hlogins =>
      obtain ⟨m', hlt, hleft⟩ := Logins.left_of_owner hlogins hi hlogin
      exact ⟨m' + unanswered x, by omega, .login hx hsent hserver hleft (le_refl _)⟩
    | answered hy hsent' hanswer hattempt hrest =>
      obtain rfl := Option.some.inj hi
      rw [hx] at hy
      obtain rfl := Option.some.inj hy
      refine ⟨m, ?_, .login (Function.update_self ..) hsent ⟨hserver.received, hserver.handler,
        hserver.thread⟩ hlogin (by simp [unanswered])⟩
      simp only [unanswered, hanswer, Option.isNone_none, if_true] at hn
      omega
    | system hproceeds hsystem =>
      refine (not_system hproceeds hsystem hi hserver fun y hy => ?_).elim
      rw [hx] at hy
      obtain rfl := Option.some.inj hy
      exact hsent
  | @proxied x m hx hsent hattempt hverification hserver hn =>
    cases taken_of_step hs with
    | responded hnone | arrived hnone | loggedOut hnone | proxied hnone =>
      obtain rfl := Option.some.inj hi
      rw [hx] at hnone
      cases hnone
    | login hgoes hlogins => exact (not_login hgoes hlogins hi hattempt hverification).elim
    | answered hy hsent' hanswer' hattempt' hrest =>
      obtain rfl := Option.some.inj hi
      rw [hattempt] at hattempt'
      cases hattempt'
    | system hproceeds hsystem =>
      rcases system_cases hproceeds hsystem hi with ⟨f, server, hf, howner, -, rfl⟩ |
        ⟨y, response, hy, hne, hanswer, rfl⟩
      · obtain ⟨m', hlt, hleft⟩ := Server.left_of_owner hf howner hserver
        exact ⟨m' + unanswered x, by omega,
          .proxied hx hsent hattempt hverification hleft (le_refl _)⟩
      · rw [hx] at hy
        obtain rfl := Option.some.inj hy
        refine ⟨m, ?_, .proxied (Function.update_self ..) hsent hattempt hverification hserver
          (by simp [unanswered])⟩
        simp only [unanswered, hanswer, Option.isNone_none, if_true] at hn
        omega

/-- The requests of the platform, each with sixteen steps at most. -/
def tasks (ι : Type) [DecidableEq ι] (b : Backend) (d : Deployment) : (machine ι b d).Tasks ι where
  owner := Event.owner
  starts := Event.brought
  idle := Idle
  left := Left
  bound := 16
  idle_left h := .idle h (le_refl _)
  idle_owner h hs ho := h.brought_of_owner hs ho
  idle_step h hs ho := (untouched_of_step hs ho).idle h
  left_owner h hs ho := left_of_owner hs ho h
  left_step h hs ho := (untouched_of_step hs ho).left h

/-! ### No request is stuck -/

/-- Whoever is not answered yet is attended to. -/
structure Attended (d : Deployment) (s : Platform ι b) : Prop where
  server : Server.Inv d.setup.app s.system.server
  reachable : (b.object ι).Reachable s.system.server.service.profiles
  /-- What is neither answered nor sent upstream is with a login. -/
  asked : ∀ i x, s.system.exchange i = some x → x.sent = none → x.answer = none →
    ∃ y, s.logins.attempt i = some y

lemma attended_init : Attended d (init ι b d) where
  server := Server.inv_init
  reachable := ⟨[], rfl⟩
  asked i x hx := by cases hx

lemma Attended.put (h : Attended d s) {j : ι} {x : Exchange}
    (hasked : x.sent = none → x.answer = none → ∃ y, s.logins.attempt j = some y) :
    Attended d (s.put j x) where
  server := h.server
  reachable := h.reachable
  asked i y hy hsent hanswer := by
    obtain ⟨rfl, rfl⟩ | ⟨-, hi⟩ := update_eq_some hy
    · exact hasked hsent hanswer
    · exact h.asked i y hi hsent hanswer

lemma Attended.logins (h : Attended d s) {logins : Logins ι}
    (hkept : ∀ i x, s.logins.attempt i = some x → ∃ y, logins.attempt i = some y) :
    Attended d { s with logins } :=
  ⟨h.server, h.reachable, fun i x hx hsent hanswer => by
    obtain ⟨y, hy⟩ := h.asked i x hx hsent hanswer
    exact hkept i y hy⟩

lemma Attended.step (h : Attended d s) {e : Event ι} (hs : Platform.step d s e = some s') :
    Attended d s' := by
  have hkept : ∀ {f : Logins.Event ι} {logins : Logins ι},
      Logins.step d.logins s.logins f = some logins →
      ∀ i x, s.logins.attempt i = some x → ∃ y, logins.attempt i = some y :=
    fun hf _ _ hx => Logins.attempt_of_step hf hx
  cases taken_of_step hs with
  | responded hnone hserve => exact h.put (by simp)
  | @loggedOut i sent uuid address claims hnone hserve =>
    have hput : Attended d (s.put i ⟨(correlated sent uuid).1, (correlated sent uuid).2, none,
        some (.empty 204)⟩) := h.put (by simp)
    exact ⟨hput.server, hput.reachable, hput.asked⟩
  | arrived hnone hserve hlogins =>
    exact (h.logins (hkept hlogins)).put (fun _ _ => Logins.attempt_of_arrive hlogins)
  | proxied hnone hserve => exact h.put (by simp)
  | login hgoes hlogins => exact h.logins (hkept hlogins)
  | answered hx hsent hanswer hattempt hrest => exact h.put (by simp)
  | system hproceeds hsystem =>
    obtain ⟨j, sent, uuid, proxied, rfl, -⟩ | ⟨f, server, hf, -, rfl⟩ |
      ⟨j, x, response, -, hx, rfl⟩ | ⟨claims, rfl, -⟩ | ⟨n, rfl, rfl⟩ :=
        System.step_cases hsystem
    · cases hproceeds
    · exact ⟨h.server.step hf, Server.reachable_of_step hf h.reachable, h.asked⟩
    · exact h.put (by simp)
    · cases hproceeds
    · exact ⟨h.server, h.reachable, h.asked⟩

lemma attended_of_run {es : List (Event ι)} (hrun : (machine ι b d).run (init ι b d) es = some s) :
    Attended d s :=
  Machine.run_invariant (M := machine ι b d) (Attended d) (fun _ _ _ h hs => h.step hs)
    attended_init hrun

/-- The handler of the request was dropped: the login's, or the one behind the gateway. -/
def GivenUp (s : Platform ι b) (i : ι) : Prop :=
  (∃ x, s.logins.attempt i = some x ∧ x.dropped = true) ∨
    ∃ x, s.system.server.service.handler i = some x ∧ x.dropped = true

/-- Every client is answered, unless the handler of its request was dropped, and no work is
left. -/
structure Served (s : Platform ι b) : Prop where
  answered : ∀ i x, s.system.exchange i = some x → x.answer ≠ none ∨ s.GivenUp i
  logins : s.logins.Served
  service : s.system.server.service.Served

/-- A step that serves a request that was made. -/
def Event.serves {ι : Type} : Event ι → Bool
  | .login e => e.serves
  | .respond _ | .system (.deliver _ _) | .system (.relay _) => true
  | .system (.server e) => e.serves
  | _ => false

/-- A login that can take a step gives the platform one to take. -/
lemma exists_serves_logins (hnot : ¬s.logins.Served) :
    ∃ e : Event ι, e.serves = true ∧ (step d s e).isSome := by
  obtain ⟨e, he, hdraw, hstep⟩ : ∃ e : Logins.Event ι, e.serves = true ∧
      (∀ i draw, e = .act i draw → draw.unixNow = s.system.now) ∧
      (Logins.step d.logins s.logins e).isSome := Logins.exists_serves s.system.now hnot
  have hgoes : Goes s.system.now e = true := by
    cases e with
    | act i draw => simpa [Goes] using hdraw i draw rfl
    | arrive => cases he
    | spawn | finish | resume | drop | tick => rfl
  exact ⟨.login e, he, by simpa [step, hgoes] using hstep⟩

lemma exists_serves_service (h : Attended d s) (hnot : ¬s.system.server.service.Served) :
    ∃ e : Event ι, e.serves = true ∧ (step d s e).isSome := by
  obtain ⟨e, he, hstep⟩ := Service.exists_serves h.server.service h.reachable hnot
  refine ⟨.system (.server e), he, ?_⟩
  cases e with
  | arrive => cases he
  | perform | call | act | ret | resume | drop | tick =>
    simpa [step, Proceeds, System.step, Server.step] using hstep

/-- A request that was sent upstream can be delivered there, or its answer relayed. -/
lemma exists_serves_upstream (h : Attended d s) (hserved : s.system.server.service.Served)
    {x : Exchange} (hx : s.system.exchange i = some x) (hanswer : x.answer = none)
    (hkept : ¬s.GivenUp i) (hsent : x.sent ≠ none) :
    ∃ e : Event ι, e.serves = true ∧ (step d s e).isSome := by
  obtain ⟨request, requestId, sent, answer⟩ := x
  obtain rfl : answer = none := hanswer
  obtain ⟨⟨claims, upstream⟩, rfl⟩ := Option.ne_none_iff_exists'.mp hsent
  cases hreceived : s.system.server.received i with
  | none =>
    have hhandler : s.system.server.service.handler i = none := by
      cases hhandler : s.system.server.service.handler i with
      | none => rfl
      | some y =>
        obtain ⟨received, id, hr, -⟩ := (h.server.handled i y.request).mp ⟨y, hhandler, rfl⟩
        rw [hreceived] at hr
        cases hr
    have hserver : (Server.step d.setup.app s.system.server
        (.receive i (System.arriving upstream []))).isSome := by
      simp only [Server.step, hreceived]
      split
      · simp [Service.step, hhandler]
      · rfl
    refine ⟨.system (.deliver i []), rfl, ?_⟩
    simpa [step, Proceeds, System.step, hx] using hserver
  | some received =>
    -- the handler of the request is done, since all of them are
    have hreply : (s.system.server.reply i).isSome := by
      obtain ⟨request', outcome⟩ := received
      rw [Server.reply, hreceived]
      cases outcome with
      | error e => rfl
      | ok routed =>
        obtain ⟨outcome, id⟩ := routed
        cases outcome with
        | respond response => rfl
        | handle called =>
          obtain ⟨⟨request', log, rest, dropped⟩, hy, -⟩ :=
            (h.server.handled i called).mpr ⟨_, id, hreceived, rfl⟩
          have hd : dropped = false := by
            cases hdrop : dropped with
            | false => rfl
            | true => exact absurd (.inr ⟨_, hy, hdrop⟩) hkept
          obtain ⟨a, rfl⟩ := hserved.1 i _ hy hd
          simp [hy]
    obtain ⟨reply, hreply⟩ := Option.isSome_iff_exists.mp hreply
    exact ⟨.system (.relay i), rfl, by simp [step, Proceeds, System.step, hx, hreply]⟩

/-- While a client is unanswered or work is left, some step serves a request. -/
theorem exists_serves (h : Attended d s) (hnot : ¬s.Served) :
    ∃ e : Event ι, e.serves = true ∧ (step d s e).isSome := by
  by_cases hlogins : s.logins.Served
  · by_cases hservice : s.system.server.service.Served
    · have hwaiting : ∃ i x, s.system.exchange i = some x ∧ x.answer = none ∧ ¬s.GivenUp i := by
        by_contra hall
        push Not at hall
        refine hnot ⟨fun i x hx => ?_, hlogins, hservice⟩
        by_cases hanswer : x.answer = none
        · exact .inr (hall i x hx hanswer)
        · exact .inl hanswer
      obtain ⟨i, x, hx, hanswer, hkept⟩ := hwaiting
      by_cases hsent : x.sent = none
      · obtain ⟨y, hy⟩ := h.asked i x hx hsent hanswer
        have hd : y.dropped = false := by
          cases hdrop : y.dropped with
          | false => rfl
          | true => exact absurd (.inl ⟨y, hy, hdrop⟩) hkept
        obtain ⟨answer, hrest⟩ := hlogins.1 i y hy hd
        obtain ⟨request, requestId, sent, given⟩ := x
        obtain rfl : sent = none := hsent
        obtain rfl : given = none := hanswer
        obtain ⟨credentials, address, log, rest, dropped⟩ := y
        obtain rfl : rest = .pure answer := hrest
        exact ⟨.respond i, rfl, by simp [step, hx, hy]⟩
      · exact exists_serves_upstream h hservice hx hanswer hkept hsent
    · exact exists_serves_service h hservice
  · exact exists_serves_logins hlogins

/-- However the requests of any clients interleave, each of them is answered unless its handler
is dropped: each takes sixteen steps at most, the step it comes in with included; until all are
answered there is a step that serves one, and serving them answers them all. -/
theorem clients_answered (b : Backend) (ι : Type) [DecidableEq ι] (d : Deployment)
    (es rest : List (Event ι)) (s : Platform ι b)
    (hrun : (machine ι b d).run (init ι b d) (es ++ rest) = some s)
    (hrest : ∀ e ∈ rest, e.brought = none) :
    (∀ i, ((es ++ rest).filterMap Event.owner).count i ≤ 16) ∧
      (rest.filterMap Event.owner).length ≤ 16 * (es.filterMap Event.brought).length ∧
      (s.Served ∨ ∃ e : Event ι, e.serves = true ∧ (step d s e).isSome) ∧
      ∃ more t, (∀ e ∈ more, e.serves = true) ∧ (machine ι b d).run s more = some t ∧
        t.Served := by
  have hidle : ∀ i, (tasks ι b d).idle (init ι b d) i :=
    fun _ => ⟨rfl, rfl, rfl, rfl, rfl, rfl⟩
  have hlive : ∀ fs u, (machine ι b d).run (init ι b d) fs = some u → ¬u.Served →
      ∃ e : Event ι, e.serves = true ∧ (step d u e).isSome :=
    fun fs u hu hnot => exists_serves (attended_of_run hu) hnot
  refine ⟨fun i => Machine.Tasks.count_le (T := tasks ι b d) (.idle (hidle i) (le_refl _)) hrun,
    Machine.Tasks.steps_le (T := tasks ι b d) hidle hrun hrest, ?_, ?_⟩
  · rw [or_iff_not_imp_left]
    exact hlive _ s hrun
  · refine Machine.Tasks.completes (T := tasks ι b d) (fun e => e.serves = true) Served
      (fun e he => ?_) hidle hrun hlive
    cases e with
    | request => cases he
    | respond => exact ⟨rfl, rfl⟩
    | login e =>
      cases e with
      | act | spawn | finish | resume => exact ⟨rfl, rfl⟩
      | arrive | drop | tick => cases he
    | system e =>
      cases e with
      | deliver | relay => exact ⟨rfl, rfl⟩
      | server e =>
        cases e with
        | perform | call | act | ret | resume => exact ⟨rfl, rfl⟩
        | arrive | drop | tick => cases he
      | request | fail | revoke | tick => cases he

open Sample in
/-- alice logs in. -/
theorem clients_answered_login :
    (machine ℕ .sqlite deployed).run (init ℕ .sqlite deployed)
      (logging.take 2 ++ logging.drop 2) = some loggedIn ∧
    (∀ i, ((logging.take 2 ++ logging.drop 2).filterMap Event.owner).count i ≤ 16) ∧
    ((logging.drop 2).filterMap Event.owner).length ≤
      16 * ((logging.take 2).filterMap Event.brought).length ∧
    (loggedIn.Served ∨ ∃ e : Event ℕ, e.serves = true ∧ (step deployed loggedIn e).isSome) ∧
    ∃ more t, (∀ e ∈ more, e.serves = true) ∧
      (machine ℕ .sqlite deployed).run loggedIn more = some t ∧ t.Served := by
  have hrun : (machine ℕ .sqlite deployed).run (init ℕ .sqlite deployed)
      (logging.take 2 ++ logging.drop 2) = some loggedIn := by
    rw [List.take_append_drop]
    exact run_logging
  exact ⟨hrun, clients_answered .sqlite ℕ deployed _ _ loggedIn hrun
    (by simp [logging, Event.brought])⟩

end Platform

end Knova
