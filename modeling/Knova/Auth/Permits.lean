import Knova.Auth.Enumeration
import Knova.Auth.LoginProgress
import Mathlib.Data.Set.Card
import Mathlib.Tactic.Ring

/-!
# Verification permits

A permit is taken by the handler, moves into the verification when that starts, and is given
back by whichever of the two holds it at its end. Permits available and permits held add up
to the same number in every state.
-/

namespace Knova.Logins

open Library Login

variable {ι : Type} [DecidableEq ι] {cfg : LoginSettings} {s s' : Logins ι} {i j : ι}
  {x : LoginAttempt}

/-- A password verification of `i` is running. -/
def Running (s : Logins ι) (i : ι) : Prop := ∃ v, s.verification i = some v ∧ v.outcome = none

/-- In these calls a permit was taken and not given back. -/
def Carries (calls : List (Prog.Performed LoginE)) : Prop :=
  ⟨.acquire, true⟩ ∈ calls ∧ ⟨.release, ()⟩ ∉ calls

/-- `i` holds a permit: in its handler until its verification starts, then in that until it
ends. -/
def Holds (s : Logins ι) (i : ι) : Prop :=
  (∃ x, s.attempt i = some x ∧ Carries (x.log.map Prod.snd) ∧ s.verification i = none) ∨ s.Running i

/-- The login `i` is in progress: its future was not dropped and has not answered. -/
def InProgress (s : Logins ι) (i : ι) : Prop :=
  ∃ x, s.attempt i = some x ∧ x.dropped = false ∧ ∀ answer, x.rest ≠ .pure answer

/-- Permits available and permits held are `permits` together. -/
def Conserved (permits : ℕ) (s : Logins ι) : Prop :=
  (s.state.hashPermits : ℕ∞) + {i | s.Holds i}.encard = permits

omit [DecidableEq ι] in
lemma Tracked.verification_eq_none (h : s.Tracked) (hx : s.attempt i = some x)
    (hlog : ∀ throttled log, x.log.map Prod.snd ≠
      passed x.address ++ ⟨.overAccount x.request.username, throttled⟩ :: log) :
    s.verification i = none := by
  cases hv : s.verification i with
  | none => rfl
  | some v =>
    obtain ⟨y, throttled, log, hy, -, -, hlog'⟩ := h.asked i v hv
    rw [hx] at hy
    obtain rfl := Option.some.inj hy
    exact absurd hlog' (hlog throttled log)

omit [DecidableEq ι] in
/-- A handler whose address was not refused carries its permit. -/
lemma carries_passed {log : List (Prog.Performed LoginE)} {address : Option IpAddr}
    (hrelease : ⟨.release, ()⟩ ∉ log) : Carries (passed address ++ log) := by
  constructor
  · exact List.mem_cons_self
  · cases address <;> simp [passed, hrelease]

lemma carries_concat {calls : List (Prog.Performed LoginE)} {c : Prog.Performed LoginE}
    (hacquire : c ≠ ⟨.acquire, true⟩) (hrelease : c ≠ ⟨.release, ()⟩) :
    Carries (calls ++ [c]) ↔ Carries calls := by
  simp [Carries, Ne.symm hacquire, Ne.symm hrelease]

/-- Who holds a permit after a call of `i` was answered. -/
lemma holds_answer {a : LoginAct} {r : a.Ans} {rest : LoginProg LoginAnswer}
    (state : AppState) : Holds { s with state, attempt := s.answer i x a r rest } j ↔
      if j = i then
        (Carries (x.log.map Prod.snd ++ [⟨a, r⟩]) ∧ s.verification i = none) ∨ s.Running i
      else s.Holds j := by
  by_cases hj : j = i
  · subst hj
    simp [Holds, Running, answer]
  · simp [Holds, Running, answer, hj]

/-- A call that is not on the semaphore leaves all permits where they are. -/
lemma holds_answer_of_ne {a : LoginAct} {r : a.Ans} {rest : LoginProg LoginAnswer}
    (hx : s.attempt i = some x) (state : AppState)
    (hacquire : (⟨a, r⟩ : Prog.Performed LoginE) ≠ ⟨.acquire, true⟩)
    (hrelease : (⟨a, r⟩ : Prog.Performed LoginE) ≠ ⟨.release, ()⟩) :
    Holds { s with state, attempt := s.answer i x a r rest } j ↔ s.Holds j := by
  rw [holds_answer, carries_concat hacquire hrelease]
  split
  · rename_i hj
    subst hj
    simp [Holds, hx]
  · rfl

/-! ### One step -/

omit [DecidableEq ι] in
lemma Conserved.congr {permits : ℕ} (h : Conserved permits s)
    (hpermits : s'.state.hashPermits = s.state.hashPermits) (hholds : ∀ j, s'.Holds j ↔ s.Holds j) :
    Conserved permits s' := by
  have hset : {j | s'.Holds j} = {j | s.Holds j} := Set.ext hholds
  rwa [Conserved, hpermits, hset]

omit [DecidableEq ι] in
/-- One holder more, one permit less. -/
lemma Conserved.take {permits : ℕ} (h : Conserved permits s)
    (hpermits : s'.state.hashPermits + 1 = s.state.hashPermits) (hi : ¬s.Holds i)
    (hholds : ∀ j, s'.Holds j ↔ j = i ∨ s.Holds j) : Conserved permits s' := by
  have hset : {j | s'.Holds j} = insert i {j | s.Holds j} := Set.ext hholds
  have hnotMem : i ∉ {j | s.Holds j} := hi
  rw [Conserved, hset, Set.encard_insert_of_notMem hnotMem]
  rw [Conserved, ← hpermits] at h
  rw [← h]
  push_cast
  ring

omit [DecidableEq ι] in
/-- One holder less, one permit more. -/
lemma Conserved.give {permits : ℕ} (h : Conserved permits s)
    (hpermits : s'.state.hashPermits = s.state.hashPermits + 1) (hi : s.Holds i)
    (hholds : ∀ j, s'.Holds j ↔ j ≠ i ∧ s.Holds j) : Conserved permits s' := by
  have hset : {j | s'.Holds j} = {j | s.Holds j} \ {i} := by
    ext j
    exact (hholds j).trans and_comm
  have hmem : i ∈ {j | s.Holds j} := hi
  rw [Conserved, ← Set.encard_sdiff_singleton_add_one hmem] at h
  rw [Conserved, hset, hpermits, ← h]
  push_cast
  ring

/-- What a call on the shared state does to the permits. -/
lemma exec_hashPermits {J : Jwt} {now : ℕ} {draw : Draw} {a : LoginAct} {state state' : AppState}
    {r : a.Ans} (h : exec J now draw a state = some (r, state')) :
    ((⟨a, r⟩ : Prog.Performed LoginE) = ⟨.acquire, true⟩ ∧
      state'.hashPermits + 1 = state.hashPermits) ∨
    ((⟨a, r⟩ : Prog.Performed LoginE) = ⟨.release, ()⟩ ∧
      state'.hashPermits = state.hashPermits + 1) ∨
    ((⟨a, r⟩ : Prog.Performed LoginE) ≠ ⟨.acquire, true⟩ ∧
      (⟨a, r⟩ : Prog.Performed LoginE) ≠ ⟨.release, ()⟩ ∧
      state'.hashPermits = state.hashPermits) := by
  cases a with
  | acquire =>
    simp only [exec] at h
    split at h
    · rename_i hpos
      obtain ⟨rfl, rfl⟩ := Prod.mk.inj (Option.some.inj h)
      exact .inl ⟨rfl, Nat.sub_add_cancel hpos⟩
    · obtain ⟨rfl, rfl⟩ := Prod.mk.inj (Option.some.inj h)
      exact .inr (.inr ⟨by simp, by simp, rfl⟩)
  | release =>
    obtain ⟨rfl, rfl⟩ := Prod.mk.inj (Option.some.inj h)
    exact .inr (.inl ⟨rfl, rfl⟩)
  | authenticate username offered => cases h
  | _ =>
    obtain ⟨rfl, rfl⟩ := Prod.mk.inj (Option.some.inj h)
    exact .inr (.inr ⟨by simp, by simp, rfl⟩)

omit [DecidableEq ι] in
/-- A permit is taken by a handler that holds none. -/
lemma Tracked.not_holds_of_arrived (h : s.Tracked) (hx : s.attempt i = some x)
    (hlog : x.log.map Prod.snd = []) : s.verification i = none ∧ ¬s.Holds i := by
  have hv := h.verification_eq_none hx fun throttled log heq => by
    rw [hlog] at heq
    simp [passed] at heq
  refine ⟨hv, ?_⟩
  rintro (⟨y, hy, hcarries, -⟩ | ⟨v, hv', -⟩)
  · rw [hx] at hy
    obtain rfl := Option.some.inj hy
    rw [hlog] at hcarries
    cases hcarries.1
  · rw [hv] at hv'
    cases hv'

omit [DecidableEq ι] in
/-- A permit is given back by a handler that holds one. -/
lemma Tracked.holds_of_refusing (h : s.Tracked) (hx : s.attempt i = some x) {source : IpAddr}
    (hlog : x.log.map Prod.snd = [⟨.acquire, true⟩, ⟨.overAddress source, true⟩]) :
    s.verification i = none ∧ s.Holds i := by
  have hv := h.verification_eq_none hx fun throttled log heq => by
    rw [hlog] at heq
    cases hsource : x.address <;> simp [hsource, passed] at heq
  refine ⟨hv, .inl ⟨x, hx, ?_, hv⟩⟩
  rw [hlog]
  simp [Carries]

/-- Every step conserves the permits. -/
lemma Conserved.step {permits : ℕ} (h : Conserved permits s) (ht : s.Tracked) {e : Event ι}
    (hs : Logins.step cfg s e = some s') : Conserved permits s' := by
  obtain ⟨i, request, address, -, hi, rfl⟩ | ⟨i, draw, x, a, k, r, state, -, hx, -, hrest,
    hexec, rfl⟩ | ⟨i, x, username, offered, k, -, hx, -, hrest, hv, rfl⟩ |
    ⟨i, panics, v, -, hv, hout, rfl⟩ | ⟨i, x, username, offered, k, v, outcome, -, hx, -, hrest,
      hv, hout, rfl⟩ | ⟨i, x, username, offered, k, v, -, hx, -, -, hv, rfl⟩ |
    ⟨d, -, rfl⟩ := step_cases hs
  · refine h.congr rfl fun j => ?_
    by_cases hj : j = i
    · subst hj
      simp [Holds, Running, Carries, hi]
    · simp [Holds, Running, hj]
  · have hreached := ht.reached hx
    rw [hrest] at hreached
    rcases exec_hashPermits hexec with ⟨hact, hpermits⟩ | ⟨hact, hpermits⟩ |
      ⟨hacquire, hrelease, hpermits⟩
    · cases hact
      obtain hlog : x.log.map Prod.snd = [] := by
        generalize x.log.map Prod.snd = log at hreached
        cases hreached with
        | arrived k => rfl
        | concluding throttled outcome log rest hc => cases hc
      obtain ⟨hv, hnot⟩ := ht.not_holds_of_arrived hx hlog
      refine h.take hpermits hnot fun j => ?_
      rw [holds_answer, hlog]
      split
      · rename_i hj
        simp [hj, hv, Carries]
      · rename_i hj
        simp [hj]
    · cases hact
      obtain ⟨source, hlog⟩ : ∃ source, x.log.map Prod.snd =
          [⟨.acquire, true⟩, ⟨.overAddress source, true⟩] := by
        generalize x.log.map Prod.snd = log at hreached
        cases hreached with
        | refusing source k => exact ⟨source, rfl⟩
        | concluding throttled outcome log rest hc => cases hc
      obtain ⟨hv, hholds⟩ := ht.holds_of_refusing hx hlog
      refine h.give hpermits hholds fun j => ?_
      rw [holds_answer, hlog]
      split
      · rename_i hj
        simp [hj, hv, Carries, Running]
      · rename_i hj
        simp [hj]
    · exact h.congr hpermits fun j => holds_answer_of_ne hx state hacquire hrelease
  · have hreached := ht.reached hx
    rw [hrest] at hreached
    obtain ⟨throttled, hlog, -, -⟩ := hreached.verifying_log
    have hcarries : Carries (x.log.map Prod.snd) := by
      rw [hlog]
      exact carries_passed (by simp)
    refine h.congr rfl fun j => ?_
    by_cases hj : j = i
    · subst hj
      simp [Holds, Running, hx, hv, hcarries]
    · simp [Holds, Running, hj]
  · refine h.give (i := i) rfl (.inr ⟨v, hv, hout⟩) fun j => ?_
    by_cases hj : j = i
    · subst hj
      simp [Holds, Running]
    · simp [Holds, Running, hj]
  · exact h.congr rfl fun j => holds_answer_of_ne hx s.state (by simp) (by simp)
  · refine h.congr rfl fun j => ?_
    by_cases hj : j = i
    · subst hj
      simp [Holds, Running, hx, hv]
    · simp [Holds, Running, hj]
  · exact h

/-! ### Whole runs -/

/-- What holds of the permits in every state. -/
structure PermitsKept (permits : ℕ) (s : Logins ι) : Prop where
  conserved : Conserved permits s
  /-- No more verifications run than there are permits. -/
  running : {i | s.Running i}.encard ≤ permits
  /-- All permits are available once nothing is going on. -/
  free : (∀ i, ¬s.InProgress i ∧ ¬s.Running i) → s.state.hashPermits = permits

omit [DecidableEq ι] in
/-- A handler that has answered carries no permit, unless a verification was started for it. -/
lemma Tracked.not_carries_of_done (h : s.Tracked) (hx : s.attempt i = some x) {answer : LoginAnswer}
    (hrest : x.rest = .pure answer) (hv : s.verification i = none) :
    ¬Carries (x.log.map Prod.snd) := by
  have hreached := h.reached hx
  have hverified : ∀ username offered' outcome,
      ⟨.authenticate username offered', outcome⟩ ∉ x.log.map Prod.snd := by
    intro username offered' outcome hmem
    obtain ⟨v, hv', -⟩ := h.resumed i x username offered' outcome hx hmem
    rw [hv] at hv'
    cases hv'
  rw [hrest] at hreached
  generalize x.log.map Prod.snd = log at hreached hverified ⊢
  cases hreached with
  | shed => simp [Carries]
  | refused source => simp [Carries]
  | concluding throttled outcome log rest hc =>
    exact absurd (by simp) (hverified x.request.username (offered x.request throttled) outcome)

omit [DecidableEq ι] in
/-- Whoever holds a permit is in progress, or its verification is running. -/
lemma Tracked.of_holds (h : s.Tracked) (hi : s.Holds i) : s.InProgress i ∨ s.Running i := by
  rcases hi with ⟨x, hx, hcarries, hv⟩ | hrunning
  · refine .inl ⟨x, hx, ?_, fun answer hrest => h.not_carries_of_done hx hrest hv hcarries⟩
    cases hdrop : x.dropped with
    | false => rfl
    | true =>
      obtain ⟨v, hv'⟩ := h.dropped i x hx hdrop
      rw [hv] at hv'
      cases hv'
  · exact .inr hrunning

omit [DecidableEq ι] in
lemma conserved_start {state : AppState} :
    Conserved state.hashPermits (start ι state) := by
  have hset : {i | (start ι state).Holds i} = ∅ := by
    ext i
    simp [Holds, Running, start]
  rw [Conserved, hset, Set.encard_empty, add_zero]
  rfl

/-- For every number of permits and every run, whatever is refused, dropped or panics. -/
theorem permits_kept (cfg : LoginSettings) (state : AppState) (ι : Type) [DecidableEq ι]
    (es : List (Event ι)) (s : Logins ι) (hrun : (machine ι cfg).run (start ι state) es = some s) :
    PermitsKept state.hashPermits s := by
  have ht : s.Tracked := tracked_of_run hrun
  have hconserved : Conserved state.hashPermits s :=
    (Machine.run_invariant (M := machine ι cfg)
      (fun s : Logins ι => s.Tracked ∧ Conserved state.hashPermits s)
      (fun _ _ _ h hs => ⟨h.1.step hs, h.2.step h.1 hs⟩) ⟨tracked_start, conserved_start⟩ hrun).2
  refine ⟨hconserved, ?_, fun hidle => ?_⟩
  · have hle : {i | s.Running i}.encard ≤ {i | s.Holds i}.encard :=
      Set.encard_le_encard fun i hi => .inr hi
    rw [Conserved] at hconserved
    rw [← hconserved]
    exact hle.trans le_add_self
  · have hset : {i | s.Holds i} = ∅ := by
      refine Set.eq_empty_of_forall_notMem fun i hi => ?_
      exact (ht.of_holds hi).elim (hidle i).1 (hidle i).2
    rw [Conserved, hset, Set.encard_empty, add_zero] at hconserved
    exact_mod_cast hconserved

/-- A second login arrives while the first one's password is verified; the first is dropped
before its verification panics. -/
def Sample.crowded : List (Event ℕ) := [.arrive 0 ⟨"alice", "wrong"⟩ none,
  .act 0 ⟨1700000000, "a"⟩, .act 0 ⟨1700000000, "a"⟩, .spawn 0, .arrive 1 ⟨"alice", "wrong"⟩ none,
  .act 1 ⟨1700000000, "a"⟩, .drop 0, .finish 0 true]

open Sample in
/-- With one permit the second login is refused, and the permit is back at the end. -/
theorem permits_kept_one :
    ∃ s, (machine ℕ ⟨argon2, .ofTokens ∅, directory, decoyHash⟩).run idle crowded = some s ∧
      s.Responded 1 AppError.overloaded.intoResponse ∧
      PermitsKept idle.state.hashPermits s ∧ s.state.hashPermits = 1 :=
  ⟨_, rfl, ⟨_, _, rfl, rfl, rfl⟩,
    permits_kept ⟨argon2, .ofTokens ∅, directory, decoyHash⟩ idle.state ℕ crowded _ rfl, rfl⟩

end Knova.Logins
