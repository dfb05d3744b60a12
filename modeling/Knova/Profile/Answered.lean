import Knova.Profile.ServiceInvariant
import Knova.Profile.Waiting

/-!
# Every request is answered

A handler makes three calls at most, one of them on the repository, and no call of the repository
is ever stuck. So whatever order the steps are taken in, every request that its client did not
give up is answered, and what a dropped handler started is finished.
-/

namespace Knova

open Library

/-! ### The programs of the handlers -/

namespace Routes

variable {parse : String → Option ProfileInput}

/-- A program that calls the repository once at most. -/
def StoresOnce : HandlerProg Answer → Prop
  | .pure _ => True
  | .act a k => (a.IsStore → ∀ r, (k r).All fun b : HandlerAct => ¬b.IsStore) ∧
    ∀ r, StoresOnce (k r)

/-- Once it has called the repository, it does not do so again. -/
lemma StoresOnce.follows {p q : HandlerProg Answer} {log : List (Prog.Performed HandlerE)}
    (hp : StoresOnce p) (h : p.Follows log q) (hlog : ∃ c ∈ log, c.act.IsStore) :
    q.All fun b : HandlerAct => ¬b.IsStore := by
  induction h with
  | refl p =>
    obtain ⟨c, hc, -⟩ := hlog
    cases hc
  | @step a k r t q hrest ih =>
    obtain ⟨c, hc, hstore⟩ := hlog
    rcases List.mem_cons.mp hc with rfl | hc
    · exact ((hp.1 hstore r).follows hrest).2
    · exact ih (hp.2 r) ⟨c, hc, hstore⟩

/-- How a create settles its key takes one call, which is not on the repository. -/
lemma settle_all {user : UserId} {key body : String} (outcome : Except ProfileError Recorded) :
    (settle user key body outcome).All (fun b : HandlerAct => ¬b.IsStore) ∧
      StoresOnce (settle user key body outcome) ∧ (settle user key body outcome).Within 1 := by
  cases outcome with
  | error e => exact ⟨⟨id, fun _ => trivial⟩, ⟨fun h => h.elim, fun _ => trivial⟩, fun _ => trivial⟩
  | ok found =>
    exact ⟨⟨id, fun _ => trivial⟩, ⟨fun h => h.elim, fun _ => trivial⟩, fun _ => trivial⟩

lemma storesOnce_createOnce {user : UserId} {body : String}
    {k : Except ProfileError Recorded → HandlerProg Answer}
    (hk : ∀ outcome, (k outcome).All (fun b : HandlerAct => ¬b.IsStore) ∧ StoresOnce (k outcome)) :
    StoresOnce (createOnce parse user body k) := by
  unfold createOnce
  split
  · exact (hk _).2
  · split
    · exact (hk _).2
    · exact ⟨fun _ _ => (hk _).1, fun _ => (hk _).2⟩

lemma within_createOnce {user : UserId} {body : String}
    {k : Except ProfileError Recorded → HandlerProg Answer} {n : ℕ}
    (hk : ∀ outcome, (k outcome).Within n) : (createOnce parse user body k).Within (n + 1) := by
  unfold createOnce
  split
  · exact (hk _).mono (by omega)
  · split
    · exact (hk _).mono (by omega)
    · exact fun _ => hk _

end Routes

open Routes

variable {parse : String → Option ProfileInput}

/-- Every handler calls the repository once at most. -/
theorem Request.storesOnce (request : Request) : StoresOnce (request.handler parse) := by
  cases request with
  | create user headers body =>
    simp only [handler, Routes.create]
    split
    · exact storesOnce_createOnce fun _ => ⟨trivial, trivial⟩
    · refine ⟨fun h => h.elim, fun found => ?_⟩
      cases found with
      | reserved => exact storesOnce_createOnce fun outcome =>
          ⟨(settle_all outcome).1, (settle_all outcome).2.1⟩
      | inFlight | bodyMismatch | replay => trivial
  | read user =>
    refine ⟨fun _ r => ?_, fun r => ?_⟩
    all_goals
      dsimp only
      split <;> trivial
  | update user headers input =>
    simp only [handler, Routes.update]
    split
    · trivial
    · split
      · trivial
      · exact ⟨fun _ _ => trivial, fun _ => trivial⟩
  | history user =>
    refine ⟨fun _ r => ?_, fun r => ?_⟩
    all_goals
      dsimp only
      split <;> trivial

/-- No handler makes more than three calls. -/
theorem Request.within_handler (request : Request) : (request.handler parse).Within 3 := by
  cases request with
  | create user headers body =>
    simp only [handler, Routes.create]
    split
    · exact (within_createOnce (n := 0) fun _ => Prog.within_pure).mono (by omega)
    · intro found
      cases found with
      | reserved => exact within_createOnce fun outcome => (settle_all outcome).2.2
      | inFlight | bodyMismatch | replay => exact Prog.within_pure
  | read user =>
    intro r
    dsimp only
    split <;> exact Prog.within_pure
  | update user headers input =>
    simp only [handler, Routes.update]
    split
    · exact Prog.within_pure
    · split
      · exact Prog.within_pure
      · exact fun _ => Prog.within_pure
  | history user =>
    intro r
    dsimp only
    split <;> exact Prog.within_pure

namespace Service

open Idempotency

variable {ι : Type} [DecidableEq ι] {b : Backend} {cfg : Settings} {s s' : Service ι b}

/-! ### How many steps a request takes -/

/-- Whose step an event is. -/
def Event.owner {ι : Type} : Event ι → Option ι
  | .arrive i _ | .perform i | .call i _ | .act i | .ret i | .resume i | .drop i => some i
  | .tick _ => none

/-- The request an event brings. -/
def Event.arrived {ι : Type} : Event ι → Option ι
  | .arrive i _ => some i
  | _ => none

/-- At most `n` steps of the request `i` are left. -/
def Left (s : Service ι b) (i : ι) (n : ℕ) : Prop :=
  (s.handler i = none ∧ s.profiles.thread i = none ∧ 14 ≤ n) ∨
    ∃ x k m, s.handler i = some x ∧ x.rest.Within k ∧ Thread.Left 7 m (s.profiles.thread i) ∧
      k + m + (if x.dropped then 0 else 1) ≤ n

/-- A step leaves other requests alone. -/
lemma untouched_of_step {e : Event ι} (hs : step cfg s e = some s') {i : ι}
    (hi : e.owner ≠ some i) :
    s'.handler i = s.handler i ∧ s'.profiles.thread i = s.profiles.thread i := by
  obtain ⟨j, request, rfl, -, rfl⟩ | ⟨j, x, a, k, r, store, rfl, -, -, -, -, rfl⟩ |
    ⟨m, profiles, hm, he, rfl⟩ | ⟨j, x, op, k, env, r, rfl, -, -, -, -, rfl⟩ |
    ⟨j, x, rfl, -, -, -, rfl⟩ | ⟨d, rfl, rfl⟩ := step_cases hs
  · exact ⟨Function.update_of_ne (fun h => hi (congrArg some h.symm)) _ _, rfl⟩
  · exact ⟨Function.update_of_ne (fun h => hi (congrArg some h.symm)) _ _, rfl⟩
  · refine ⟨rfl, SharedObject.thread_of_ne hm fun hji => hi ?_⟩
    rcases he with ⟨j, x, op, k, env, rfl, rfl, -⟩ | ⟨j, ⟨rfl, rfl⟩ | ⟨rfl, rfl⟩⟩ <;>
      exact congrArg some hji
  · exact ⟨Function.update_of_ne (fun h => hi (congrArg some h.symm)) _ _, rfl⟩
  · exact ⟨Function.update_of_ne (fun h => hi (congrArg some h.symm)) _ _, rfl⟩
  · exact ⟨rfl, rfl⟩

/-- Before it arrives, a request can only arrive. -/
lemma arrived_of_owner {e : Event ι} (hs : step cfg s e = some s') {i : ι} (hi : e.owner = some i)
    (hnone : s.handler i = none) (hthread : s.profiles.thread i = none) : e.arrived = some i := by
  obtain ⟨j, request, rfl, -, -⟩ | ⟨j, x, a, k, r, store, rfl, hj, -⟩ |
    ⟨m, profiles, hm, he, -⟩ | ⟨j, x, op, k, env, r, rfl, hj, -⟩ | ⟨j, x, rfl, hj, -⟩ |
    ⟨d, rfl, -⟩ := step_cases hs
  · exact hi
  · obtain rfl := Option.some.inj hi
    rw [hnone] at hj
    cases hj
  · rcases he with ⟨j, x, op, k, env, rfl, -, hj, -⟩ | ⟨j, ⟨rfl, rfl⟩ | ⟨rfl, rfl⟩⟩
    · obtain rfl := Option.some.inj hi
      rw [hnone] at hj
      cases hj
    all_goals
      obtain rfl := Option.some.inj hi
      simp [SharedObject.step, hthread] at hm
  · obtain rfl := Option.some.inj hi
    rw [hnone] at hj
    cases hj
  · obtain rfl := Option.some.inj hi
    rw [hnone] at hj
    cases hj
  · cases hi

/-- A step of the repository takes one of the moves the call has left. -/
lemma left_of_profiles {m : Move ι StoreCalls} {profiles : (b.object ι).Config}
    (hm : (b.object ι).step s.profiles m = some profiles) {x : Handling} {k n : ℕ}
    (hx : s.handler m.caller = some x) (hk : x.rest.Within k)
    (hn : Thread.Left 7 n (s.profiles.thread m.caller)) :
    ∃ n' < n, Left { s with profiles } m.caller (k + n' + if x.dropped then 0 else 1) := by
  obtain ⟨n', hlt, hn'⟩ := SharedObject.left_of_step b.within_body hm hn
  exact ⟨n', hlt, .inr ⟨x, k, n', hx, hk, hn', le_refl _⟩⟩

/-- A step of a request takes one of the steps it has left. -/
lemma left_of_owner {e : Event ι} (hs : step cfg s e = some s') {i : ι} (hi : e.owner = some i)
    {n : ℕ} (h : s.Left i n) : ∃ m < n, s'.Left i m := by
  rcases h with ⟨hnone, hthread, hn⟩ | ⟨x, k, m, hx, hk, hm, hn⟩
  · have harrived := arrived_of_owner hs hi hnone hthread
    obtain ⟨j, request, rfl, -, rfl⟩ | ⟨j, x, a, k, r, store, rfl, -⟩ |
      ⟨m, profiles, -, he, -⟩ | ⟨j, x, op, k, env, r, rfl, -⟩ | ⟨j, x, rfl, -⟩ |
      ⟨d, rfl, -⟩ := step_cases hs
    · obtain rfl := Option.some.inj hi
      refine ⟨13, by omega, .inr ⟨_, 3, 9, Function.update_self .., request.within_handler, ?_,
        by simp⟩⟩
      dsimp only
      rw [hthread]
      exact le_refl _
    · cases harrived
    · rcases he with ⟨j, x, op, k, env, rfl, -⟩ | ⟨j, ⟨rfl, -⟩ | ⟨rfl, -⟩⟩ <;> cases harrived
    · cases harrived
    · cases harrived
    · cases harrived
  · obtain ⟨j, request, rfl, hj, rfl⟩ | ⟨j, y, a, q, r, store, rfl, hj, hd, hrest, -, rfl⟩ |
      ⟨move, profiles, hmove, he, rfl⟩ | ⟨j, y, op, q, env, r, rfl, hj, hd, hrest, -, rfl⟩ |
      ⟨j, y, rfl, hj, hd, -, rfl⟩ | ⟨d, rfl, -⟩ := step_cases hs
    · obtain rfl := Option.some.inj hi
      rw [hx] at hj
      cases hj
    · obtain rfl := Option.some.inj hi
      rw [hx] at hj
      obtain rfl := Option.some.inj hj
      rw [hrest] at hk
      obtain ⟨k, rfl, hq⟩ := hk.exists_succ
      rw [hd] at hn
      simp only [Bool.false_eq_true, if_false] at hn
      exact ⟨k + m + 1, by omega, .inr ⟨_, k, m, Function.update_self .., hq r, hm, by simp [hd]⟩⟩
    · have hcaller : move.caller = i := by
        rcases he with ⟨j, x, op, k, env, rfl, rfl, -⟩ | ⟨j, ⟨rfl, rfl⟩ | ⟨rfl, rfl⟩⟩ <;>
          exact Option.some.inj hi
      subst hcaller
      obtain ⟨n', hlt, hleft⟩ := left_of_profiles hmove hx hk hm
      exact ⟨_, by omega, hleft⟩
    · obtain rfl := Option.some.inj hi
      rw [hx] at hj
      obtain rfl := Option.some.inj hj
      rw [hrest] at hk
      obtain ⟨k, rfl, hq⟩ := hk.exists_succ
      rw [hd] at hn
      simp only [Bool.false_eq_true, if_false] at hn
      exact ⟨k + m + 1, by omega, .inr ⟨_, k, m, Function.update_self .., hq r, hm, by simp [hd]⟩⟩
    · obtain rfl := Option.some.inj hi
      rw [hx] at hj
      obtain rfl := Option.some.inj hj
      rw [hd] at hn
      refine ⟨k + m, by simp at hn; omega, .inr ⟨_, k, m, Function.update_self .., hk, hm, ?_⟩⟩
      simp
    · cases hi

/-- The requests of the service, each with fourteen steps at most. -/
def tasks (ι : Type) [DecidableEq ι] (b : Backend) (cfg : Settings) :
    (machine ι b cfg).Tasks ι where
  owner := Event.owner
  starts := Event.arrived
  idle s i := s.handler i = none ∧ s.profiles.thread i = none
  left := Left
  bound := 14
  idle_left h := .inl ⟨h.1, h.2, le_refl _⟩
  idle_owner h hs ho := arrived_of_owner hs ho h.1 h.2
  idle_step h hs ho := by
    obtain ⟨hhandler, hthread⟩ := untouched_of_step hs ho
    exact ⟨hhandler.trans h.1, hthread.trans h.2⟩
  left_owner h hs ho := left_of_owner hs ho h
  left_step := by
    intro s e s' i n h hs ho
    obtain ⟨hhandler, hthread⟩ := untouched_of_step hs ho
    unfold Left
    rw [hhandler, hthread]
    exact h

/-! ### No request is stuck -/

/-- A step that serves a request that has arrived. -/
def Event.serves {ι : Type} : Event ι → Bool
  | .perform _ | .call _ _ | .act _ | .ret _ | .resume _ => true
  | .arrive _ _ | .drop _ | .tick _ => false

/-- Every request is answered, unless its client gave it up, and no work is left. -/
def Served (s : Service ι b) : Prop :=
  (∀ i x, s.handler i = some x → x.dropped = false → ∃ a, x.rest = .pure a) ∧
    SharedObject.Quiescent s.profiles

lemma reachable_of_step {e : Event ι} (hs : step cfg s e = some s')
    (h : (b.object ι).Reachable s.profiles) : (b.object ι).Reachable s'.profiles := by
  rcases step_profiles hs with heq | ⟨m, hm, -⟩
  · rw [heq]
    exact h
  · obtain ⟨moves, hmoves⟩ := h
    exact ⟨moves ++ [m], Machine.run_append_eq_some.mpr
      ⟨_, hmoves, Machine.run_cons_eq_some.mpr ⟨_, hm, rfl⟩⟩⟩

lemma reachable_of_run {es : List (Event ι)}
    (hrun : (machine ι b cfg).run (init ι b cfg) es = some s) :
    (b.object ι).Reachable s.profiles :=
  Machine.run_invariant (M := machine ι b cfg)
    (fun s : Service ι b => (b.object ι).Reachable s.profiles)
    (fun _ _ _ h hs => reachable_of_step hs h) ⟨[], rfl⟩ hrun

/-- A call of the repository that can take a step gives the service one to take. -/
lemma serves_of_enabled {j : ι} (h : SharedObject.Enabled s.profiles j) :
    ∃ e : Event ι, e.serves = true ∧ (step cfg s e).isSome := by
  rcases h with hact | hret
  · exact ⟨.act j, rfl, by simpa [step] using hact⟩
  · exact ⟨.ret j, rfl, by simpa [step] using hret⟩

/-- While a request is unanswered or a call unfinished, some step serves a request. -/
theorem exists_serves (hs : Inv cfg s) (hreach : (b.object ι).Reachable s.profiles)
    (hnot : ¬s.Served) : ∃ e : Event ι, e.serves = true ∧ (step cfg s e).isSome := by
  by_cases hquiet : SharedObject.Quiescent s.profiles
  · -- the repository is done, so a handler that waits for it can go on
    have hhandler : ∃ i x, s.handler i = some x ∧ x.dropped = false ∧ ∀ a, x.rest ≠ .pure a := by
      by_contra hall
      push Not at hall
      exact hnot ⟨hall, hquiet⟩
    obtain ⟨i, x, hx, hd, hrest⟩ := hhandler
    obtain ⟨request, log, rest, dropped⟩ := x
    obtain rfl : dropped = false := hd
    cases rest with
    | pure a => exact absurd rfl (hrest a)
    | act a k =>
      cases a with
      | begin user key body => exact ⟨.perform i, rfl, by simp [step, hx, perform]⟩
      | finish user key body found => exact ⟨.perform i, rfl, by simp [step, hx, perform]⟩
      | abandon user key => exact ⟨.perform i, rfl, by simp [step, hx, perform]⟩
      | store op =>
        cases ht : s.profiles.thread i with
        | none =>
          refine ⟨.call i ⟨0, fun _ => false⟩, rfl, ?_⟩
          simp [step, hx, SharedObject.step, ht]
        | some th =>
          obtain ⟨call, r, rfl⟩ := hquiet i th ht
          refine ⟨.resume i, rfl, ?_⟩
          have hop : call.1 = op := by
            rcases hs.tracks.called_by hx ht with ⟨k', hk'⟩ | ⟨t, r', hmem⟩
            · cases hk'
              rfl
            · have hfollows := hs.tracks.follows i _ hx
              have hno := request.storesOnce.follows hfollows
                ⟨_, List.mem_map_of_mem hmem, trivial⟩
              exact absurd trivial hno.1
          simp [step, hx, ht, hop]
  · have hrunning : ∃ i call p, s.profiles.thread i = some (.running call p) := by
      by_contra hall
      push Not at hall
      refine hquiet fun i th ht => ?_
      cases th with
      | running call p => exact absurd ht (hall i call p)
      | returned call r => exact ⟨call, r, rfl⟩
    obtain ⟨i, call, p, hi⟩ := hrunning
    obtain ⟨j, hj⟩ := b.enabled_of_running hreach hi
    exact serves_of_enabled hj

/-- Whatever order the steps are taken in, every request is answered unless its client gives it
up: after fourteen steps for each at most there is no step left to take, until then there is
one that serves a request, and from every point on serving the requests answers them all. -/
theorem requests_answered (b : Backend) (ι : Type) [DecidableEq ι] (cfg : Settings)
    (es rest : List (Event ι)) (s : Service ι b)
    (hrun : (machine ι b cfg).run (init ι b cfg) (es ++ rest) = some s)
    (hrest : ∀ e ∈ rest, e.owner.isSome ∧ e.arrived = none) :
    rest.length ≤ 14 * (es.filterMap Event.arrived).length ∧
      (s.Served ∨ ∃ e : Event ι, e.serves = true ∧ (step cfg s e).isSome) ∧
      ∃ more t, (∀ e ∈ more, e.serves = true) ∧ (machine ι b cfg).run s more = some t ∧
        t.Served := by
  have hidle : ∀ i, (tasks ι b cfg).idle (init ι b cfg) i := fun _ => ⟨rfl, rfl⟩
  have hlive : ∀ fs u, (machine ι b cfg).run (init ι b cfg) fs = some u → ¬u.Served →
      ∃ e : Event ι, e.serves = true ∧ (step cfg u e).isSome :=
    fun fs u hu hnot => exists_serves (inv_of_run hu) (reachable_of_run hu) hnot
  refine ⟨Machine.Tasks.continuation_le hidle hrun hrest, ?_, ?_⟩
  · rw [or_iff_not_imp_left]
    exact hlive _ s hrun
  · refine Machine.Tasks.completes (T := tasks ι b cfg) (fun e => e.serves = true) Served
      (fun e he => ?_) hidle hrun hlive
    cases e with
    | perform | call | act | ret | resume => exact ⟨rfl, rfl⟩
    | arrive | drop | tick => cases he

/-- A create under a key and a read overlap, and the client of the read gives up. -/
theorem requests_answered_two :
    let cfg := Settings.default (fun _ => some ⟨"1 Main St", "5550100"⟩) fun _ => 0
    let b := Backend.memory 0 fun _ => 0
    let es : List (Event ℕ) :=
      [.arrive 0 (.create ⟨"u"⟩ [("idempotency-key", .ofText "k")] ""), .arrive 1 (.read ⟨"u"⟩)]
    let rest : List (Event ℕ) :=
      [.perform 0, .call 1 ⟨0, fun _ => false⟩, .drop 1, .act 1, .call 0 ⟨0, fun _ => false⟩]
    ∃ s : Service ℕ b, (machine ℕ b cfg).run (init ℕ b cfg) (es ++ rest) = some s ∧
      rest.length ≤ 14 * (es.filterMap Event.arrived).length ∧
      (s.Served ∨ ∃ e : Event ℕ, e.serves = true ∧ (step cfg s e).isSome) ∧
      ∃ more t, (∀ e ∈ more, e.serves = true) ∧ (machine ℕ b cfg).run s more = some t ∧
        t.Served := by
  intro cfg b es rest
  exact ⟨_, rfl, requests_answered b ℕ cfg es rest _ rfl (by decide)⟩

end Service

end Knova
