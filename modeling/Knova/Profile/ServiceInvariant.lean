import Knova.Profile.Progress
import Knova.Profile.Service

/-!
# What the service knows about its requests

In every state of every run each handler has come as far as its log says, its call on the
repository is the one in its log, and every entry of the idempotency store, every replay
included, goes back to a call some handler made.
-/

namespace Knova.Service

open Library Idempotency

variable {ι : Type} [DecidableEq ι] {b : Backend} {cfg : Settings} {s s' : Service ι b}

/-- The request `i` reached its handler. -/
def Sent (s : Service ι b) (i : ι) (request : Request) : Prop :=
  ∃ x, s.handler i = some x ∧ x.request = request

/-- The handler of `i` made a call that was answered at the instant `t`. -/
def Did (s : Service ι b) (i : ι) (t : ℕ) (c : Prog.Performed HandlerE) : Prop :=
  ∃ x, s.handler i = some x ∧ (t, c) ∈ x.log

/-- The handler of `i` returned. -/
def Answered (s : Service ι b) (i : ι) (a : Answer) : Prop :=
  ∃ x, s.handler i = some x ∧ x.rest = .pure a

lemma Did.mem_log {i : ι} {t : ℕ} {c : Prog.Performed HandlerE} (h : s.Did i t c) {x : Handling}
    (hx : s.handler i = some x) : (t, c) ∈ x.log := by
  obtain ⟨y, hy, hc⟩ := h
  rw [hx] at hy
  rwa [Option.some.inj hy]

lemma Answered.rest_eq {i : ι} {a : Answer} (h : s.Answered i a) {x : Handling}
    (hx : s.handler i = some x) : x.rest = .pure a := by
  obtain ⟨y, hy, hrest⟩ := h
  rw [hx] at hy
  rwa [Option.some.inj hy]

/-- What the handlers have done once a call of `i` was answered. -/
lemma did_answer {i j : ι} {x : Handling} {a : HandlerAct} {r : a.Ans} {rest : HandlerProg Answer}
    {t : ℕ} {c : Prog.Performed HandlerE} (hx : s.handler i = some x)
    (hs' : s'.handler = s.answer i x a r rest) :
    s'.Did j t c ↔ s.Did j t c ∨ (j = i ∧ t = s.now ∧ c = ⟨a, r⟩) := by
  unfold Did
  rw [hs', answer]
  by_cases hji : j = i
  · subst hji
    simp [hx]
  · simp [hji]

/-- A handler that arrives, or is dropped, has done nothing more. -/
lemma did_update {i j : ι} {y : Handling} {t : ℕ} {c : Prog.Performed HandlerE}
    (hs' : s'.handler = Function.update s.handler i (some y))
    (hy : s.handler i = none ∧ y.log = [] ∨ ∃ x, s.handler i = some x ∧ y.log = x.log) :
    s'.Did j t c ↔ s.Did j t c := by
  unfold Did
  rw [hs']
  by_cases hji : j = i
  · subst hji
    rcases hy with ⟨hi, hy⟩ | ⟨x, hi, hy⟩ <;> simp [hi, hy]
  · simp [hji]

/-- No step forgets a request or a call. -/
lemma step_grows {e : Event ι} (hstep : step cfg s e = some s') :
    (∀ i q, s.Sent i q → s'.Sent i q) ∧ ∀ i t c, s.Did i t c → s'.Did i t c := by
  have hsent : ∀ j (y : Handling), (∀ x, s.handler j = some x → x.request = y.request) →
      ∀ i q, s.Sent i q → ∃ x, Function.update s.handler j (some y) i = some x ∧ x.request = q := by
    rintro j y hy i q ⟨x, hx, rfl⟩
    by_cases hij : i = j
    · subst hij
      exact ⟨y, Function.update_self .., (hy x hx).symm⟩
    · exact ⟨x, (Function.update_of_ne hij ..).trans hx, rfl⟩
  have hsame : ∀ {i x}, s.handler i = some x → ∀ x', s.handler i = some x' →
      x'.request = x.request := by
    intro i x hx x' hx'
    rw [hx] at hx'
    rw [Option.some.inj hx']
  obtain ⟨i, request, -, hi, rfl⟩ | ⟨i, x, a, k, r, store, -, hi, -, -, -, rfl⟩ |
    ⟨m, profiles, -, -, rfl⟩ | ⟨i, x, op, k, env, r, -, hi, -, -, -, rfl⟩ |
    ⟨i, x, -, hi, -, -, rfl⟩ | ⟨d, -, rfl⟩ := step_cases hstep
  · refine ⟨hsent i _ fun x hx => ?_, fun j t c hc => (did_update rfl (.inl ⟨hi, rfl⟩)).mpr hc⟩
    rw [hi] at hx
    cases hx
  · exact ⟨hsent i _ fun x' hx' => hsame hi x' hx',
      fun j t c hc => (did_answer hi rfl).mpr (.inl hc)⟩
  · exact ⟨fun _ _ h => h, fun _ _ _ h => h⟩
  · exact ⟨hsent i _ fun x' hx' => hsame hi x' hx',
      fun j t c hc => (did_answer hi rfl).mpr (.inl hc)⟩
  · exact ⟨hsent i { x with dropped := true } fun x' hx' => hsame hi x' hx',
      fun j t c hc => (did_update (y := { x with dropped := true }) rfl (.inr ⟨x, hi, rfl⟩)).mpr hc⟩
  · exact ⟨fun _ _ h => h, fun _ _ _ h => h⟩

lemma run_grows {es : List (Event ι)} (hrun : (machine ι b cfg).run s es = some s') :
    (∀ i q, s.Sent i q → s'.Sent i q) ∧ ∀ i t c, s.Did i t c → s'.Did i t c :=
  (Machine.run_relates (M := machine ι b cfg) (fun _ => True)
    (fun s s' : Service ι b => (∀ i q, s.Sent i q → s'.Sent i q) ∧
      ∀ i t c, s.Did i t c → s'.Did i t c)
    (fun _ => ⟨fun _ _ h => h, fun _ _ _ h => h⟩)
    (fun _ _ _ h h' =>
      ⟨fun i q hq => h'.1 i q (h.1 i q hq), fun i t c hc => h'.2 i t c (h.2 i t c hc)⟩)
    (fun _ _ _ _ hstep => ⟨trivial, step_grows hstep⟩) trivial hrun).2

lemma sent_of_arrive {i : ι} {q : Request} (hstep : step cfg s (.arrive i q) = some s') :
    s'.Sent i q := by
  simp only [step] at hstep
  split at hstep
  · obtain rfl := Option.some.inj hstep
    exact ⟨_, Function.update_self .., rfl⟩
  · cases hstep

/-- Requests are those that arrived. -/
lemma arrive_of_sent {es : List (Event ι)} (hrun : (machine ι b cfg).run s es = some s') {i : ι}
    {q : Request} (h : s'.Sent i q) : s.Sent i q ∨ .arrive i q ∈ es := by
  induction es generalizing s with
  | nil =>
    obtain rfl : s = s' := Option.some.inj hrun
    exact .inl h
  | cons e es ih =>
    obtain ⟨s₁, hstep, hrest⟩ := Machine.run_cons_eq_some.mp hrun
    rcases ih hrest with ⟨x, hx, rfl⟩ | hmem
    · have hupdate : ∀ j (y : Handling), (e = .arrive j y.request ∨ s.Sent j y.request) →
          Function.update s.handler j (some y) i = some x →
          s.Sent i x.request ∨ .arrive i x.request ∈ e :: es := by
        intro j y hy hi
        by_cases hij : i = j
        · subst hij
          rw [Function.update_self] at hi
          obtain rfl := Option.some.inj hi
          rcases hy with rfl | hy
          · exact .inr (List.mem_cons_self ..)
          · exact .inl hy
        · rw [Function.update_of_ne hij] at hi
          exact .inl ⟨x, hi, rfl⟩
      obtain ⟨j, request, rfl, -, rfl⟩ | ⟨j, y, a, k, r, store, -, hj, -, -, -, rfl⟩ |
        ⟨m, profiles, -, -, rfl⟩ | ⟨j, y, op, k, env, r, -, hj, -, -, -, rfl⟩ |
        ⟨j, y, -, hj, -, -, rfl⟩ | ⟨d, -, rfl⟩ := step_cases hstep
      · exact hupdate j _ (.inl rfl) hx
      · exact hupdate j { y with log := y.log ++ [(s.now, ⟨a, r⟩)], rest := k r }
          (.inr ⟨y, hj, rfl⟩) hx
      · exact .inl ⟨x, hx, rfl⟩
      · exact hupdate j { y with log := y.log ++ [(s.now, ⟨.store op, r⟩)], rest := k r }
          (.inr ⟨y, hj, rfl⟩) hx
      · exact hupdate j { y with dropped := true } (.inr ⟨y, hj, rfl⟩) hx
      · exact .inl ⟨x, hx, rfl⟩
    · exact .inr (List.mem_cons_of_mem _ hmem)

/-! ### One step, seen from the idempotency store -/

/-- A step performs one call on the idempotency store, or leaves it and what was called on
it alone. -/
theorem step_idempotency {e : Event ι} (hs : step cfg s e = some s') :
    ((∀ i, e ≠ .perform i) ∧ s'.idempotency = s.idempotency ∧ s.now ≤ s'.now ∧
      ∀ i t c, ¬c.act.IsStore → (s'.Did i t c ↔ s.Did i t c)) ∨
    ∃ i x a k r, e = .perform i ∧ s.handler i = some x ∧ x.dropped = false ∧ x.rest = .act a k ∧
      perform cfg s.now a s.idempotency = some (r, s'.idempotency) ∧ s'.now = s.now ∧
      ∀ j t c, s'.Did j t c ↔ s.Did j t c ∨ (j = i ∧ t = s.now ∧ c = ⟨a, r⟩) := by
  obtain ⟨i, request, rfl, hi, rfl⟩ | ⟨i, x, a, k, r, store, rfl, hi, hd, hrest, hp, rfl⟩ |
    ⟨m, profiles, -, he, rfl⟩ | ⟨i, x, op, k, env, r, rfl, hi, hd, hrest, -, rfl⟩ |
    ⟨i, x, rfl, hi, -, -, rfl⟩ | ⟨d, rfl, rfl⟩ := step_cases hs
  · exact .inl ⟨by simp, rfl, le_refl _, fun j t c _ => did_update rfl (.inl ⟨hi, rfl⟩)⟩
  · exact .inr ⟨i, x, a, k, r, rfl, hi, hd, hrest, hp, rfl, fun j t c => did_answer hi rfl⟩
  · refine .inl ⟨?_, rfl, le_refl _, fun j t c _ => Iff.rfl⟩
    rcases he with ⟨i, x, op, k, env, rfl, -⟩ | ⟨i, ⟨rfl, -⟩ | ⟨rfl, -⟩⟩ <;> simp
  · refine .inl ⟨by simp, rfl, le_refl _, fun j t c hc => ?_⟩
    rw [did_answer hi rfl]
    constructor
    · rintro (h | ⟨-, -, rfl⟩)
      · exact h
      · exact absurd trivial hc
    · exact .inl
  · exact .inl ⟨by simp, rfl, le_refl _, fun j t c _ => did_update rfl (.inr ⟨x, hi, rfl⟩)⟩
  · exact .inl ⟨by simp, rfl, Nat.le_add_right _ _, fun j t c _ => Iff.rfl⟩

/-! ### Handlers and the calls they make -/

/-- Handlers are as far as their logs say, and have made the calls on the repository that
their logs and programs name. -/
structure Tracks (cfg : Settings) (s : Service ι b) : Prop where
  follows : ∀ i x, s.handler i = some x →
    (x.request.handler cfg.parse).Follows (x.log.map Prod.snd) x.rest
  past : ∀ i t c, s.Did i t c → t ≤ s.now
  returned : ∀ i t op r, s.Did i t ⟨.store op, r⟩ →
    ∃ env, s.profiles.thread i = some (.returned (op, env) r)
  called : ∀ i th, s.profiles.thread i = some th → ∃ x, s.handler i = some x ∧
    ((∃ k, x.rest = .act (.store th.op.1) k) ∨ ∃ t r, (t, ⟨.store th.op.1, r⟩) ∈ x.log)

/-- A call on the repository, seen from the handler that made it. -/
lemma Tracks.called_by (hs : Tracks cfg s) {i : ι} {x : Handling} (hx : s.handler i = some x)
    {th : Thread StoreCalls (b.object ι).E} (hth : s.profiles.thread i = some th) :
    (∃ k, x.rest = .act (.store th.op.1) k) ∨ ∃ t r, (t, ⟨.store th.op.1, r⟩) ∈ x.log := by
  obtain ⟨y, hy, h⟩ := hs.called i th hth
  rw [hx] at hy
  rwa [Option.some.inj hy]

lemma tracks_init : Tracks cfg (init ι b cfg) := by
  constructor <;> simp [init, Did, SharedObject.initial]

/-- Handlers once a call of `i` was answered. -/
lemma Tracks.follows_answer (hs : Tracks cfg s) {i j : ι} {x y : Handling} {a : HandlerAct}
    {k : a.Ans → HandlerProg Answer} {r : a.Ans} (hx : s.handler i = some x)
    (hrest : x.rest = .act a k) (hy : s.answer i x a r (k r) j = some y) :
    (y.request.handler cfg.parse).Follows (y.log.map Prod.snd) y.rest := by
  unfold answer at hy
  by_cases hji : j = i
  · subst hji
    rw [Function.update_self] at hy
    obtain rfl := Option.some.inj hy
    have h := hs.follows j x hx
    rw [hrest] at h
    simpa using h.snoc r
  · rw [Function.update_of_ne hji] at hy
    exact hs.follows j y hy

lemma perform_not_store {now : ℕ} {a : HandlerAct} {store store' : IdempotencyStore} {r : a.Ans}
    (h : perform cfg now a store = some (r, store')) (op : StoreOp) : a ≠ .store op := by
  rintro rfl
  cases h

/-- The repository calls of the handlers once a call of `i` was answered, where the call of
`i` on the repository, if it has made one, is in its log by then. -/
lemma Tracks.called_answer (hs : Tracks cfg s) {i j : ι} {x : Handling} {a : HandlerAct}
    {r : a.Ans} {rest : HandlerProg Answer} (hx : s.handler i = some x)
    (hi : ∀ th, s.profiles.thread i = some th → ∃ t r',
      (t, ⟨.store th.op.1, r'⟩) ∈ x.log ++ [(s.now, (⟨a, r⟩ : Prog.Performed HandlerE))])
    {th : Thread StoreCalls (b.object ι).E} (hj : s.profiles.thread j = some th) :
    ∃ y, s.answer i x a r rest j = some y ∧
      ((∃ k, y.rest = .act (.store th.op.1) k) ∨ ∃ t r, (t, ⟨.store th.op.1, r⟩) ∈ y.log) := by
  unfold answer
  by_cases hji : j = i
  · subst hji
    exact ⟨_, Function.update_self .., .inr (hi th hj)⟩
  · rw [Function.update_of_ne hji]
    exact hs.called j th hj

/-- A request arrives, or its handler is dropped: no call is made. -/
lemma Tracks.update (hs : Tracks cfg s) {i : ι} {y : Handling}
    (hy : s.handler i = none ∧ y.log = [] ∨
      ∃ x, s.handler i = some x ∧ y.rest = x.rest ∧ y.log = x.log)
    (hfollows : (y.request.handler cfg.parse).Follows (y.log.map Prod.snd) y.rest) :
    Tracks cfg { s with handler := Function.update s.handler i (some y) } := by
  have hdid : ∀ j t c, Did { s with handler := Function.update s.handler i (some y) } j t c ↔
      s.Did j t c :=
    fun j t c => did_update rfl (hy.imp id fun ⟨x, hx, _, hlog⟩ => ⟨x, hx, hlog⟩)
  refine ⟨fun j z hz => ?_, fun j t c hc => hs.past j t c ((hdid j t c).mp hc),
    fun j t op r hc => hs.returned j t op r ((hdid j t _).mp hc), fun j th hj => ?_⟩
  · by_cases hji : j = i
    · subst hji
      dsimp only at hz
      rw [Function.update_self] at hz
      obtain rfl := Option.some.inj hz
      exact hfollows
    · exact hs.follows j z ((Function.update_of_ne hji ..).symm.trans hz)
  · obtain ⟨x, hx, h⟩ := hs.called j th hj
    by_cases hji : j = i
    · subst hji
      rcases hy with ⟨hnone, -⟩ | ⟨x', hx', hrest, hlog⟩
      · rw [hnone] at hx
        cases hx
      · rw [hx] at hx'
        obtain rfl := Option.some.inj hx'
        refine ⟨y, Function.update_self .., ?_⟩
        rw [hrest, hlog]
        exact h
    · exact ⟨x, (Function.update_of_ne hji ..).trans hx, h⟩

/-- A call of `i` is answered: on the repository, with what the repository returned, and on
anything else, with the call on the repository already in its log. -/
lemma Tracks.answer (hs : Tracks cfg s) {i : ι} {x : Handling} {a : HandlerAct}
    {k : a.Ans → HandlerProg Answer} {r : a.Ans} {store : IdempotencyStore}
    (hx : s.handler i = some x) (hrest : x.rest = .act a k)
    (hreturned : ∀ op q, (⟨.store op, q⟩ : Prog.Performed HandlerE) = ⟨a, r⟩ →
      ∃ env, s.profiles.thread i = some (.returned (op, env) q))
    (hcalled : ∀ th, s.profiles.thread i = some th → ∃ t r',
      (t, ⟨.store th.op.1, r'⟩) ∈ x.log ++ [(s.now, (⟨a, r⟩ : Prog.Performed HandlerE))]) :
    Tracks cfg { s with idempotency := store, handler := s.answer i x a r (k r) } := by
  have hdid : ∀ j t c, Did { s with
      idempotency := store, handler := s.answer i x a r (k r) } j t c ↔
        s.Did j t c ∨ (j = i ∧ t = s.now ∧ c = ⟨a, r⟩) :=
    fun j t c => did_answer hx rfl
  refine ⟨fun j y hy => hs.follows_answer hx hrest hy, fun j t c hc => ?_,
    fun j t op q hc => ?_, fun j th hj => hs.called_answer hx hcalled hj⟩
  · rcases (hdid j t c).mp hc with hc | ⟨-, rfl, -⟩
    · exact hs.past j t c hc
    · exact le_refl _
  · rcases (hdid j t _).mp hc with hc | ⟨rfl, -, hc⟩
    · exact hs.returned j t op q hc
    · exact hreturned op q hc

/-- The repository takes a step, for a call that a handler is waiting for. -/
lemma Tracks.profiles_step (hs : Tracks cfg s) {e : Event ι}
    {m : Move ι StoreCalls} {profiles : (b.object ι).Config}
    (hm : (b.object ι).step s.profiles m = some profiles)
    (he : (∃ i x op k env, e = .call i env ∧ m = .invoke i (op, env) ∧ s.handler i = some x ∧
        x.dropped = false ∧ x.rest = .act (.store op) k) ∨
      ∃ i, e = .act i ∧ m = .act i ∨ e = .ret i ∧ m = .ret i) :
    Tracks cfg { s with profiles } := by
  refine ⟨hs.follows, hs.past, fun j t op r hc => ?_, fun j th hj => ?_⟩
  · obtain ⟨env, hret⟩ := hs.returned j t op r hc
    exact ⟨env, SharedObject.returned_of_step hm hret⟩
  · rcases SharedObject.thread_of_step hm hj with hinv | ⟨th', hth', hop⟩
    · rcases he with ⟨i, x, op, k, env, rfl, hcall, hi, -, hrest⟩ | ⟨i, ⟨-, hact⟩ | ⟨-, hret⟩⟩
      · rw [hinv] at hcall
        obtain ⟨rfl, hop⟩ := Move.invoke.inj hcall
        rw [hop]
        exact ⟨x, hi, .inl ⟨k, hrest⟩⟩
      · rw [hinv] at hact
        cases hact
      · rw [hinv] at hret
        cases hret
    · rw [← hop]
      exact hs.called j th' hth'

theorem Tracks.step (hs : Tracks cfg s) {e : Event ι} (hstep : step cfg s e = some s') :
    Tracks cfg s' := by
  obtain ⟨i, request, rfl, hi, rfl⟩ | ⟨i, x, a, k, r, store, rfl, hi, hd, hrest, hp, rfl⟩ |
    ⟨m, profiles, hm, he, rfl⟩ | ⟨i, x, op, k, env, r, rfl, hi, hd, hrest, ht, rfl⟩ |
    ⟨i, x, rfl, hi, -, ⟨op, k, hrest⟩, rfl⟩ | ⟨d, rfl, rfl⟩ := step_cases hstep
  · exact hs.update (.inl ⟨hi, rfl⟩) (.refl _)
  · refine hs.answer hi hrest (fun op q hc => ?_) fun th hth => ?_
    · exact absurd (congrArg Prog.Performed.act hc).symm (perform_not_store hp op)
    · rcases hs.called_by hi hth with ⟨k', hk⟩ | ⟨t, r', hmem⟩
      · rw [hrest] at hk
        cases hk
        exact absurd rfl (perform_not_store hp _)
      · exact ⟨t, r', List.mem_append_left _ hmem⟩
  · exact hs.profiles_step hm he
  · refine hs.answer hi hrest (fun op' q hc => ?_) fun th hth => ?_
    · cases hc
      exact ⟨env, ht⟩
    · rw [ht] at hth
      obtain rfl := Option.some.inj hth
      exact ⟨s.now, r, by simp [Thread.op]⟩
  · exact hs.update (.inr ⟨x, hi, rfl, rfl⟩) (hs.follows i x hi)
  · exact ⟨hs.follows, fun j t c hc => Nat.le_add_right_of_le (hs.past j t c hc), hs.returned,
      hs.called⟩

/-- Only requests that have reached their handler take steps. -/
lemma Tracks.handler_of_by (hs : Tracks cfg s) {e : Event ι}
    (hstep : Service.step cfg s e = some s') {i : ι} (hby : e.By i)
    (hne : ∀ j request, e ≠ .arrive j request) :
    ∃ x, s.handler i = some x := by
  obtain ⟨j, request, rfl, -⟩ | ⟨j, x, a, k, r, store, rfl, hj, -⟩ |
    ⟨m, profiles, hm, he, -⟩ | ⟨j, x, op, k, env, r, rfl, hj, -⟩ |
    ⟨j, x, rfl, hj, -⟩ | ⟨d, rfl, -⟩ := step_cases hstep
  · exact absurd rfl (hne j request)
  · obtain rfl : j = i := hby
    exact ⟨x, hj⟩
  · rcases he with ⟨j, x, op, k, env, rfl, -, hj, -⟩ | ⟨j, ⟨rfl, rfl⟩ | ⟨rfl, rfl⟩⟩
    · obtain rfl : j = i := hby
      exact ⟨x, hj⟩
    all_goals
      obtain rfl : j = i := hby
      obtain ⟨j', op, h, -⟩ | ⟨j', op, a, k, r, t, h, ht, -⟩ | ⟨j', op, r, h, ht, -⟩ :=
        SharedObject.step_cases hm
      all_goals cases h
      obtain ⟨x, hx, -⟩ := hs.called j _ ht
      exact ⟨x, hx⟩
  · obtain rfl : j = i := hby
    exact ⟨x, hj⟩
  · obtain rfl : j = i := hby
    exact ⟨x, hj⟩
  · cases hby

/-- A handler that returned takes no further step. -/
lemma handler_of_pure {e : Event ι} (hs : step cfg s e = some s') {i : ι} {x : Handling}
    {a : Answer} (hi : s.handler i = some x) (ha : x.rest = .pure a) : s'.handler i = some x := by
  have hother : ∀ {j : ι} {y : Option Handling}, j ≠ i → Function.update s.handler j y i = some x :=
    fun hne => (Function.update_of_ne (Ne.symm hne) ..).trans hi
  have hacts : ∀ {j : ι} {y : Handling} {act : HandlerAct} {k : act.Ans → HandlerProg Answer},
      s.handler j = some y → y.rest = .act act k → j ≠ i := by
    rintro j y act k hj hrest rfl
    rw [hi] at hj
    obtain rfl := Option.some.inj hj
    rw [ha] at hrest
    cases hrest
  obtain ⟨j, request, -, hj, rfl⟩ | ⟨j, y, act, k, r, store, -, hj, -, hrest, -, rfl⟩ |
    ⟨m, profiles, -, -, rfl⟩ | ⟨j, y, op, k, env, r, -, hj, -, hrest, -, rfl⟩ |
    ⟨j, y, -, hj, -, ⟨op, k, hrest⟩, rfl⟩ | ⟨d, -, rfl⟩ := step_cases hs
  · refine hother ?_
    rintro rfl
    rw [hj] at hi
    cases hi
  · exact hother (hacts hj hrest)
  · exact hi
  · exact hother (hacts hj hrest)
  · exact hother (hacts hj hrest)
  · exact hi

/-! ### Entries and the calls that made them -/

/-- The call of `i` that made an entry, under a slot and for a body. -/
def Wrote (cfg : Settings) (s : Service ι b) (i : ι) (slot : Slot) (body : String) :
    Idempotency.Entry → Prop
  | .inFlight fp since =>
    s.Did i since ⟨.begin slot.1 slot.2 body, .reserved⟩ ∧ fp = cfg.fingerprint body
  | .complete fp recordedAt found =>
    s.Did i recordedAt ⟨.finish slot.1 slot.2 body found, ()⟩ ∧ fp = cfg.fingerprint body

lemma Wrote.fingerprint {i : ι} {slot : Slot} {body : String} {entry : Idempotency.Entry}
    (h : s.Wrote cfg i slot body entry) : entry.fingerprint = cfg.fingerprint body := by
  cases entry <;> exact h.2

lemma Wrote.mono (hdid : ∀ i t c, ¬c.act.IsStore → s.Did i t c → s'.Did i t c) {i : ι}
    {slot : Slot} {body : String} {entry : Idempotency.Entry} (h : s.Wrote cfg i slot body entry) :
    s'.Wrote cfg i slot body entry := by
  cases entry with
  | inFlight fp since => exact ⟨hdid _ _ _ id h.1, h.2⟩
  | complete fp recordedAt found =>
    exact ⟨hdid _ _ _ id h.1, h.2⟩

/-- Every entry was made by some handler, and every replay goes back to one. -/
structure Kept (cfg : Settings) (s : Service ι b) : Prop where
  retention : s.idempotency.retention = cfg.retention
  reservationTimeout : s.idempotency.reservationTimeout = cfg.reservationTimeout
  wrote : ∀ slot entry, s.idempotency.find slot = some entry →
    ∃ i body, s.Wrote cfg i slot body entry
  replayed : ∀ j t user key body found, s.Did j t ⟨.begin user key body, .replay found⟩ →
    ∃ i t' body', s.Did i t' ⟨.finish user key body' found, ()⟩ ∧
      cfg.fingerprint body' = cfg.fingerprint body

lemma kept_init : Kept cfg (init ι b cfg) := by
  constructor <;> simp [init, Did, IdempotencyStore.new, IdempotencyStore.find]

/-- An entry that replays was recorded for a body with the same fingerprint. -/
lemma answer_eq_replay {fp : UInt64} {entry : Idempotency.Entry} {found : Recorded}
    (h : entry.answer fp = .replay found) :
    ∃ recordedAt, entry = .complete fp recordedAt found := by
  cases entry with
  | inFlight fp' since =>
    simp only [Entry.answer] at h
    split at h <;> cases h
  | complete fp' recordedAt found' =>
    simp only [Entry.answer] at h
    split at h
    · cases h
    · rename_i hfp
      cases h
      rw [ne_eq, not_not] at hfp
      exact ⟨recordedAt, by rw [hfp]⟩

/-- No call changes the windows. -/
lemma perform_windows {now : ℕ} {a : HandlerAct} {store store' : IdempotencyStore} {r : a.Ans}
    (h : perform cfg now a store = some (r, store')) : store'.retention = store.retention ∧
      store'.reservationTimeout = store.reservationTimeout := by
  cases a with
  | begin user key body =>
    obtain rfl : (store.begin cfg.fingerprint now user key body).2 = store' :=
      congrArg Prod.snd (Option.some.inj h)
    exact IdempotencyStore.begin_windows
  | finish user key body found =>
    obtain rfl : store.finish cfg.fingerprint now user key body found = store' :=
      congrArg Prod.snd (Option.some.inj h)
    exact ⟨rfl, rfl⟩
  | abandon user key =>
    obtain rfl : store.abandon user key = store' := congrArg Prod.snd (Option.some.inj h)
    exact IdempotencyStore.abandon_windows
  | store op => cases h

lemma Kept.step (hs : Kept cfg s) {e : Event ι} (hstep : step cfg s e = some s') :
    Kept cfg s' := by
  rcases step_idempotency hstep with ⟨-, hidem, -, hdid⟩ | ⟨i, x, a, k, r, -, -, -, -, hp, -, hdid⟩
  · have hmono : ∀ i t c, ¬c.act.IsStore → s.Did i t c → s'.Did i t c :=
      fun i t c hc h => (hdid i t c hc).mpr h
    refine ⟨by rw [hidem, hs.retention], by rw [hidem, hs.reservationTimeout], ?_, ?_⟩
    · intro slot entry hf
      rw [hidem] at hf
      obtain ⟨i, body, hw⟩ := hs.wrote slot entry hf
      exact ⟨i, body, hw.mono hmono⟩
    · intro j t user key body found hc
      obtain ⟨i, t', body', hfin, hfp⟩ :=
        hs.replayed j t user key body found ((hdid _ _ _ id).mp hc)
      exact ⟨i, t', body', hmono _ _ _ id hfin, hfp⟩
  · have hmono : ∀ i t c, ¬c.act.IsStore → s.Did i t c → s'.Did i t c :=
      fun i t c _ h => (hdid i t c).mpr (.inl h)
    -- entries that stand after the step stood before it, or were made by it
    have hwrote : ∀ slot entry, s.idempotency.find slot = some entry →
        ∃ i body, s'.Wrote cfg i slot body entry := by
      intro slot entry hf
      obtain ⟨i, body, hw⟩ := hs.wrote slot entry hf
      exact ⟨i, body, hw.mono hmono⟩
    have hreplayed : ∀ j t user key body found, s.Did j t ⟨.begin user key body, .replay found⟩ →
        ∃ i t' body', s'.Did i t' ⟨.finish user key body' found, ()⟩ ∧
          cfg.fingerprint body' = cfg.fingerprint body := by
      intro j t user key body found hc
      obtain ⟨i, t', body', hfin, hfp⟩ := hs.replayed j t user key body found hc
      exact ⟨i, t', body', hmono _ _ _ id hfin, hfp⟩
    have hnew : s'.Did i s.now ⟨a, r⟩ := (hdid _ _ _).mpr (.inr ⟨rfl, rfl, rfl⟩)
    obtain ⟨hret, htimeout⟩ := perform_windows hp
    refine ⟨hret.trans hs.retention, htimeout.trans hs.reservationTimeout,
      fun slot entry hf => ?_, fun j t user key body found hc => ?_⟩
    · cases a with
      | store op => exact absurd rfl (perform_not_store hp op)
      | begin user key body =>
        rcases IdempotencyStore.begin_cases (Option.some.inj hp) with
          ⟨rfl, -, hfind⟩ | ⟨entry', -, -, -, hexp⟩
        · rw [hfind] at hf
          split at hf
          · rename_i hslot
            cases hf
            subst hslot
            exact ⟨i, body, hnew, rfl⟩
          · exact hwrote slot entry (IdempotencyStore.find_expire_eq_some.mp hf).1
        · rw [hexp] at hf
          exact hwrote slot entry (IdempotencyStore.find_expire_eq_some.mp hf).1
      | finish user key body found =>
        have hst : s.idempotency.finish cfg.fingerprint s.now user key body found =
            s'.idempotency := congrArg Prod.snd (Option.some.inj hp)
        rw [← hst, IdempotencyStore.find_finish] at hf
        split at hf
        · rename_i hslot
          cases hf
          subst hslot
          exact ⟨i, body, hnew, rfl⟩
        · exact hwrote slot entry hf
      | abandon user key =>
        have hst : s.idempotency.abandon user key = s'.idempotency :=
          congrArg Prod.snd (Option.some.inj hp)
        rw [← hst, IdempotencyStore.find_abandon] at hf
        split at hf
        · exact hwrote slot entry (Option.filter_eq_some_iff.mp hf).1
        · exact hwrote slot entry hf
    · rcases (hdid _ _ _).mp hc with hc | ⟨-, -, hc⟩
      · exact hreplayed j t user key body found hc
      · -- the replay that this step answers comes from the entry under the slot
        obtain ⟨rfl, hans⟩ := Prog.Performed.mk.inj hc
        obtain rfl := eq_of_heq hans
        rcases IdempotencyStore.begin_cases (Option.some.inj hp) with
          ⟨hr, -, -⟩ | ⟨entry, hf, -, hr, -⟩
        · cases hr
        · obtain ⟨recordedAt, rfl⟩ := answer_eq_replay hr.symm
          obtain ⟨i', body', hfin, hfp⟩ := hwrote (user, key) _ hf
          exact ⟨i', _, body', hfin, hfp.symm⟩

/-- Whoever called the idempotency store, or is about to, is a create under a key. -/
lemma Tracks.keyed (hs : Tracks cfg s) {i : ι} {x : Handling} (hx : s.handler i = some x)
    (hcall : (∃ c ∈ x.log.map Prod.snd, ¬c.act.IsStore) ∨
      ∃ a k, x.rest = .act a k ∧ ¬a.IsStore) :
    ∃ user headers key body, x.request = .create user headers body ∧
      Routes.idempotencyKey headers = some key ∧
      Keyed cfg.parse user key body (x.log.map Prod.snd) x.rest := by
  rcases keyed_or_isStore (hs.follows i x hx) with h | ⟨hlog, hrest⟩
  · exact h
  · rcases hcall with ⟨c, hc, hn⟩ | ⟨a, k, ha, hn⟩
    · exact absurd (hlog c hc) hn
    · exact absurd (hrest a k ha) hn

lemma Tracks.keyed_of_did (hs : Tracks cfg s) {i : ι} {t : ℕ} {c : Prog.Performed HandlerE}
    (hc : s.Did i t c) (hn : ¬c.act.IsStore) :
    ∃ x user headers key body, s.handler i = some x ∧ (t, c) ∈ x.log ∧
      x.request = .create user headers body ∧ Routes.idempotencyKey headers = some key ∧
      Keyed cfg.parse user key body (x.log.map Prod.snd) x.rest := by
  obtain ⟨x, hx, hmem⟩ := hc
  obtain ⟨user, headers, key, body, h⟩ :=
    hs.keyed hx (.inl ⟨c, List.mem_map.mpr ⟨(t, c), hmem, rfl⟩, hn⟩)
  exact ⟨x, user, headers, key, body, hx, hmem, h⟩

/-! ### Every run -/

/-- The repository call of `i` returned the profile it created. -/
def Created (s : Service ι b) (i : ι) (user : UserId) (p : Profile) : Prop :=
  ∃ input env, s.profiles.thread i = some (.returned (.create user input, env) (.ok (some p)))

/-- What holds in every state of every run. -/
structure Inv (cfg : Settings) (s : Service ι b) : Prop where
  tracks : Tracks cfg s
  kept : Kept cfg s
  explained : ∃ order h, (b.points ι).Explains s.profiles order h

lemma inv_init : Inv cfg (init ι b cfg) :=
  ⟨tracks_init, kept_init, [], Histories.empty, (b.points ι).explains_initial⟩

/-- A step leaves the repository alone or is a step of the repository. -/
lemma step_profiles {e : Event ι} (hstep : step cfg s e = some s') :
    s'.profiles = s.profiles ∨ ∃ m, (b.object ι).step s.profiles m = some s'.profiles ∧
      ∀ i, m = .act i → e = .act i := by
  obtain ⟨i, request, -, -, rfl⟩ | ⟨i, x, a, k, r, store, -, -, -, -, -, rfl⟩ |
    ⟨m, profiles, hm, he, rfl⟩ | ⟨i, x, op, k, env, r, -, -, -, -, -, rfl⟩ |
    ⟨i, x, -, -, -, -, rfl⟩ | ⟨d, -, rfl⟩ := step_cases hstep
  · exact .inl rfl
  · exact .inl rfl
  · refine .inr ⟨m, hm, ?_⟩
    rintro i rfl
    rcases he with ⟨j, x, op, k, env, -, h, -⟩ | ⟨j, ⟨rfl, h⟩ | ⟨-, h⟩⟩
    · cases h
    · cases h
      rfl
    · cases h
  · exact .inl rfl
  · exact .inl rfl
  · exact .inl rfl

theorem Inv.step (hs : Inv cfg s) {e : Event ι} (hstep : step cfg s e = some s') : Inv cfg s' := by
  refine ⟨hs.tracks.step hstep, hs.kept.step hstep, ?_⟩
  obtain ⟨order, h, hx⟩ := hs.explained
  rcases step_profiles hstep with hp | ⟨m, hm, -⟩
  · rw [hp]
    exact ⟨order, h, hx⟩
  · obtain ⟨new, h', hx'⟩ := hx.step hm
    exact ⟨_, h', hx'⟩

theorem inv_of_run {es : List (Event ι)} (hrun : (machine ι b cfg).run (init ι b cfg) es = some s) :
    Inv cfg s :=
  Machine.run_invariant (Inv cfg) (fun _ _ _ hs hstep => Inv.step hs hstep) inv_init hrun

section Creates

variable {order : List (Library.Entry ι StoreCalls)} {h : Histories} {user : UserId}

/-- A create that succeeded wrote the first revision, and answered its projection. -/
lemma created_entry (hx : (b.points ι).Explains s.profiles order h) {i : ι} {p : Profile}
    (hc : s.Created i user p) : ∃ e ∈ order, e.id = i ∧ ∃ rev, rev.version = .initial ∧
      Histories.writtenFor user e = some rev ∧ p = project user rev := by
  obtain ⟨input, env, ht⟩ := hc
  have hmem := hx.returned_mem ht
  obtain ⟨pre, post, h₁, h₂, -, -, hs⟩ := hx.linearizes.legal.split hmem
  obtain ⟨-, rfl⟩ := Histories.contract_create hs
  exact ⟨_, hmem, rfl, revision env.nowMs .initial input, rfl,
    Histories.writtenFor_create .., rfl⟩

/-- At most one create of a user succeeds. -/
lemma created_unique (hx : (b.points ι).Explains s.profiles order h) {i j : ι} {p q : Profile}
    (hi : s.Created i user p) (hj : s.Created j user q) : i = j ∧ p = q := by
  obtain ⟨e, he, rfl, rev, hv, hw, rfl⟩ := created_entry hx hi
  obtain ⟨e', he', rfl, rev', hv', hw', rfl⟩ := created_entry hx hj
  have heq := Histories.writtenFor_unique hx.linearizes.legal he he' hw hw' (hv.trans hv'.symm)
  subst heq
  rw [hw] at hw'
  rw [Option.some.inj hw']
  exact ⟨rfl, rfl⟩

/-- The created profile is the projection of the user's first revision. -/
lemma created_head? (hx : (b.points ι).Explains s.profiles order h) {i : ι} {p : Profile}
    (hc : s.Created i user p) : ∃ rev, (h user).head? = some rev ∧ p = project user rev := by
  obtain ⟨e, he, -, rev, hv, hw, rfl⟩ := created_entry hx hc
  have hmem := (Histories.mem_of_writtenFor hx.linearizes.legal).mpr ⟨e, he, hw⟩
  have hcont := (Histories.legal_history hx.linearizes.legal user).2
  exact ⟨rev, hcont.head?_of_initial hmem hv, rfl⟩

end Creates

end Knova.Service
