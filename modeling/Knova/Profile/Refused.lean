import Knova.Profile.Effects
import Knova.Profile.Guard
import Knova.Profile.KeyIndependence
import Knova.Profile.Responses

/-!
# A refused or failed write leaves no trace

A handler whose call on the repository was accepted answers a success. Before it answers
anything else it gives back the key it reserved.
-/

namespace Knova

open Library Idempotency

/-- The answer is a `2xx`. -/
def Answer.Succeeds (a : Answer) : Prop := 200 ≤ a.render.status ∧ a.render.status < 300

/-- A handler that holds the reservation of `held` gives it back unless it succeeds, and
succeeds once the repository accepted its call. -/
def Careful : Option Slot → HandlerProg Answer → Prop
  | held, .pure a => held = none ∨ a.Succeeds
  | held, .act (.begin user key _) k => held = none ∧ ∀ found : Lookup,
    Careful (if found = .reserved then some (user, key) else none) (k found)
  | _, .act (.finish _ _ _ _) k => (k ()).Returns Answer.Succeeds
  | held, .act (.abandon user key) k => held = some (user, key) ∧ Careful none (k ())
  | held, .act (.store op) k => ∀ r, (op.Accepts r → (k r).Returns Answer.Succeeds) ∧
    Careful held (k r)

/-- Once the repository accepted its call, a handler succeeds. -/
lemma Careful.returns_of_accepted {held : Option Slot} {p q : HandlerProg Answer}
    {t : List (Prog.Performed HandlerE)} (hp : Careful held p) (h : p.Follows t q) {op : StoreOp}
    {r : op.Ret} (hmem : ⟨.store op, r⟩ ∈ t) (hacc : op.Accepts r) : q.Returns Answer.Succeeds := by
  induction h generalizing held with
  | refl p => cases hmem
  | @step a k r' t q hrest ih =>
    cases a with
    | begin user key body =>
      exact ih (hp.2 r') ((List.mem_cons.mp hmem).resolve_left fun heq => by cases heq)
    | finish user key body recorded => exact Prog.Returns.follows hp hrest
    | abandon user key =>
      exact ih hp.2 ((List.mem_cons.mp hmem).resolve_left fun heq => by cases heq)
    | store op' =>
      rcases List.mem_cons.mp hmem with heq | hmem
      · cases heq
        exact ((hp r).1 hacc).follows hrest
      · exact ih (hp r').2 hmem

namespace Routes

variable {parse : String → Option ProfileInput} {user : UserId} {headers : HeaderMap}
  {key body : String}

lemma succeeds_replay_recorded (p : Profile) : Answer.Succeeds (.ok (replay (recorded p))) := by
  rw [replay_recorded]
  exact (by decide : 200 ≤ 201 ∧ 201 < 300)

lemma succeeds_withEtag (p : Profile) : Answer.Succeeds (.ok (withEtag 200 p)) :=
  (by decide : 200 ≤ 200 ∧ 200 < 300)

lemma careful_createOnce {held : Option Slot}
    {k : Except ProfileError Recorded → HandlerProg Answer}
    (herror : ∀ e, Careful held (k (.error e)))
    (hok : ∀ p, (k (.ok (recorded p))).Returns Answer.Succeeds ∧
      Careful held (k (.ok (recorded p)))) :
    Careful held (createOnce parse user body k) := by
  unfold createOnce
  split
  · exact herror _
  · split
    · exact herror _
    · intro r
      match r with
      | .error e => exact ⟨(by rintro ⟨p, h⟩; cases h), herror _⟩
      | .ok none => exact ⟨(by rintro ⟨p, h⟩; cases h), herror _⟩
      | .ok (some p) => exact ⟨fun _ => (hok p).1, (hok p).2⟩

/-- Every handler is careful. -/
lemma careful_handler (request : Request) : Careful none (request.handler parse) := by
  cases request with
  | create user headers body =>
    change Careful none (create parse user headers body)
    unfold create
    split
    · exact careful_createOnce (fun e => .inl rfl)
        fun p => ⟨succeeds_replay_recorded p, .inl rfl⟩
    · rename_i key hkey
      refine ⟨rfl, fun found => ?_⟩
      cases found with
      | reserved =>
        exact careful_createOnce (fun e => ⟨rfl, .inl rfl⟩)
          fun p => ⟨fun _ => succeeds_replay_recorded p, succeeds_replay_recorded p⟩
      | inFlight | bodyMismatch | replay recorded => exact .inl rfl
  | read user =>
    intro r
    refine ⟨fun hacc => hacc.elim, ?_⟩
    match r with
    | .error e | .ok none | .ok (some profile) => exact .inl rfl
  | update user headers input =>
    change Careful none (update user headers input)
    unfold update
    split
    · exact .inl rfl
    · split
      · exact .inl rfl
      · intro r
        refine ⟨?_, .inl rfl⟩
        rintro ⟨p, rfl⟩
        exact succeeds_withEtag p
  | history user =>
    intro r
    refine ⟨fun hacc => hacc.elim, ?_⟩
    match r with
    | .error e | .ok [] | .ok (first :: rest) => exact .inl rfl

end Routes

/-! ### The idempotency table -/

namespace Idempotency.IdempotencyStore

variable {s t u : IdempotencyStore} {hash : String → UInt64} {now : ℕ} {slot : Slot}

/-- From `now` on, the table `t` is that of `s`, but for the reservation of `held`. -/
structure Reserved (now : ℕ) (s t : IdempotencyStore) (held : Option Slot) : Prop where
  others : ∀ slot, held ≠ some slot → Agree now s t slot
  reserved : ∀ slot, held = some slot →
    (s.expire now).find slot = none ∧ ∃ fp since, t.find slot = some (.inFlight fp since)

lemma reserved_refl : Reserved now s s none where
  others _ _ _ _ := rfl
  reserved slot h := by cases h

lemma Reserved.mono {held : Option Slot} {later : ℕ} (h : Reserved now s t held)
    (hle : now ≤ later) : Reserved later s t held where
  others slot hslot := (h.others slot hslot).mono hle
  reserved slot hslot := by
    obtain ⟨hnone, hentry⟩ := h.reserved slot hslot
    exact ⟨find_expire_of_none hle hnone, hentry⟩

/-- `begin` takes one reservation, or none. -/
lemma Reserved.begin {user key body : String} {found : Lookup} (h : Reserved now s t none)
    (hb : t.begin hash now user key body = (found, u)) :
    Reserved now s u (if found = .reserved then some (user, key) else none) := by
  have hlive : u.live = t.live := by
    obtain rfl : (t.begin hash now user key body).2 = u := congrArg Prod.snd hb
    exact live_congr begin_windows.1 begin_windows.2
  rcases begin_cases hb with ⟨rfl, hfree, hfind⟩ | ⟨entry, -, -, rfl, rfl⟩
  · rw [if_pos rfl]
    refine ⟨fun slot hslot => ?_, fun slot hslot => ?_⟩
    · have hne : slot ≠ (user, key) := fun heq => hslot (congrArg some heq.symm)
      exact (h.others slot (by simp)).expire.congr ((hfind slot).trans (if_neg hne)) hlive
    · obtain rfl := Option.some.inj hslot
      refine ⟨?_, hash body, now, (hfind _).trans (if_pos rfl)⟩
      rw [← h.others _ (by simp) now le_rfl, hfree]
  · rw [if_neg (answer_ne_reserved _ _)]
    exact ⟨fun slot hslot => (h.others slot hslot).expire, fun slot hslot => by cases hslot⟩

/-- `abandon` gives a reservation back. -/
lemma Reserved.abandon {user key : String} (h : Reserved now s t (some (user, key))) :
    Reserved now s (t.abandon user key) none := by
  have hlive : (t.abandon user key).live = t.live :=
    live_congr abandon_windows.1 abandon_windows.2
  refine ⟨fun slot _ => ?_, fun slot hslot => by cases hslot⟩
  by_cases hslot : slot = (user, key)
  · subst hslot
    obtain ⟨hnone, fp, since, hfind⟩ := h.reserved _ rfl
    refine agree_of_none hnone ?_
    rw [find_expire, find_abandon, if_pos rfl, hfind]
    rfl
  · have hne : some (user, key) ≠ some slot := fun heq => hslot (Option.some.inj heq).symm
    exact (h.others slot hne).congr (find_abandon.trans (if_neg hslot)) hlive

end Idempotency.IdempotencyStore

/-! ### Steps of the service -/

namespace Service

variable {ι : Type} [DecidableEq ι] {b : Backend} {cfg : Settings} {s s' u : Service ι b} {i : ι}

/-- A handler whose call can only be accepted answers a success, if it answers. -/
lemma Tracks.succeeds_of_bound (hs : Tracks cfg s) {call : StoreOp × Env}
    (h : (b.object ι).Bound s.profiles i call call.1.Accepts) {a : Answer} (ha : s.Answered i a) :
    a.Succeeds := by
  obtain ⟨x, hx, hrest⟩ := ha
  have hcalled : ∀ {th}, s.profiles.thread i = some th →
      ∃ r, ⟨.store th.op.1, r⟩ ∈ x.log.map Prod.snd ∧
        ∃ env, s.profiles.thread i = some (.returned (th.op.1, env) r) := by
    intro th hth
    obtain ⟨y, hy, hcall⟩ := hs.called i th hth
    rw [hx] at hy
    obtain rfl := Option.some.inj hy
    rcases hcall with ⟨k, hk⟩ | ⟨t, r, hmem⟩
    · rw [hrest] at hk
      cases hk
    · obtain ⟨env, hret⟩ := hs.returned i t _ r ⟨x, hx, hmem⟩
      exact ⟨r, List.mem_map.mpr ⟨_, hmem, rfl⟩, env, hret⟩
  have hsucceeds : ∀ {op : StoreOp} {r : op.Ret}, ⟨.store op, r⟩ ∈ x.log.map Prod.snd →
      op.Accepts r → a.Succeeds := by
    intro op r hmem hacc
    have := (Routes.careful_handler x.request).returns_of_accepted (hs.follows i x hx) hmem hacc
    rwa [hrest] at this
  rcases h with ⟨p, hi, -⟩ | ⟨r, hi, hacc⟩
  · obtain ⟨r, -, env, hret⟩ := hcalled hi
    rw [hi] at hret
    cases hret
  · obtain ⟨r', hmem, env, hret⟩ := hcalled hi
    rw [hi] at hret
    obtain ⟨op, env'⟩ := call
    cases hret
    exact hsucceeds hmem hacc

/-- As far as the request `i` has come, the idempotency table is that of `s` but for the
reservation that `i` gives back unless it succeeds; or `i` can only succeed. -/
def Undoes (s u : Service ι b) (i : ι) : Prop :=
  ∃ x, u.handler i = some x ∧ (x.rest.Returns Answer.Succeeds ∨ ∃ held, Careful held x.rest ∧
    IdempotencyStore.Reserved u.now s.idempotency u.idempotency held)

lemma Undoes.perform {now : ℕ} {store store' : IdempotencyStore} {a : HandlerAct}
    {k : a.Ans → HandlerProg Answer} {r : a.Ans}
    (h : (Prog.act (E := HandlerE) a k).Returns Answer.Succeeds ∨ ∃ held, Careful held (.act a k) ∧
      IdempotencyStore.Reserved now s.idempotency store held)
    (hp : Service.perform cfg now a store = some (r, store')) :
    (k r).Returns Answer.Succeeds ∨ ∃ held, Careful held (k r) ∧
      IdempotencyStore.Reserved now s.idempotency store' held := by
  rcases h with h | ⟨held, hcareful, hheld⟩
  · exact .inl (h r)
  · cases a with
    | begin user key body =>
      obtain ⟨rfl, hk⟩ := hcareful
      exact .inr ⟨_, hk r, hheld.begin (Option.some.inj hp)⟩
    | finish user key body recorded => exact .inl hcareful
    | abandon user key =>
      obtain ⟨rfl, hk⟩ := hcareful
      obtain rfl : store.abandon user key = store' := congrArg Prod.snd (Option.some.inj hp)
      exact .inr ⟨none, hk, hheld.abandon⟩
    | store op => cases hp

lemma Undoes.step (h : Undoes s u i) {u' : Service ι b} {e : Event ι}
    (hs : Service.step cfg u e = some u') (he : e.By i ∨ ∃ d, e = .tick d) : Undoes s u' i := by
  obtain ⟨x, hx, hrest⟩ := h
  have hnow : ∀ {y : Handling} {j : ι}, u.handler j = some y → j = i → y = x := by
    rintro y j hy rfl
    exact Option.some.inj (hy.symm.trans hx)
  obtain ⟨j, request, rfl, hj, rfl⟩ | ⟨j, y, a, k, r, store, rfl, hj, -, hy, hp, rfl⟩ |
    ⟨m, profiles, -, -, rfl⟩ | ⟨j, y, op, k, env, r, rfl, hj, -, hy, -, rfl⟩ |
    ⟨j, y, rfl, hj, -, -, rfl⟩ | ⟨d, rfl, rfl⟩ := step_cases hs
  · rcases he with rfl | ⟨d, hd⟩
    · rw [hx] at hj
      cases hj
    · cases hd
  · rcases he with rfl | ⟨d, hd⟩
    · obtain rfl := hnow hj rfl
      rw [hy] at hrest
      exact ⟨_, Function.update_self .., Undoes.perform hrest hp⟩
    · cases hd
  · exact ⟨x, hx, hrest⟩
  · rcases he with rfl | ⟨d, hd⟩
    · obtain rfl := hnow hj rfl
      rw [hy] at hrest
      refine ⟨_, Function.update_self .., hrest.imp (fun h => h r) ?_⟩
      rintro ⟨held, hcareful, hheld⟩
      exact ⟨held, (hcareful r).2, hheld⟩
    · cases hd
  · rcases he with rfl | ⟨d, hd⟩
    · obtain rfl := hnow hj rfl
      exact ⟨_, Function.update_self .., hrest⟩
    · cases hd
  · refine ⟨x, hx, hrest.imp id ?_⟩
    rintro ⟨held, hcareful, hheld⟩
    exact ⟨held, hcareful, hheld.mono (Nat.le_add_right ..)⟩

end Service

namespace ProfileService.Server

variable {ι : Type} [DecidableEq ι] {b : Backend} {app : App} {s s' t : Server ι b} {i : ι}

/-- The profile and the history of every user. -/
abbrev held (s : Server ι b) (user : UserId) : Option Profile × List Revision :=
  b.held s.service.profiles.shared user

/-- A request was answered, and not with a `2xx`. -/
def Refused (s : Server ι b) (i : ι) : Prop :=
  ∃ reply, s.reply i = some reply ∧ ¬(200 ≤ reply.response.status ∧ reply.response.status < 300)

/-- Nothing but the request `i` runs, and time passes. -/
def Event.Alone (i : ι) (e : Event ι) : Prop := e.By i ∨ ∃ d, e = .run (.tick d)

/-- A refused request whose handler ran. -/
lemma Refused.answered (h : s.Refused i) {x : Handling} (hs : Inv app s)
    (hx : s.service.handler i = some x) : ∃ a, s.service.Answered i a ∧ ¬a.Succeeds := by
  obtain ⟨reply, hreply, hstatus⟩ := h
  obtain ⟨received, id, hi, hout⟩ := (hs.handled i x.request).mp ⟨x, hx, rfl⟩
  simp only [Server.reply, hi, Option.bind_some, hout] at hreply
  split at hreply
  · rename_i request log a dropped hx'
    obtain rfl := Option.some.inj hreply
    refine ⟨a, ⟨_, hx', rfl⟩, fun ha => hstatus ?_⟩
    rw [finish_status]
    exact ha
  · cases hreply

/-- The call of a request that is refused in the end cannot be bound to be accepted. -/
lemma Refused.not_bound (h : t.Refused i) (ht : Inv app t) {call : StoreOp × Env} :
    ¬(b.object ι).Bound t.service.profiles i call call.1.Accepts := by
  intro hbound
  obtain ⟨th, hth⟩ : ∃ th, t.service.profiles.thread i = some th := by
    rcases hbound with ⟨p, hi, -⟩ | ⟨r, hi, -⟩
    · exact ⟨_, hi⟩
    · exact ⟨_, hi⟩
  obtain ⟨x, hx, -⟩ := ht.service.tracks.called i th hth
  obtain ⟨a, ha, hfails⟩ := h.answered ht hx
  exact hfails (ht.service.tracks.succeeds_of_bound hbound ha)

/-- No step of a request that is refused in the end changes any profile or history. -/
lemma held_of_refused (hs : Inv app s) (ht : t.Refused i) {es : List (Event ι)} {e : Event ι}
    {u v : Server ι b} (hpass : (machine ι b app).Passes s es t e u v) (he : e.By i) :
    v.held = u.held := by
  obtain ⟨before, after, -, hbefore, hstep, hafter⟩ := hpass
  have hu : Inv app u := Machine.run_invariant (M := machine ι b app) (Inv app)
    (fun _ _ _ h hs => h.step hs) hs hbefore
  rcases step_service hstep with hsame | ⟨f, hf, -, hkind⟩
  · unfold held
    rw [hsame]
  · rcases hu.service.held_of_step hf with hsame | ⟨j, call, rfl, -, hbound, -⟩
    · exact hsame
    · obtain rfl : j = i := by
        rcases hkind with ⟨k, request, h⟩ | rfl
        · cases h
        · exact he
      -- the call is accepted whatever happens, so the request is not refused
      have hkept := Machine.run_invariant (M := machine ι b app) (fun w : Server ι b => Inv app w ∧
        (b.object ι).Bound w.service.profiles j call call.1.Accepts) (fun w e w' h hs => by
          refine ⟨h.1.step hs, ?_⟩
          rcases step_service hs with hsame | ⟨f, hf, -⟩
          · rw [hsame]
            exact h.2
          · exact Service.bound_of_step h.2 hf) ⟨hu.step hstep, hbound⟩ hafter
      exact absurd hkept.2 (ht.not_bound hkept.1)

/-- Where only `i` has run since `s`: what `i` still has to undo of the idempotency table. -/
def Undoes (s u : Server ι b) (i : ι) : Prop :=
  (u.service.handler i = none ∧ IdempotencyStore.Reserved u.service.now s.service.idempotency
    u.service.idempotency none) ∨ Service.Undoes s.service u.service i

lemma Undoes.step {u u' : Server ι b} (h : Undoes s u i) (hu : Inv app u) {e : Event ι}
    (hs : Server.step app u e = some u') (he : e.Alone i) : Undoes s u' i := by
  obtain ⟨j, request, outcome, rfl, hj, -, -, hcase⟩ | ⟨f, rfl, hne, hf, -⟩ := step_cases hs
  · obtain rfl : j = i := by
      rcases he with he | ⟨d, hd⟩
      · exact he
      · cases hd
    rcases hcase with ⟨called, id, -, hf⟩ | ⟨-, hsame⟩
    · rcases h with ⟨hnone, hheld⟩ | h
      · right
        simp only [Service.step, hnone] at hf
        rw [← Option.some.inj hf]
        exact ⟨_, Function.update_self .., .inr ⟨none, Routes.careful_handler called, hheld⟩⟩
      · exact .inr (h.step hf (.inl rfl))
    · unfold Undoes at *
      rwa [hsame]
  · have hby : f.By i ∨ ∃ d, f = .tick d := by
      rcases he with he | ⟨d, hd⟩
      · exact .inl he
      · exact .inr ⟨d, Event.run.inj hd⟩
    rcases h with ⟨hnone, hheld⟩ | h
    · rcases hby with hby | ⟨d, rfl⟩
      · obtain ⟨x, hx⟩ := hu.service.tracks.handler_of_by hf hby hne
        rw [hnone] at hx
        cases hx
      · left
        rw [← Option.some.inj hf]
        exact ⟨hnone, hheld.mono (Nat.le_add_right ..)⟩
    · exact .inr (h.step hf hby)

/-- Once a request is refused, nothing is left to undo. -/
lemma Undoes.agree (h : Undoes s t i) (ht : Inv app t) (hrefused : t.Refused i) (slot : Slot) :
    IdempotencyStore.Agree t.service.now s.service.idempotency t.service.idempotency slot := by
  rcases h with ⟨-, hheld⟩ | ⟨x, hx, hrest⟩
  · exact hheld.others slot (by simp)
  · obtain ⟨a, ha, hfails⟩ := hrefused.answered ht hx
    have hpure := ha.rest_eq hx
    rw [hpure] at hrest
    rcases hrest with hsucceeds | ⟨held, hcareful, hheld⟩
    · exact absurd hsucceeds hfails
    · rcases hcareful with rfl | hsucceeds
      · exact hheld.others slot (by simp)
      · exact absurd hsucceeds hfails

/-- A request that is answered with anything but a `2xx` leaves no trace: none of its steps
changes any profile or history, and if nothing else runs from its arrival to its answer, then
the profiles, the histories and, once expired entries are dropped, the idempotency table are
what they were, so that every later request finds the same of each key. -/
theorem refused_leaves_no_trace (b : Backend) (ι : Type) [DecidableEq ι] (app : App)
    (before during : List (Event ι)) (s t : Server ι b) (i : ι)
    (hbefore : (machine ι b app).run (init ι b app) before = some s)
    (hduring : (machine ι b app).run s during = some t) (hi : s.received i = none)
    (hrefused : t.Refused i) :
    (∀ e u v, (machine ι b app).Passes s during t e u v → e.By i → v.held = u.held) ∧
    ((∀ e ∈ during, e.Alone i) → t.held = s.held ∧
      (∀ slot, (t.service.idempotency.expire t.service.now).find slot =
        (s.service.idempotency.expire t.service.now).find slot) ∧
      ∀ later, t.service.now ≤ later → ∀ user key body,
        (t.service.idempotency.begin app.settings.fingerprint later user key body).1 =
          (s.service.idempotency.begin app.settings.fingerprint later user key body).1) := by
  have hs := inv_of_run hbefore
  have hinv : ∀ {es : List (Event ι)} {u v : Server ι b}, Inv app u →
      (machine ι b app).run u es = some v → Inv app v := fun hu hrun =>
    Machine.run_invariant (M := machine ι b app) (Inv app) (fun _ _ _ h hs => h.step hs) hu hrun
  have hsteps : ∀ e u v, (machine ι b app).Passes s during t e u v → e.By i → v.held = u.held :=
    fun e u v hpass he => held_of_refused hs hrefused hpass he
  refine ⟨hsteps, fun halone => ?_⟩
  have hnone : s.service.handler i = none := by
    by_contra hx
    obtain ⟨x, hx⟩ := Option.ne_none_iff_exists'.mp hx
    obtain ⟨received, id, hreceived, -⟩ := (hs.handled i x.request).mp ⟨x, hx, rfl⟩
    rw [hi] at hreceived
    cases hreceived
  -- the induction is on what has run since `s`
  have hpre : ∀ pre post u, during = pre ++ post → (machine ι b app).run s pre = some u →
      u.held = s.held ∧ Undoes s u i := by
    intro pre
    induction pre using List.reverseRecOn with
    | nil =>
      rintro post u - hrun
      obtain rfl : s = u := Option.some.inj hrun
      exact ⟨rfl, .inl ⟨hnone, IdempotencyStore.reserved_refl⟩⟩
    | append_singleton pre e ih =>
      intro post v hduring' hrun
      obtain ⟨u, hu, hlast⟩ := Machine.run_append_eq_some.mp hrun
      obtain ⟨v', hstep, hv'⟩ := Machine.run_cons_eq_some.mp hlast
      obtain rfl : v' = v := Option.some.inj hv'
      have hsplit : during = pre ++ e :: post := by simpa using hduring'
      obtain ⟨hheld, hundoes⟩ := ih (e :: post) u hsplit hu
      have he : e.Alone i := halone e (by simp [hsplit])
      refine ⟨?_, hundoes.step (hinv hs hu) hstep he⟩
      rw [← hheld]
      rcases he with he | ⟨d, rfl⟩
      · obtain ⟨w, hw, hpost⟩ := Machine.run_append_eq_some.mp (hsplit ▸ hduring)
        rw [hu] at hw
        obtain rfl := Option.some.inj hw
        obtain ⟨w, hw, hpost⟩ := Machine.run_cons_eq_some.mp hpost
        rw [hstep] at hw
        obtain rfl := Option.some.inj hw
        exact hsteps e _ _ ⟨pre, post, hsplit, hu, hstep, hpost⟩ he
      · obtain rfl : { u with service := { u.service with now := u.service.now + d } } = v' :=
          Option.some.inj hstep
        rfl
  obtain ⟨hheld, hundoes⟩ := hpre during [] t (by simp) hduring
  have hagree := hundoes.agree (hinv hs hduring) hrefused
  refine ⟨hheld, fun slot => hagree slot _ le_rfl, fun later hle user key body => ?_⟩
  exact IdempotencyStore.begin_fst_congr (hagree (user, key) later hle)

def Sample.built : App := ⟨"secret", settings, extract⟩

/-- A create under a key, from the gateway. -/
def Sample.post : HttpRequest := ⟨.post, "/profile", [("x-internal-token", .ofText "secret"),
  ("x-user-id", .ofText "u"), ("idempotency-key", .ofText "k")], HeaderValue.ofText body⟩

/-- The commit of a create fails. -/
def Sample.failing : List (Event ℕ) := [.receive 0 post, .run (.perform 0),
  .run (.call 0 ⟨0, fun statement => statement = .commit⟩), .run (.act 0), .run (.act 0),
  .run (.act 0), .run (.ret 0), .run (.resume 0), .run (.tick 1), .run (.perform 0)]

open Sample in
/-- A create whose commit fails is answered `500`, and its key is free again. -/
theorem refused_leaves_no_trace_commit : ∃ t : Server ℕ .sqlite,
    (machine ℕ .sqlite built).run (init ℕ .sqlite built) failing = some t ∧
    (t.reply 0).map (fun reply => reply.response.status) = some 500 ∧
    t.held = (init ℕ .sqlite built).held ∧ ∀ slot,
      (t.service.idempotency.expire t.service.now).find slot =
        ((init ℕ .sqlite built).service.idempotency.expire t.service.now).find slot := by
  obtain ⟨t, hrun, hstatus⟩ : ∃ t : Server ℕ .sqlite,
      (machine ℕ .sqlite built).run (init ℕ .sqlite built) failing = some t ∧
      (t.reply 0).map (fun reply => reply.response.status) = some 500 := ⟨_, rfl, rfl⟩
  obtain ⟨reply, hreply, h500⟩ := Option.map_eq_some_iff.mp hstatus
  have hleaves := refused_leaves_no_trace .sqlite ℕ built [] failing _ t 0 rfl hrun rfl
    ⟨reply, hreply, by omega⟩
  obtain ⟨hheld, htable, -⟩ := hleaves.2 fun e he => by
    simp only [failing, List.mem_cons, List.not_mem_nil, or_false] at he
    rcases he with rfl | rfl | rfl | rfl | rfl | rfl | rfl | rfl | rfl | rfl
    case inr.inr.inr.inr.inr.inr.inr.inr.inl => exact .inr ⟨1, rfl⟩
    all_goals exact .inl rfl
  exact ⟨t, hrun, hstatus, hheld, htable⟩

end ProfileService.Server

end Knova
