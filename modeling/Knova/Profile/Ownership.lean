import Knova.Profile.Effects
import Knova.Profile.Responses

/-!
# Whose data a request touches

A handler makes its calls for the caller of its request only, so a step changes the profile,
the history and the idempotency entries of the user whose request takes it.
-/

namespace Knova

open Library Idempotency

/-- A call for the caller of the request. -/
def Request.Owns (request : Request) : HandlerAct → Prop
  | .begin user _ _ | .finish user _ _ _ | .abandon user _ => user = request.user.asStr
  | .store op => op.user = request.user

namespace Routes

variable {parse : String → Option ProfileInput} {user : UserId} {headers : HeaderMap}
  {body : String} {request : Request}

lemma owns_createOnce {k : Except ProfileError Recorded → HandlerProg Answer}
    (hk : ∀ outcome, (k outcome).All (Request.create user headers body).Owns) :
    (createOnce parse user body k).All (Request.create user headers body).Owns := by
  unfold createOnce
  split
  · exact hk _
  · split
    · exact hk _
    · exact ⟨rfl, fun outcome => hk _⟩

/-- Handlers make their calls for the caller of their request. -/
lemma owns_handler : (request.handler parse).All request.Owns := by
  cases request with
  | create user headers body =>
    change (create parse user headers body).All _
    unfold create
    split
    · exact owns_createOnce fun outcome => trivial
    · refine ⟨rfl, fun found => ?_⟩
      cases found with
      | reserved =>
        refine owns_createOnce fun outcome => ?_
        cases outcome <;> exact ⟨rfl, fun _ => trivial⟩
      | inFlight | bodyMismatch | replay recorded => trivial
  | read user =>
    refine ⟨rfl, fun r => ?_⟩
    match r with
    | .error e | .ok none | .ok (some profile) => trivial
  | update user headers input =>
    change (update user headers input).All _
    unfold update
    split
    · trivial
    · split
      · trivial
      · exact ⟨rfl, fun outcome => trivial⟩
  | history user =>
    refine ⟨rfl, fun r => ?_⟩
    match r with
    | .error e | .ok [] | .ok (first :: rest) => trivial

end Routes

namespace Service

variable {ι : Type} [DecidableEq ι] {b : Backend} {cfg : Settings} {s s' : Service ι b}

/-- A repository call is for the caller of its request. -/
lemma Tracks.owns_call (hs : Tracks cfg s) {i : ι} {th : Thread StoreCalls (b.object ι).E}
    (hth : s.profiles.thread i = some th) :
    ∃ x, s.handler i = some x ∧ th.op.1.user = x.request.user := by
  obtain ⟨x, hx, hcall⟩ := hs.called i th hth
  have hall : (x.request.handler cfg.parse).All x.request.Owns := Routes.owns_handler
  obtain ⟨hlog, hrest⟩ := hall.follows (hs.follows i x hx)
  refine ⟨x, hx, ?_⟩
  rcases hcall with ⟨k, hk⟩ | ⟨t, r, hmem⟩
  · rw [hk] at hrest
    exact hrest.1
  · exact hlog _ (List.mem_map.mpr ⟨_, hmem, rfl⟩)

/-- From `s` to `s'` the profile or the history of `user` changed, or an idempotency entry did
other than by expiring. -/
def Touches (user : UserId) (s s' : Service ι b) : Prop :=
  b.held s'.profiles.shared user ≠ b.held s.profiles.shared user ∨
    ∃ key, s'.idempotency.find (user.asStr, key) ≠ s.idempotency.find (user.asStr, key) ∧
      s'.idempotency.find (user.asStr, key) ≠
        (s.idempotency.expire s.now).find (user.asStr, key)

lemma not_touches {user : UserId} (h : s' = s) : ¬s.Touches user s' := by
  subst h
  rintro (hheld | ⟨key, hfind, -⟩)
  · exact hheld rfl
  · exact hfind rfl

/-- One call on the idempotency store leaves the slots of others to their expiry. -/
lemma find_of_perform {now : ℕ} {a : HandlerAct} {store store' : IdempotencyStore} {r : a.Ans}
    {request : Request} (hp : perform cfg now a store = some (r, store')) (ha : request.Owns a)
    {slot : Slot} (hslot : slot.1 ≠ request.user.asStr) :
    store'.find slot = store.find slot ∨ store'.find slot = (store.expire now).find slot := by
  have hne : ∀ {user key : String}, user = request.user.asStr → slot ≠ (user, key) := by
    rintro user key rfl rfl
    exact hslot rfl
  cases a with
  | begin user key body =>
    rcases IdempotencyStore.begin_cases (Option.some.inj hp) with ⟨-, -, hfind⟩ | ⟨-, -, -, -, rfl⟩
    · exact .inr ((hfind slot).trans (if_neg (hne ha)))
    · exact .inr rfl
  | finish user key body recorded =>
    obtain rfl : store.finish cfg.fingerprint now user key body recorded = store' :=
      congrArg Prod.snd (Option.some.inj hp)
    exact .inl (IdempotencyStore.find_finish.trans (if_neg (hne ha)))
  | abandon user key =>
    obtain rfl : store.abandon user key = store' := congrArg Prod.snd (Option.some.inj hp)
    exact .inl (IdempotencyStore.find_abandon.trans (if_neg (hne ha)))
  | store op => cases hp

/-- A step touches the data of the user whose request takes it. -/
theorem Inv.owner_of_touches (h : Inv cfg s) {e : Event ι} (hs : Service.step cfg s e = some s')
    {user : UserId} (ht : s.Touches user s') :
    ∃ i x, e.By i ∧ s.handler i = some x ∧ x.request.user = user := by
  rcases ht with hheld | ⟨key, hfind, hexpire⟩
  · rcases h.held_of_step hs with hsame | ⟨i, call, rfl, ⟨p, hi⟩, -, hother⟩
    · exact absurd (congrFun hsame user) hheld
    · obtain ⟨x, hx, hcall⟩ := h.tracks.owns_call hi
      refine ⟨i, x, rfl, hx, ?_⟩
      by_contra hne
      exact hheld (hother user fun heq => hne (hcall.symm.trans heq.symm))
  · rcases step_idempotency hs with ⟨-, hsame, -⟩ | ⟨i, x, a, k, r, rfl, hx, -, hrest, hp, -⟩
    · exact absurd (by rw [hsame]) hfind
    · refine ⟨i, x, rfl, hx, ?_⟩
      have hall : (x.request.handler cfg.parse).All x.request.Owns := Routes.owns_handler
      have howns := (hall.follows (h.tracks.follows i x hx)).2
      rw [hrest] at howns
      by_contra hne
      have hslot : ((user.asStr, key) : Slot).1 ≠ x.request.user.asStr := fun heq =>
        hne (UserId.asStr_injective heq).symm
      rcases find_of_perform hp howns.1 hslot with hsame | hsame
      · exact hfind hsame
      · exact hexpire hsame

end Service

end Knova
