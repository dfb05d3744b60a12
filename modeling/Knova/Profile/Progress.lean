import Knova.Profile.Routes

/-!
# How far a handler has come

Every handler makes at most one call on the repository. A create under a key makes it
between its calls on the idempotency store.
-/

namespace Knova

open Library Routes

/-- The calls a handler has made and what is left of it, where it makes one call on the
repository. -/
inductive OneCall (op : StoreOp) (answer : op.Ret → Answer) :
    List (Prog.Performed HandlerE) → HandlerProg Answer → Prop
  | calling (k : op.Ret → HandlerProg Answer) : OneCall op answer [] (.act (.store op) k)
  | done (r : op.Ret) : OneCall op answer [⟨.store op, r⟩] (.pure (answer r))

/-- A handler that fails before it makes any call. -/
def Rejected (log : List (Prog.Performed HandlerE)) (rest : HandlerProg Answer) : Prop :=
  log = [] ∧ ∃ e, rest = .pure (.error e)

/-- What a create answers at once when its key was not reserved for it. -/
def told : Lookup → Option Answer
  | .reserved => none
  | .inFlight => some (.error .idempotencyInFlight)
  | .bodyMismatch => some (.error .idempotencyReused)
  | .replay found => some (.ok (replay found))

/-- The calls a create under a key has made and what is left of it. -/
inductive Keyed (parse : String → Option ProfileInput) (user : UserId) (key body : String) :
    List (Prog.Performed HandlerE) → HandlerProg Answer → Prop
  | arrived (k : Lookup → HandlerProg Answer) :
    Keyed parse user key body [] (.act (.begin user.asStr key body) k)
  | refused (found : Lookup) (answer : Answer) : told found = some answer →
    Keyed parse user key body [⟨.begin user.asStr key body, found⟩] (.pure answer)
  | rejected (k : Unit → HandlerProg Answer) : Keyed parse user key body
      [⟨.begin user.asStr key body, .reserved⟩] (.act (.abandon user.asStr key) k)
  | abandoned (e : ProfileError) : Keyed parse user key body
      [⟨.begin user.asStr key body, .reserved⟩, ⟨.abandon user.asStr key, ()⟩] (.pure (.error e))
  | creating (input : ProfileInput) (k : (StoreOp.create user input).Ret → HandlerProg Answer) :
    parse body = some input → Keyed parse user key body
      [⟨.begin user.asStr key body, .reserved⟩] (.act (.store (.create user input)) k)
  | created (input : ProfileInput) (p : Profile) (k : Unit → HandlerProg Answer) :
    parse body = some input → Keyed parse user key body
      [⟨.begin user.asStr key body, .reserved⟩, ⟨.store (.create user input), .ok (some p)⟩]
      (.act (.finish user.asStr key body (recorded p)) k)
  | finished (input : ProfileInput) (p : Profile) :
    parse body = some input → Keyed parse user key body
      [⟨.begin user.asStr key body, .reserved⟩, ⟨.store (.create user input), .ok (some p)⟩,
        ⟨.finish user.asStr key body (recorded p), ()⟩] (.pure (.ok (replay (recorded p))))
  | failing (input : ProfileInput) (r : (StoreOp.create user input).Ret)
    (k : Unit → HandlerProg Answer) : parse body = some input → (∀ p, r ≠ .ok (some p)) →
    Keyed parse user key body
      [⟨.begin user.asStr key body, .reserved⟩, ⟨.store (.create user input), r⟩]
      (.act (.abandon user.asStr key) k)
  | failed (input : ProfileInput) (r : (StoreOp.create user input).Ret) (e : ProfileError) :
    parse body = some input → (∀ p, r ≠ .ok (some p)) → Keyed parse user key body
      [⟨.begin user.asStr key body, .reserved⟩, ⟨.store (.create user input), r⟩,
        ⟨.abandon user.asStr key, ()⟩] (.pure (.error e))

variable {parse : String → Option ProfileInput} {user : UserId} {headers : HeaderMap}
  {key body : String} {log : List (Prog.Performed HandlerE)} {rest : HandlerProg Answer}

/-- What precedes the outcome of a create: nothing, or the call on the repository. -/
lemma follows_createOnce {k : Except ProfileError Recorded → HandlerProg Answer}
    (h : (createOnce parse user body k).Follows log rest) :
    (∃ e, (k (.error e)).Follows log rest) ∨
      ∃ input, parse body = some input ∧
        ((∃ k', log = [] ∧ rest = .act (.store (.create user input)) k') ∨
          ∃ r log', log = ⟨.store (.create user input), r⟩ :: log' ∧
            (k (Routes.created r)).Follows log' rest) := by
  unfold createOnce at h
  split at h
  · exact .inl ⟨_, h⟩
  · rename_i input hparse
    split at h
    · exact .inl ⟨_, h⟩
    · refine .inr ⟨input, hparse, ?_⟩
      rcases Prog.follows_act_iff.mp h with ⟨rfl, rfl⟩ | ⟨r, log', rfl, h'⟩
      · exact .inl ⟨_, rfl, rfl⟩
      · exact .inr ⟨r, log', rfl, h'⟩

/-- A failed create under a key releases the key and answers its error. -/
lemma follows_settle_error {e : ProfileError}
    (h : (settle user key body (.error e)).Follows log rest) :
    (log = [] ∧ ∃ k, rest = .act (.abandon user.asStr key) k) ∨
      log = [⟨.abandon user.asStr key, ()⟩] ∧ rest = .pure (.error e) := by
  rcases Prog.follows_act_iff.mp h with ⟨rfl, rfl⟩ | ⟨u, log', rfl, h₁⟩
  · exact .inl ⟨rfl, _, rfl⟩
  · obtain ⟨rfl, rfl⟩ := Prog.follows_pure_iff.mp h₁
    exact .inr ⟨rfl, rfl⟩

/-- A create under a key, after the repository answered. -/
lemma keyed_of_settle {input : ProfileInput} (hparse : parse body = some input)
    {r : (StoreOp.create user input).Ret}
    (h : (settle user key body (Routes.created r)).Follows log rest) :
    Keyed parse user key body (⟨.begin user.asStr key body, .reserved⟩ ::
      ⟨.store (.create user input), r⟩ :: log) rest := by
  have hfail : ∀ e, (∀ p, r ≠ .ok (some p)) → Routes.created r = .error e →
      Keyed parse user key body (⟨.begin user.asStr key body, .reserved⟩ ::
        ⟨.store (.create user input), r⟩ :: log) rest := by
    intro e hr he
    rw [he] at h
    rcases follows_settle_error h with ⟨rfl, k, rfl⟩ | ⟨rfl, rfl⟩
    · exact .failing input r k hparse hr
    · exact .failed input r e hparse hr
  match r with
  | .error e => exact hfail _ (by simp) rfl
  | .ok none => exact hfail _ (by simp) rfl
  | .ok (some p) =>
    rcases Prog.follows_act_iff.mp h with ⟨rfl, rfl⟩ | ⟨u, log', rfl, h₁⟩
    · exact .created input p _ hparse
    · obtain ⟨rfl, rfl⟩ := Prog.follows_pure_iff.mp h₁
      exact .finished input p hparse

/-- A create under a key. -/
theorem keyed_of_follows (hkey : idempotencyKey headers = some key)
    (h : (create parse user headers body).Follows log rest) :
    Keyed parse user key body log rest := by
  simp only [create, hkey] at h
  rcases Prog.follows_act_iff.mp h with ⟨rfl, rfl⟩ | ⟨found, log', rfl, h₁⟩
  · exact .arrived _
  · cases found with
    | inFlight =>
      obtain ⟨rfl, rfl⟩ := Prog.follows_pure_iff.mp h₁
      exact .refused _ _ rfl
    | bodyMismatch =>
      obtain ⟨rfl, rfl⟩ := Prog.follows_pure_iff.mp h₁
      exact .refused _ _ rfl
    | replay found =>
      obtain ⟨rfl, rfl⟩ := Prog.follows_pure_iff.mp h₁
      exact .refused _ _ rfl
    | reserved =>
      rcases follows_createOnce h₁ with
        ⟨e, h₂⟩ | ⟨input, hparse, ⟨k, rfl, rfl⟩ | ⟨r, log₂, rfl, h₂⟩⟩
      · rcases follows_settle_error h₂ with ⟨rfl, k, rfl⟩ | ⟨rfl, rfl⟩
        · exact .rejected k
        · exact .abandoned e
      · exact .creating input k hparse
      · exact keyed_of_settle hparse h₂

/-- What follows from how `begin` was answered. -/
lemma Keyed.of_begin {u k bd : String} {found : Lookup} (h : Keyed parse user key body log rest)
    (hc : ⟨.begin u k bd, found⟩ ∈ log) : u = user.asStr ∧ k = key ∧ bd = body ∧
      (found = .reserved ∨ ∃ answer, told found = some answer ∧
        log = [⟨.begin user.asStr key body, found⟩] ∧ rest = .pure answer) := by
  cases h with
  | refused found' answer htold =>
    simp at hc
    obtain ⟨⟨rfl, rfl, rfl⟩, rfl⟩ := hc
    exact ⟨rfl, rfl, rfl, .inr ⟨answer, htold, rfl, rfl⟩⟩
  | arrived k' => simp at hc
  | _ =>
    simp at hc
    obtain ⟨⟨rfl, rfl, rfl⟩, rfl⟩ := hc
    exact ⟨rfl, rfl, rfl, .inl rfl⟩

/-- What precedes `finish`, and what follows it. -/
lemma Keyed.of_finish {u k bd : String} {found : Recorded}
    (h : Keyed parse user key body log rest) (hc : ⟨.finish u k bd found, ()⟩ ∈ log) :
    u = user.asStr ∧ k = key ∧ bd = body ∧ ∃ input p, found = recorded p ∧
      log = [⟨.begin user.asStr key body, .reserved⟩,
        ⟨.store (.create user input), .ok (some p)⟩,
        ⟨.finish user.asStr key body (recorded p), ()⟩] ∧
      rest = .pure (.ok (replay (recorded p))) := by
  cases h with
  | finished input p hparse =>
    simp at hc
    obtain ⟨rfl, rfl, rfl, rfl⟩ := hc
    exact ⟨rfl, rfl, rfl, input, p, rfl, rfl, rfl⟩
  | _ => simp at hc

/-- A call on the repository. -/
def HandlerAct.IsStore : HandlerAct → Prop
  | .store _ => True
  | _ => False

/-- A create under a key that returned has called `begin`. -/
lemma Keyed.begun {a : Answer} (h : Keyed parse user key body log (.pure a)) :
    ∃ found, ⟨.begin user.asStr key body, found⟩ ∈ log := by
  cases h <;> exact ⟨_, List.mem_cons_self ..⟩

/-- A create that abandoned its key made no call on the repository that succeeded. -/
lemma Keyed.of_abandon {u k : String} (h : Keyed parse user key body log rest)
    (hc : ⟨.abandon u k, ()⟩ ∈ log) : (∃ a, rest = .pure a) ∧
      ((∀ c ∈ log, ¬c.act.IsStore) ∨ ∃ input r,
        ⟨.store (.create user input), r⟩ ∈ log ∧ ∀ p, r ≠ .ok (some p)) := by
  cases h with
  | abandoned e =>
    refine ⟨⟨_, rfl⟩, .inl ?_⟩
    simp [HandlerAct.IsStore]
  | failed input r e hparse hr => exact ⟨⟨_, rfl⟩, .inr ⟨input, r, by simp, hr⟩⟩
  | _ => simp at hc

/-- A call that gives a key up. -/
def HandlerAct.IsRelease : HandlerAct → Prop
  | .finish _ _ _ _ => True
  | .abandon _ _ => True
  | _ => False

/-- A create that is about to give its key up was reserved it, and still has it. -/
lemma Keyed.of_release {a : HandlerAct} {k : a.Ans → HandlerProg Answer}
    (h : Keyed parse user key body log (.act a k)) (ha : a.IsRelease) :
    (∀ u k bd found, a = .finish u k bd found → u = user.asStr ∧ k = key ∧ bd = body) ∧
      (∀ u k, a = .abandon u k → u = user.asStr ∧ k = key) ∧
      ⟨.begin user.asStr key body, .reserved⟩ ∈ log ∧ ∀ c ∈ log, ¬c.act.IsRelease := by
  cases h with
  | arrived k => exact absurd ha id
  | creating input k hparse => exact absurd ha id
  | _ => simp +contextual [HandlerAct.IsRelease, eq_comm]

/-- How a create gave its key up. -/
lemma Keyed.release_mem {c : Prog.Performed HandlerE} (h : Keyed parse user key body log rest)
    (hc : c ∈ log) (hrel : c.act.IsRelease) :
    (∃ found, c = ⟨.finish user.asStr key body found, ()⟩) ∨ c = ⟨.abandon user.asStr key, ()⟩ := by
  have hother : ∀ {a : HandlerAct} {r : a.Ans}, c = ⟨a, r⟩ → ¬a.IsRelease → False := by
    rintro a r rfl hn
    exact hn hrel
  cases h <;> simp only [List.mem_cons, List.not_mem_nil, or_false] at hc
  case refused => exact (hother hc id).elim
  case rejected => exact (hother hc id).elim
  case creating => exact (hother hc id).elim
  case created => exact (hc.elim (hother · id) (hother · id)).elim
  case failing => exact (hc.elim (hother · id) (hother · id)).elim
  case abandoned => exact .inr (hc.resolve_left (hother · id))
  case finished => exact .inl ⟨_, (hc.resolve_left (hother · id)).resolve_left (hother · id)⟩
  case failed => exact .inr ((hc.resolve_left (hother · id)).resolve_left (hother · id))

/-- A create without a key. -/
theorem keyless_of_follows (hkey : idempotencyKey headers = none)
    (h : (create parse user headers body).Follows log rest) :
    Rejected log rest ∨ ∃ input, parse body = some input ∧
      OneCall (.create user input) (fun r => (Routes.created r).map replay) log rest := by
  simp only [create, hkey] at h
  rcases follows_createOnce h with ⟨e, h'⟩ | ⟨input, hparse, ⟨k, rfl, rfl⟩ | ⟨r, log', rfl, h'⟩⟩
  · obtain ⟨rfl, rfl⟩ := Prog.follows_pure_iff.mp h'
    exact .inl ⟨rfl, e, rfl⟩
  · exact .inr ⟨input, hparse, .calling k⟩
  · obtain ⟨rfl, rfl⟩ := Prog.follows_pure_iff.mp h'
    exact .inr ⟨input, hparse, .done r⟩

theorem read_of_follows (h : (read user).Follows log rest) :
    OneCall (.get user) (fun r => match r with
      | .error e => .error (.store e)
      | .ok none => .error .notFound
      | .ok (some profile) => .ok (withEtag 200 profile)) log rest := by
  rcases Prog.follows_act_iff.mp h with ⟨rfl, rfl⟩ | ⟨r, log', rfl, h'⟩
  · exact .calling _
  · split at h' <;> obtain ⟨rfl, rfl⟩ := Prog.follows_pure_iff.mp h' <;> exact .done _

theorem history_of_follows (h : (history user).Follows log rest) :
    OneCall (.history user) (fun r => match r with
      | .error e => .error (.store e)
      | .ok [] => .error .notFound
      | .ok (first :: rest) => .ok (.json 200 [] (historyToJson (first :: rest)))) log rest := by
  rcases Prog.follows_act_iff.mp h with ⟨rfl, rfl⟩ | ⟨r, log', rfl, h'⟩
  · exact .calling _
  · split at h' <;> obtain ⟨rfl, rfl⟩ := Prog.follows_pure_iff.mp h' <;> exact .done _

theorem update_of_follows {input : ProfileInput}
    (h : (update user headers input).Follows log rest) :
    Rejected log rest ∨ ∃ expected, parseIfMatch headers = .ok expected ∧
      OneCall (.update user expected input) updated log rest := by
  unfold update at h
  split at h
  · obtain ⟨rfl, rfl⟩ := Prog.follows_pure_iff.mp h
    exact .inl ⟨rfl, _, rfl⟩
  · split at h
    · obtain ⟨rfl, rfl⟩ := Prog.follows_pure_iff.mp h
      exact .inl ⟨rfl, _, rfl⟩
    · rename_i expected hexpected
      refine .inr ⟨expected, hexpected, ?_⟩
      rcases Prog.follows_act_iff.mp h with ⟨rfl, rfl⟩ | ⟨r, log', rfl, h'⟩
      · exact .calling _
      · obtain ⟨rfl, rfl⟩ := Prog.follows_pure_iff.mp h'
        exact .done r

lemma OneCall.isStore {op : StoreOp} {answer : op.Ret → Answer} (h : OneCall op answer log rest) :
    (∀ c ∈ log, c.act.IsStore) ∧ ∀ a k, rest = .act a k → a.IsStore := by
  cases h with
  | calling k =>
    refine ⟨by simp, fun a k' h => ?_⟩
    cases h
    trivial
  | done r =>
    refine ⟨fun c hc => ?_, fun a k h => by cases h⟩
    rw [List.mem_singleton.mp hc]
    trivial

lemma Rejected.isStore (h : Rejected log rest) :
    (∀ c ∈ log, c.act.IsStore) ∧ ∀ a k, rest = .act a k → a.IsStore := by
  obtain ⟨rfl, e, rfl⟩ := h
  exact ⟨by simp, fun a k h => by cases h⟩

/-- Only creates under a key call the idempotency store. -/
theorem keyed_or_isStore {request : Request} (h : (request.handler parse).Follows log rest) :
    (∃ user headers key body, request = .create user headers body ∧
      idempotencyKey headers = some key ∧ Keyed parse user key body log rest) ∨
    (∀ c ∈ log, c.act.IsStore) ∧ ∀ a k, rest = .act a k → a.IsStore := by
  cases request with
  | create user headers body =>
    cases hkey : idempotencyKey headers with
    | some key => exact .inl ⟨user, headers, key, body, rfl, hkey, keyed_of_follows hkey h⟩
    | none =>
      rcases keyless_of_follows hkey h with h | ⟨input, -, h⟩
      · exact .inr h.isStore
      · exact .inr h.isStore
  | read user => exact .inr (read_of_follows h).isStore
  | update user headers input =>
    rcases update_of_follows h with h | ⟨expected, -, h⟩
    · exact .inr h.isStore
    · exact .inr h.isStore
  | history user => exact .inr (history_of_follows h).isStore

/-- The call a request makes on the repository, if it makes one. -/
def Request.Calls (parse : String → Option ProfileInput) : Request → StoreOp → Prop
  | .create user _ body, op => ∃ input, parse body = some input ∧ op = .create user input
  | .read user, op => op = .get user
  | .update user headers input, op =>
    ∃ expected, parseIfMatch headers = .ok expected ∧ op = .update user expected input
  | .history user, op => op = .history user

/-- A handler has called `op` on the repository, or is about to. -/
def AtStore (op : StoreOp) (log : List (Prog.Performed HandlerE)) (rest : HandlerProg Answer) :
    Prop :=
  (∃ r, ⟨.store op, r⟩ ∈ log) ∨ ∃ k, rest = .act (.store op) k

lemma Rejected.not_atStore {op : StoreOp} (h : Rejected log rest) : ¬AtStore op log rest := by
  obtain ⟨rfl, e, rfl⟩ := h
  rintro (⟨r, hr⟩ | ⟨k, hk⟩)
  · cases hr
  · cases hk

lemma OneCall.eq_of_atStore {op op' : StoreOp} {answer : op.Ret → Answer}
    (h : OneCall op answer log rest) (hop : AtStore op' log rest) : op' = op := by
  cases h with
  | calling k =>
    rcases hop with ⟨r, hr⟩ | ⟨k', hk⟩
    · cases hr
    · cases hk
      rfl
  | done r =>
    rcases hop with ⟨r', hr⟩ | ⟨k', hk⟩
    · exact HandlerAct.store.inj (congrArg Prog.Performed.act (List.mem_singleton.mp hr))
    · cases hk

lemma Keyed.eq_of_atStore {op : StoreOp} (h : Keyed parse user key body log rest)
    (hop : AtStore op log rest) : ∃ input, parse body = some input ∧ op = .create user input := by
  have hstore : ∀ {input : ProfileInput} {r : (StoreOp.create user input).Ret} {r' : op.Ret},
      (⟨.store op, r'⟩ : Prog.Performed HandlerE) = ⟨.store (.create user input), r⟩ →
      op = .create user input := fun h => HandlerAct.store.inj (congrArg Prog.Performed.act h)
  cases h <;> simp only [AtStore, List.mem_cons, List.not_mem_nil, or_false] at hop
  case creating input k hparse =>
    rcases hop with ⟨r, hr⟩ | ⟨k', hk⟩
    · cases hr
    · cases hk
      exact ⟨input, hparse, rfl⟩
  case created input p k hparse =>
    rcases hop with ⟨r, hr | hr⟩ | ⟨k', hk⟩
    · cases hr
    · exact ⟨input, hparse, hstore hr⟩
    · cases hk
  case finished input p hparse =>
    rcases hop with ⟨r, hr | hr | hr⟩ | ⟨k', hk⟩
    · cases hr
    · exact ⟨input, hparse, hstore hr⟩
    · cases hr
    · cases hk
  case failing input r₀ k hparse hr₀ =>
    rcases hop with ⟨r, hr | hr⟩ | ⟨k', hk⟩
    · cases hr
    · exact ⟨input, hparse, hstore hr⟩
    · cases hk
  case failed input r₀ e hparse hr₀ =>
    rcases hop with ⟨r, hr | hr | hr⟩ | ⟨k', hk⟩
    · cases hr
    · exact ⟨input, hparse, hstore hr⟩
    · cases hr
    · cases hk
  all_goals
    rcases hop with ⟨r, hr⟩ | ⟨k', hk⟩
    · simp at hr
    · cases hk

/-- Every request calls what its route says. -/
theorem calls_of_follows {request : Request} (h : (request.handler parse).Follows log rest)
    {op : StoreOp} (hop : AtStore op log rest) : request.Calls parse op := by
  cases request with
  | create user headers body =>
    cases hkey : idempotencyKey headers with
    | some key => exact (keyed_of_follows hkey h).eq_of_atStore hop
    | none =>
      rcases keyless_of_follows hkey h with h | ⟨input, hparse, h⟩
      · exact absurd hop h.not_atStore
      · exact ⟨input, hparse, h.eq_of_atStore hop⟩
  | read user => exact (read_of_follows h).eq_of_atStore hop
  | update user headers input =>
    rcases update_of_follows h with h | ⟨expected, hexpected, h⟩
    · exact absurd hop h.not_atStore
    · exact ⟨expected, hexpected, h.eq_of_atStore hop⟩
  | history user => exact (history_of_follows h).eq_of_atStore hop

end Knova
