import Knova.Profile.Responses

/-!
# The service as its clients see it

To its clients the service is one object, whose calls are the requests it is sent and whose
results are the answers of its handlers. This file says what that object may answer, and which
history of requests and answers a run of the service shows.
-/

namespace Knova

open Library Routes

/-! ### What a request asks of the repository -/

/-- The call a request makes on the repository, or why it makes none. -/
def Request.op (parse : String → Option ProfileInput) : Request → Except ProfileError StoreOp
  | .create userId _ body =>
    match parse body with
    | none => .error .malformedBody
    | some input =>
      match input.validate with
      | .error reason => .error (.invalid reason)
      | .ok () => .ok (.create userId input)
  | .read userId => .ok (.get userId)
  | .update userId headers input =>
    match input.validate with
    | .error reason => .error (.invalid reason)
    | .ok () =>
      match parseIfMatch headers with
      | .error e => .error e
      | .ok expected => .ok (.update userId expected input)
  | .history userId => .ok (.history userId)

/-- Why a request is refused before the repository is called is said by its parts alone. -/
lemma Request.op_error {parse : String → Option ProfileInput} {request : Request}
    {e : ProfileError} (h : request.op parse = .error e) : e = .malformedBody ∨
      (∃ reason, e = .invalid reason) ∨ e = .preconditionRequired ∨ e = .malformedPrecondition := by
  cases request with
  | create user headers body =>
    simp only [op] at h
    split at h
    · exact .inl (Except.error.inj h).symm
    · split at h <;> cases h
      exact .inr (.inl ⟨_, rfl⟩)
  | read user => cases h
  | update user headers input =>
    simp only [op, parseIfMatch] at h
    split at h
    · cases h
      exact .inr (.inl ⟨_, rfl⟩)
    · split at h
      · rename_i e' he
        cases h
        split at he
        · exact .inr (.inr (.inl (Except.error.inj he).symm))
        · split at he <;> cases he
          exact .inr (.inr (.inr rfl))
      · cases h
  | history user => cases h

/-- What is answered to what the call returned. -/
def StoreOp.answer : (op : StoreOp) → op.Ret → Answer
  | .create _ _, r => (created r).map replay
  | .get _, r =>
    match r with
    | .error e => .error (.store e)
    | .ok none => .error .notFound
    | .ok (some profile) => .ok (withEtag 200 profile)
  | .update _ _ _, r => updated r
  | .history _, r =>
    match r with
    | .error e => .error (.store e)
    | .ok [] => .error .notFound
    | .ok (first :: rest) => .ok (.json 200 [] (historyToJson (first :: rest)))

/-- How a request came to its answer, from the calls its handler made. -/
inductive Outcome (parse : String → Option ProfileInput) (request : Request)
    (log : List (Prog.Performed HandlerE)) : Answer → Prop
  | stored (op : StoreOp) (r : op.Ret) : request.op parse = .ok op → ⟨.store op, r⟩ ∈ log →
    Outcome parse request log (op.answer r)
  | rejected {e : ProfileError} : request.op parse = .error e → (∀ c ∈ log, ¬c.act.IsStore) →
    Outcome parse request log (.error e)
  | told {user : UserId} {headers : HeaderMap} {key body : String} {found : Lookup}
    {answer : Answer} : request = .create user headers body → idempotencyKey headers = some key →
    log = [⟨.begin user.asStr key body, found⟩] → told found = some answer →
    Outcome parse request log answer

section Handlers

variable {parse : String → Option ProfileInput}

/-- A create goes on with why it is refused, or calls the repository and goes on with that. -/
lemma createOnce_cases (parse : String → Option ProfileInput) (user : UserId)
    (headers : HeaderMap) (body : String)
    (k : Except ProfileError Recorded → HandlerProg Answer) :
    (∃ e, (Request.create user headers body).op parse = .error e ∧
      createOnce parse user body k = k (.error e)) ∨
    ∃ input, (Request.create user headers body).op parse = .ok (.create user input) ∧
      createOnce parse user body k =
        .act (.store (.create user input)) fun outcome => k (created outcome) := by
  cases hparse : parse body with
  | none => exact .inl ⟨.malformedBody, by simp [Request.op, hparse], by simp [createOnce, hparse]⟩
  | some input =>
    cases hvalidate : input.validate with
    | error reason =>
      exact .inl ⟨.invalid reason, by simp [Request.op, hparse, hvalidate],
        by simp [createOnce, hparse, hvalidate]⟩
    | ok =>
      exact .inr ⟨input, by simp [Request.op, hparse, hvalidate],
        by simp [createOnce, hparse, hvalidate]⟩

/-- An update is refused before it is stored, or calls the repository. -/
lemma update_cases (parse : String → Option ProfileInput) (user : UserId) (headers : HeaderMap)
    (input : ProfileInput) :
    (∃ e, (Request.update user headers input).op parse = .error e ∧
      update user headers input = .pure (.error e)) ∨
    ∃ expected, (Request.update user headers input).op parse = .ok (.update user expected input) ∧
      update user headers input =
        .act (.store (.update user expected input)) fun outcome => .pure (updated outcome) := by
  cases hvalidate : input.validate with
  | error reason =>
    exact .inl ⟨.invalid reason, by simp [Request.op, hvalidate], by simp [update, hvalidate]⟩
  | ok =>
    cases hmatch : parseIfMatch headers with
    | error e =>
      exact .inl ⟨e, by simp [Request.op, hvalidate, hmatch], by simp [update, hvalidate, hmatch]⟩
    | ok expected =>
      exact .inr ⟨expected, by simp [Request.op, hvalidate, hmatch],
        by simp [update, hvalidate, hmatch]⟩

/-- What a settled create answers is what it came to. -/
lemma settle_answer {user : UserId} {key body : String} {input : ProfileInput}
    {r : (StoreOp.create user input).Ret} {log : List (Prog.Performed HandlerE)}
    {request : Request} (hop : request.op parse = .ok (.create user input))
    (hmem : ⟨.store (.create user input), r⟩ ∈ log) :
    (settle user key body (created r)).Ends (Outcome parse request) log := by
  have hstored : ∀ c, Outcome parse request (log ++ [c]) ((StoreOp.create user input).answer r) :=
    fun c => .stored _ r hop (List.mem_append_left _ hmem)
  rcases r with e | (_ | p)
  · exact fun _ => hstored _
  · exact fun _ => hstored _
  · exact fun _ => hstored _

/-- Every handler comes to its answer in one of the three ways. -/
theorem Request.ends_handler (parse : String → Option ProfileInput) (request : Request) :
    (request.handler parse).Ends (Outcome parse request) [] := by
  cases request with
  | create user headers body =>
    simp only [handler, Routes.create]
    split
    · rcases createOnce_cases parse user headers body fun outcome => .pure (outcome.map replay) with
        ⟨e, hop, heq⟩ | ⟨input, hop, heq⟩
      · rw [heq]
        exact .rejected hop (by simp)
      · rw [heq]
        exact fun r => .stored (.create user input) r hop (by simp)
    · rename_i key hkey
      intro found
      cases found with
      | reserved =>
        rcases createOnce_cases parse user headers body (settle user key body) with
          ⟨e, hop, heq⟩ | ⟨input, hop, heq⟩
        · dsimp only
          rw [heq]
          exact fun _ => .rejected hop (by simp [HandlerAct.IsStore])
        · dsimp only
          rw [heq]
          exact fun r => settle_answer hop (by simp)
      | inFlight | bodyMismatch | replay => exact .told rfl hkey rfl rfl
  | read user =>
    intro r
    rcases r with e | (_ | p)
    · exact .stored (.get user) (.error e) rfl (by simp)
    · exact .stored (.get user) (.ok none) rfl (by simp)
    · exact .stored (.get user) (.ok (some p)) rfl (by simp)
  | update user headers input =>
    simp only [handler]
    rcases update_cases parse user headers input with ⟨e, hop, heq⟩ | ⟨expected, hop, heq⟩
    · rw [heq]
      exact .rejected hop (by simp)
    · rw [heq]
      exact fun r => .stored (.update user expected input) r hop (by simp)
  | history user =>
    intro r
    rcases r with e | (_ | ⟨first, rest⟩)
    · exact .stored (.history user) (.error e) rfl (by simp)
    · exact .stored (.history user) (.ok []) rfl (by simp)
    · exact .stored (.history user) (.ok (first :: rest)) rfl (by simp)

/-- A call on the repository is the one the request asks for. -/
def Asked (parse : String → Option ProfileInput) (request : Request) (a : HandlerAct) : Prop :=
  ∀ op, a = .store op → request.op parse = .ok op

lemma asked_of_not_isStore {request : Request} {a : HandlerAct} (ha : ¬a.IsStore) :
    Asked parse request a := by
  rintro op rfl
  exact absurd trivial ha

lemma asked_store {request : Request} {op : StoreOp} (h : request.op parse = .ok op) :
    Asked parse request (.store op) := by
  rintro op' heq
  rw [← HandlerAct.store.inj heq]
  exact h

/-- The only call a handler makes on the repository is the one its request asks for. -/
theorem Request.all_asked (parse : String → Option ProfileInput) (request : Request) :
    (request.handler parse).All (Asked parse request) := by
  cases request with
  | create user headers body =>
    have honce : ∀ k : Except ProfileError Recorded → HandlerProg Answer,
        (∀ outcome, (k outcome).All (Asked parse (.create user headers body))) →
        (createOnce parse user body k).All (Asked parse (.create user headers body)) := by
      intro k hk
      rcases createOnce_cases parse user headers body k with ⟨e, hop, heq⟩ | ⟨input, hop, heq⟩
      · rw [heq]
        exact hk _
      · rw [heq]
        exact ⟨asked_store hop, fun r => hk _⟩
    simp only [handler, Routes.create]
    split
    · exact honce _ fun _ => trivial
    · refine ⟨asked_of_not_isStore id, fun found => ?_⟩
      cases found with
      | reserved =>
        refine honce _ fun outcome => ?_
        cases outcome with
        | error e => exact ⟨asked_of_not_isStore id, fun _ => trivial⟩
        | ok found => exact ⟨asked_of_not_isStore id, fun _ => trivial⟩
      | inFlight | bodyMismatch | replay => trivial
  | read user =>
    refine ⟨asked_store rfl, fun r => ?_⟩
    rcases r with e | (_ | p) <;> trivial
  | update user headers input =>
    simp only [handler]
    rcases update_cases parse user headers input with ⟨e, hop, heq⟩ | ⟨expected, hop, heq⟩
    · rw [heq]
      trivial
    · rw [heq]
      exact ⟨asked_store hop, fun r => trivial⟩
  | history user =>
    refine ⟨asked_store rfl, fun r => ?_⟩
    rcases r with e | (_ | ⟨first, rest⟩) <;> trivial

end Handlers

/-! ### What the service is for -/

/-- The accepted writes of every user, and the key and the body of the create they began with,
where it came under a key. -/
structure Accounts where
  histories : Histories
  createdWith : UserId → Option (String × String)

/-- No user has a profile. -/
def Accounts.empty : Accounts := ⟨Histories.empty, fun _ => none⟩

/-- The idempotency key of a create, and the body it came with. -/
def Request.keyed : Request → Option (String × String)
  | .create _ headers body => (idempotencyKey headers).map fun key => (key, body)
  | _ => none

/-- The accounts once the call of a request has returned and left `h`. -/
def Accounts.after (s : Accounts) (request : Request) (h : Histories) :
    (op : StoreOp) → op.Ret → Accounts
  | .create user _, .ok (some _) => ⟨h, Function.update s.createdWith user request.keyed⟩
  | _, _ => ⟨h, s.createdWith⟩

@[simp] lemma Accounts.after_histories {s : Accounts} {request : Request} {h : Histories}
    {op : StoreOp} {r : op.Ret} : (s.after request h op r).histories = h := by
  unfold after
  split <;> rfl

/-- The service as an object: requests, and what their handlers return. -/
abbrev Requests : Signature := ⟨Request, fun _ => Answer⟩

/-- What the service may answer to a request, and the accounts it leaves. -/
inductive Serves (cfg : Settings) : Spec Requests Accounts
  /-- The request makes no sense, and nothing happens. -/
  | rejected {s : Accounts} {request : Request} {e : ProfileError} :
    request.op cfg.parse = .error e → Serves cfg s request (.error e) s
  /-- The repository is called, once, and answers as it must. -/
  | stored {s : Accounts} {request : Request} {op : StoreOp} {env : Env} {r : op.Ret}
    {h : Histories} : request.op cfg.parse = .ok op → Histories.contract s.histories (op, env) r h →
    Serves cfg s request (op.answer r) (s.after request h op r)
  /-- A create under a key may meet another one under it, as `Conflicts` says, and nothing
  happens. -/
  | refused {s : Accounts} {request : Request} {answer : Answer} : request.keyed.isSome →
    answer = .error .idempotencyInFlight ∨ answer = .error .idempotencyReused →
    Serves cfg s request answer s
  /-- A create under the key of the one that succeeded is answered what that one was. -/
  | replayed {s : Accounts} {user : UserId} {headers : HeaderMap} {key body body' : String}
    {first : Revision} : idempotencyKey headers = some key →
    s.createdWith user = some (key, body') → cfg.fingerprint body' = cfg.fingerprint body →
    (s.histories user).head? = some first →
    Serves cfg s (.create user headers body) (.ok (replay (recorded (project user first)))) s

/-- The other create that a refusal for a key is due to: one of the same user under the same key,
for the same body or for another one. -/
inductive Conflicts (cfg : Settings) : Request → ProfileError → Request → Prop
  | inFlight {user : UserId} {headers headers' : HeaderMap} {key body body' : String} :
    idempotencyKey headers = some key → idempotencyKey headers' = some key →
    cfg.fingerprint body' = cfg.fingerprint body →
    Conflicts cfg (.create user headers body) .idempotencyInFlight (.create user headers' body')
  | reused {user : UserId} {headers headers' : HeaderMap} {key body body' : String} :
    idempotencyKey headers = some key → idempotencyKey headers' = some key →
    cfg.fingerprint body' ≠ cfg.fingerprint body →
    Conflicts cfg (.create user headers body) .idempotencyReused (.create user headers' body')

/-! ### The history of a run -/

namespace Service

variable {ι : Type} [DecidableEq ι] {b : Backend} {cfg : Settings}

/-- The return of `i`, if its handler is done. -/
def returns (s : Service ι b) (i : ι) : List (HistoryEvent ι Requests) :=
  match s.handler i with
  | some ⟨request, _, .pure a, _⟩ => [.ret i request a]
  | _ => []

/-- What the clients see of a step that led to `s`: a request that is sent, and the return of the
handler that went on. -/
def seen (s : Service ι b) : Event ι → List (HistoryEvent ι Requests)
  | .arrive i request => .invoke i request :: s.returns i
  | .perform i | .resume i => s.returns i
  | _ => []

/-- What the clients see of a run. -/
def history (cfg : Settings) : Service ι b → List (Event ι) → List (HistoryEvent ι Requests)
  | _, [] => []
  | s, e :: es =>
    match step cfg s e with
    | some s' => s'.seen e ++ history cfg s' es
    | none => []

end Service

end Knova
