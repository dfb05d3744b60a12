import Knova.Profile.Rivals
import Knova.Profile.Sessions

/-!
# Every refusal has a cause

What the service refuses it refuses because the request itself asks for it, because the
environment failed, or because of another request: one that was accepted before, or one that
held the same idempotency key at that time. No request is ever in its own way.
-/

namespace Knova

open Library Routes

/-! ### Whose writes a request finds -/

section Orders

variable {ι : Type} {cfg : Settings} {s s' : Accounts} {user : UserId} {rev : Revision}
  {order : List (Library.Entry ι Requests)}

/-- The request was accepted, and is answered with the revision it wrote. -/
inductive Writes (user : UserId) (rev : Revision) : Library.Entry ι Requests → Prop
  | created {i : ι} {headers : HeaderMap} {body : String} : rev.version = .initial →
    Writes user rev ⟨i, .create user headers body, .ok (replay (recorded (project user rev)))⟩
  | updated {i : ι} {headers : HeaderMap} {input : ProfileInput} {expected : Version} :
    parseIfMatch headers = .ok expected → rev.version.get = expected.get + 1 →
    Writes user rev ⟨i, .update user headers input, .ok (withEtag 200 (project user rev))⟩

lemma Request.of_op_update {parse : String → Option ProfileInput} {request : Request}
    {expected : Version} {input : ProfileInput}
    (h : request.op parse = .ok (.update user expected input)) :
    ∃ headers input', request = .update user headers input' ∧
      parseIfMatch headers = .ok expected := by
  cases request with
  | create u headers body =>
    obtain ⟨input', heq⟩ := op_create h
    cases heq
  | update u headers input' =>
    obtain ⟨expected', hmatch, heq⟩ := op_update h
    cases heq
    exact ⟨headers, _, rfl, hmatch⟩
  | read u => cases h
  | history u => cases h

/-- A request writes one revision, or none. -/
lemma Serves.writes {request : Request} {answer : Answer} (h : Serves cfg s request answer s')
    (user : UserId) : s'.histories user = s.histories user ∨
      ∃ rev, s'.histories user = s.histories user ++ [rev] ∧
        ∀ i : ι, Writes user rev ⟨i, request, answer⟩ := by
  rcases h.cases with ⟨-, -, -, -, rfl⟩ | ⟨-, -, -, -, -, -, -, -, -, rfl⟩ |
    ⟨op, env, r, hop, hc, rfl⟩
  · exact .inl rfl
  · exact .inl rfl
  · obtain ⟨hstep, -⟩ := Histories.contract_step (e := ⟨(), (op, env), r⟩) hc user
    cases hw : Histories.writtenFor user (⟨(), (op, env), r⟩ : Library.Entry Unit StoreCalls) with
    | none =>
      rw [hw] at hstep
      exact .inl (hstep.trans (List.append_nil _))
    | some rev =>
      rw [hw] at hstep
      refine .inr ⟨rev, hstep, fun i => ?_⟩
      have hwritten := Histories.writtenFor_eq_some.mp hw
      cases op with
      | create u input =>
        rcases r with e | (_ | p)
        · cases hwritten
        · cases hwritten
        · obtain ⟨rfl, rfl⟩ := Prod.mk.inj (Option.some.inj hwritten)
          obtain ⟨headers, body, rfl⟩ := Request.of_op_create hop
          obtain ⟨-, rfl⟩ := Histories.contract_create hc
          exact .created rfl
      | update u expected input =>
        rcases r with e | (p | v | _)
        · cases hwritten
        · obtain ⟨rfl, rfl⟩ := Prod.mk.inj (Option.some.inj hwritten)
          obtain ⟨headers, input', rfl, hmatch⟩ := Request.of_op_update hop
          obtain ⟨⟨last, -, rfl⟩, hversion, hp⟩ := Histories.contract_update hc
          have hanswer : (StoreOp.update u last.version input).answer (.ok (.applied p)) =
              .ok (withEtag 200 (project u (revision env.nowMs p.version input))) := by
            rw [← hp]
            rfl
          rw [hanswer]
          exact .updated hmatch hversion
        · cases hwritten
        · cases hwritten
      | get u => cases hwritten
      | history u => cases hwritten

/-- Every revision was written by an accepted request. -/
theorem writes_of_legal (hl : Legal (Serves cfg) Accounts.empty order s)
    (h : rev ∈ s.histories user) : ∃ d ∈ order, Writes user rev d := by
  induction hl with
  | nil => cases h
  | snoc d _ hs ih =>
    rcases hs.writes (ι := ι) user with heq | ⟨rev', heq, hwrites⟩
    · rw [heq] at h
      obtain ⟨c, hc, hw⟩ := ih h
      exact ⟨c, List.mem_append_left _ hc, hw⟩
    · rw [heq] at h
      rcases List.mem_append.mp h with h | h
      · obtain ⟨c, hc, hw⟩ := ih h
        exact ⟨c, List.mem_append_left _ hc, hw⟩
      · obtain rfl := List.mem_singleton.mp h
        exact ⟨d, List.mem_append_right _ (List.mem_singleton_self _), hwrites d.id⟩

/-- A create is told that there is a profile only where there is a revision. -/
lemma Histories.contract_exists {h h' : Histories} {input : ProfileInput} {env : Env}
    (hc : contract h (.create user input, env) (.ok none) h') : h user ≠ [] := by
  rcases hc with hc | ⟨⟨e, he⟩, -⟩
  · simp only [apply] at hc
    split at hc
    · cases (Prod.mk.inj hc).1
    · rename_i heq
      rw [heq]
      exact List.cons_ne_nil _ _
  · cases he

/-- An update is never told of the version it named. -/
lemma Histories.contract_stale_ne {h h' : Histories} {expected v : Version} {input : ProfileInput}
    {env : Env} (hc : contract h (.update user expected input, env) (.ok (.stale v)) h') :
    v ≠ expected := by
  rcases hc with hc | ⟨⟨e, he⟩, -⟩
  · simp only [apply] at hc
    split at hc
    · cases (Prod.mk.inj hc).1
    · split at hc
      · rename_i hne
        cases (Prod.mk.inj hc).1
        exact hne
      · split at hc <;> cases (Prod.mk.inj hc).1
  · cases he

/-- A request that calls the repository is refused what its call was refused, unless its key was
taken. -/
lemma Serves.contract_of_error {request : Request} {op : StoreOp} {e : ProfileError}
    (h : Serves cfg s request (.error e) s') (hop : request.op cfg.parse = .ok op)
    (hkey : e ≠ .idempotencyInFlight ∧ e ≠ .idempotencyReused) : ∃ env r,
      Histories.contract s.histories (op, env) r s'.histories ∧ op.answer r = .error e := by
  generalize hanswer : (.error e : Answer) = answer at h
  cases h with
  | rejected hop' =>
    rw [hop] at hop'
    cases hop'
  | @stored _ _ op' env r h hop' hc =>
    rw [hop] at hop'
    obtain rfl := Except.ok.inj hop'
    exact ⟨env, r, by simpa using hc, rfl⟩
  | refused _ h =>
    rw [← hanswer] at h
    rcases h with h | h
    · exact absurd (Except.error.inj h) hkey.1
    · exact absurd (Except.error.inj h) hkey.2
  | replayed => cases hanswer

end Orders

/-! ### When a call may fail -/

namespace Backend

/-- What excuses a failed call: a fault of the environment, or no version left to count. -/
def Excuses : Backend → Env → StoreOp → Prop
  | .memory _ _, _, op =>
    ∃ user expected input, op = .update user expected input ∧ expected.checkedNext = none
  | .sqlite, env, op => ¬(SqliteProfiles.Quiet env ∧ SqliteProfiles.InRange op)

/-- The contract with excuses: a call fails for a reason. -/
def excused (b : Backend) : Spec StoreCalls Histories :=
  fun h call r h' => Histories.contract h call r h' ∧
    ∀ e, r = .error e → b.Excuses call.2 call.1

/-- The plain specification fails where there is no next version. -/
lemma exhausted_of_apply {h h' : Histories} {op : StoreOp} {env : Env} {e : StoreError}
    (hp : (.error e, h') = Histories.apply env op h) :
    ∃ user expected input, op = .update user expected input ∧ expected.checkedNext = none := by
  cases op with
  | create user input =>
    simp only [Histories.apply] at hp
    split at hp <;> cases (Prod.mk.inj hp).1
  | get user => cases (Prod.mk.inj hp).1
  | update user expected input =>
    simp only [Histories.apply] at hp
    split at hp
    · cases (Prod.mk.inj hp).1
    · split at hp
      · cases (Prod.mk.inj hp).1
      · rename_i heq
        split at hp
        · rename_i hnext
          rw [not_not.mp heq] at hnext
          exact ⟨user, expected, input, rfl, hnext⟩
        · cases (Prod.mk.inj hp).1
  | history user => cases (Prod.mk.inj hp).1

lemma memory_excused (mask : ℕ) (hash : UserId → UInt64) {h h' : Histories}
    {call : StoreCalls.Act} {r : StoreCalls.Ans call} (hp : Histories.plain h call r h') :
    (Backend.memory mask hash).excused h call r h' :=
  ⟨Histories.contract_of_plain hp, fun _ he => exhausted_of_apply (he ▸ hp)⟩

lemma sqlite_excused {c : Connection} {h : Histories} (call : StoreCalls.Act)
    (hr : SqliteProfiles.Represents c h) : ∃ h', Backend.sqlite.excused h call
      ((SqliteProfiles.body call.2 call.1).run (SqliteProfiles.exec call.2) c).1 h' ∧
      SqliteProfiles.Represents
        ((SqliteProfiles.body call.2 call.1).run (SqliteProfiles.exec call.2) c).2 h' := by
  rcases SqliteProfiles.run_body call.2 hr call.1 with ⟨h', hplain, hr'⟩ | ⟨herr, hr', hnot⟩
  · refine ⟨h', ⟨.inl hplain, fun e he => ?_⟩, hr'⟩
    rw [he] at hplain
    obtain ⟨user, expected, input, hop, hnext⟩ := exhausted_of_apply hplain
    rintro ⟨-, hrange⟩
    rw [hop] at hrange
    have hmax := Version.checkedNext_eq_none.mp hnext
    change expected.get + 1 < 2 ^ 63 at hrange
    omega
  · exact ⟨h, ⟨.inr ⟨herr, rfl⟩, fun _ _ => hnot⟩, hr'⟩

/-- Both backends keep the contract with excuses. -/
def excusedPoints (ι : Type) [DecidableEq ι] :
    (b : Backend) → LinearizationPoints (b.object ι) b.excused Histories.empty
  | .memory mask hash =>
    (InMemoryProfiles.linearizationPoints ι mask hash).mono fun _ _ _ _ => memory_excused mask hash
  | .sqlite =>
    mutexObject_linearizationPoints SqliteProfiles.Represents SqliteProfiles.represents_empty
      fun _ _ call hr => sqlite_excused call hr

end Backend

/-! ### Refusals -/

namespace Service

open Idempotency

variable {ι : Type} [DecidableEq ι] {b : Backend} {cfg : Settings} {s : Service ι b} {i : ι}

/-- Why the request `i` was refused, where requests took effect in `order`. -/
inductive Cause (cfg : Settings) (s : Service ι b) (order : List (Library.Entry ι Requests)) (i : ι)
    (request : Request) : ProfileError → Prop
  /-- The request makes no sense by itself. -/
  | senseless {e : ProfileError} : request.op cfg.parse = .error e → Cause cfg s order i request e
  /-- Its call on the repository failed for a reason. -/
  | failed {op : StoreOp} {env : Env} {e : StoreError} : request.op cfg.parse = .ok op →
    s.profiles.thread i = some (.returned (op, env) (.error e)) → b.Excuses env op →
    Cause cfg s order i request (.store e)
  /-- Another request had created the profile. -/
  | created {pre : List (Library.Entry ι Requests)} {d : Library.Entry ι Requests}
    {rev : Revision} : pre ++ [⟨i, request, .error .alreadyExists⟩] <+: order → d ∈ pre →
    d.id ≠ i → Writes request.user rev d → Cause cfg s order i request .alreadyExists
  /-- Another request had replaced the version that the update names. -/
  | superseded {pre : List (Library.Entry ι Requests)} {d : Library.Entry ι Requests}
    {rev : Revision} {user : UserId} {headers : HeaderMap} {input : ProfileInput}
    {expected : Version} : request = .update user headers input →
    parseIfMatch headers = .ok expected → rev.version ≠ expected →
    pre ++ [⟨i, request, .error (.preconditionFailed rev.version)⟩] <+: order → d ∈ pre →
    d.id ≠ i → Writes user rev d → Cause cfg s order i request (.preconditionFailed rev.version)
  /-- No request before it was shown a profile. -/
  | missing {pre : List (Library.Entry ι Requests)} :
    pre ++ [⟨i, request, .error .notFound⟩] <+: order →
    (∀ d ∈ pre, d.op.user = request.user → ∀ p, ¬Carries d.op d.ret.render p) →
    Cause cfg s order i request .notFound
  /-- Another create for the same body held the key when it was asked for. -/
  | busy {j : ι} {t : ℕ} {user : UserId} {headers : HeaderMap} {key body body' : String} :
    request = .create user headers body → idempotencyKey headers = some key →
    s.Did i t ⟨.begin user.asStr key body, .inFlight⟩ → j ≠ i →
    s.Holds cfg j t user key body' → cfg.fingerprint body' = cfg.fingerprint body →
    Cause cfg s order i request .idempotencyInFlight
  /-- The key was held, or retained, for another body. -/
  | reused {j : ι} {t : ℕ} {user : UserId} {headers : HeaderMap} {key body body' : String} :
    request = .create user headers body → idempotencyKey headers = some key →
    s.Did i t ⟨.begin user.asStr key body, .bodyMismatch⟩ → j ≠ i →
    s.Holds cfg j t user key body' ∨ s.Retains cfg j t user key body' →
    cfg.fingerprint body' ≠ cfg.fingerprint body →
    Cause cfg s order i request .idempotencyReused

/-- A call that failed is excused. -/
lemma excuses_of_returned {es : List (Event ι)}
    (hrun : (machine ι b cfg).run (init ι b cfg) es = some s) {op : StoreOp} {env : Env}
    {e : StoreError} (ht : s.profiles.thread i = some (.returned (op, env) (.error e))) :
    b.Excuses env op := by
  obtain ⟨moves, hmoves, -⟩ := run_profiles hrun
  obtain ⟨new, h, hx⟩ := (b.excusedPoints ι).explains_initial.run hmoves
  obtain ⟨pre, post, h₁, h₂, -, -, hs⟩ := hx.linearizes.legal.split (hx.returned_mem ht)
  exact hs.2 e rfl

/-- A call that did not fail, and what refuses the request nevertheless. -/
lemma cause_of_serves {pre order : List (Library.Entry ι Requests)} {accounts accounts' : Accounts}
    {request : Request} {op : StoreOp} {e : ProfileError}
    (hpre : Legal (Serves cfg) Accounts.empty pre accounts)
    (hne : ∀ d ∈ pre, d.id ≠ i) (hfirst : pre ++ [⟨i, request, .error e⟩] <+: order)
    (hop : request.op cfg.parse = .ok op)
    (hserves : Serves cfg accounts request (.error e) accounts')
    (hkey : e ≠ .idempotencyInFlight ∧ e ≠ .idempotencyReused) (hstore : ∀ f, e ≠ .store f) :
    Cause cfg s order i request e := by
  -- whoever finds no revision was preceded by nobody who was shown one
  have hmissing : accounts.histories request.user = [] → e = .notFound →
      Cause cfg s order i request e := by
    rintro hnil rfl
    refine .missing hfirst fun d hd huser p hp => ?_
    exact ne_nil_of_legal hpre hd huser hp hnil
  have huser := Request.op_user hop
  obtain ⟨env, r, hc, hanswer⟩ := hserves.contract_of_error hop hkey
  cases op with
  | create user input =>
    rcases r with f | (_ | p)
    · exact absurd (Except.error.inj hanswer).symm (hstore f)
    · obtain rfl := Except.error.inj hanswer
      obtain ⟨rev, hrev⟩ := List.exists_mem_of_ne_nil _ (Histories.contract_exists hc)
      obtain ⟨d, hd, hwrites⟩ := writes_of_legal hpre hrev
      change user = request.user at huser
      rw [huser] at hwrites
      exact .created hfirst hd (hne d hd) hwrites
    · cases hanswer
  | get user =>
    rcases r with f | (_ | p)
    · exact absurd (Except.error.inj hanswer).symm (hstore f)
    · obtain rfl := Except.error.inj hanswer
      exact hmissing (hserves.notFound rfl) rfl
    · cases hanswer
  | update user expected input =>
    rcases r with f | (p | v | _)
    · exact absurd (Except.error.inj hanswer).symm (hstore f)
    · cases hanswer
    · obtain rfl := Except.error.inj hanswer
      obtain ⟨headers, input', rfl, hmatch⟩ := Request.of_op_update hop
      obtain ⟨last, hlast, rfl⟩ := hserves.stale
      obtain ⟨d, hd, hwrites⟩ := writes_of_legal hpre (List.mem_of_getLast? hlast)
      exact .superseded rfl hmatch (Histories.contract_stale_ne hc) hfirst hd (hne d hd) hwrites
    · obtain rfl := Except.error.inj hanswer
      exact hmissing (hserves.notFound rfl) rfl
  | history user =>
    rcases r with f | (_ | ⟨first, rest⟩)
    · exact absurd (Except.error.inj hanswer).symm (hstore f)
    · obtain rfl := Except.error.inj hanswer
      exact hmissing (hserves.notFound rfl) rfl
    · cases hanswer

/-- Every refusal has a cause, in every run: there is one order of the requests, never against
real time, in which each refusal is the request's own fault, or excused, or due to another
request that was accepted before it or had its idempotency key. -/
theorem refusals_caused (b : Backend) (ι : Type) [DecidableEq ι] (cfg : Settings)
    (es : List (Event ι)) (s : Service ι b)
    (hrun : (machine ι b cfg).run (init ι b cfg) es = some s) :
    ∃ order accounts,
      Linearizes (Serves cfg) Accounts.empty (history cfg (init ι b cfg) es) order accounts ∧
      ∀ i request e, s.Sent i request → s.Answered i (.error e) →
        Cause cfg s order i request e := by
  obtain ⟨order, calls, accounts, h⟩ := serial_init.run inv_init hrun
  have hinv := inv_of_run hrun
  have hoccupied := occupied_of_run hrun
  refine ⟨order, accounts, h.linearizes, fun i request e hsent hanswered => ?_⟩
  have hmem : ⟨i, request, .error e⟩ ∈ order :=
    h.linearizes.complete i request (.error e) ((h.returned i request _).mpr ⟨hsent, hanswered⟩)
  obtain ⟨pre, post, before, after, rfl, hpre, hserves⟩ := h.linearizes.legal.split hmem
  obtain ⟨x, hx, rfl⟩ := hsent
  have hfollows := hinv.tracks.follows i x hx
  rw [hanswered.rest_eq hx] at hfollows
  have houtcome : Outcome cfg.parse x.request (x.log.map Prod.snd) (.error e) :=
    (x.request.ends_handler cfg.parse).follows hfollows
  generalize hanswer : (.error e : Answer) = answer at houtcome
  cases houtcome with
  | rejected hop hnone =>
    obtain rfl := Except.error.inj hanswer
    exact .senseless hop
  | told hreq hkey hlog htold =>
    rename_i user headers key body found
    obtain ⟨t, hdid⟩ := did_of_map hx (by rw [hlog]; exact List.mem_singleton_self _)
    rw [← hanswer] at htold
    cases found with
    | reserved => cases htold
    | inFlight =>
      obtain rfl := Except.error.inj (Option.some.inj htold)
      obtain ⟨j, body', hne, hholds, hfp⟩ := hoccupied.inFlight i t user key body hdid
      exact .busy hreq hkey hdid hne hholds hfp
    | bodyMismatch =>
      obtain rfl := Except.error.inj (Option.some.inj htold)
      obtain ⟨j, body', hne, hrival, hfp⟩ := hoccupied.mismatched i t user key body hdid
      exact .reused hreq hkey hdid hne hrival hfp
    | replay found => cases htold
  | stored op r hop hstored =>
    obtain ⟨t, hdid⟩ := did_of_map hx hstored
    obtain ⟨env, hthread⟩ := hinv.tracks.returned i t op r hdid
    rcases answer_eq_error hanswer.symm with ⟨f, rfl, rfl⟩ | ⟨hkey, hstore⟩
    · exact .failed hop hthread (excuses_of_returned hrun hthread)
    · have hne : ∀ d ∈ pre, d.id ≠ i := by
        intro d hd hid
        have hnodup := h.linearizes.nodup
        rw [List.map_append, List.map_cons] at hnodup
        apply List.disjoint_of_nodup_append hnodup (List.mem_map_of_mem hd)
        rw [hid]
        exact List.mem_cons_self
      exact cause_of_serves hpre hne ⟨post, by simp [hanswer]⟩ hop hserves hkey hstore

/-- A profile is created, and a second create is told so. -/
theorem refusals_caused_create :
    let cfg := Settings.default (fun _ => some ⟨"1 Main St", "5550100"⟩) fun _ => 0
    let env : Env := ⟨0, fun _ => false⟩
    let b := Backend.memory 0 fun _ => 0
    let request : Request := .create ⟨"u"⟩ [] ""
    let es : List (Event ℕ) :=
      [.arrive 0 request, .call 0 env, .act 0, .act 0, .act 0, .act 0, .act 0, .ret 0, .resume 0,
        .arrive 1 request, .call 1 env, .act 1, .act 1, .act 1, .act 1, .ret 1, .resume 1]
    ∃ (s : Service ℕ b) (order : List (Library.Entry ℕ Requests)),
      (machine ℕ b cfg).run (init ℕ b cfg) es = some s ∧
      s.Answered 1 (.error .alreadyExists) ∧ Cause cfg s order 1 request .alreadyExists := by
  intro cfg env b request es
  obtain ⟨s, hrun, hsent, hanswered⟩ : ∃ s : Service ℕ b,
      (machine ℕ b cfg).run (init ℕ b cfg) es = some s ∧ s.Sent 1 request ∧
      s.Answered 1 (.error .alreadyExists) :=
    ⟨_, rfl, ⟨_, rfl, rfl⟩, _, rfl, rfl⟩
  obtain ⟨order, accounts, -, hcauses⟩ := refusals_caused b ℕ cfg es s hrun
  exact ⟨s, order, hrun, hanswered, hcauses 1 request _ hsent hanswered⟩

end Service

end Knova
