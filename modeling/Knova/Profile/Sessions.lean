import Knova.Profile.Preconditions
import Knova.Profile.RequestsLinearizable

/-!
# What a client may rely on

A response that was sent before another request was made binds the response to it: no version
is read twice in the wrong order, what was accepted stays visible, and audits only grow.
-/

namespace Knova

open Library Routes

/-! ### One request -/

section Serves

variable {cfg : Settings} {s s' : Accounts} {request : Request} {answer : Answer}
  {parse : String → Option ProfileInput}

lemma Request.op_create {user : UserId} {headers : HeaderMap} {body : String} {op : StoreOp}
    (h : (Request.create user headers body).op parse = .ok op) :
    ∃ input, op = .create user input := by
  simp only [Request.op] at h
  split at h
  · cases h
  · split at h
    · cases h
    · exact ⟨_, (Except.ok.inj h).symm⟩

lemma Request.op_update {user : UserId} {headers : HeaderMap} {input : ProfileInput} {op : StoreOp}
    (h : (Request.update user headers input).op parse = .ok op) :
    ∃ expected, parseIfMatch headers = .ok expected ∧ op = .update user expected input := by
  simp only [Request.op] at h
  split at h
  · cases h
  · split at h
    · cases h
    · exact ⟨_, ‹_›, (Except.ok.inj h).symm⟩

lemma Request.of_op_create {user : UserId} {input : ProfileInput}
    (h : request.op parse = .ok (.create user input)) :
    ∃ headers body, request = .create user headers body := by
  cases request with
  | create u headers body =>
    obtain ⟨input', heq⟩ := op_create h
    cases heq
    exact ⟨headers, body, rfl⟩
  | update u headers input' =>
    obtain ⟨expected, -, heq⟩ := op_update h
    cases heq
  | read u => cases h
  | history u => cases h

lemma Request.op_user {op : StoreOp} (h : request.op parse = .ok op) : op.user = request.user := by
  cases request with
  | create user headers body =>
    obtain ⟨input, rfl⟩ := op_create h
    rfl
  | read user =>
    obtain rfl := Except.ok.inj h
    rfl
  | update user headers input =>
    obtain ⟨expected, -, rfl⟩ := op_update h
    rfl
  | history user =>
    obtain rfl := Except.ok.inj h
    rfl

/-- A request was refused, or is answered a recorded outcome or what its call returned. -/
lemma Serves.cases (h : Serves cfg s request answer s') :
    (∃ e, answer = .error e ∧ e ≠ .notFound ∧ (∀ v, e ≠ .preconditionFailed v) ∧ s' = s) ∨
    (∃ user headers key body first, request = .create user headers body ∧
      idempotencyKey headers = some key ∧ (s.histories user).head? = some first ∧
      answer = .ok (replay (recorded (project user first))) ∧ s' = s) ∨
    ∃ op env r, request.op cfg.parse = .ok op ∧
      Histories.contract s.histories (op, env) r s'.histories ∧ answer = op.answer r := by
  cases h with
  | rejected hop =>
    rcases Request.op_error hop with rfl | ⟨reason, rfl⟩ | rfl | rfl
    all_goals exact .inl ⟨_, rfl, by simp, by simp, rfl⟩
  | stored hop hc => exact .inr (.inr ⟨_, _, _, hop, by simpa using hc, rfl⟩)
  | refused _ h =>
    rcases h with rfl | rfl
    · exact .inl ⟨_, rfl, by simp, by simp, rfl⟩
    · exact .inl ⟨_, rfl, by simp, by simp, rfl⟩
  | replayed hkey _ _ hfirst => exact .inr (.inl ⟨_, _, _, _, _, rfl, hkey, hfirst, rfl, rfl⟩)

/-- The revisions of every user count up, and no request takes one away. -/
lemma Serves.grows (hs : ∀ user, Histories.Contiguous (s.histories user))
    (h : Serves cfg s request answer s') : (∀ user, Histories.Contiguous (s'.histories user)) ∧
      ∀ user, s.histories user <+: s'.histories user := by
  rcases h.cases with ⟨-, -, -, -, rfl⟩ | ⟨-, -, -, -, -, -, -, -, -, rfl⟩ | ⟨op, env, r, -, hc, -⟩
  · exact ⟨hs, fun _ => List.prefix_refl _⟩
  · exact ⟨hs, fun _ => List.prefix_refl _⟩
  · have hlegal := fun user => Histories.contract_step (e := ⟨(), (op, env), r⟩) hc user
    refine ⟨fun user => ?_, fun user => ?_⟩
    · obtain ⟨hstep, hversion⟩ := hlegal user
      rw [hstep]
      cases hw : Histories.writtenFor user (⟨(), (op, env), r⟩ : Library.Entry Unit StoreCalls) with
      | none => simpa using hs user
      | some rev => exact (hs user).snoc (hversion rev hw (hs user))
    · rw [(hlegal user).1]
      exact List.prefix_append _ _

/-- A failure carries no profile. -/
lemma not_carries_error {e : ProfileError} {p : Profile} :
    ¬Carries request (Answer.render (.error e)) p := by
  have h := Service.render_error_status e
  intro hc
  cases request with
  | create | read | update | history =>
    have := hc.1
    omega

/-- What a call that wrote a revision left. -/
lemma mem_of_wrote {h h' : Histories} {call : StoreOp × Env} {r : call.1.Ret} {user : UserId}
    {rev : Revision} (hc : Histories.contract h call r h')
    (hw : Histories.writtenFor user (⟨(), call, r⟩ : Library.Entry Unit StoreCalls) = some rev) :
    rev ∈ h' user := by
  rw [(Histories.contract_step (e := ⟨(), call, r⟩) hc user).1, hw]
  simp

/-- A call that changes nothing returns what the revisions say, or fails. -/
lemma contract_get {h h' : Histories} {user : UserId} {env : Env} {r : (StoreOp.get user).Ret}
    (hc : Histories.contract h (.get user, env) r h') :
    h' = h ∧ ((∃ e, r = .error e) ∨ r = .ok ((h user).getLast?.map (project user))) := by
  rcases hc with hc | ⟨he, hh⟩
  · exact ⟨(Prod.mk.inj hc).2, .inr (Prod.mk.inj hc).1⟩
  · exact ⟨hh, .inl he⟩

lemma contract_history {h h' : Histories} {user : UserId} {env : Env}
    {r : (StoreOp.history user).Ret} (hc : Histories.contract h (.history user, env) r h') :
    h' = h ∧ ((∃ e, r = .error e) ∨ r = .ok (h user)) := by
  rcases hc with hc | ⟨he, hh⟩
  · exact ⟨(Prod.mk.inj hc).2, .inr (Prod.mk.inj hc).1⟩
  · exact ⟨hh, .inl he⟩

/-- A read that shows a profile shows the newest revision. -/
lemma Serves.read {user : UserId} {p : Profile} (h : Serves cfg s (.read user) answer s')
    (hp : Carries (.read user) answer.render p) : s'.histories = s.histories ∧
      ∃ last, (s.histories user).getLast? = some last ∧ p = project user last := by
  rcases h.cases with ⟨e, rfl, -⟩ | ⟨_, _, _, _, _, hreq, -⟩ | ⟨op, env, r, hop, hc, rfl⟩
  · exact absurd hp not_carries_error
  · cases hreq
  · obtain rfl := Except.ok.inj hop
    obtain ⟨hkept, ⟨e, rfl⟩ | rfl⟩ := contract_get hc
    · exact absurd hp not_carries_error
    · refine ⟨hkept, ?_⟩
      cases hlast : (s.histories user).getLast? with
      | none =>
        rw [hlast] at hp
        exact absurd hp not_carries_error
      | some last =>
        rw [hlast] at hp
        exact ⟨last, rfl, (Profile.toJson_injective hp.2).symm⟩

/-- An audit that was answered lists all revisions. -/
lemma Serves.audit {user : UserId} {revisions : List Revision}
    (h : Serves cfg s (.history user) answer s') (hstatus : answer.render.status = 200)
    (hbody : answer.render.body = historyToJson revisions) :
    s'.histories = s.histories ∧ s.histories user = revisions := by
  have herror : ∀ e, answer ≠ .error e := by
    rintro e rfl
    have := Service.render_error_status e
    omega
  rcases h.cases with ⟨e, rfl, -⟩ | ⟨_, _, _, _, _, hreq, -⟩ | ⟨op, env, r, hop, hc, rfl⟩
  · exact absurd rfl (herror e)
  · cases hreq
  · obtain rfl := Except.ok.inj hop
    obtain ⟨hkept, ⟨e, rfl⟩ | rfl⟩ := contract_history hc
    · exact absurd rfl (herror _)
    · refine ⟨hkept, ?_⟩
      cases hh : s.histories user with
      | nil =>
        rw [hh] at herror
        exact absurd rfl (herror _)
      | cons first rest =>
        rw [hh] at hbody
        exact historyToJson_injective hbody

/-- An update that shows a profile replaced the newest revision by one more. -/
lemma Serves.update {user : UserId} {headers : HeaderMap} {input : ProfileInput} {p : Profile}
    (h : Serves cfg s (.update user headers input) answer s')
    (hp : Carries (.update user headers input) answer.render p) :
    (∃ last, (s.histories user).getLast? = some last ∧
      p.version.get = last.version.get + 1) ∧
      ∃ rev ∈ s'.histories user, p = project user rev := by
  rcases h.cases with ⟨e, rfl, -⟩ | ⟨_, _, _, _, _, hreq, -⟩ | ⟨op, env, r, hop, hc, rfl⟩
  · exact absurd hp not_carries_error
  · cases hreq
  · obtain ⟨expected, -, rfl⟩ := Request.op_update hop
    obtain ⟨q, rfl⟩ := Service.updated_status hp.1
    obtain rfl := Profile.toJson_injective hp.2
    obtain ⟨⟨last, hlast, rfl⟩, hversion, hq⟩ := Histories.contract_update hc
    exact ⟨⟨last, hlast, hversion⟩, _, mem_of_wrote hc (Histories.writtenFor_update ..), hq⟩

/-- A create that shows a profile found none, or repeats what the one that made it was answered. -/
lemma Serves.create {user : UserId} {headers : HeaderMap} {body : String} {p : Profile}
    (h : Serves cfg s (.create user headers body) answer s')
    (hp : Carries (.create user headers body) answer.render p) :
    (s.histories user = [] ∨ ∃ key body' first, idempotencyKey headers = some key ∧
      s.createdWith user = some (key, body') ∧ cfg.fingerprint body' = cfg.fingerprint body ∧
      (s.histories user).head? = some first ∧
      answer = .ok (replay (recorded (project user first)))) ∧
    ∃ rev ∈ s'.histories user, p = project user rev := by
  cases h with
  | rejected => exact absurd hp not_carries_error
  | refused _ h => rcases h with rfl | rfl <;> exact absurd hp not_carries_error
  | @replayed _ _ _ key _ body' first hkey hwith hfp hfirst =>
    obtain ⟨-, hbody⟩ := hp
    rw [Answer.render, replay_recorded] at hbody
    exact ⟨.inr ⟨key, body', first, hkey, hwith, hfp, hfirst, rfl⟩, first,
      List.mem_of_head? hfirst, (Profile.toJson_injective hbody).symm⟩
  | @stored _ _ op env r h hop hc =>
    obtain ⟨input, rfl⟩ := Request.op_create hop
    rcases r with e | (_ | q)
    · exact absurd hp not_carries_error
    · exact absurd hp not_carries_error
    · obtain ⟨-, hbody⟩ := hp
      change (replay (recorded q)).body = p.toJson at hbody
      rw [replay_recorded] at hbody
      obtain rfl := Profile.toJson_injective hbody
      obtain ⟨hnil, hq⟩ := Histories.contract_create hc
      have hwritten := mem_of_wrote hc (Histories.writtenFor_create ..)
      rw [hq] at hwritten ⊢
      exact ⟨.inl hnil, _, by rwa [Accounts.after_histories], rfl⟩

/-- The accounts remember a create where it makes the profile of its user. -/
lemma Serves.createdWith (h : Serves cfg s request answer s') (user : UserId) :
    s'.createdWith user = s.createdWith user ∨ ∃ headers body first,
      request = .create user headers body ∧ s'.createdWith user = request.keyed ∧
      s.histories user = [] ∧ (s'.histories user).head? = some first ∧
      answer = .ok (replay (recorded (project user first))) := by
  cases h with
  | rejected | refused | replayed => exact .inl rfl
  | @stored _ _ op env r h hop hc =>
    cases op with
    | create u input =>
      rcases r with e | (_ | p)
      · exact .inl rfl
      · exact .inl rfl
      · by_cases hu : user = u
        · subst hu
          obtain ⟨headers, body, rfl⟩ := Request.of_op_create hop
          obtain ⟨hnil, hp⟩ := Histories.contract_create hc
          have hstep := (Histories.contract_step (e := ⟨(), _, _⟩) hc user).1
          rw [Histories.writtenFor_create, hnil] at hstep
          refine .inr ⟨headers, body, revision env.nowMs p.version input, rfl,
            Function.update_self .., hnil, ?_, ?_⟩
          · rw [Accounts.after_histories, hstep]
            rfl
          · rw [hp]
            rfl
        · exact .inl (Function.update_of_ne hu ..)
    | get | update | history => exact .inl rfl

/-- Every profile a response shows is the projection of a revision that stands when it is sent. -/
lemma Serves.shows {p : Profile} (h : Serves cfg s request answer s')
    (hp : Carries request answer.render p) :
    ∃ rev ∈ s'.histories request.user, p = project request.user rev := by
  cases request with
  | create user headers body => exact (h.create hp).2
  | read user =>
    obtain ⟨hkept, last, hlast, rfl⟩ := h.read hp
    rw [hkept]
    exact ⟨last, List.mem_of_getLast? hlast, rfl⟩
  | update user headers input => exact (h.update hp).2
  | history user =>
    obtain ⟨hstatus, revisions, hbody, rev, hrev, rfl⟩ := hp
    obtain ⟨hkept, rfl⟩ := h.audit hstatus hbody
    rw [hkept]
    exact ⟨rev, hrev, rfl⟩

/-- A response that says there is no profile was sent when there was none. -/
lemma Serves.notFound (h : Serves cfg s request answer s') (hstatus : answer.render.status = 404) :
    s.histories request.user = [] := by
  have hok : ∀ response : Response, response.status ≠ 404 → answer ≠ .ok response := by
    rintro response hne rfl
    exact hne hstatus
  have herror : ∀ e : ProfileError, e ≠ .notFound → answer ≠ .error e := by
    rintro e hne rfl
    cases e <;>
      simp_all [Answer.render, ProfileError.intoResponse, ProfileError.parts, Response.json]
  rcases h.cases with ⟨e, rfl, hne, -⟩ | ⟨u, hs, key, bd, first, rfl, hkey, hfirst, rfl, rfl⟩ |
    ⟨op, env, r, hop, hc, rfl⟩
  · exact absurd rfl (herror e hne)
  · exact absurd rfl (hok _ (by simp [replay_recorded]))
  · rw [← Request.op_user hop]
    cases op with
    | create user input =>
      rcases r with e | (_ | q)
      · exact absurd rfl (herror (.store e) (by simp))
      · exact absurd rfl (herror .alreadyExists (by simp))
      · exact absurd rfl (hok _ (by simp [replay_recorded]))
    | get user =>
      obtain ⟨-, ⟨e, rfl⟩ | rfl⟩ := contract_get hc
      · exact absurd rfl (herror (.store e) (by simp))
      · cases hlast : (s.histories user).getLast? with
        | none => exact List.getLast?_eq_none_iff.mp hlast
        | some last =>
          rw [hlast] at hok
          exact absurd rfl (hok _ (by simp [withEtag, Response.json]))
    | update user expected input =>
      rcases r with e | (q | v | _)
      · exact absurd rfl (herror (.store e) (by simp))
      · exact absurd rfl (hok _ (by simp [withEtag, Response.json]))
      · exact absurd rfl (herror (.preconditionFailed v) (by simp))
      · exact List.getLast?_eq_none_iff.mp (Histories.contract_missing hc)
    | history user =>
      obtain ⟨-, ⟨e, rfl⟩ | rfl⟩ := contract_history hc
      · exact absurd rfl (herror (.store e) (by simp))
      · cases hh : s.histories user with
        | nil => exact hh
        | cons first rest =>
          rw [hh] at hok
          exact absurd rfl (hok _ (by simp [Response.json]))

/-- A refused precondition names the newest version. -/
lemma Serves.stale {v : Version} (h : Serves cfg s request (.error (.preconditionFailed v)) s') :
    ∃ last, (s.histories request.user).getLast? = some last ∧ last.version = v := by
  rcases h.cases with ⟨e, he, -, hne, -⟩ | ⟨u, hs, key, bd, first, -, -, -, he, -⟩ |
    ⟨op, env, r, hop, hc, he⟩
  · exact absurd (Except.error.inj he).symm (hne v)
  · cases he
  · rw [← Request.op_user hop]
    cases op with
    | create user input => rcases r with e | (_ | q) <;> cases he
    | get user => rcases r with e | (_ | q) <;> cases he
    | update user expected input =>
      rcases r with e | (q | w | _)
      · cases he
      · cases he
      · cases he
        exact Histories.contract_stale hc
      · cases he
    | history user => rcases r with e | (_ | ⟨first, rest⟩) <;> cases he

end Serves

/-! ### The requests before -/

section Orders

variable {ι : Type} {cfg : Settings} {s : Accounts} {user : UserId}
  {order : List (Library.Entry ι Requests)}

lemma contiguous_of_legal (hl : Legal (Serves cfg) Accounts.empty order s) (user : UserId) :
    Histories.Contiguous (s.histories user) := by
  induction hl generalizing user with
  | nil => exact .nil
  | snoc c _ hs ih => exact (hs.grows ih).1 user

/-- Where a request was shown a profile, there is one from then on. -/
lemma ne_nil_of_legal (hl : Legal (Serves cfg) Accounts.empty order s)
    {d : Library.Entry ι Requests} (hd : d ∈ order) (huser : d.op.user = user) {p : Profile}
    (hp : Carries d.op d.ret.render p) : s.histories user ≠ [] := by
  induction hl with
  | nil => cases hd
  | snoc c hrest hs ih =>
    obtain ⟨more, hmore⟩ := (hs.grows (contiguous_of_legal hrest)).2 user
    rcases List.mem_append.mp hd with hd | hd
    · have hne := ih hd
      rw [← hmore]
      simp [hne]
    · obtain rfl := List.mem_singleton.mp hd
      obtain ⟨rev, hrev, -⟩ := hs.shows hp
      rw [huser] at hrev
      exact List.ne_nil_of_mem hrev

/-- The entry that made the profile of its user: nobody before it was shown one. -/
def Made (order : List (Library.Entry ι Requests)) (d : Library.Entry ι Requests) : Prop :=
  ∃ before, before ++ [d] <+: order ∧
    ∀ c ∈ before, c.op.user = d.op.user → ∀ p, ¬Carries c.op c.ret.render p

lemma Made.append {d : Library.Entry ι Requests} (h : Made order d)
    (more : List (Library.Entry ι Requests)) : Made (order ++ more) d := by
  obtain ⟨before, hprefix, hnone⟩ := h
  exact ⟨before, hprefix.trans (List.prefix_append _ _), hnone⟩

/-- The key and the body the accounts remember are those of the create that made the profile. -/
theorem made_of_legal (hl : Legal (Serves cfg) Accounts.empty order s) {key body : String}
    (hwith : s.createdWith user = some (key, body)) : ∃ i headers first,
      (s.histories user).head? = some first ∧ idempotencyKey headers = some key ∧
      Made order
        ⟨i, .create user headers body, .ok (replay (recorded (project user first)))⟩ := by
  induction hl generalizing key body with
  | nil => cases hwith
  | @snoc order s s' d hrest hs ih =>
    -- what was remembered before still stands
    have hkept : s.createdWith user = some (key, body) → ∃ i headers first,
        (s'.histories user).head? = some first ∧ idempotencyKey headers = some key ∧
        Made (order ++ [d])
          ⟨i, .create user headers body, .ok (replay (recorded (project user first)))⟩ := by
      intro hwith
      obtain ⟨i, headers, first, hfirst, hkey, hmade⟩ := ih hwith
      obtain ⟨more, hmore⟩ := (hs.grows (contiguous_of_legal hrest)).2 user
      refine ⟨i, headers, first, ?_, hkey, hmade.append [d]⟩
      rw [← hmore, List.head?_append, hfirst]
      rfl
    rcases hs.createdWith user with heq | ⟨headers, body', first, hreq, heq, hnil, hfirst, hans⟩
    · exact hkept (heq ▸ hwith)
    · obtain ⟨i, op, ret⟩ := d
      obtain rfl : op = _ := hreq
      obtain rfl : ret = _ := hans
      rw [heq] at hwith
      obtain ⟨key', hkey, hpair⟩ := Option.map_eq_some_iff.mp hwith
      obtain ⟨rfl, rfl⟩ := Prod.mk.inj hpair
      refine ⟨i, headers, first, hfirst, hkey, order, List.prefix_refl _, fun c hc huser p hp => ?_⟩
      exact ne_nil_of_legal hrest hc huser hp hnil

end Orders

/-! ### Two requests -/

/-- What the answer to a request binds the answer to a later one of the same user to, where
`before` took effect before the later one. -/
structure Session {ι : Type} (cfg : Settings) (before : List (Library.Entry ι Requests))
    (request : Request) (answer : Answer) (later : Request) (answer' : Answer) : Prop where
  /-- No read shows an older version. -/
  reads : ∀ p p' user, Carries request answer.render p → later = .read user →
    Carries later answer'.render p' → p.version.get ≤ p'.version.get
  /-- An accepted update is newer. -/
  writes : ∀ p p' user headers input, Carries request answer.render p →
    later = .update user headers input → Carries later answer'.render p' →
    p.version.get < p'.version.get
  /-- A refused one names no older version. -/
  stale : ∀ p v, Carries request answer.render p → answer' = .error (.preconditionFailed v) →
    p.version.get ≤ v.get
  /-- What was shown is never missing. -/
  found : ∀ p, Carries request answer.render p → answer'.render.status ≠ 404
  /-- Only a retry is answered as if it created the profile: it repeats the answer of the create
  that did, under its key and with its body. -/
  created : ∀ p p' user headers body, Carries request answer.render p →
    later = .create user headers body → Carries later answer'.render p' →
    ∃ d headers' body' key, Made before d ∧ d.op = .create user headers' body' ∧ d.ret = answer' ∧
      idempotencyKey headers' = some key ∧ idempotencyKey headers = some key ∧
      cfg.fingerprint body' = cfg.fingerprint body
  /-- What was shown is in every audit. -/
  kept : ∀ p user revisions, Carries request answer.render p → later = .history user →
    answer'.render.status = 200 → answer'.render.body = historyToJson revisions →
    ∃ rev ∈ revisions, p = project user rev
  /-- Audits only grow. -/
  audits : ∀ user revisions revisions', request = .history user → later = .history user →
    answer.render.status = 200 → answer.render.body = historyToJson revisions →
    answer'.render.status = 200 → answer'.render.body = historyToJson revisions' →
    revisions <+: revisions'

/-- Where the accounts one answer left lead to those the next one found. -/
theorem Serves.session {ι : Type} {cfg : Settings} {before : List (Library.Entry ι Requests)}
    {s₁ s₂ s₃ s₄ : Accounts} {request later : Request} {answer answer' : Answer}
    (huser : request.user = later.user) (h : Serves cfg s₁ request answer s₂)
    (hgrows : ∀ user, s₁.histories user <+: s₂.histories user)
    (hbetween : ∀ user, s₂.histories user <+: s₃.histories user)
    (hl : Legal (Serves cfg) Accounts.empty before s₃) (h' : Serves cfg s₃ later answer' s₄) :
    Session cfg before request answer later answer' := by
  have hs := contiguous_of_legal hl
  -- what was shown still stands
  have hshown : ∀ p, Carries request answer.render p →
      ∃ rev ∈ s₃.histories later.user, p = project later.user rev := by
    intro p hp
    obtain ⟨rev, hrev, hproject⟩ := h.shows hp
    rw [huser] at hrev hproject
    exact ⟨rev, (hbetween _).subset hrev, hproject⟩
  constructor
  · rintro p p' user hp rfl hp'
    obtain ⟨rev, hrev, rfl⟩ := hshown p hp
    obtain ⟨-, last, hlast, rfl⟩ := h'.read hp'
    exact (hs user).le_getLast? hlast hrev
  · rintro p p' user headers input hp rfl hp'
    obtain ⟨rev, hrev, rfl⟩ := hshown p hp
    obtain ⟨⟨last, hlast, hversion⟩, -⟩ := h'.update hp'
    have hle : rev.version.get ≤ last.version.get := (hs user).le_getLast? hlast hrev
    rw [hversion]
    exact Nat.lt_succ_of_le hle
  · rintro p v hp rfl
    obtain ⟨rev, hrev, rfl⟩ := hshown p hp
    obtain ⟨last, hlast, rfl⟩ := h'.stale
    exact (hs _).le_getLast? hlast hrev
  · intro p hp hstatus
    obtain ⟨rev, hrev, -⟩ := hshown p hp
    rw [h'.notFound hstatus] at hrev
    cases hrev
  · rintro p p' user headers body hp rfl hp'
    obtain ⟨rev, hrev, -⟩ := hshown p hp
    rcases (h'.create hp').1 with hnil | ⟨key, body', first, hkey, hwith, hfp, hfirst, rfl⟩
    · change rev ∈ s₃.histories user at hrev
      rw [hnil] at hrev
      cases hrev
    · obtain ⟨i, headers', first', hfirst', hkey', hmade⟩ := made_of_legal hl hwith
      obtain rfl : first = first' := Option.some.inj (hfirst.symm.trans hfirst')
      exact ⟨_, headers', body', key, hmade, rfl, rfl, hkey', hkey, hfp⟩
  · rintro p user revisions hp rfl hstatus hbody
    obtain ⟨-, rfl⟩ := h'.audit hstatus hbody
    exact hshown p hp
  · rintro user revisions revisions' rfl rfl hstatus hbody hstatus' hbody'
    obtain ⟨-, rfl⟩ := h.audit hstatus hbody
    obtain ⟨-, rfl⟩ := h'.audit hstatus' hbody'
    exact (hgrows user).trans (hbetween user)

namespace Service

/-- In every run one order of the requests, never against real time, explains the answers, and a
request that was answered before another one of its user was sent binds the answer to that one. -/
theorem session_guarantees (b : Backend) (ι : Type) [DecidableEq ι] (cfg : Settings)
    (es : List (Event ι)) (s : Service ι b)
    (hrun : (machine ι b cfg).run (init ι b cfg) es = some s) :
    ∃ order accounts,
      Linearizes (Serves cfg) Accounts.empty (history cfg (init ι b cfg) es) order accounts ∧
      ∀ i j request later answer answer', .ret i request answer ∈ history cfg (init ι b cfg) es →
        .ret j later answer' ∈ history cfg (init ι b cfg) es →
        Precedes (history cfg (init ι b cfg) es) i j → request.user = later.user →
        ∃ before, before ++ [⟨j, later, answer'⟩] <+: order ∧
          Session cfg before request answer later answer' := by
  obtain ⟨order, calls, accounts, h⟩ := serial_init.run inv_init hrun
  refine ⟨order, accounts, h.linearizes, fun i j request later answer answer' hi hj hp huser => ?_⟩
  obtain ⟨before, s₁, s₂, s₃, s₄, hprefix, hl, -, hs, hgrows, hbetween, -, hs'⟩ :=
    h.linearizes.of_precedes (P := fun s => ∀ user, Histories.Contiguous (s.histories user))
      (R := fun s s' => ∀ user, s.histories user <+: s'.histories user)
      (fun _ _ => List.prefix_refl _)
      (by intro a b c hab hbc user; exact (hab user).trans (hbc user))
      (fun _ _ _ _ hs h => h.grows hs) (fun _ => .nil) hi hj hp
  exact ⟨before, hprefix, hs.session huser hgrows hbetween hl hs'⟩

/-- A profile is created under a key, and the create is sent again once it was answered. -/
theorem session_guarantees_retry :
    let p : Profile := ⟨⟨"u"⟩, "1 Main St", "5550100", .initial⟩
    let cfg := Settings.default (fun _ => some ⟨"1 Main St", "5550100"⟩) fun _ => 0
    let env : Env := ⟨0, fun _ => false⟩
    let b := Backend.memory 0 fun _ => 0
    let request : Request := .create ⟨"u"⟩ [("idempotency-key", .ofText "k")] ""
    let answer : Answer := .ok (replay (recorded p))
    let es : List (Event ℕ) :=
      [.arrive 0 request, .perform 0, .call 0 env, .act 0, .act 0, .act 0, .act 0, .act 0, .ret 0,
        .resume 0, .perform 0, .arrive 1 request, .perform 1]
    ∃ s : Service ℕ b, (machine ℕ b cfg).run (init ℕ b cfg) es = some s ∧
      ∃ order before, before ++ [⟨1, request, answer⟩] <+: order ∧
        Session cfg before request answer request answer := by
  intro p cfg env b request answer es
  have hhistory : history cfg (init ℕ b cfg) es =
      [.invoke 0 request, .ret 0 request answer, .invoke 1 request, .ret 1 request answer] := by
    dsimp only [es, p, cfg, b, env, request, answer]
    rfl
  obtain ⟨s, hrun⟩ : ∃ s : Service ℕ b, (machine ℕ b cfg).run (init ℕ b cfg) es = some s :=
    ⟨_, rfl⟩
  obtain ⟨order, accounts, -, h⟩ := session_guarantees b ℕ cfg es s hrun
  refine ⟨s, hrun, order, h 0 1 request request answer answer ?_ ?_ ?_ rfl⟩
  · rw [hhistory]
    simp
  · rw [hhistory]
    simp
  · rw [hhistory]
    exact ⟨[_, _], [_, _], rfl, ⟨_, _, .tail _ (.head _)⟩, _, .head _⟩

end Service

end Knova
