import Knova.Profile.Replay

/-!
# What responses show

Every response that carries a profile carries the projection of one revision of its user,
replayed creates and audit reads included.
-/

namespace Knova

open Library Routes

def Request.user : Request → UserId
  | .create user _ _ => user
  | .read user => user
  | .update user _ _ => user
  | .history user => user

/-- A response to `request` carries the profile `p`. -/
def Carries (request : Request) (response : Response) (p : Profile) : Prop :=
  match request with
  | .create _ _ _ => response.status = 201 ∧ response.body = p.toJson
  | .read _ => response.status = 200 ∧ response.body = p.toJson
  | .update _ _ _ => response.status = 200 ∧ response.body = p.toJson
  | .history user => response.status = 200 ∧ ∃ revisions,
    response.body = historyToJson revisions ∧ ∃ rev ∈ revisions, p = project user rev

/-- A tag is written in visible characters. -/
lemma visible_version (v : Version) : ∀ c ∈ v.toString.toList, 32 < c.toNat ∧ c.toNat < 127 := by
  refine forall_mem_append (forall_mem_append (by simp) fun c hc => ?_) (by simp)
  rw [Nat.toList_repr] at hc
  have hrange : 48 ≤ c.toNat ∧ c.toNat ≤ 57 :=
    Char.isDigit_iff_toNat.mp (Nat.isDigit_of_mem_toDigits (by decide) (by decide) hc)
  omega

/-- The tag of a version may be sent as a header. -/
lemma validHeaderText_version (v : Version) : validHeaderText v.toString = true := by
  simp only [validHeaderText, List.all_eq_true, Bool.or_eq_true, Bool.and_eq_true,
    decide_eq_true_eq, bne_iff_ne]
  intro c hc
  have := visible_version v c hc
  exact .inl (by omega)

/-- What a successful create answers. -/
lemma replay_recorded (p : Profile) : replay (recorded p) =
    ⟨201, [("content-type", "application/json"), ("etag", p.version.toString)], p.toJson⟩ := by
  simp [replay, recorded, validHeaderText_version, validStatus]

namespace Service

variable {ι : Type} [DecidableEq ι] {b : Backend} {cfg : Settings} {s s' : Service ι b}

/-- The response to `i` showed the profile `p` of `user`. -/
def Shown (s : Service ι b) (i : ι) (user : UserId) (p : Profile) : Prop :=
  ∃ request a, s.Sent i request ∧ request.user = user ∧ s.Answered i a ∧ Carries request a.render p

/-- The update `i`, naming the version `expected`, was answered `200`. -/
def Accepted (s : Service ι b) (i : ι) (user : UserId) (expected : Version)
    (input : ProfileInput) : Prop :=
  ∃ headers a, s.Sent i (.update user headers input) ∧ parseIfMatch headers = .ok expected ∧
    s.Answered i a ∧ a.render.status = 200

/-- A handler that made one call and returned, and what it returned. -/
lemma Tracks.answered_oneCall (hs : Tracks cfg s) {i : ι} {x : Handling} {a : Answer}
    {op : StoreOp} {answer : op.Ret → Answer} (hx : s.handler i = some x)
    (h : OneCall op answer (x.log.map Prod.snd) x.rest) (ha : x.rest = .pure a) :
    ∃ env r, s.profiles.thread i = some (.returned (op, env) r) ∧ a = answer r := by
  rw [ha] at h
  generalize hlog : x.log.map Prod.snd = log at h
  cases h with
  | done r =>
    obtain ⟨t, hdid⟩ := did_of_map hx (c := ⟨.store op, r⟩) (by simp [hlog])
    obtain ⟨env, ht⟩ := hs.returned i t op r hdid
    exact ⟨env, r, ht, rfl⟩

/-- A handler that failed, or failed before any call, does not answer a success. -/
lemma render_error_status (e : ProfileError) : 400 ≤ (Answer.render (.error e)).status :=
  e.intoResponse_status

lemma rejected_status {log : List (Prog.Performed HandlerE)} {rest : HandlerProg Answer}
    {a : Answer} (h : Rejected log rest) (ha : rest = .pure a) : 400 ≤ a.render.status := by
  obtain ⟨-, e, rfl⟩ := h
  cases ha
  exact render_error_status e

/-- Only an applied update is answered `200`. -/
lemma updated_status {r : Except StoreError Update} (h : (updated r).render.status = 200) :
    ∃ p, r = .ok (.applied p) := by
  have hne : ∀ e, updated r ≠ .error e := by
    intro e he
    have := render_error_status e
    rw [he] at h
    omega
  match r with
  | .ok (.applied p) => exact ⟨p, rfl⟩
  | .ok (.stale v) => exact absurd rfl (hne _)
  | .ok .missing => exact absurd rfl (hne _)
  | .error e => exact absurd rfl (hne _)

/-- An accepted update returned what it applied. -/
lemma Tracks.accepted_returned (hs : Tracks cfg s) {i : ι} {user : UserId} {expected : Version}
    {input : ProfileInput} (h : s.Accepted i user expected input) : ∃ env p,
      s.profiles.thread i = some (.returned (.update user expected input, env) (.ok (.applied p))) ∧
      s.Answered i (.ok (withEtag 200 p)) := by
  obtain ⟨headers, a, ⟨x, hx, hreq⟩, hmatch, hanswered, hstatus⟩ := h
  have ha := hanswered.rest_eq hx
  have hfollows := hs.follows i x hx
  rw [hreq] at hfollows
  rcases update_of_follows hfollows with h | ⟨expected', hmatch', h⟩
  · have := rejected_status h ha
    omega
  · rw [hmatch] at hmatch'
    obtain rfl := Except.ok.inj hmatch'
    obtain ⟨env, r, ht, rfl⟩ := hs.answered_oneCall hx h ha
    obtain ⟨p, rfl⟩ := updated_status hstatus
    exact ⟨env, p, ht, x, hx, ha⟩

section Shown

variable {order : List (Library.Entry ι StoreCalls)} {h : Histories}

/-- A create that succeeded answers what one create of its user recorded, itself or an earlier
one. -/
lemma Inv.created_of_create (hs : Inv cfg s) {i : ι} {x : Handling} {user : UserId}
    {headers : HeaderMap} {body : String} {response : Response} (hi : s.handler i = some x)
    (hreq : x.request = .create user headers body) (ha : x.rest = .pure (.ok response)) :
    ∃ j q, s.Created j user q ∧ response = replay (recorded q) := by
  have hfollows := hs.tracks.follows i x hi
  rw [hreq] at hfollows
  cases hkey : idempotencyKey headers with
  | some key =>
    have hkeyed := keyed_of_follows hkey hfollows
    rw [ha] at hkeyed
    generalize hlog : x.log.map Prod.snd = log at hkeyed
    cases hkeyed with
    | refused found _ htold =>
      obtain ⟨t, hbegin⟩ := did_of_map hi (c := ⟨.begin user.asStr key body, found⟩)
        (by simp [hlog])
      match found with
      | .replay found =>
        cases htold
        obtain ⟨j, t', body', hfin, -⟩ := hs.kept.replayed i t _ _ _ _ hbegin
        obtain ⟨q, hq, -, rfl⟩ := hs.created_of_finish hfin
        exact ⟨j, q, hq, rfl⟩
    | finished input q hparse =>
      obtain ⟨t, hstore⟩ := did_of_map hi (c := ⟨.store (.create user input), .ok (some q)⟩)
        (by simp [hlog])
      obtain ⟨env, ht⟩ := hs.tracks.returned i t _ _ hstore
      exact ⟨i, q, ⟨input, env, ht⟩, rfl⟩
  | none =>
    rcases keyless_of_follows hkey hfollows with ⟨-, e, he⟩ | ⟨input, -, h⟩
    · rw [ha] at he
      cases he
    · obtain ⟨env, r, ht, hr⟩ := hs.tracks.answered_oneCall hi h ha
      match r with
      | .ok (some q) => exact ⟨i, q, ⟨input, env, ht⟩, Except.ok.inj hr⟩

/-- What a create that answered `201` showed. -/
lemma Inv.rev_of_create (hs : Inv cfg s) (hx : (b.points ι).Explains s.profiles order h) {i : ι}
    {x : Handling} {user : UserId} {headers : HeaderMap} {body : String} {a : Answer} {p : Profile}
    (hi : s.handler i = some x) (hreq : x.request = .create user headers body)
    (ha : x.rest = .pure a) (hstatus : a.render.status = 201) (hbody : a.render.body = p.toJson) :
    ∃ rev ∈ h user, p = project user rev := by
  cases a with
  | error e =>
    have := render_error_status e
    omega
  | ok response =>
    obtain ⟨j, q, hq, rfl⟩ := hs.created_of_create hi hreq ha
    rw [Answer.render, replay_recorded] at hbody
    obtain rfl := Profile.toJson_injective hbody
    obtain ⟨rev, hhead, hp⟩ := created_head? hx hq
    exact ⟨rev, List.mem_of_head? hhead, hp⟩

/-- What an update that answered `200` showed. -/
lemma rev_of_applied (hx : (b.points ι).Explains s.profiles order h) {i : ι} {user : UserId}
    {expected : Version} {input : ProfileInput} {env : Env} {p : Profile}
    (ht : s.profiles.thread i = some (.returned (.update user expected input, env)
      (.ok (.applied p)))) : ∃ rev ∈ h user, p = project user rev := by
  have hmem := hx.returned_mem ht
  obtain ⟨pre, post, h₁, h₂, -, -, hs⟩ := hx.linearizes.legal.split hmem
  obtain ⟨-, -, hp⟩ := Histories.contract_update hs
  refine ⟨revision env.nowMs p.version input, ?_, hp⟩
  exact (Histories.mem_of_writtenFor hx.linearizes.legal).mpr
    ⟨_, hmem, Histories.writtenFor_update ..⟩

/-- Every profile a response carries is the projection of a revision of its user. -/
theorem Inv.rev_of_shown (hs : Inv cfg s) (hx : (b.points ι).Explains s.profiles order h) {i : ι}
    {user : UserId} {p : Profile} (hshown : s.Shown i user p) :
    ∃ rev ∈ h user, p = project user rev := by
  obtain ⟨request, a, ⟨x, hi, rfl⟩, huser, hanswered, hcarries⟩ := hshown
  have ha := hanswered.rest_eq hi
  have hfollows := hs.tracks.follows i x hi
  have herror : ∀ e, a.render.status < 400 → a ≠ .error e := by
    rintro e hlt rfl
    have := render_error_status e
    omega
  cases hreq : x.request with
  | create u headers body =>
    rw [hreq] at huser hcarries
    obtain rfl : u = user := huser
    exact hs.rev_of_create hx hi hreq ha hcarries.1 hcarries.2
  | read u =>
    rw [hreq] at huser hcarries hfollows
    obtain rfl : u = user := huser
    obtain ⟨hstatus, hbody⟩ := hcarries
    obtain ⟨env, r, ht, rfl⟩ := hs.tracks.answered_oneCall hi (read_of_follows hfollows) ha
    match r with
    | .ok (some q) =>
      obtain rfl := Profile.toJson_injective hbody
      exact Histories.mem_of_get hx.linearizes.legal (hx.returned_mem ht)
    | .ok none => exact absurd rfl (herror .notFound (by omega))
    | .error e => exact absurd rfl (herror (.store e) (by omega))
  | update u headers input =>
    rw [hreq] at huser hcarries hfollows
    obtain rfl : u = user := huser
    obtain ⟨hstatus, hbody⟩ := hcarries
    rcases update_of_follows hfollows with h | ⟨expected, hmatch, h⟩
    · have := rejected_status h ha
      omega
    · obtain ⟨env, r, ht, rfl⟩ := hs.tracks.answered_oneCall hi h ha
      obtain ⟨q, rfl⟩ := updated_status hstatus
      obtain rfl := Profile.toJson_injective hbody
      exact rev_of_applied hx ht
  | history u =>
    rw [hreq] at huser hcarries hfollows
    obtain rfl : u = user := huser
    obtain ⟨hstatus, revisions, hbody, rev, hrev, rfl⟩ := hcarries
    obtain ⟨env, r, ht, rfl⟩ := hs.tracks.answered_oneCall hi (history_of_follows hfollows) ha
    match r with
    | .ok (first :: rest) =>
      obtain rfl := historyToJson_injective hbody
      have hprefix := Histories.prefix_of_history hx.linearizes.legal (hx.returned_mem ht)
      exact ⟨rev, hprefix.subset hrev, rfl⟩
    | .ok [] => exact absurd rfl (herror .notFound (by omega))
    | .error e => exact absurd rfl (herror (.store e) (by omega))

end Shown

end Service

end Knova
