import Knova.Common.EntityTag
import Knova.Profile.Responses

/-!
# What a conditional update is answered

Every entity tag the service answers with names a revision of its user. An update that
quotes one is accepted if that revision is still the last one, and is told of a later one
otherwise.
-/

namespace Knova

open Library Routes

/-- The backend fails no part of a call; the memory backend never does. -/
def Backend.Faultless : Backend → Env → Prop
  | .memory _ _, _ => True
  | .sqlite, env => SqliteProfiles.Quiet env

namespace Histories

variable {ι : Type} {order : List (Library.Entry ι StoreCalls)} {h : Histories} {user : UserId}

/-- The contract without faults: a call that meets none, and names no version the column
cannot hold, behaves as the plain specification says. -/
def strict (b : Backend) : Spec StoreCalls Histories :=
  fun h call r h' => contract h call r h' ∧
    (b.Faultless call.2 ∧ SqliteProfiles.InRange call.1 → plain h call r h')

/-- The last revision the calls of `order` wrote for `user`. -/
def Latest (user : UserId) (order : List (Library.Entry ι StoreCalls)) (rev : Revision) : Prop :=
  (∃ e ∈ order, writtenFor user e = some rev) ∧ ∀ e ∈ order, ∀ rev',
    writtenFor user e = some rev' → rev'.version.get ≤ rev.version.get

lemma Contiguous.le_getLast? {l : List Revision} (hl : Contiguous l) {last rev : Revision}
    (hlast : l.getLast? = some last) (hrev : rev ∈ l) : rev.version.get ≤ last.version.get := by
  obtain ⟨k, hk, rfl⟩ := List.mem_iff_getElem.mp hrev
  rw [hl.getElem_version hk, hl.getLast?_version hlast]
  exact hk

lemma latest_of_getLast? (hl : Legal contract empty order h) {last : Revision}
    (hlast : (h user).getLast? = some last) : Latest user order last := by
  refine ⟨(mem_of_writtenFor hl).mp (List.mem_of_getLast? hlast), fun e he rev hw => ?_⟩
  exact (legal_history hl user).2.le_getLast? hlast ((mem_of_writtenFor hl).mpr ⟨e, he, hw⟩)

end Histories

namespace Backend

variable {ι : Type} [DecidableEq ι] {b : Backend}

/-- Both backends keep the contract without faults. -/
def strictPoints (ι : Type) [DecidableEq ι] :
    (b : Backend) → LinearizationPoints (b.object ι) (Histories.strict b) Histories.empty
  | .memory mask hash =>
    (InMemoryProfiles.linearizationPoints ι mask hash).mono fun _ _ _ _ hp =>
      ⟨Histories.contract_of_plain hp, fun _ => hp⟩
  | .sqlite =>
    mutexObject_linearizationPoints SqliteProfiles.Represents SqliteProfiles.represents_empty
      fun c h call hr => by
        rcases SqliteProfiles.run_body call.2 hr call.1 with ⟨h', hplain, hr'⟩ | ⟨herr, hr', hnot⟩
        · exact ⟨h', ⟨.inl hplain, fun _ => hplain⟩, hr'⟩
        · exact ⟨h, ⟨.inr ⟨herr, rfl⟩, fun hquiet => absurd hquiet hnot⟩, hr'⟩

lemma points_eq (b : Backend) : b.points ι = (b.strictPoints ι).mono fun _ _ _ _ hs => hs.1 := by
  cases b <;> rfl

lemma explains_of_strict {c : (b.object ι).Config} {order : List (Library.Entry ι StoreCalls)}
    {h : Histories} (hx : (b.strictPoints ι).Explains c order h) :
    (b.points ι).Explains c order h := by
  rw [points_eq]
  exact hx.mono _

end Backend

/-! ### Tags name revisions -/

/-- The entity tag of a response. -/
def Response.etag (response : Response) : Option String := response.headers.lookup "etag"

/-- Only a stale precondition is answered with a tag. -/
def ProfileError.Untagged (e : ProfileError) : Prop := ∀ v, e ≠ .preconditionFailed v

lemma ProfileError.Untagged.etag {e : ProfileError} (h : e.Untagged) :
    e.intoResponse.etag = none := by
  cases e with
  | preconditionFailed v => exact absurd rfl (h v)
  | _ => rfl

namespace Routes

variable {parse : String → Option ProfileInput} {user : UserId} {headers : HeaderMap}
  {body : String}

/-- The failures of a handler that makes no conditional update. -/
def FailsUntagged (a : Answer) : Prop := ∀ e, a = .error e → e.Untagged

lemma failsUntagged_ok (response : Response) : FailsUntagged (.ok response) := by
  rintro e ⟨⟩

lemma failsUntagged_error {e : ProfileError} (h : e.Untagged) : FailsUntagged (.error e) := by
  rintro e ⟨⟩
  exact h

lemma returns_createOnce {k : Except ProfileError Recorded → HandlerProg Answer}
    (hok : ∀ found, (k (.ok found)).Returns FailsUntagged)
    (herror : ∀ e : ProfileError, e.Untagged → (k (.error e)).Returns FailsUntagged) :
    (createOnce parse user body k).Returns FailsUntagged := by
  unfold createOnce
  split
  · exact herror _ (by rintro v ⟨⟩)
  · split
    · exact herror _ (by rintro v ⟨⟩)
    · intro r
      match r with
      | .error e => exact herror _ (by rintro v ⟨⟩)
      | .ok none => exact herror _ (by rintro v ⟨⟩)
      | .ok (some p) => exact hok _

lemma returns_create : (create parse user headers body).Returns FailsUntagged := by
  unfold create
  split
  · exact returns_createOnce (fun found => failsUntagged_ok _)
      fun e he => failsUntagged_error he
  · intro found
    match found with
    | .reserved =>
      exact returns_createOnce (fun found _ => failsUntagged_ok _)
        fun e he _ => failsUntagged_error he
    | .inFlight => exact failsUntagged_error (by rintro v ⟨⟩)
    | .bodyMismatch => exact failsUntagged_error (by rintro v ⟨⟩)
    | .replay found => exact failsUntagged_ok _

lemma etag_replay_recorded (p : Profile) :
    (replay (recorded p)).etag = some p.version.toString := by
  rw [replay_recorded]
  rfl

lemma parseIfMatch_untagged {e : ProfileError} (h : parseIfMatch headers = .error e) :
    e.Untagged := by
  unfold parseIfMatch at h
  split at h
  · cases h
    rintro v ⟨⟩
  · split at h
    · cases h
      rintro v ⟨⟩
    · cases h

/-- An update that is refused before it looks at the profile. -/
lemma update_eq_pure {input : ProfileInput} {a : Answer} (h : update user headers input = .pure a) :
    FailsUntagged a := by
  unfold update at h
  split at h
  · cases h
    exact failsUntagged_error (by rintro v ⟨⟩)
  · split at h
    · rename_i e he
      cases h
      exact failsUntagged_error (parseIfMatch_untagged he)
    · cases h

/-- A tag is read back as the version it was made from. -/
lemma parseIfMatch_etag {v : Version}
    (h : headers.get "if-match" = some (.ofText v.toString)) : parseIfMatch headers = .ok v := by
  have hread : (HeaderValue.ofText v.toString).toStr = some v.toString :=
    HeaderValue.toStr_ofText fun c hc => ⟨(visible_version v c hc).1.le, (visible_version v c hc).2⟩
  simp only [parseIfMatch, h, hread, Option.bind_some, Version.fromStr_toString]

end Routes

namespace Service

variable {ι : Type} [DecidableEq ι] {b : Backend} {cfg : Settings} {s t : Service ι b}

section Tags

variable {order : List (Library.Entry ι StoreCalls)} {h : Histories}

/-- The version an answer reports as stored is that of some revision. -/
lemma rev_of_stale (hx : (b.points ι).Explains s.profiles order h) {i : ι} {user : UserId}
    {expected current : Version} {input : ProfileInput} {env : Env}
    (ht : s.profiles.thread i = some (.returned (.update user expected input, env)
      (.ok (.stale current)))) : ∃ rev ∈ h user, rev.version = current := by
  obtain ⟨pre, post, h₁, h₂, rfl, hpre, hs⟩ := hx.linearizes.legal.split (hx.returned_mem ht)
  have hprefix := Histories.prefix_of_legal hpre hx.linearizes.legal user
  rcases hs with hs | ⟨⟨e, he⟩, -⟩
  · simp only [Histories.apply] at hs
    split at hs
    · cases (Prod.mk.inj hs).1
    · rename_i last hlast
      split at hs
      · cases (Prod.mk.inj hs).1
        exact ⟨last, hprefix.subset (List.mem_of_getLast? hlast), rfl⟩
      · split at hs <;> cases (Prod.mk.inj hs).1
  · cases he

/-- Every tag a handler answers with is the tag of a revision of its user. -/
theorem Inv.rev_of_etag (hs : Inv cfg s) (hx : (b.points ι).Explains s.profiles order h) {i : ι}
    {x : Handling} {a : Answer} {tag : String} (hi : s.handler i = some x) (ha : x.rest = .pure a)
    (htag : a.render.etag = some tag) :
    ∃ rev ∈ h x.request.user, tag = rev.version.toString := by
  have hfollows := hs.tracks.follows i x hi
  have huntagged : ∀ {e : ProfileError}, e.Untagged → a ≠ .error e := by
    rintro e he rfl
    rw [Answer.render, he.etag] at htag
    cases htag
  cases hreq : x.request with
  | create user headers body =>
    rw [hreq] at hfollows
    cases a with
    | error e =>
      have hreturns := returns_create.follows hfollows
      rw [ha] at hreturns
      exact absurd rfl (huntagged (hreturns e rfl))
    | ok response =>
      obtain ⟨j, q, hq, rfl⟩ := hs.created_of_create hi hreq ha
      rw [Answer.render, etag_replay_recorded] at htag
      obtain ⟨rev, hhead, rfl⟩ := created_head? hx hq
      exact ⟨rev, List.mem_of_head? hhead, (Option.some.inj htag).symm⟩
  | read user =>
    rw [hreq] at hfollows
    obtain ⟨env, r, ht, rfl⟩ := hs.tracks.answered_oneCall hi (read_of_follows hfollows) ha
    rcases r with e | _ | q
    · exact absurd rfl (huntagged (by rintro v ⟨⟩))
    · exact absurd rfl (huntagged (by rintro v ⟨⟩))
    · obtain ⟨rev, hrev, rfl⟩ := Histories.mem_of_get hx.linearizes.legal (hx.returned_mem ht)
      exact ⟨rev, hrev, (Option.some.inj htag).symm⟩
  | update user headers input =>
    rw [hreq] at hfollows
    rcases update_of_follows hfollows with ⟨hlog, e, he⟩ | ⟨expected, -, hcall⟩
    · rw [hlog, he] at hfollows
      obtain rfl : a = .error e := Prog.pure.inj (ha.symm.trans he)
      exact absurd rfl (huntagged (update_eq_pure (Prog.follows_nil hfollows) e rfl))
    · obtain ⟨env, r, ht, rfl⟩ := hs.tracks.answered_oneCall hi hcall ha
      rcases r with e | q | current | _
      · exact absurd rfl (huntagged (by rintro v ⟨⟩))
      · obtain ⟨rev, hrev, rfl⟩ := rev_of_applied hx ht
        exact ⟨rev, hrev, (Option.some.inj htag).symm⟩
      · obtain ⟨rev, hrev, rfl⟩ := rev_of_stale hx ht
        exact ⟨rev, hrev, (Option.some.inj htag).symm⟩
      · exact absurd rfl (huntagged (by rintro v ⟨⟩))
  | history user =>
    rw [hreq] at hfollows
    obtain ⟨env, r, ht, rfl⟩ := hs.tracks.answered_oneCall hi (history_of_follows hfollows) ha
    rcases r with e | _ | ⟨first, rest⟩
    · exact absurd rfl (huntagged (by rintro v ⟨⟩))
    · exact absurd rfl (huntagged (by rintro v ⟨⟩))
    · cases htag

end Tags

/-! ### Quoting a tag -/

/-- What an update that names `v` is answered where `order` is what took effect before it. -/
def Judged (user : UserId) (v : Version) (order : List (Library.Entry ι StoreCalls))
    (response : Response) : Prop :=
  ∃ last, Histories.Latest user order last ∧ v.get ≤ last.version.get ∧
    (last.version = v → ∃ next : Version, next.get = v.get + 1 ∧ response.status = 200 ∧
      response.etag = some next.toString) ∧
    (last.version ≠ v → response.status = 412 ∧ response.etag = some last.version.toString)

/-- A run of the service is a run of its repository, whose calls the handlers made. -/
lemma run_profiles {es : List (Event ι)} (hrun : (machine ι b cfg).run s es = some t) :
    ∃ moves, (b.object ι).machine.run s.profiles moves = some t.profiles ∧
      ∀ i call, .invoke i call ∈ moves → .call i call.2 ∈ es := by
  induction es generalizing s with
  | nil =>
    obtain rfl : s = t := Option.some.inj hrun
    exact ⟨[], rfl, by simp⟩
  | cons e es ih =>
    obtain ⟨s₁, hstep, hrest⟩ := Machine.run_cons_eq_some.mp hrun
    obtain ⟨moves, hmoves, hcalls⟩ := ih hrest
    have hlater : ∀ i call, .invoke i call ∈ moves → .call i call.2 ∈ e :: es :=
      fun i call hmem => List.mem_cons_of_mem _ (hcalls i call hmem)
    have hsame : s₁.profiles = s.profiles → ∃ moves,
        (b.object ι).machine.run s.profiles moves = some t.profiles ∧
          ∀ i call, .invoke i call ∈ moves → .call i call.2 ∈ e :: es :=
      fun heq => ⟨moves, heq ▸ hmoves, hlater⟩
    obtain ⟨i, request, -, -, rfl⟩ | ⟨i, x, a, k, r, store, -, -, -, -, -, rfl⟩ |
      ⟨m, profiles, hm, he, rfl⟩ | ⟨i, x, op, k, env, r, -, -, -, -, -, rfl⟩ |
      ⟨i, x, -, -, -, -, rfl⟩ | ⟨d, -, rfl⟩ := step_cases hstep
    case inr.inr.inl =>
      refine ⟨m :: moves, Machine.run_cons_eq_some.mpr ⟨profiles, hm, hmoves⟩, ?_⟩
      intro i call hmem
      rcases List.mem_cons.mp hmem with rfl | hmem
      · rcases he with ⟨j, x, op, k, env, rfl, hcall, -⟩ | ⟨j, ⟨-, hact⟩ | ⟨-, hret⟩⟩
        · obtain ⟨rfl, rfl⟩ := Move.invoke.inj hcall
          exact List.mem_cons_self ..
        · cases hact
        · cases hret
      · exact hlater i call hmem
    all_goals exact hsame rfl

omit [DecidableEq ι] in
/-- An update that named `v`, after calls that had written `v`. -/
lemma judged_of_strict {user : UserId} {v : Version} {input : ProfileInput} {env : Env}
    {r : Except StoreError Update} {pre : List (Library.Entry ι StoreCalls)} {h h' : Histories}
    (hpre : Legal Histories.contract Histories.empty pre h) {rev : Revision} (hrev : rev ∈ h user)
    (hv : rev.version = v) (hrange : v.get < 2 ^ 63 - 1) (hquiet : b.Faultless env)
    (hs : Histories.strict b h (.update user v input, env) r h') :
    Judged user v pre (updated r).render := by
  obtain ⟨last, hlast⟩ : ∃ last, (h user).getLast? = some last := by
    cases hl : (h user).getLast? with
    | none =>
      rw [List.getLast?_eq_none_iff.mp hl] at hrev
      cases hrev
    | some last => exact ⟨last, rfl⟩
  have hinrange : SqliteProfiles.InRange (.update user v input) := by
    change v.get + 1 < 2 ^ 63
    omega
  have hplain : (r, h') = Histories.apply env (.update user v input) h := hs.2 ⟨hquiet, hinrange⟩
  have hle := (Histories.legal_history hpre user).2.le_getLast? hlast hrev
  rw [hv] at hle
  refine ⟨last, Histories.latest_of_getLast? hpre hlast, hle, fun heq => ?_, fun hne => ?_⟩
  · obtain ⟨next, hnext⟩ : ∃ next, last.version.checkedNext = some next := by
      cases hn : last.version.checkedNext with
      | none =>
        have hmax := Version.checkedNext_eq_none.mp hn
        rw [heq] at hmax
        omega
      | some next => exact ⟨next, rfl⟩
    simp only [Histories.apply, hlast, heq, ne_eq, not_true_eq_false, if_false] at hplain
    rw [heq] at hnext
    rw [hnext] at hplain
    obtain ⟨rfl, -⟩ := Prod.mk.inj hplain
    exact ⟨next, Version.checkedNext_eq_some.mp hnext, rfl, rfl⟩
  · simp only [Histories.apply, hlast, ne_eq, hne, not_false_eq_true, if_true] at hplain
    obtain ⟨rfl, -⟩ := Prod.mk.inj hplain
    exact ⟨rfl, rfl⟩

/-- An update that quotes a tag a handler has answered with before the update came in. -/
theorem judged_of_quoted {es es' : List (Event ι)}
    (hrun : (machine ι b cfg).run (init ι b cfg) es = some s)
    (hrun' : (machine ι b cfg).run s es' = some t) {i j : ι} {x y : Handling} {a a' : Answer}
    {tag : String} {headers : HeaderMap} {input : ProfileInput}
    (hi : s.handler i = some x) (ha : x.rest = .pure a) (htag : a.render.etag = some tag)
    (hversions : ∀ p, b.projection s.profiles.shared x.request.user = some p →
      p.version.get < 2 ^ 63 - 1)
    (hnew : s.handler j = none) (hj : t.handler j = some y)
    (hreq : y.request = .update x.request.user headers input) (hvalid : input.validate = .ok ())
    (hmatch : headers.get "if-match" = some (.ofText tag)) (ha' : y.rest = .pure a')
    (hquiet : ∀ env, .call j env ∈ es' → b.Faultless env) :
    ∃ v order h pre post env r, tag = v.toString ∧
      Linearizes Histories.contract Histories.empty t.profiles.history order h ∧
      order = pre ++ ⟨j, (.update x.request.user v input, env), r⟩ :: post ∧
      Judged x.request.user v pre a'.render := by
  have hs : Inv cfg s := inv_of_run hrun
  have ht : Inv cfg t := inv_of_run (Machine.run_append_eq_some.mpr ⟨s, hrun, hrun'⟩)
  obtain ⟨moves, hmoves, -⟩ := run_profiles hrun
  obtain ⟨moves', hmoves', hcalls⟩ := run_profiles hrun'
  obtain ⟨before, h₀, hx₀⟩ := (b.strictPoints ι).reachable_explained ⟨moves, hmoves⟩
  obtain ⟨new, h, hx⟩ := hx₀.run hmoves'
  obtain ⟨rev, hrev, rfl⟩ := hs.rev_of_etag (Backend.explains_of_strict hx₀) hi ha htag
  -- the version of the tag is at most the one stored when the tag was answered
  have hrange : rev.version.get < 2 ^ 63 - 1 := by
    have hlegal := (Backend.explains_of_strict hx₀).linearizes.legal
    cases hl : (h₀ x.request.user).getLast? with
    | none =>
      rw [List.getLast?_eq_none_iff.mp hl] at hrev
      cases hrev
    | some last =>
      have hstored := b.projection_eq (Backend.explains_of_strict hx₀).inv x.request.user
      rw [hl] at hstored
      have hlast := hversions _ hstored
      exact Nat.lt_of_le_of_lt
        ((Histories.legal_history hlegal _).2.le_getLast? hl hrev) hlast
  have hfollows := ht.tracks.follows j y hj
  rw [hreq] at hfollows
  have hcall : OneCall (.update x.request.user rev.version input) updated (y.log.map Prod.snd)
      y.rest := by
    rcases update_of_follows hfollows with ⟨hlog, e, he⟩ | ⟨expected, hexpected, hcall⟩
    · rw [hlog, he] at hfollows
      have hpure := Prog.follows_nil hfollows
      simp only [Request.handler, update, hvalid, parseIfMatch_etag hmatch] at hpure
      cases hpure
    · rw [parseIfMatch_etag hmatch] at hexpected
      obtain rfl := Except.ok.inj hexpected
      exact hcall
  obtain ⟨env, r, hthread, rfl⟩ := ht.tracks.answered_oneCall hj hcall ha'
  have hfresh : ∀ e ∈ before, e.id ≠ j := by
    intro e he hid
    obtain ⟨th, hth, -⟩ := hx₀.thread_of_mem he
    rw [hid] at hth
    obtain ⟨z, hz, -⟩ := hs.tracks.called j th hth
    rw [hnew] at hz
    cases hz
  have hmem := hx.returned_mem hthread
  obtain ⟨pre, post, h₁, h₂, horder, hpre, hstrict⟩ := hx.linearizes.legal.split hmem
  have hprefix : before <+: pre := by
    have hbefore := List.prefix_append before new
    rw [horder] at hbefore
    exact prefix_of_not_mem hbefore fun he => hfresh _ he rfl
  have hpre' : Legal Histories.contract Histories.empty pre h₁ := hpre.mono fun _ _ _ _ hs => hs.1
  have hrev₁ : rev ∈ h₁ x.request.user := by
    obtain ⟨rest, rfl⟩ := hprefix
    exact (Histories.prefix_of_legal (Backend.explains_of_strict hx₀).linearizes.legal hpre'
      _).subset hrev
  have hcalled : b.Faultless env := by
    rcases SharedObject.thread_of_run hmoves' hthread with hinvoke | ⟨th, hth, -⟩
    · exact hquiet env (hcalls j _ hinvoke)
    · obtain ⟨z, hz, -⟩ := hs.tracks.called j th hth
      rw [hnew] at hz
      cases hz
  exact ⟨rev.version, _, h, pre, post, env, r, rfl,
    (Backend.explains_of_strict hx).linearizes, horder,
    judged_of_strict hpre' hrev₁ rfl hrange hcalled hstrict⟩

end Service

end Knova
