import Knova.Profile.Responses

/-!
# No lost update

Any number of clients create, read and update one profile at once. Every version has one
content, whoever shows it, and an accepted update replaces exactly the content that was
shown at the version it names. Clients that run read-modify-write therefore have each
accepted change applied once.
-/

namespace Knova.Service

open Library Routes

variable {ι : Type} [DecidableEq ι] {b : Backend} {cfg : Settings} {es : List (Event ι)}
  {s : Service ι b} {user : UserId}

/-- The stored projection of a user. -/
def projection (s : Service ι b) (user : UserId) : Option Profile :=
  b.projection s.profiles.shared user

/-- In the run `es` to `s`, the call that `k` made on the repository acts from `s₁` to `s₂`. -/
def Acted (cfg : Settings) (es : List (Event ι)) (s : Service ι b) (k : ι)
    (s₁ s₂ : Service ι b) : Prop :=
  (machine ι b cfg).Passes (init ι b cfg) es s (.act k) s₁ s₂

/-- The call that `k` made on the repository replaced the projection `before` of the user by
`p` in one step of the run. -/
structure TookEffect (cfg : Settings) (es : List (Event ι)) (s : Service ι b) (k : ι)
    (user : UserId) (before : Option Profile) (p : Profile) : Prop where
  step : ∃ s₁ s₂, Acted cfg es s k s₁ s₂ ∧ s₁.projection user = before ∧
    s₂.projection user = some p
  call : ∃ th, s.profiles.thread k = some th ∧
    (before = none ∧ th.op.1 = .create user p.content ∧ p.version = .initial ∨
      ∃ q, before = some q ∧ th.op.1 = .update user q.version p.content ∧
        p.version.get = q.version.get + 1)

lemma TookEffect.ne {k : ι} {before : Option Profile} {p : Profile}
    (h : TookEffect cfg es s k user before p) : before ≠ some p := by
  rintro rfl
  obtain ⟨th, -, ⟨hnone, -⟩ | ⟨q, hq, -, hversion⟩⟩ := h.call
  · cases hnone
  · rw [Option.some.inj hq] at hversion
    omega

/-- In the run `es` to `s` the call `e` took effect in one step, as the contract says, right
after the calls `pre`. -/
def Effective (cfg : Settings) (es : List (Event ι)) (s : Service ι b)
    (pre : List (Library.Entry ι StoreCalls)) (e : Library.Entry ι StoreCalls) : Prop :=
  ∃ s₁ s₂ h₁ h₂, Acted cfg es s e.id s₁ s₂ ∧
    (b.points ι).inv s₁.profiles.shared h₁ ∧ (b.points ι).inv s₂.profiles.shared h₂ ∧
    Histories.contract h₁ e.op e.ret h₂ ∧ Legal Histories.contract Histories.empty pre h₁

lemma Effective.snoc {s' : Service ι b} {pre : List (Library.Entry ι StoreCalls)}
    {d : Library.Entry ι StoreCalls} (h : Effective cfg es s pre d) {e : Event ι}
    (hstep : Service.step cfg s e = some s') : Effective cfg (es ++ [e]) s' pre d := by
  obtain ⟨s₁, s₂, h₁, h₂, hacted, hrest⟩ := h
  exact ⟨s₁, s₂, h₁, h₂, hacted.snoc hstep, hrest⟩

/-- An order that explains a run, tied to the steps of the run. -/
structure Timeline (cfg : Settings) (es : List (Event ι)) (s : Service ι b)
    (order : List (Library.Entry ι StoreCalls)) (h : Histories) : Prop where
  explained : (b.points ι).Explains s.profiles order h
  /-- Every call in the order took effect in a step of its own. -/
  acted : ∀ e ∈ order, ∃ pre, pre ++ [e] <+: order ∧ Effective cfg es s pre e
  /-- Whatever changed a projection is a call in the order that wrote. -/
  changed : ∀ k s₁ s₂ user, Acted cfg es s k s₁ s₂ → s₁.projection user ≠ s₂.projection user →
    ∃ e ∈ order, e.id = k ∧ (Histories.writtenFor user e).isSome

lemma projection_eq {h : Histories} (hinv : (b.points ι).inv s.profiles.shared h) (user : UserId) :
    s.projection user = (h user).getLast?.map (project user) := b.projection_eq hinv user

variable {order order' : List (Library.Entry ι StoreCalls)} {h h' : Histories}

/-- What acted before the last step of a run. -/
lemma Timeline.acted_before {s' : Service ι b} (ht : Timeline cfg es s order h) {e : Event ι}
    (hstep : Service.step cfg s e = some s') (hpre : order <+: order') :
    ∀ d ∈ order, ∃ pre, pre ++ [d] <+: order' ∧ Effective cfg (es ++ [e]) s' pre d := by
  intro d hd
  obtain ⟨pre, hp, heffective⟩ := ht.acted d hd
  exact ⟨pre, hp.trans hpre, heffective.snoc hstep⟩

theorem Timeline.step {s' : Service ι b} (ht : Timeline cfg es s order h)
    (hrun : (machine ι b cfg).run (init ι b cfg) es = some s) {e : Event ι}
    (hstep : Service.step cfg s e = some s') :
    ∃ order' h', Timeline cfg (es ++ [e]) s' order' h' := by
  -- a step that appends nothing to the order leaves every projection as it was
  have hsame : (b.points ι).Explains s'.profiles order h → Timeline cfg (es ++ [e]) s' order h := by
    intro hx
    refine ⟨hx, ht.acted_before hstep (List.prefix_refl _), fun k s₁ s₂ user hacted hne => ?_⟩
    rcases hacted.cases_snoc hrun with hacted | ⟨-, rfl, rfl⟩
    · exact ht.changed k s₁ s₂ user hacted hne
    · rw [projection_eq ht.explained.inv, projection_eq hx.inv] at hne
      exact absurd rfl hne
  rcases step_profiles hstep with hp | ⟨m, hm, hact⟩
  · exact ⟨order, h, hsame (by rw [hp]; exact ht.explained)⟩
  · rcases ht.explained.step_cases hm with hx | ⟨d, h', hmd, hspec, hx⟩
    · exact ⟨order, h, hsame hx⟩
    · obtain rfl := hact _ hmd
      refine ⟨order ++ [d], h', hx, fun c hc => ?_, fun k s₁ s₂ user hacted hne => ?_⟩
      · rcases List.mem_append.mp hc with hc | hc
        · exact ht.acted_before hstep (List.prefix_append _ _) c hc
        · obtain rfl := List.mem_singleton.mp hc
          exact ⟨order, List.prefix_refl _, s, s', h, h', Machine.passes_last hrun hstep,
            ht.explained.inv, hx.inv, hspec, ht.explained.linearizes.legal⟩
      · rcases hacted.cases_snoc hrun with hacted | ⟨hk, rfl, rfl⟩
        · obtain ⟨c, hc, hid, hw⟩ := ht.changed k s₁ s₂ user hacted hne
          exact ⟨c, List.mem_append_left _ hc, hid, hw⟩
        · cases hk
          refine ⟨d, by simp, rfl, Option.isSome_iff_ne_none.mpr fun hnone => hne ?_⟩
          have happend := (Histories.contract_step hspec user).1
          rw [hnone, Option.toList_none, List.append_nil] at happend
          rw [projection_eq ht.explained.inv, projection_eq hx.inv, happend]

/-- Every run has its timeline. -/
theorem timeline (hrun : (machine ι b cfg).run (init ι b cfg) es = some s) :
    ∃ order h, Timeline cfg es s order h := by
  induction es using List.reverseRecOn generalizing s with
  | nil =>
    obtain rfl : init ι b cfg = s := Option.some.inj hrun
    refine ⟨[], _, (b.points ι).explains_initial, by simp, fun k s₁ s₂ user hacted => ?_⟩
    obtain ⟨before, after, hnil, -⟩ := hacted
    simp at hnil
  | append_singleton es e ih =>
    obtain ⟨s', hrun', hlast⟩ := Machine.run_append_eq_some.mp hrun
    obtain ⟨s'', hstep, hnil⟩ := Machine.run_cons_eq_some.mp hlast
    obtain rfl : s'' = s := Option.some.inj hnil
    obtain ⟨order, h, ht⟩ := ih hrun'
    exact ht.step hrun' hstep

/-- The call that wrote a revision took effect: it replaced the projection of the revision
before by that of its own. -/
lemma Timeline.tookEffect (ht : Timeline cfg es s order h) {e : Library.Entry ι StoreCalls}
    (he : e ∈ order) {rev : Revision} (hw : Histories.writtenFor user e = some rev) :
    ∃ h₁ : Histories, h₁ user ++ [rev] <+: h user ∧
      TookEffect cfg es s e.id user ((h₁ user).getLast?.map (project user)) (project user rev) := by
  obtain ⟨pre, ⟨post, hpost⟩, s₁, s₂, h₁, h₂, hacted, hi₁, hi₂, hspec, hlegal⟩ := ht.acted e he
  have happend := (Histories.contract_step hspec user).1
  rw [hw, Option.toList_some] at happend
  have hprefix : h₂ user <+: h user := by
    have hwhole := ht.explained.linearizes.legal
    rw [← hpost] at hwhole
    exact Histories.prefix_of_legal (hlegal.snoc e hspec) hwhole user
  rw [happend] at hprefix
  refine ⟨h₁, hprefix, ⟨s₁, s₂, hacted, projection_eq hi₁ user, ?_⟩, ?_⟩
  · rw [projection_eq hi₂, happend, List.getLast?_concat, Option.map_some]
  · obtain ⟨th, hth, hop⟩ := ht.explained.thread_of_mem he
    refine ⟨th, hth, ?_⟩
    rw [hop]
    rcases Histories.writtenFor_eq_some_cases hw with ⟨i, input, env, p, rfl, rfl⟩ |
      ⟨i, expected, input, env, p, rfl, rfl⟩
    · obtain ⟨hnil, hp⟩ := Histories.contract_create hspec
      refine .inl ⟨by rw [hnil]; rfl, rfl, ?_⟩
      rw [hp]
      rfl
    · obtain ⟨⟨last, hlast, rfl⟩, hversion, -⟩ := Histories.contract_update hspec
      refine .inr ⟨project user last, by rw [hlast]; rfl, rfl, hversion⟩

/-- What took effect wrote, and is in the order. -/
lemma Timeline.mem_of_tookEffect (ht : Timeline cfg es s order h) {k : ι}
    {before : Option Profile} {p : Profile} (hk : TookEffect cfg es s k user before p) :
    ∃ e ∈ order, e.id = k ∧ (Histories.writtenFor user e).isSome := by
  obtain ⟨s₁, s₂, hacted, hbefore, hafter⟩ := hk.step
  refine ht.changed k s₁ s₂ user hacted fun heq => hk.ne ?_
  rw [← hbefore, heq, hafter]

/-- A create that took effect found no profile, an update replaced one. -/
lemma Timeline.tookEffect_cases (ht : Timeline cfg es s order h)
    {e : Library.Entry ι StoreCalls} (he : e ∈ order) {rev : Revision}
    (hw : Histories.writtenFor user e = some rev) :
    (e.op.1.isCreate → TookEffect cfg es s e.id user none (project user rev)) ∧
      (¬e.op.1.isCreate →
        ∃ before, TookEffect cfg es s e.id user (some before) (project user rev)) := by
  obtain ⟨h₁, -, heffect⟩ := ht.tookEffect he hw
  obtain ⟨th, hth, hcall⟩ := heffect.call
  obtain ⟨th', hth', hop⟩ := ht.explained.thread_of_mem he
  rw [hth] at hth'
  obtain rfl := Option.some.inj hth'
  rw [hop] at hcall
  rcases hcall with ⟨hnone, hcall, -⟩ | ⟨q, hq, hcall, -⟩
  · rw [hcall]
    exact ⟨fun _ => by rwa [hnone] at heffect, fun hn => absurd trivial hn⟩
  · rw [hcall]
    exact ⟨fun hc => hc.elim, fun _ => ⟨q, by rwa [hq] at heffect⟩⟩

/-- An update wrote the version after the one it names. -/
lemma version_of_update (hx : (b.points ι).Explains s.profiles order h)
    {e : Library.Entry ι StoreCalls} (he : e ∈ order) {rev : Revision}
    (hw : Histories.writtenFor user e = some rev) {v : Version} {input : ProfileInput}
    (hop : e.op.1 = .update user v input) : rev.version.get = v.get + 1 := by
  obtain ⟨pre, post, h₁, h₂, -, -, hspec⟩ := hx.linearizes.legal.split he
  rcases Histories.writtenFor_eq_some_cases hw with ⟨i, input', env, p, rfl, -⟩ |
    ⟨i, expected, input', env, p, rfl, rfl⟩
  · cases hop
  · obtain ⟨-, rfl, -⟩ := StoreOp.update.inj hop
    exact (Histories.contract_update hspec).2.1

/-- Whatever replaced a profile is an update in the order, and wrote the next version. -/
lemma Timeline.update_of_tookEffect (ht : Timeline cfg es s order h) {k : ι} {before p : Profile}
    (hk : TookEffect cfg es s k user (some before) p) : ∃ e ∈ order, e.id = k ∧
      ¬e.op.1.isCreate ∧ ∃ rev, Histories.writtenFor user e = some rev ∧
        rev.version.get = before.version.get + 1 := by
  obtain ⟨e, he, rfl, hw⟩ := ht.mem_of_tookEffect hk
  obtain ⟨rev, hrev⟩ := Option.isSome_iff_exists.mp hw
  obtain ⟨th, hth, ⟨hnone, -⟩ | ⟨q, hq, hop, -⟩⟩ := hk.call
  · cases hnone
  · obtain rfl := Option.some.inj hq
    obtain ⟨th', hth', hop'⟩ := ht.explained.thread_of_mem he
    rw [hth] at hth'
    obtain rfl := Option.some.inj hth'
    rw [hop'] at hop
    exact ⟨e, he, rfl, by rw [hop]; exact id, rev, hrev, version_of_update ht.explained he hrev hop⟩

/-! ### Clients -/

/-- Every client runs read-modify-write with a change of its own: what it puts under
`If-Match v` is its change of content that was shown at `v`, and of any two of its puts one
was answered `412`. -/
structure ReadModifyWrite {κ : Type} (s : Service ι b) (user : UserId) (client : ι → κ)
    (change : κ → ProfileInput → ProfileInput) : Prop where
  derived : ∀ i headers input v, s.Sent i (.update user headers input) →
    parseIfMatch headers = .ok v →
    ∃ j p, s.Shown j user p ∧ p.version = v ∧ input = change (client i) p.content
  retried : ∀ i j headers headers' input input', i ≠ j → client i = client j →
    s.Sent i (.update user headers input) → s.Sent j (.update user headers' input') →
    (∃ a, s.Answered i a ∧ a.render.status = 412) ∨ ∃ a, s.Answered j a ∧ a.render.status = 412

/-- Who called an update on the repository. -/
lemma Tracks.sent_of_update (hs : Tracks cfg s) {i : ι} {th : Thread StoreCalls (b.object ι).E}
    {v : Version} {input : ProfileInput} (hi : s.profiles.thread i = some th)
    (hop : th.op.1 = .update user v input) :
    ∃ headers, s.Sent i (.update user headers input) ∧ parseIfMatch headers = .ok v := by
  obtain ⟨x, hx, hcalled⟩ := hs.called i th hi
  rw [hop] at hcalled
  have hat : AtStore (.update user v input) (x.log.map Prod.snd) x.rest := by
    rcases hcalled with hk | ⟨t, r, hmem⟩
    · exact .inr hk
    · exact .inl ⟨r, List.mem_map.mpr ⟨_, hmem, rfl⟩⟩
  have hcalls := calls_of_follows (hs.follows i x hx) hat
  generalize hreq : x.request = request at hcalls
  match request, hcalls with
  | .update u headers input', ⟨v', hv', heq⟩ =>
    obtain ⟨rfl, rfl, rfl⟩ := StoreOp.update.inj heq
    exact ⟨headers, ⟨x, hx, hreq⟩, hv'⟩

/-- A put answered `412` was not applied. -/
lemma not_applied_of_412 (hs : Tracks cfg s) (hx : (b.points ι).Explains s.profiles order h)
    {i : ι} {v : Version} {input : ProfileInput} {env : Env} {p : Profile}
    (hmem : ⟨i, (.update user v input, env), .ok (.applied p)⟩ ∈ order) {a : Answer}
    (ha : s.Answered i a) : a.render.status ≠ 412 := by
  obtain ⟨th, hth, hop⟩ := hx.thread_of_mem hmem
  obtain ⟨headers, ⟨x, hi, hreq⟩, hmatch⟩ := hs.sent_of_update hth (by rw [hop])
  have hrest := ha.rest_eq hi
  have hfollows := hs.follows i x hi
  rw [hreq] at hfollows
  rcases update_of_follows hfollows with ⟨hlog, -⟩ | ⟨v', hmatch', hcall⟩
  · -- a rejected put never called the repository
    have hnone := hs.thread_eq_none hi (by simp [hlog]) hrest
    rw [hth] at hnone
    cases hnone
  · rw [hmatch] at hmatch'
    obtain rfl := Except.ok.inj hmatch'
    obtain ⟨env', r, hret, rfl⟩ := hs.answered_oneCall hi hcall hrest
    have heq := entry_eq_of_id_eq hx.linearizes.nodup hmem (hx.returned_mem hret) rfl
    cases heq
    simp [updated, withEtag, Answer.render, Response.json]

/-- Under read-modify-write the last content is the first one with every client's change. -/
lemma ReadModifyWrite.foldl {κ : Type} {client : ι → κ} {change : κ → ProfileInput → ProfileInput}
    (hrmw : ReadModifyWrite s user client change) (hs : Inv cfg s)
    (hx : (b.points ι).Explains s.profiles order h) :
    h user = [] ∧ Histories.writers user order = [] ∨ ∃ first rest rev last,
      Histories.writers user order = first :: rest ∧ (h user).head? = some rev ∧
      (h user).getLast? = some last ∧
      last.content = rest.foldl (fun c e => change (client e.id) c) rev.content := by
  refine Histories.foldl_writers hx.linearizes.legal user (fun i => change (client i)) ?_
  rintro pre i expected input env p h₁ last ⟨post, rfl⟩ hpre hlast rfl
  obtain ⟨th, hth, hop⟩ := hx.thread_of_mem (e := ⟨i, (.update user last.version input, env),
    .ok (.applied p)⟩) (by simp)
  obtain ⟨headers, hsent, hmatch⟩ := hs.tracks.sent_of_update hth (by rw [hop])
  obtain ⟨j, q, hshown, hversion, rfl⟩ := hrmw.derived i headers input last.version hsent hmatch
  -- the content that was shown is that of the revision the update found
  obtain ⟨rev, hrev, rfl⟩ := hs.rev_of_shown hx hshown
  have hmem : last ∈ h user := by
    have hlegal := hx.linearizes.legal
    rw [List.append_assoc] at hlegal
    exact (Histories.prefix_of_legal hpre hlegal user).subset (List.mem_of_getLast? hlast)
  have hcont := (Histories.legal_history hx.linearizes.legal user).2
  rw [hcont.eq_of_version_eq hrev hmem hversion]
  rfl

/-- Under read-modify-write no two writes are one client's. -/
lemma ReadModifyWrite.nodup {κ : Type} {client : ι → κ} {change : κ → ProfileInput → ProfileInput}
    (hrmw : ReadModifyWrite s user client change) (hs : Tracks cfg s)
    (hx : (b.points ι).Explains s.profiles order h) {updates : List (Library.Entry ι StoreCalls)}
    (hsub : updates.Sublist order)
    (hwrote : ∀ e ∈ updates, (Histories.writtenFor user e).isSome ∧ ¬e.op.1.isCreate) :
    (updates.map fun e => client e.id).Nodup := by
  have happlied : ∀ e ∈ updates, (∃ headers input, s.Sent e.id (.update user headers input)) ∧
      ∀ a, s.Answered e.id a → a.render.status ≠ 412 := by
    intro e he
    obtain ⟨hw, hupdate⟩ := hwrote e he
    obtain ⟨rev, hrev⟩ := Option.isSome_iff_exists.mp hw
    rcases Histories.writtenFor_eq_some_cases hrev with ⟨i, input, env, p, rfl, -⟩ |
      ⟨i, expected, input, env, p, rfl, -⟩
    · exact absurd trivial hupdate
    · obtain ⟨th, hth, hop⟩ := hx.thread_of_mem (hsub.subset he)
      obtain ⟨headers, hsent, -⟩ := hs.sent_of_update hth (by rw [hop])
      exact ⟨⟨headers, input, hsent⟩, fun a ha => not_applied_of_412 hs hx (hsub.subset he) ha⟩
  have hids : updates.Pairwise fun d e => d.id ≠ e.id :=
    List.pairwise_map.mp (hx.linearizes.nodup.sublist (hsub.map _))
  refine List.pairwise_map.mpr (hids.imp_of_mem ?_)
  intro d e hd he hne hclient
  obtain ⟨⟨headers, input, hsent⟩, hanswered⟩ := happlied d hd
  obtain ⟨⟨headers', input', hsent'⟩, hanswered'⟩ := happlied e he
  rcases hrmw.retried _ _ headers headers' input input' hne hclient hsent hsent' with
    ⟨a, ha, hstatus⟩ | ⟨a, ha, hstatus⟩
  · exact hanswered a ha hstatus
  · exact hanswered' a ha hstatus

/-! ### The property -/

/-- What the clients of one profile may rely on after the run `es` to `s`. -/
structure NoLostUpdate (cfg : Settings) (es : List (Event ι)) (s : Service ι b) (user : UserId) :
    Prop where
  /-- At most one put under `If-Match v` is accepted. -/
  once : ∀ i j v input input', s.Accepted i user v input → s.Accepted j user v input' → i = j
  /-- At most one update of the profile at a version takes effect, whatever it is answered. -/
  onceApplied : ∀ i j before before' p q, TookEffect cfg es s i user (some before) p →
    TookEffect cfg es s j user (some before') q → before.version = before'.version → i = j
  /-- Two responses that carry the profile at one version carry the same profile, which one
  write made. -/
  agree : ∀ i j p q, s.Shown i user p → s.Shown j user q → p.version = q.version →
    p = q ∧ ∃ k before, TookEffect cfg es s k user before p
  /-- An accepted put under `If-Match v` replaces exactly what was shown at `v`. -/
  replaces : ∀ i v input, s.Accepted i user v input → ∃ before p,
    TookEffect cfg es s i user (some before) p ∧ before.version = v ∧ p.content = input ∧
    s.Shown i user p ∧ ∀ j q, s.Shown j user q → q.version = v → q = before
  /-- Clients that run read-modify-write have every change that took effect applied once, in
  version order, to the created content. -/
  readModifyWrite : ∀ {κ : Type} (client : ι → κ) (change : κ → ProfileInput → ProfileInput),
    ReadModifyWrite s user client change → ∀ last, s.projection user = some last →
    ∃ (i₀ : ι) (p₀ : Profile) (updates : List ι), TookEffect cfg es s i₀ user none p₀ ∧
      (∀ i, i ∈ updates ↔ ∃ before p, TookEffect cfg es s i user (some before) p) ∧
      (updates.map client).Nodup ∧
      (∀ k (hk : k < updates.length), ∃ before p,
        TookEffect cfg es s updates[k] user (some before) p ∧ p.version.get = k + 2) ∧
      last.content = updates.foldl (fun c i => change (client i) c) p₀.content

/-- An accepted put, as an entry of the order. -/
lemma Accepted.mem {i : ι} {v : Version} {input : ProfileInput}
    (hi : s.Accepted i user v input) (hs : Tracks cfg s)
    (hx : (b.points ι).Explains s.profiles order h) : ∃ env p,
      ⟨i, (.update user v input, env), .ok (.applied p)⟩ ∈ order ∧
      s.Answered i (.ok (withEtag 200 p)) := by
  obtain ⟨env, p, hret, ha⟩ := hs.accepted_returned hi
  exact ⟨env, p, hx.returned_mem hret, ha⟩

/-- Under read-modify-write, what the order of a run did to the user's profile. -/
lemma Timeline.readModifyWrite (ht : Timeline cfg es s order h) (hs : Inv cfg s) {κ : Type}
    {client : ι → κ} {change : κ → ProfileInput → ProfileInput}
    (hrmw : ReadModifyWrite s user client change) {last : Profile}
    (hlast : s.projection user = some last) :
    ∃ (i₀ : ι) (p₀ : Profile) (updates : List ι), TookEffect cfg es s i₀ user none p₀ ∧
      (∀ i, i ∈ updates ↔ ∃ before p, TookEffect cfg es s i user (some before) p) ∧
      (updates.map client).Nodup ∧
      (∀ k (hk : k < updates.length), ∃ before p,
        TookEffect cfg es s updates[k] user (some before) p ∧ p.version.get = k + 2) ∧
      last.content = updates.foldl (fun c i => change (client i) c) p₀.content := by
  have hx := ht.explained
  have hlegal := hx.linearizes.legal
  rw [projection_eq hx.inv] at hlast
  obtain ⟨rev, hrev, rfl⟩ := Option.map_eq_some_iff.mp hlast
  rcases hrmw.foldl hs hx with ⟨hnil, -⟩ | ⟨first, rest, rev₀, rev', hcons, hhead, hrev', hfold⟩
  · rw [hnil] at hrev
    cases hrev
  · rw [hrev] at hrev'
    obtain rfl := Option.some.inj hrev'
    -- the writers, in the order of their versions
    have hmap := Histories.map_writers user order
    rw [← (Histories.legal_history hlegal user).1, hcons] at hmap
    have hsub : (first :: rest).Sublist order := hcons ▸ List.filter_sublist
    have hwriters : ∀ e, e ∈ first :: rest ↔
        e ∈ order ∧ (Histories.writtenFor user e).isSome := by
      intro e
      rw [← hcons]
      exact List.mem_filter
    rcases Histories.writers_create_first hlegal user with
      hnil | ⟨first', rest', hcons', hcreate, hrest⟩
    · rw [hcons] at hnil
      cases hnil
    · obtain ⟨rfl, rfl⟩ := List.cons.inj (hcons.symm.trans hcons')
      have hfirst : Histories.writtenFor user first = some rev₀ := by
        obtain ⟨tail, htail⟩ := List.head?_eq_some_iff.mp hhead
        rw [htail] at hmap
        exact (List.cons.inj hmap).1
      have hupdate : ∀ e ∈ rest, e ∈ order ∧ (Histories.writtenFor user e).isSome :=
        fun e he => (hwriters e).mp (List.mem_cons_of_mem _ he)
      refine ⟨first.id, project user rev₀, rest.map Library.Entry.id,
        (ht.tookEffect_cases ((hwriters first).mp (List.mem_cons_self ..)).1 hfirst).1 hcreate,
        fun i => ⟨fun hi => ?_, ?_⟩, ?_, fun k hk => ?_, ?_⟩
      · obtain ⟨e, he, rfl⟩ := List.mem_map.mp hi
        obtain ⟨horder, hw⟩ := hupdate e he
        obtain ⟨rev', hw⟩ := Option.isSome_iff_exists.mp hw
        obtain ⟨before, heffect⟩ := (ht.tookEffect_cases horder hw).2 (hrest e he)
        exact ⟨before, _, heffect⟩
      · rintro ⟨before, p, heffect⟩
        obtain ⟨e, he, rfl, hn, rev', hw, -⟩ := ht.update_of_tookEffect heffect
        rcases List.mem_cons.mp ((hwriters e).mpr ⟨he, by rw [hw]; rfl⟩) with rfl | hmem
        · exact absurd hcreate hn
        · exact List.mem_map_of_mem hmem
      · rw [List.map_map]
        exact hrmw.nodup hs.tracks hx ((List.sublist_cons_self ..).trans hsub)
          fun e he => ⟨(hupdate e he).2, hrest e he⟩
      · rw [List.length_map] at hk
        have hmem : rest[k] ∈ rest := List.getElem_mem hk
        -- the writer at place `k` wrote the revision at place `k + 1`
        have hplace := congrArg (fun l => l[k + 1]?) hmap
        simp only [List.map_cons, List.getElem?_cons_succ, List.getElem?_map,
          List.getElem?_eq_getElem hk, Option.map_some] at hplace
        obtain ⟨rev', hget, hw⟩ := Option.map_eq_some_iff.mp hplace.symm
        obtain ⟨before, heffect⟩ :=
          (ht.tookEffect_cases (hupdate _ hmem).1 hw.symm).2 (hrest _ hmem)
        refine ⟨before, _, by simpa using heffect, ?_⟩
        obtain ⟨hlt, rfl⟩ := List.getElem?_eq_some_iff.mp hget
        exact (Histories.legal_history hlegal user).2.getElem_version hlt
      · rw [List.foldl_map]
        exact hfold

lemma onceApplied_of_timeline (ht : Timeline cfg es s order h) {i j : ι}
    {before before' p q : Profile} (hi : TookEffect cfg es s i user (some before) p)
    (hj : TookEffect cfg es s j user (some before') q) (hv : before.version = before'.version) :
    i = j := by
  obtain ⟨d, hd, rfl, -, rev, hrev, hversion⟩ := ht.update_of_tookEffect hi
  obtain ⟨e, he, rfl, -, rev', hrev', hversion'⟩ := ht.update_of_tookEffect hj
  have heq : rev.version = rev'.version := Version.ext (by rw [hversion, hversion', hv])
  rw [Histories.writtenFor_unique ht.explained.linearizes.legal hd he hrev hrev' heq]

lemma agree_of_timeline (ht : Timeline cfg es s order h) (hs : Inv cfg s) {i j : ι} {p q : Profile}
    (hi : s.Shown i user p) (hj : s.Shown j user q) (hv : p.version = q.version) :
    p = q ∧ ∃ k before, TookEffect cfg es s k user before p := by
  have hlegal := ht.explained.linearizes.legal
  obtain ⟨rev, hrev, rfl⟩ := hs.rev_of_shown ht.explained hi
  obtain ⟨rev', hrev', rfl⟩ := hs.rev_of_shown ht.explained hj
  obtain rfl := (Histories.legal_history hlegal user).2.eq_of_version_eq hrev hrev' hv
  obtain ⟨e, he, hw⟩ := (Histories.mem_of_writtenFor hlegal).mp hrev
  obtain ⟨h₁, -, heffect⟩ := ht.tookEffect he hw
  exact ⟨rfl, e.id, _, heffect⟩

lemma replaces_of_timeline (ht : Timeline cfg es s order h) (hs : Inv cfg s) {i : ι} {v : Version}
    {input : ProfileInput} (hi : s.Accepted i user v input) : ∃ before p,
      TookEffect cfg es s i user (some before) p ∧ before.version = v ∧ p.content = input ∧
      s.Shown i user p ∧ ∀ j q, s.Shown j user q → q.version = v → q = before := by
  have hx := ht.explained
  have hlegal := hx.linearizes.legal
  have hcont := (Histories.legal_history hlegal user).2
  obtain ⟨env, p, hmem, x, hi', hrest⟩ := hi.mem hs.tracks hx
  obtain ⟨headers, -, hsent, -⟩ := hi
  have hw : Histories.writtenFor user ⟨i, (.update user v input, env), .ok (.applied p)⟩ =
      some (revision env.nowMs p.version input) := Histories.writtenFor_update ..
  obtain ⟨pre, post, a, c, -, -, hspec⟩ := hlegal.split hmem
  obtain ⟨-, -, hp⟩ := Histories.contract_update hspec
  obtain ⟨h₁, hprefix, heffect⟩ := ht.tookEffect hmem hw
  rw [← hp] at heffect
  obtain ⟨th, hth, hcall⟩ := heffect.call
  obtain ⟨th', hth', hop⟩ := hx.thread_of_mem hmem
  rw [hth] at hth'
  obtain rfl := Option.some.inj hth'
  rw [hop] at hcall
  rcases hcall with ⟨-, hcreate, -⟩ | ⟨before, hbefore, hcall, -⟩
  · cases hcreate
  · obtain ⟨-, rfl, hinput⟩ := StoreOp.update.inj hcall
    rw [hbefore] at heffect
    refine ⟨before, p, heffect, rfl, hinput.symm, ?_, fun j q hshown hversion => ?_⟩
    · exact ⟨_, _, hsent, rfl, ⟨x, hi', hrest⟩, rfl, rfl⟩
    · -- both are projections of the user's one revision at that version
      obtain ⟨last, hlast, rfl⟩ := Option.map_eq_some_iff.mp hbefore
      obtain ⟨rev, hrev, rfl⟩ := hs.rev_of_shown hx hshown
      have hlast' : last ∈ h user :=
        hprefix.subset (List.mem_append_left _ (List.mem_of_getLast? hlast))
      rw [hcont.eq_of_version_eq hrev hlast' hversion]

/-- No update is lost, in any run of the service over either backend. -/
theorem no_lost_update (b : Backend) (ι : Type) [DecidableEq ι] (cfg : Settings)
    (es : List (Event ι)) (s : Service ι b)
    (hrun : (machine ι b cfg).run (init ι b cfg) es = some s) (user : UserId) :
    NoLostUpdate cfg es s user := by
  have hs := inv_of_run hrun
  obtain ⟨order, h, ht⟩ := timeline hrun
  refine ⟨fun i j v input input' hi hj => ?_, fun i j before before' p q hi hj hv =>
    onceApplied_of_timeline ht hi hj hv, fun i j p q hi hj hv => agree_of_timeline ht hs hi hj hv,
    fun i v input hi => replaces_of_timeline ht hs hi,
    fun client change hrmw last hlast => ht.readModifyWrite hs hrmw hlast⟩
  obtain ⟨before, p, hi, hv, -⟩ := replaces_of_timeline ht hs hi
  obtain ⟨before', q, hj, hv', -⟩ := replaces_of_timeline ht hs hj
  exact onceApplied_of_timeline ht hi hj (hv.trans hv'.symm)

/-- Two clients put under the created version: one is applied, the other answered `412`. -/
theorem no_lost_update_two :
    let env : Env := ⟨0, fun _ => false⟩
    let cfg := Settings.default (fun _ => some ⟨"1 Main St", "5550100"⟩) (fun _ => 0)
    let put (address : String) : Request :=
      .update ⟨"u"⟩ [("if-match", [34, 49, 34])] ⟨address, "5550101"⟩
    let es : List (Event ℕ) := [.arrive 0 (.create ⟨"u"⟩ [] ""), .call 0 env, .act 0, .act 0,
      .act 0, .ret 0, .resume 0, .arrive 1 (put "2 Oak Ave"), .arrive 2 (put "3 Elm Rd"),
      .call 1 env, .call 2 env, .act 2, .act 2, .act 2, .act 1, .act 1, .act 1, .ret 1, .ret 2,
      .resume 1, .resume 2]
    ∃ s : Service ℕ .sqlite, (machine ℕ .sqlite cfg).run (init ℕ .sqlite cfg) es = some s ∧
      NoLostUpdate cfg es s ⟨"u"⟩ ∧ s.Accepted 2 ⟨"u"⟩ .initial ⟨"3 Elm Rd", "5550101"⟩ ∧
      s.Answered 1 (.error (.preconditionFailed ⟨2, by decide⟩)) :=
  ⟨_, rfl, no_lost_update .sqlite ℕ _ _ _ rfl ⟨"u"⟩,
    ⟨_, _, ⟨_, rfl, rfl⟩, by decide, ⟨_, rfl, rfl⟩, rfl⟩, _, rfl, rfl⟩

end Knova.Service
