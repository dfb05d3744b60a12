import Knova.Profile.ServiceInvariant
import Mathlib.Data.Set.Function

/-!
# Replayed creates

A recorded outcome is what the one create of its user that succeeded answered, and a retry
under the same key and body is answered with exactly that.
-/

namespace Knova.Service

open Library Idempotency Routes

variable {ι : Type} [DecidableEq ι] {b : Backend} {cfg : Settings} {s s' : Service ι b}

/-- What every audit read of `user` shows first is the profile `p`. -/
structure FirstRevision (s : Service ι b) (user : UserId) (p : Profile) : Prop where
  /-- Of the audit reads that returned. -/
  returned : ∀ j env revisions,
    s.profiles.thread j = some (.returned (.history user, env) (.ok revisions)) →
    revisions ≠ [] → ∃ first, revisions.head? = some first ∧ p = project user first
  /-- Of an audit read made now, outside the critical sections of the user's writers. -/
  now : ∀ j env revisions t, b.Idle user s.profiles.shared → SqliteProfiles.Quiet env →
    (b.object ι).alone j (.history user, env) s.profiles.shared = some (.ok revisions, t) →
    ∃ first, revisions.head? = some first ∧ p = project user first

/-- The create `i` succeeded under a key, recorded `found` and answered it. -/
structure Finished (s : Service ι b) (i : ι) (user : UserId) (key body : String)
    (found : Recorded) : Prop where
  sent : ∃ headers, s.Sent i (.create user headers body) ∧ idempotencyKey headers = some key
  reserved : ∃ t, s.Did i t ⟨.begin user.asStr key body, .reserved⟩
  created : ∃ p, s.Created i user p ∧ s.FirstRevision user p ∧
    found = ⟨201, p.toJson, some Version.initial.toString⟩
  answered : s.Answered i (.ok (replay found))

/-- What holds of the recorded outcomes and their replays. -/
structure ReplayFidelity (cfg : Settings) (s : Service ι b) : Prop where
  /-- Whoever records an outcome created the profile. -/
  finished : ∀ i t (user : UserId) key body found,
    s.Did i t ⟨.finish user.asStr key body found, ()⟩ → s.Finished i user key body found
  /-- The recorded outcomes are what was recorded. -/
  complete : ∀ (user : UserId) key fp t found,
    s.idempotency.find (user.asStr, key) = some (.complete fp t found) → ∃ i body,
      fp = cfg.fingerprint body ∧ s.Did i t ⟨.finish user.asStr key body found, ()⟩
  /-- At most one outcome is ever recorded for a user. -/
  once : ∀ i j t t' user key key' body body' found found',
    s.Did i t ⟨.finish user key body found, ()⟩ →
    s.Did j t' ⟨.finish user key' body' found', ()⟩ →
    i = j ∧ t = t' ∧ key = key' ∧ body = body' ∧ found = found'
  /-- A replay answers what the original request, sent with the same body, answered. -/
  replayed : ∀ j t (user : UserId) key body found,
    s.Did j t ⟨.begin user.asStr key body, .replay found⟩ →
    s.Answered j (.ok (replay found)) ∧ ∃ i, s.Finished i user key body found

/-- The bodies of the creates that arrived. -/
def bodies (s : Service ι b) : Set String :=
  { body | ∃ i user headers, s.Sent i (.create user headers body) }

/-- The create that called `finish`. -/
lemma Tracks.of_finish (hs : Tracks cfg s) {i : ι} {t : ℕ} {user : UserId} {key body : String}
    {found : Recorded} (hc : s.Did i t ⟨.finish user.asStr key body found, ()⟩) :
    ∃ x headers input p, s.handler i = some x ∧ x.request = .create user headers body ∧
      idempotencyKey headers = some key ∧ found = recorded p ∧
      x.log.map Prod.snd = [⟨.begin user.asStr key body, .reserved⟩,
        ⟨.store (.create user input), .ok (some p)⟩, ⟨.finish user.asStr key body found, ()⟩] ∧
      x.rest = .pure (.ok (replay found)) := by
  obtain ⟨x, u, headers, k, bd, hx, hmem, hreq, hkey, hkeyed⟩ := hs.keyed_of_did hc id
  obtain ⟨hu, rfl, rfl, input, p, rfl, hlog, hrest⟩ :=
    hkeyed.of_finish (List.mem_map.mpr ⟨_, hmem, rfl⟩)
  obtain rfl := UserId.asStr_injective hu
  exact ⟨x, headers, input, p, hx, hreq, hkey, rfl, hlog, hrest⟩

/-- The create that called `begin`. -/
lemma Tracks.of_begin (hs : Tracks cfg s) {i : ι} {t : ℕ} {user : UserId} {key body : String}
    {found : Lookup} (hc : s.Did i t ⟨.begin user.asStr key body, found⟩) :
    ∃ x headers, s.handler i = some x ∧ x.request = .create user headers body ∧
      idempotencyKey headers = some key ∧
      (found = .reserved ∨ ∃ answer, told found = some answer ∧
        x.log.map Prod.snd = [⟨.begin user.asStr key body, found⟩] ∧ x.rest = .pure answer) := by
  obtain ⟨x, u, headers, k, bd, hx, hmem, hreq, hkey, hkeyed⟩ := hs.keyed_of_did hc id
  obtain ⟨hu, rfl, rfl, h⟩ := hkeyed.of_begin (List.mem_map.mpr ⟨_, hmem, rfl⟩)
  obtain rfl := UserId.asStr_injective hu
  exact ⟨x, headers, hx, hreq, hkey, h⟩

/-- A call at the end of a list of calls has a place in the log. -/
lemma did_of_map {i : ι} {x : Handling} (hx : s.handler i = some x) {c : Prog.Performed HandlerE}
    (hc : c ∈ x.log.map Prod.snd) : ∃ t, s.Did i t c := by
  obtain ⟨⟨t, c'⟩, hmem, rfl⟩ := List.mem_map.mp hc
  exact ⟨t, x, hx, hmem⟩

lemma firstRevision_of_created (hs : Inv cfg s) {i : ι} {user : UserId} {p : Profile}
    (hc : s.Created i user p) : s.FirstRevision user p := by
  obtain ⟨order, h, hx⟩ := hs.explained
  obtain ⟨rev, hhead, rfl⟩ := created_head? hx hc
  constructor
  · intro j env revisions hj hne
    have hpre := Histories.prefix_of_history hx.linearizes.legal (hx.returned_mem hj)
    obtain ⟨rest, hrest⟩ := hpre
    cases revisions with
    | nil => exact absurd rfl hne
    | cons first more =>
      rw [← hrest] at hhead
      exact ⟨first, rfl, by rw [Option.some.inj hhead]⟩
  · intro j env revisions t hidle hq halone
    obtain ⟨t', ht'⟩ := (b.reads_of_idle hx.inv hidle j hq).2
    rw [ht'] at halone
    obtain ⟨hrev, -⟩ := Prod.mk.inj (Option.some.inj halone)
    rw [← Except.ok.inj hrev]
    exact ⟨rev, hhead, rfl⟩

/-- Whoever called `finish` had created the profile of the user. -/
lemma Inv.created_of_finish (hs : Inv cfg s) {i : ι} {t : ℕ} {user : UserId} {key body : String}
    {found : Recorded} (hc : s.Did i t ⟨.finish user.asStr key body found, ()⟩) :
    ∃ p, s.Created i user p ∧ p.version = .initial ∧ found = recorded p := by
  obtain ⟨x, headers, input, p, hx, -, -, hfound, hlog, -⟩ := hs.tracks.of_finish hc
  obtain ⟨t', hstore⟩ := did_of_map hx (c := ⟨.store (.create user input), .ok (some p)⟩)
    (by rw [hlog]; simp)
  obtain ⟨env, hret⟩ := hs.tracks.returned i t' _ _ hstore
  have hcreated : s.Created i user p := ⟨input, env, hret⟩
  obtain ⟨order, h, hx⟩ := hs.explained
  obtain ⟨e, -, -, rev, hv, -, rfl⟩ := created_entry hx hcreated
  exact ⟨_, hcreated, hv, hfound⟩

lemma Inv.finished (hs : Inv cfg s) {i : ι} {t : ℕ} {user : UserId} {key body : String}
    {found : Recorded} (hc : s.Did i t ⟨.finish user.asStr key body found, ()⟩) :
    s.Finished i user key body found := by
  obtain ⟨x, headers, input, p, hx, hreq, hkey, -, hlog, hrest⟩ := hs.tracks.of_finish hc
  obtain ⟨q, hcreated, hv, hfound⟩ := hs.created_of_finish hc
  refine ⟨⟨headers, ⟨x, hx, hreq⟩, hkey⟩, did_of_map hx (by rw [hlog]; simp), ?_, ⟨x, hx, hrest⟩⟩
  exact ⟨q, hcreated, firstRevision_of_created hs hcreated, by rw [hfound, recorded, hv]⟩

/-- One handler records one outcome, at one instant. -/
lemma Tracks.finish_once (hs : Tracks cfg s) {i : ι} {t t' : ℕ} {user : UserId}
    {key key' body body' : String} {found found' : Recorded}
    (hc : s.Did i t ⟨.finish user.asStr key body found, ()⟩)
    (hc' : s.Did i t' ⟨.finish user.asStr key' body' found', ()⟩) :
    t = t' ∧ key = key' ∧ body = body' ∧ found = found' := by
  obtain ⟨x, headers, input, p, hx, -, -, -, hlog, -⟩ := hs.of_finish hc
  have hmem := hc.mem_log hx
  have hmem' := hc'.mem_log hx
  have hin : (⟨.finish user.asStr key' body' found', ()⟩ : Prog.Performed HandlerE) ∈
      x.log.map Prod.snd := List.mem_map.mpr ⟨_, hmem', rfl⟩
  rw [hlog] at hin
  simp at hin
  obtain ⟨rfl, rfl, rfl⟩ := hin
  have hnodup : (x.log.map Prod.snd).Nodup := by
    rw [hlog]
    simp
  have heq := List.inj_on_of_nodup_map hnodup hmem hmem' rfl
  exact ⟨congrArg Prod.fst heq, rfl, rfl, rfl⟩

/-- The body under a live entry, if fingerprints tell the bodies apart. -/
lemma body_of_finish (hs : Tracks cfg s) (hinj : Set.InjOn cfg.fingerprint s.bodies)
    {i j : ι} {t : ℕ} {user : UserId} {key body body' : String} {headers : HeaderMap}
    {found : Recorded} (hfin : s.Did i t ⟨.finish user.asStr key body' found, ()⟩)
    (hj : s.Sent j (.create user headers body))
    (hfp : cfg.fingerprint body' = cfg.fingerprint body) : body' = body := by
  obtain ⟨x, headers', input, p, hx, hreq, -⟩ := hs.of_finish hfin
  exact hinj ⟨i, user, headers', x, hx, hreq⟩ ⟨j, user, headers, hj⟩ hfp

lemma replayFidelity (hs : Inv cfg s) (hinj : Set.InjOn cfg.fingerprint s.bodies) :
    ReplayFidelity cfg s where
  finished i t user key body found hc := hs.finished hc
  complete user key fp t found hf := by
    obtain ⟨i, body, hdid, hfp⟩ := hs.kept.wrote (user.asStr, key) _ hf
    exact ⟨i, body, hfp, hdid⟩
  once i j t t' user key key' body body' found found' hc hc' := by
    obtain ⟨user, rfl⟩ : ∃ u : UserId, u.asStr = user := ⟨⟨user⟩, rfl⟩
    obtain ⟨p, hp, -⟩ := hs.created_of_finish hc
    obtain ⟨q, hq, -⟩ := hs.created_of_finish hc'
    obtain ⟨order, h, hx⟩ := hs.explained
    obtain ⟨rfl, -⟩ := created_unique hx hp hq
    exact ⟨rfl, hs.tracks.finish_once hc hc'⟩
  replayed j t user key body found hc := by
    obtain ⟨x, headers, hx, hreq, hkey, hfound | ⟨answer, htold, -, hrest⟩⟩ := hs.tracks.of_begin hc
    · cases hfound
    · cases htold
      obtain ⟨i, t', body', hfin, hfp⟩ := hs.kept.replayed j t _ key body found hc
      obtain rfl := body_of_finish hs.tracks hinj hfin ⟨x, hx, hreq⟩ hfp
      exact ⟨⟨x, hx, hrest⟩, i, hs.finished hfin⟩

/-! ### Keys that are used again -/

/-- Whoever made an entry is a create under its slot. -/
lemma Tracks.sent_of_wrote (hs : Tracks cfg s) {i : ι} {user : UserId} {key body : String}
    {entry : Idempotency.Entry} (hw : s.Wrote cfg i (user.asStr, key) body entry) :
    ∃ headers, s.Sent i (.create user headers body) := by
  cases entry with
  | inFlight fp since =>
    obtain ⟨x, headers, hx, hreq, -⟩ := hs.of_begin hw.1
    exact ⟨headers, x, hx, hreq⟩
  | complete fp t found =>
    obtain ⟨x, headers, input, p, hx, hreq, -⟩ := hs.of_finish hw.1
    exact ⟨headers, x, hx, hreq⟩

/-- A create that has done nothing yet is about to call `begin`. -/
lemma Tracks.fresh (hs : Tracks cfg s) {j : ι} {user : UserId} {headers : HeaderMap}
    {key body : String} (hj : s.Sent j (.create user headers body))
    (hkey : idempotencyKey headers = some key) (hnone : ∀ t c, ¬s.Did j t c) :
    ∃ x k, s.handler j = some x ∧ x.rest = .act (.begin user.asStr key body) k := by
  obtain ⟨x, hx, hreq⟩ := hj
  have hlog : x.log = [] :=
    List.eq_nil_iff_forall_not_mem.mpr fun c hc => hnone c.1 c.2 ⟨x, hx, hc⟩
  have hfollows := hs.follows j x hx
  rw [hreq, hlog] at hfollows
  have hkeyed := keyed_of_follows hkey hfollows
  cases hrest : x.rest with
  | pure a =>
    rw [hrest] at hkeyed
    cases hkeyed
  | act a k =>
    rw [hrest] at hkeyed
    cases hkeyed
    exact ⟨x, _, hx, hrest⟩

/-- What `begin` tells a create that finds a live entry for another body. -/
lemma Tracks.mismatch (hs : Tracks cfg s) {j : ι} {user : UserId} {headers : HeaderMap}
    {key body : String} {entry : Idempotency.Entry} (hj : s.Sent j (.create user headers body))
    (hkey : idempotencyKey headers = some key) (hnone : ∀ t c, ¬s.Did j t c)
    (hf : s.idempotency.find (user.asStr, key) = some entry)
    (hlive : s.idempotency.live s.now entry)
    (hfp : entry.fingerprint ≠ cfg.fingerprint body)
    (hstep : Service.step cfg s (.perform j) = some s') :
    s'.Did j s.now ⟨.begin user.asStr key body, .bodyMismatch⟩ := by
  obtain ⟨x, k, hx, hrest⟩ := hs.fresh hj hkey hnone
  rcases step_idempotency hstep with ⟨hne, -⟩ | ⟨i, y, a, k', r, he, hy, -, hrest', hp, -, hdid⟩
  · exact absurd rfl (hne j)
  · cases he
    rw [hx] at hy
    obtain rfl := Option.some.inj hy
    rw [hrest] at hrest'
    cases hrest'
    rcases IdempotencyStore.begin_cases (Option.some.inj hp) with
      ⟨-, hfree, -⟩ | ⟨entry', hf', -, rfl, -⟩
    · rw [IdempotencyStore.find_expire_eq_some.mpr ⟨hf, hlive⟩] at hfree
      cases hfree
    · rw [hf] at hf'
      obtain rfl := Option.some.inj hf'
      exact (hdid _ _ _).mpr (.inr ⟨rfl, rfl, by rw [Entry.answer_of_ne hfp]⟩)

/-- A create that was answered by the idempotency store alone has not called the
repository. -/
lemma Tracks.thread_eq_none (hs : Tracks cfg s) {j : ι} {x : Handling} {a : Answer}
    (hx : s.handler j = some x) (hlog : ∀ c ∈ x.log.map Prod.snd, ¬c.act.IsStore)
    (hrest : x.rest = .pure a) : s.profiles.thread j = none := by
  cases ht : s.profiles.thread j with
  | none => rfl
  | some th =>
    rcases hs.called_by hx ht with ⟨k, hk⟩ | ⟨t', r, hmem⟩
    · rw [hrest] at hk
      cases hk
    · exact absurd trivial (hlog _ (List.mem_map_of_mem (f := Prod.snd) hmem))

/-- A create told of another body is refused without having called the repository. -/
lemma Tracks.reuse_refused (hs : Tracks cfg s) {j : ι} {t : ℕ} {user : UserId}
    {key body : String} (hc : s.Did j t ⟨.begin user.asStr key body, .bodyMismatch⟩) :
    s.Answered j (.error .idempotencyReused) ∧ s.profiles.thread j = none := by
  obtain ⟨x, headers, hx, -, -, hfound | ⟨answer, htold, hlog, hrest⟩⟩ := hs.of_begin hc
  · cases hfound
  · cases htold
    refine ⟨⟨x, hx, hrest⟩, hs.thread_eq_none hx (fun c hc => ?_) hrest⟩
    rw [hlog] at hc
    rw [List.mem_singleton.mp hc]
    exact id

/-- In every run, a recorded outcome is that of the one create of its user that succeeded,
a replay answers what the original request answered and goes to its body only, and a
request that finds its key live for another body neither runs nor is answered a replay. -/
theorem replay_fidelity (b : Backend) (ι : Type) [DecidableEq ι] (cfg : Settings)
    (es : List (Event ι)) (s : Service ι b)
    (hrun : (machine ι b cfg).run (init ι b cfg) es = some s)
    (hinj : Set.InjOn cfg.fingerprint s.bodies) :
    ReplayFidelity cfg s ∧
    ∀ es₁ j es₂ s₁, es = es₁ ++ .perform j :: es₂ →
      (machine ι b cfg).run (init ι b cfg) es₁ = some s₁ →
      ∀ user headers key body entry, s₁.Sent j (.create user headers body) →
      idempotencyKey headers = some key → (∀ t c, ¬s₁.Did j t c) →
      s₁.idempotency.find (user.asStr, key) = some entry → s₁.idempotency.live s₁.now entry →
      ∃ i body', s₁.Wrote cfg i (user.asStr, key) body' entry ∧ (body' ≠ body →
        s.Answered j (.error .idempotencyReused) ∧ s.profiles.thread j = none) := by
  have hs := inv_of_run hrun
  refine ⟨replayFidelity hs hinj, ?_⟩
  intro es₁ j es₂ s₁ hes h₁ user headers key body entry hj hkey hnone hf hlive
  have hs₁ := inv_of_run h₁
  rw [hes] at hrun
  obtain ⟨s₁', h₁', hrest⟩ := Machine.run_append_eq_some.mp hrun
  obtain rfl := Option.some.inj (h₁.symm.trans h₁')
  obtain ⟨s₂, hstep, h₂⟩ := Machine.run_cons_eq_some.mp hrest
  obtain ⟨i, body', hw⟩ := hs₁.kept.wrote _ _ hf
  refine ⟨i, body', hw, fun hne => ?_⟩
  obtain ⟨headers', hi⟩ := hs₁.tracks.sent_of_wrote hw
  have hgrow := run_grows hrest
  have hfp : entry.fingerprint ≠ cfg.fingerprint body := by
    rw [hw.fingerprint]
    exact fun heq => hne (hinj ⟨i, user, headers', hgrow.1 _ _ hi⟩
      ⟨j, user, headers, hgrow.1 _ _ hj⟩ heq)
  exact hs.tracks.reuse_refused
    ((run_grows h₂).2 _ _ _ (hs₁.tracks.mismatch hj hkey hnone hf hlive hfp hstep))

/-- A create under a key, and a retry that is answered from the record. -/
theorem replay_fidelity_retry :
    let body := "\x7b\"address\":\"1 Main St\",\"phone_number\":\"5550100\"\x7d"
    let cfg := Settings.default
      (fun text => if text = body then some ⟨"1 Main St", "5550100"⟩ else none)
      (fun text => if text = body then 1498040429348744997 else 0)
    let request : Request := .create ⟨"u"⟩ [("idempotency-key", [107])] body
    let es : List (Event ℕ) := [.arrive 0 request, .perform 0, .call 0 ⟨0, fun _ => false⟩, .act 0,
      .act 0, .act 0, .ret 0, .resume 0, .perform 0, .tick 5, .arrive 1 request, .perform 1]
    ∃ s : Service ℕ .sqlite, (machine ℕ .sqlite cfg).run (init ℕ .sqlite cfg) es = some s ∧
      ReplayFidelity cfg s ∧
      ∃ found, s.Did 1 5 ⟨.begin "u" "k" body, .replay found⟩ := by
  intro body cfg request es
  obtain ⟨s, hrun, found, hdid⟩ : ∃ s : Service ℕ .sqlite,
      (machine ℕ .sqlite cfg).run (init ℕ .sqlite cfg) es = some s ∧
      ∃ found, s.Did 1 5 ⟨.begin "u" "k" body, .replay found⟩ :=
    ⟨_, rfl, _, _, rfl, List.mem_singleton_self _⟩
  have hbodies : ∀ text ∈ s.bodies, text = body := by
    rintro text ⟨i, user, headers, hi⟩
    rcases arrive_of_sent hrun hi with ⟨x, hx, -⟩ | hmem
    · cases hx
    · simp [es, request] at hmem
      rcases hmem with ⟨-, -, -, rfl⟩ | ⟨-, -, -, rfl⟩ <;> rfl
  refine ⟨s, hrun, (replay_fidelity .sqlite ℕ cfg es s hrun ?_).1, found, hdid⟩
  intro text ht text' ht' _
  rw [hbodies text ht, hbodies text' ht']

end Knova.Service
