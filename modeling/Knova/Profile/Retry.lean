import Knova.Profile.Replay

/-!
# Retried creates

A retry of a create is answered with the recorded outcome, or told that the create is
still running, as long as no reservation under the key outlives its timeout: a handler
whose future was dropped never records its outcome, so once its reservation has lapsed a
retry runs again and finds the profile there.
-/

namespace Knova.Service

open Library Idempotency Routes

variable {ι : Type} [DecidableEq ι] {b : Backend} {cfg : Settings} {s s' : Service ι b}
  {user : UserId} {key : String}

/-- The create `i` was reserved the key at the instant `t`. -/
def Reserved (s : Service ι b) (i : ι) (t : ℕ) (user : UserId) (key body : String) : Prop :=
  s.Did i t ⟨.begin user.asStr key body, .reserved⟩

/-- The handler of `i` has given its key up. -/
def Released (s : Service ι b) (i : ι) : Prop :=
  ∃ t c, s.Did i t c ∧ c.act.IsRelease

/-- No create under the key begins while a reservation of the key that was not given up
has outlived its timeout. -/
def Prompt (cfg : Settings) (user : UserId) (key : String) (s : Service ι b) (e : Event ι) :
    Prop :=
  ∀ j headers body, e = .perform j → s.Sent j (.create user headers body) →
    idempotencyKey headers = some key → (∀ t c, ¬s.Did j t c) →
    ∀ i t body', s.Reserved i t user key body' → ¬s.Released i →
      s.now < t + cfg.reservationTimeout

/-- What stands under the key while creates under it begin promptly. -/
structure Timely (cfg : Settings) (user : UserId) (key : String) (s : Service ι b) : Prop where
  /-- A reservation that was not given up stands, or has lapsed. -/
  held : ∀ i t body, s.Reserved i t user key body → ¬s.Released i →
    s.idempotency.find (user.asStr, key) = some (.inFlight (cfg.fingerprint body) t) ∨
      t + cfg.reservationTimeout ≤ s.now ∧ s.idempotency.find (user.asStr, key) = none
  sole : ∀ i j t t' body body', s.Reserved i t user key body → s.Reserved j t' user key body' →
    ¬s.Released i → ¬s.Released j → i = j
  /-- A recorded outcome stands as long as it is retained. -/
  recorded : ∀ i t body found, s.Did i t ⟨.finish user.asStr key body found, ()⟩ →
    s.now < t + cfg.retention → s.idempotency.find (user.asStr, key) =
      some (.complete (cfg.fingerprint body) t found)

lemma timely_init : Timely cfg user key (init ι b cfg) := by
  constructor <;> simp [init, Reserved, Did]

lemma Kept.live_inFlight (hs : Kept cfg s) {fp : UInt64} {t : ℕ} (ht : t ≤ s.now) :
    s.idempotency.live s.now (.inFlight fp t) = true ↔ s.now < t + cfg.reservationTimeout := by
  simp only [IdempotencyStore.live, hs.reservationTimeout, decide_eq_true_eq]
  omega

lemma Kept.live_complete (hs : Kept cfg s) {fp : UInt64} {t : ℕ} {found : Recorded}
    (ht : t ≤ s.now) :
    s.idempotency.live s.now (.complete fp t found) = true ↔ s.now < t + cfg.retention := by
  simp only [IdempotencyStore.live, hs.retention, decide_eq_true_eq]
  omega

/-- A step that makes no call under the key, or at most drops what has expired. -/
lemma Timely.keep (hs : Timely cfg user key s) (hinv : Inv cfg s) (hnow : s.now ≤ s'.now)
    (hres : ∀ i t body, s'.Reserved i t user key body → s.Reserved i t user key body)
    (hfin : ∀ i t body found, s'.Did i t ⟨.finish user.asStr key body found, ()⟩ →
      s.Did i t ⟨.finish user.asStr key body found, ()⟩)
    (hrel : ∀ i, s.Released i → s'.Released i)
    (hfind : s'.idempotency.find (user.asStr, key) = s.idempotency.find (user.asStr, key) ∨
      s'.idempotency.find (user.asStr, key) =
        (s.idempotency.expire s.now).find (user.asStr, key)) : Timely cfg user key s' := by
  refine ⟨fun i t body hi hn => ?_, fun i j t t' body body' hi hj hni hnj => ?_,
    fun i t body found hi hwin => ?_⟩
  · have hi' := hres i t body hi
    have ht := hinv.tracks.past i t _ hi'
    rcases hs.held i t body hi' fun h => hn (hrel i h) with hf | ⟨hlate, hf⟩
    · rcases hfind with hfind | hfind
      · exact .inl (hfind.trans hf)
      · by_cases hlive : s.now < t + cfg.reservationTimeout
        · left
          rw [hfind, IdempotencyStore.find_expire_eq_some]
          exact ⟨hf, (hinv.kept.live_inFlight ht).mpr hlive⟩
        · right
          refine ⟨by omega, ?_⟩
          rw [hfind, IdempotencyStore.find_expire, hf, Option.filter_eq_none_iff]
          rintro entry ⟨⟩ hlive'
          exact hlive ((hinv.kept.live_inFlight ht).mp hlive')
    · right
      refine ⟨by omega, ?_⟩
      rcases hfind with hfind | hfind
      · exact hfind.trans hf
      · rw [hfind, IdempotencyStore.find_expire, hf]
        rfl
  · exact hs.sole i j t t' body body' (hres i t body hi) (hres j t' body' hj)
      (fun h => hni (hrel i h)) (fun h => hnj (hrel j h))
  · have hi' := hfin i t body found hi
    have hwin' : s.now < t + cfg.retention := by omega
    have hf := hs.recorded i t body found hi' hwin'
    rcases hfind with hfind | hfind
    · exact hfind.trans hf
    · rw [hfind, IdempotencyStore.find_expire_eq_some]
      exact ⟨hf, (hinv.kept.live_complete (hinv.tracks.past i t _ hi')).mpr hwin'⟩

/-- A create that is reserved the key: nobody else holds it, and nothing is retained. -/
lemma Timely.reserve (hs : Timely cfg user key s) (hinv : Inv cfg s) {i : ι} {body : String}
    (hprompt : ∀ i t body', s.Reserved i t user key body' → ¬s.Released i →
      s.now < t + cfg.reservationTimeout)
    (hfree : (s.idempotency.expire s.now).find (user.asStr, key) = none)
    (hfind : s'.idempotency.find (user.asStr, key) =
      some (.inFlight (cfg.fingerprint body) s.now)) (hnow : s'.now = s.now)
    (hdid : ∀ j t c, s'.Did j t c ↔ s.Did j t c ∨
      (j = i ∧ t = s.now ∧ c = ⟨.begin user.asStr key body, .reserved⟩)) :
    Timely cfg user key s' := by
  have hgone : ∀ entry, s.idempotency.find (user.asStr, key) = some entry →
      ¬s.idempotency.live s.now entry = true := by
    intro entry hf hlive
    rw [IdempotencyStore.find_expire_eq_some.mpr ⟨hf, hlive⟩] at hfree
    cases hfree
  have hnew : ∀ j t body', s'.Reserved j t user key body' → ¬s'.Released j →
      j = i ∧ t = s.now ∧ body' = body := by
    intro j t body' hj hn
    rcases (hdid _ _ _).mp hj with hj | ⟨hji, ht, hc⟩
    · have hn' : ¬s.Released j := by
        rintro ⟨t, c, hc, hrel⟩
        exact hn ⟨t, c, (hdid _ _ _).mpr (.inl hc), hrel⟩
      have hlt := hprompt j t body' hj hn'
      rcases hs.held j t body' hj hn' with hf | ⟨hlate, -⟩
      · exact absurd ((hinv.kept.live_inFlight (hinv.tracks.past j t _ hj)).mpr hlt) (hgone _ hf)
      · omega
    · cases hc
      exact ⟨hji, ht, rfl⟩
  refine ⟨fun j t body' hj hn => ?_, fun j k t t' body' body'' hj hk hnj hnk => ?_,
    fun j t body' found hj hwin => ?_⟩
  · obtain ⟨-, rfl, rfl⟩ := hnew j t body' hj hn
    exact .inl hfind
  · rw [(hnew j t body' hj hnj).1, (hnew k t' body'' hk hnk).1]
  · rcases (hdid _ _ _).mp hj with hj | ⟨-, -, hc⟩
    · rw [hnow] at hwin
      have hf := hs.recorded j t body' found hj hwin
      exact absurd ((hinv.kept.live_complete (hinv.tracks.past j t _ hj)).mpr hwin) (hgone _ hf)
    · cases hc

/-- The create that holds the key gives it up. -/
lemma Timely.release (hs : Timely cfg user key s) {i : ι} {t₀ : ℕ} {body₀ : String}
    (hi : s.Reserved i t₀ user key body₀) (hn : ¬s.Released i) {a : HandlerAct} {r : a.Ans}
    (ha : a.IsRelease) (hnow : s'.now = s.now)
    (hdid : ∀ j t c, s'.Did j t c ↔ s.Did j t c ∨ (j = i ∧ t = s.now ∧ c = ⟨a, r⟩))
    (hfind : ∀ body found, a = .finish user.asStr key body found →
      s'.idempotency.find (user.asStr, key) =
        some (.complete (cfg.fingerprint body) s.now found)) : Timely cfg user key s' := by
  have hreleased : s'.Released i := ⟨s.now, ⟨a, r⟩, (hdid _ _ _).mpr (.inr ⟨rfl, rfl, rfl⟩), ha⟩
  have hnone : ∀ j t body, s'.Reserved j t user key body → s'.Released j := by
    intro j t body hj
    rcases (hdid _ _ _).mp hj with hj | ⟨rfl, -, -⟩
    · by_contra hn'
      have hnj : ¬s.Released j := by
        rintro ⟨t, c, hc, hrel⟩
        exact hn' ⟨t, c, (hdid _ _ _).mpr (.inl hc), hrel⟩
      obtain rfl := hs.sole i j t₀ t body₀ body hi hj hn hnj
      exact hn' hreleased
    · exact hreleased
  refine ⟨fun j t body hj hnj => absurd (hnone j t body hj) hnj,
    fun j k t t' body body' hj hk hnj _ => absurd (hnone j t body hj) hnj,
    fun j t body found hj hwin => ?_⟩
  rcases (hdid _ _ _).mp hj with hj | ⟨-, rfl, hc⟩
  · -- an outcome cannot be retained under a key that is reserved
    rw [hnow] at hwin
    have hf := hs.recorded j t body found hj hwin
    rcases hs.held i t₀ body₀ hi hn with hf' | ⟨-, hf'⟩
    · rw [hf] at hf'
      cases hf'
    · rw [hf] at hf'
      cases hf'
  · exact hfind body found (congrArg Prog.Performed.act hc).symm

/-- The create that is about to give a key up was reserved it. -/
lemma Tracks.reserved_of_release (hs : Tracks cfg s) {i : ι} {x : Handling} {a : HandlerAct}
    {k : a.Ans → HandlerProg Answer} (hx : s.handler i = some x) (hrest : x.rest = .act a k)
    (ha : a.IsRelease) :
    ∃ (user : UserId) (key body : String) (t : ℕ), s.Reserved i t user key body ∧ ¬s.Released i ∧
      (∀ u k bd found, a = .finish u k bd found → u = user.asStr ∧ k = key ∧ bd = body) ∧
      ∀ u k, a = .abandon u k → u = user.asStr ∧ k = key := by
  have hn : ¬a.IsStore := by
    cases a <;> first | exact id | exact absurd ha id
  obtain ⟨user, headers, key, body, -, -, hkeyed⟩ := hs.keyed hx (.inr ⟨a, k, hrest, hn⟩)
  rw [hrest] at hkeyed
  obtain ⟨hfinish, habandon, hmem, hnone⟩ := hkeyed.of_release ha
  obtain ⟨t, ht⟩ := did_of_map hx hmem
  refine ⟨user, key, body, t, ht, ?_, hfinish, habandon⟩
  rintro ⟨t', c, hc, hrel⟩
  exact hnone c (List.mem_map_of_mem (f := Prod.snd) (hc.mem_log hx)) hrel

/-- A create that is about to call `begin` has done nothing yet. -/
lemma Tracks.sent_of_begin (hs : Tracks cfg s) {i : ι} {x : Handling} {body : String}
    {k : Lookup → HandlerProg Answer} (hx : s.handler i = some x)
    (hrest : x.rest = .act (.begin user.asStr key body) k) :
    (∃ headers, s.Sent i (.create user headers body) ∧ idempotencyKey headers = some key) ∧
      ∀ t c, ¬s.Did i t c := by
  obtain ⟨⟨u⟩, headers, key', body', hreq, hkey, hkeyed⟩ :=
    hs.keyed hx (.inr ⟨.begin user.asStr key body, k, hrest, id⟩)
  rw [hrest] at hkeyed
  generalize hlog : x.log.map Prod.snd = log at hkeyed
  obtain ⟨u'⟩ := user
  cases hkeyed
  refine ⟨⟨headers, ⟨x, hx, hreq⟩, hkey⟩, ?_⟩
  intro t c hc
  have := List.mem_map_of_mem (f := Prod.snd) (hc.mem_log hx)
  rw [hlog] at this
  cases this

theorem Timely.step (hs : Timely cfg user key s) (hinv : Inv cfg s) {e : Event ι}
    (hp : Prompt cfg user key s e) (hstep : Service.step cfg s e = some s') :
    Timely cfg user key s' := by
  rcases step_idempotency hstep with
    ⟨-, hidem, hnow, hdid⟩ | ⟨i, x, a, k, r, rfl, hx, -, hrest, hperform, hnow, hdid⟩
  · refine hs.keep hinv hnow (fun i t body h => (hdid _ _ _ id).mp h)
      (fun i t body found h => (hdid _ _ _ id).mp h) ?_ (.inl (by rw [hidem]))
    rintro i ⟨t, c, hc, hrel⟩
    have hn : ¬c.act.IsStore := by
      obtain ⟨a, r⟩ := c
      cases a <;> first | exact id | exact absurd hrel id
    exact ⟨t, c, (hdid _ _ _ hn).mpr hc, hrel⟩
  · have hrel : ∀ j, s.Released j → s'.Released j := by
      rintro j ⟨t, c, hc, hrel⟩
      exact ⟨t, c, (hdid _ _ _).mpr (.inl hc), hrel⟩
    -- a call that reserves or records nothing under the key
    have hkeep := fun (hres : ∀ body, (⟨a, r⟩ : Prog.Performed HandlerE) ≠
          ⟨.begin user.asStr key body, .reserved⟩)
        (hfin : ∀ body found, a ≠ .finish user.asStr key body found) =>
      hs.keep hinv hnow.ge
        (fun j t body h => ((hdid _ _ _).mp h).resolve_right fun h' => hres body h'.2.2.symm)
        (fun j t body found h => ((hdid _ _ _).mp h).resolve_right fun h' =>
          hfin body found (congrArg Prog.Performed.act h'.2.2).symm) hrel
    cases a with
    | store op => exact absurd rfl (perform_not_store hperform op)
    | begin u k' body =>
      rcases IdempotencyStore.begin_cases (Option.some.inj hperform) with
        ⟨rfl, hfree, hfind⟩ | ⟨entry, -, -, rfl, hexp⟩
      · by_cases hslot : (user.asStr, key) = (u, k')
        · obtain ⟨rfl, rfl⟩ := Prod.mk.inj hslot
          obtain ⟨⟨headers, hsent, hkey⟩, hnone⟩ := hinv.tracks.sent_of_begin hx hrest
          exact hs.reserve hinv (hp i headers body rfl hsent hkey hnone) hfree
            ((hfind _).trans (if_pos rfl)) hnow hdid
        · refine hkeep (fun body' h => ?_) (by simp) (.inr ((hfind _).trans (if_neg hslot)))
          cases h
          exact hslot rfl
      · refine hkeep (fun body' h => ?_) (by simp) (.inr (by rw [hexp]))
        obtain ⟨h₁, h₂⟩ := Prog.Performed.mk.inj h
        cases h₁
        exact IdempotencyStore.answer_ne_reserved _ _ (eq_of_heq h₂)
    | finish u k' body found =>
      have hst : s.idempotency.finish cfg.fingerprint s.now u k' body found = s'.idempotency :=
        congrArg Prod.snd (Option.some.inj hperform)
      obtain ⟨user', key', body', t, hi, hn, hfinish, -⟩ :=
        hinv.tracks.reserved_of_release hx hrest trivial
      obtain ⟨rfl, rfl, rfl⟩ := hfinish u k' body found rfl
      by_cases hslot : (user.asStr, key) = (user'.asStr, k')
      · obtain ⟨huser, rfl⟩ := Prod.mk.inj hslot
        obtain rfl := UserId.asStr_injective huser
        refine hs.release hi hn (a := .finish user.asStr key _ found) trivial hnow hdid
          fun body'' found' h => ?_
        obtain ⟨-, -, rfl, rfl⟩ := HandlerAct.finish.inj h
        rw [← hst, IdempotencyStore.find_finish, if_pos rfl]
      · refine hkeep (by simp) (fun body' found' h => ?_) (.inl ?_)
        · obtain ⟨huser, hkey, -, -⟩ := HandlerAct.finish.inj h
          exact hslot (Prod.ext huser.symm hkey.symm)
        · rw [← hst, IdempotencyStore.find_finish, if_neg hslot]
    | abandon u k' =>
      have hst : s.idempotency.abandon u k' = s'.idempotency :=
        congrArg Prod.snd (Option.some.inj hperform)
      obtain ⟨user', key', body', t, hi, hn, -, habandon⟩ :=
        hinv.tracks.reserved_of_release hx hrest trivial
      obtain ⟨rfl, rfl⟩ := habandon u k' rfl
      by_cases hslot : (user.asStr, key) = (user'.asStr, k')
      · obtain ⟨huser, rfl⟩ := Prod.mk.inj hslot
        obtain rfl := UserId.asStr_injective huser
        exact hs.release hi hn (a := .abandon user.asStr key) trivial hnow hdid (by simp)
      · refine hkeep (by simp) (by simp) (.inl ?_)
        rw [← hst, IdempotencyStore.find_abandon, if_neg hslot]

/-! ### How retries are answered -/

/-- A create that was reserved the key gave it up with its outcome, or by abandoning it. -/
lemma Tracks.released_cases (hs : Tracks cfg s) {i : ι} {t : ℕ} {body : String}
    (hi : s.Reserved i t user key body) (hrel : s.Released i) :
    (∃ t' found, s.Did i t' ⟨.finish user.asStr key body found, ()⟩) ∨
      ∃ t', s.Did i t' ⟨.abandon user.asStr key, ()⟩ := by
  obtain ⟨x, headers, hx, hreq, hkey, -⟩ := hs.of_begin hi
  obtain ⟨t', c, hc, hc'⟩ := hrel
  have hfollows := hs.follows i x hx
  rw [hreq] at hfollows
  rcases (keyed_of_follows hkey hfollows).release_mem (List.mem_map_of_mem (hc.mem_log hx)) hc' with
    ⟨found, rfl⟩ | rfl
  · exact .inl ⟨t', found, hc⟩
  · exact .inr ⟨t', hc⟩

/-- What the creates under the key that begin after `s₁` are told: that the create `i` is
still running, its outcome while it is retained, or anything once `i` has failed. -/
def Retried (cfg : Settings) (user : UserId) (key body : String) (i : ι) (s₁ s : Service ι b) :
    Prop :=
  ∀ j t found, s.Did j t ⟨.begin user.asStr key body, found⟩ →
    (∃ t' c, s₁.Did j t' c) ∨ found = .inFlight ∨
    (∃ t' recorded, s.Did i t' ⟨.finish user.asStr key body recorded, ()⟩ ∧
      (found = .replay recorded ∨ t' + cfg.retention ≤ t)) ∨
    ∃ t', s.Did i t' ⟨.abandon user.asStr key, ()⟩

/-- What stands under the key of a create that was reserved it. -/
lemma Timely.standing (hs : Timely cfg user key s) (hinv : Inv cfg s) {i : ι} {t₀ : ℕ}
    {body : String} (hi : s.Reserved i t₀ user key body)
    (hprompt : ¬s.Released i → s.now < t₀ + cfg.reservationTimeout) :
    (s.idempotency.find (user.asStr, key) = some (.inFlight (cfg.fingerprint body) t₀) ∧
      s.idempotency.live s.now (.inFlight (cfg.fingerprint body) t₀) = true) ∨
    (∃ t found, s.Did i t ⟨.finish user.asStr key body found, ()⟩ ∧
      (s.idempotency.find (user.asStr, key) = some (.complete (cfg.fingerprint body) t found) ∧
        s.idempotency.live s.now (.complete (cfg.fingerprint body) t found) = true ∨
        t + cfg.retention ≤ s.now)) ∨
    ∃ t, s.Did i t ⟨.abandon user.asStr key, ()⟩ := by
  by_cases hrel : s.Released i
  · rcases hinv.tracks.released_cases hi hrel with ⟨t, found, hfin⟩ | habandon
    · refine .inr (.inl ⟨t, found, hfin, ?_⟩)
      by_cases hwin : s.now < t + cfg.retention
      · exact .inl ⟨hs.recorded i t body found hfin hwin,
          (hinv.kept.live_complete (hinv.tracks.past i t _ hfin)).mpr hwin⟩
      · exact .inr (by omega)
    · exact .inr (.inr habandon)
  · have hlt := hprompt hrel
    rcases hs.held i t₀ body hi hrel with hf | ⟨hlate, -⟩
    · exact .inl ⟨hf, (hinv.kept.live_inFlight (hinv.tracks.past i t₀ _ hi)).mpr hlt⟩
    · omega

/-- What `begin` tells a create with the body of a live entry. -/
lemma begin_of_live {now : ℕ} {store store' : IdempotencyStore} {slot : Slot} {body : String}
    {found : Lookup} {entry : Idempotency.Entry} (hf : store.find slot = some entry)
    (hlive : store.live now entry = true)
    (hb : store.begin cfg.fingerprint now slot.1 slot.2 body = (found, store')) :
    found = entry.answer (cfg.fingerprint body) := by
  rcases IdempotencyStore.begin_cases hb with ⟨-, hfree, -⟩ | ⟨entry', hf', -, rfl, -⟩
  · rw [IdempotencyStore.find_expire_eq_some.mpr ⟨hf, hlive⟩] at hfree
    cases hfree
  · rw [hf] at hf'
    rw [Option.some.inj hf']

lemma Retried.step {s₁ : Service ι b} {i : ι} {t₀ : ℕ} {body : String}
    (hr : Retried cfg user key body i s₁ s) (hs : Timely cfg user key s) (hinv : Inv cfg s)
    (hi : s.Reserved i t₀ user key body) {e : Event ι} (hp : Prompt cfg user key s e)
    (hstep : Service.step cfg s e = some s') : Retried cfg user key body i s₁ s' := by
  have hgrow := (step_grows hstep).2
  have hold : ∀ j t found, s.Did j t ⟨.begin user.asStr key body, found⟩ →
      (∃ t' c, s₁.Did j t' c) ∨ found = .inFlight ∨
      (∃ t' recorded, s'.Did i t' ⟨.finish user.asStr key body recorded, ()⟩ ∧
        (found = .replay recorded ∨ t' + cfg.retention ≤ t)) ∨
      ∃ t', s'.Did i t' ⟨.abandon user.asStr key, ()⟩ := by
    intro j t found hj
    rcases hr j t found hj with h | h | ⟨t', recorded, hfin, h⟩ | ⟨t', habandon⟩
    · exact .inl h
    · exact .inr (.inl h)
    · exact .inr (.inr (.inl ⟨t', recorded, hgrow _ _ _ hfin, h⟩))
    · exact .inr (.inr (.inr ⟨t', hgrow _ _ _ habandon⟩))
  intro j t found hj
  rcases step_idempotency hstep with
    ⟨-, -, -, hdid⟩ | ⟨j', x, a, k, r, rfl, hx, -, hrest, hperform, -, hdid⟩
  · exact hold j t found ((hdid _ _ _ id).mp hj)
  · rcases (hdid _ _ _).mp hj with hj | ⟨rfl, rfl, hc⟩
    · exact hold j t found hj
    · obtain ⟨rfl, hr⟩ := Prog.Performed.mk.inj hc
      obtain rfl := eq_of_heq hr
      have hb := Option.some.inj hperform
      obtain ⟨⟨headers, hsent, hkey⟩, hnone⟩ := hinv.tracks.sent_of_begin hx hrest
      rcases hs.standing hinv hi (hp j headers body rfl hsent hkey hnone i t₀ body hi) with
        ⟨hf, hlive⟩ | ⟨t', recorded, hfin, ⟨hf, hlive⟩ | hlate⟩ | ⟨t', habandon⟩
      · right; left
        rw [begin_of_live hf hlive hb]
        simp [Entry.answer]
      · refine .inr (.inr (.inl ⟨t', recorded, hgrow _ _ _ hfin, .inl ?_⟩))
        rw [begin_of_live hf hlive hb]
        simp [Entry.answer]
      · exact .inr (.inr (.inl ⟨t', recorded, hgrow _ _ _ hfin, .inr hlate⟩))
      · exact .inr (.inr (.inr ⟨t', hgrow _ _ _ habandon⟩))

/-- A create that succeeded has not abandoned its key. -/
lemma Tracks.not_abandoned (hs : Tracks cfg s) {i : ι} {p : Profile} {u k : String} {t : ℕ}
    (hcreated : s.Created i user p) : ¬s.Did i t ⟨.abandon u k, ()⟩ := by
  intro hc
  obtain ⟨input, env, ht⟩ := hcreated
  obtain ⟨x, user', headers, key', body, hx, hmem, -, -, hkeyed⟩ := hs.keyed_of_did hc id
  obtain ⟨⟨a, hrest⟩, hnone | ⟨input', r, hstore, hr⟩⟩ :=
    hkeyed.of_abandon (List.mem_map_of_mem (f := Prod.snd) hmem)
  · rw [hs.thread_eq_none hx hnone hrest] at ht
    cases ht
  · obtain ⟨t', hdid⟩ := did_of_map hx hstore
    obtain ⟨env', ht'⟩ := hs.returned i t' _ r hdid
    rw [ht] at ht'
    cases ht'
    exact hr p rfl

/-- In every run in which creates under the key begin promptly: once the create `i` under
the key has begun and has created the profile, every create with the same key and body
that begins later, within the retention of the recorded outcome, is answered with that
outcome or told that `i` is still running. -/
theorem retried_create (b : Backend) (ι : Type) [DecidableEq ι] (cfg : Settings)
    (es₁ es₂ : List (Event ι)) (s₁ s : Service ι b)
    (h₁ : (machine ι b cfg).run (init ι b cfg) es₁ = some s₁)
    (h₂ : (machine ι b cfg).run s₁ es₂ = some s) (user : UserId) (key body : String)
    (hprompt : (machine ι b cfg).EveryStep (Prompt cfg user key) (init ι b cfg) (es₁ ++ es₂))
    (i j : ι) (p : Profile)
    (hbegan : ∃ t found, s₁.Did i t ⟨.begin user.asStr key body, found⟩)
    (hcreated : s.Created i user p) (headers : HeaderMap)
    (hsent : s.Sent j (.create user headers body)) (hkey : idempotencyKey headers = some key)
    (hlater : ∀ t c, ¬s₁.Did j t c)
    (hretention : ∀ t t' recorded found,
      s.Did i t ⟨.finish user.asStr key body recorded, ()⟩ →
      s.Did j t' ⟨.begin user.asStr key body, found⟩ → t' < t + cfg.retention)
    (a : Answer) (ha : s.Answered j a) :
    a = .ok (replay ⟨201, p.toJson, some Version.initial.toString⟩) ∨
      a = .error .idempotencyInFlight := by
  obtain ⟨hp₁, hp₂⟩ := hprompt.append
  have hstep : ∀ s e s', (Inv cfg s ∧ Timely cfg user key s) → Prompt cfg user key s e →
      Service.step (ι := ι) (b := b) cfg s e = some s' → Inv cfg s' ∧ Timely cfg user key s' :=
    fun s e s' hs hp hstep => ⟨hs.1.step hstep, hs.2.step hs.1 hp hstep⟩
  have hs₁ := Machine.run_invariant_of_everyStep _ hstep ⟨inv_init, timely_init⟩ hp₁ h₁
  have hinv := inv_of_run (Machine.run_append_eq_some.mpr ⟨s₁, h₁, h₂⟩)
  have hgrow := (run_grows h₂).2
  -- the create that succeeded had been reserved its key
  obtain ⟨t₀, found₀, hi⟩ := hbegan
  obtain rfl : found₀ = .reserved := by
    obtain ⟨x, headers', hx, -, -, hfound | ⟨answer, -, hlog, hrest⟩⟩ :=
      hinv.tracks.of_begin (hgrow _ _ _ hi)
    · exact hfound
    · obtain ⟨input, env, ht⟩ := hcreated
      rw [hinv.tracks.thread_eq_none hx (by simp [hlog, HandlerAct.IsStore]) hrest] at ht
      cases ht
  have hretried := Machine.run_invariant_of_everyStep
    (fun s : Service ι b => (Inv cfg s ∧ Timely cfg user key s) ∧
      s.Reserved i t₀ user key body ∧ Retried cfg user key body i s₁ s)
    (fun s e s' hs hp hst => ⟨hstep s e s' hs.1 hp hst, (step_grows hst).2 _ _ _ hs.2.1,
      hs.2.2.step hs.1.2 hs.1.1 hs.2.1 hp hst⟩)
    ⟨hs₁, hi, fun j t found hj => .inl ⟨t, _, hj⟩⟩ (hp₂ s₁ h₁) h₂
  obtain ⟨x, hx, hreq⟩ := hsent
  have hfollows := hinv.tracks.follows j x hx
  rw [hreq, ha.rest_eq hx] at hfollows
  have hkeyed := keyed_of_follows hkey hfollows
  obtain ⟨found, hmem⟩ := hkeyed.begun
  obtain ⟨t, hj⟩ := did_of_map hx hmem
  obtain ⟨-, -, -, htold⟩ := hkeyed.of_begin hmem
  rcases hretried.2.2 j t found hj with ⟨t', c, h⟩ | rfl | ⟨t', recorded, hfin, rfl | hlate⟩ |
    ⟨t', habandon⟩
  · exact absurd h (hlater t' c)
  · obtain hfound | ⟨answer, htold, -, hpure⟩ := htold
    · cases hfound
    · cases htold
      cases hpure
      exact .inr rfl
  · obtain hfound | ⟨answer, htold, -, hpure⟩ := htold
    · cases hfound
    · cases htold
      cases hpure
      obtain ⟨q, hq, -, rfl⟩ := (hinv.finished hfin).created
      obtain ⟨order, h, hexp⟩ := hinv.explained
      rw [(created_unique hexp hcreated hq).2]
      exact .inl rfl
  · have := hretention t' t recorded found hfin hj
    omega
  · exact absurd habandon (hinv.tracks.not_abandoned hcreated)

/-- How much time an event lets pass. -/
def Event.elapsed : Event ι → ℕ
  | .tick d => d
  | _ => 0

lemma step_now {e : Event ι} (hstep : step cfg s e = some s') : s'.now = s.now + e.elapsed := by
  obtain ⟨i, request, rfl, -, rfl⟩ | ⟨i, x, a, k, r, store, rfl, -, -, -, -, rfl⟩ |
    ⟨m, profiles, -, he, rfl⟩ | ⟨i, x, op, k, env, r, rfl, -, -, -, -, rfl⟩ |
    ⟨i, x, rfl, -, -, -, rfl⟩ | ⟨d, rfl, rfl⟩ := step_cases hstep
  · rfl
  · rfl
  · rcases he with ⟨i, x, op, k, env, rfl, -⟩ | ⟨i, ⟨rfl, -⟩ | ⟨rfl, -⟩⟩ <;> rfl
  · rfl
  · rfl
  · rfl

/-- A run that is over before any reservation can lapse is prompt. -/
lemma everyStep_prompt {es : List (Event ι)} {s : Service ι b}
    (h : s.now + (es.map Event.elapsed).sum < cfg.reservationTimeout) :
    (machine ι b cfg).EveryStep (Prompt cfg user key) s es := by
  induction es generalizing s with
  | nil => trivial
  | cons e es ih =>
    rw [List.map_cons, List.sum_cons] at h
    refine ⟨fun j headers body _ _ _ _ i t body' _ _ => by omega, fun s' hstep => ih ?_⟩
    rw [step_now hstep]
    omega

/-- A create, and a retry that is answered from the record. -/
theorem retried_create_replay :
    let body := "\x7b\"address\":\"1 Main St\",\"phone_number\":\"5550100\"\x7d"
    let cfg := Settings.default
      (fun text => if text = body then some ⟨"1 Main St", "5550100"⟩ else none)
      (fun text => if text = body then 1498040429348744997 else 0)
    let headers : HeaderMap := [("idempotency-key", [107])]
    let es₁ : List (Event ℕ) := [.arrive 0 (.create ⟨"u"⟩ headers body), .perform 0,
      .call 0 ⟨0, fun _ => false⟩, .act 0, .act 0, .act 0, .ret 0]
    let es₂ : List (Event ℕ) := [.resume 0, .perform 0, .tick 5,
      .arrive 1 (.create ⟨"u"⟩ headers body), .perform 1]
    let p : Profile := ⟨⟨"u"⟩, "1 Main St", "5550100", .initial⟩
    ∃ s₁ s : Service ℕ .sqlite, (machine ℕ .sqlite cfg).run (init ℕ .sqlite cfg) es₁ = some s₁ ∧
      (machine ℕ .sqlite cfg).run s₁ es₂ = some s ∧ ∃ a, s.Answered 1 a ∧
        (a = .ok (replay ⟨201, p.toJson, some Version.initial.toString⟩) ∨
          a = .error .idempotencyInFlight) := by
  intro body cfg headers es₁ es₂ p
  refine ⟨_, _, rfl, rfl, _, ⟨_, rfl, rfl⟩, ?_⟩
  refine retried_create .sqlite ℕ cfg es₁ es₂ _ _ rfl rfl ⟨"u"⟩ "k" body ?_ 0 1 p ?_ ?_ headers
    ?_ (by decide) ?_ ?_ _ ⟨_, rfl, rfl⟩
  · exact everyStep_prompt (by decide)
  · exact ⟨0, .reserved, _, rfl, List.mem_singleton_self _⟩
  · exact ⟨_, _, rfl⟩
  · exact ⟨_, rfl, rfl⟩
  · rintro t c ⟨x, hx, -⟩
    cases hx
  · rintro t t' recorded found - hj
    have hrun : (machine ℕ .sqlite cfg).run (init ℕ .sqlite cfg) (es₁ ++ es₂) = some _ := rfl
    have hpast : t' ≤ 5 := (inv_of_run hrun).tracks.past 1 t' _ hj
    have hwindow : cfg.retention = 86400 * 10 ^ 9 := rfl
    omega

/-- The client of request `0` gave up while the repository was at work, the create went
through, and the retry a minute later is told that the profile exists. -/
theorem retried_create_fails :
    let body := "\x7b\"address\":\"1 Main St\",\"phone_number\":\"5550100\"\x7d"
    let cfg := Settings.default
      (fun text => if text = body then some ⟨"1 Main St", "5550100"⟩ else none)
      (fun text => if text = body then 1498040429348744997 else 0)
    let request : Request := .create ⟨"u"⟩ [("idempotency-key", [107])] body
    let env : Env := ⟨0, fun _ => false⟩
    let es : List (Event ℕ) := [.arrive 0 request, .perform 0, .call 0 env, .drop 0, .act 0,
      .act 0, .act 0, .ret 0, .tick (60 * 10 ^ 9), .arrive 1 request, .perform 1, .call 1 env,
      .act 1, .act 1, .act 1, .ret 1, .resume 1, .perform 1]
    ∃ s : Service ℕ .sqlite, (machine ℕ .sqlite cfg).run (init ℕ .sqlite cfg) es = some s ∧
      s.Created 0 ⟨"u"⟩ ⟨⟨"u"⟩, "1 Main St", "5550100", .initial⟩ ∧
      s.now < cfg.retention ∧ s.Answered 1 (.error .alreadyExists) :=
  ⟨_, rfl, ⟨_, _, rfl⟩, by decide, _, rfl, rfl⟩

end Knova.Service
