import Knova.Profile.RequestHistory
import Knova.Profile.Retry

/-!
# Who holds a key

A create that is refused for its idempotency key met another one: at that very instant the other
held the reservation of the key, or its outcome was retained there. So no create is in its own
way, and whoever it conflicts with was sent before it was answered.
-/

namespace Knova.Service

open Library Idempotency Routes

variable {ι : Type} [DecidableEq ι] {b : Backend} {cfg : Settings} {s s' : Service ι b}
  {user : UserId} {key body : String} {i : ι} {t : ℕ}

/-- At the instant `t` the create `i` held the key: it had reserved it less than the timeout before,
and had not given it up. -/
def Holds (cfg : Settings) (s : Service ι b) (i : ι) (t : ℕ) (user : UserId) (key body : String) :
    Prop :=
  (∃ t₀, s.Reserved i t₀ user key body ∧ t₀ ≤ t ∧ t < t₀ + cfg.reservationTimeout) ∧
    ∀ u c, s.Did i u c → c.act.IsRelease → t ≤ u

/-- At the instant `t` the outcome of the create `i` was retained under the key. -/
def Retains (cfg : Settings) (s : Service ι b) (i : ι) (t : ℕ) (user : UserId) (key body : String) :
    Prop :=
  ∃ t₀ found, s.Did i t₀ ⟨.finish user.asStr key body found, ()⟩ ∧ t₀ ≤ t ∧
    t < t₀ + cfg.retention

/-- What a step adds to what was called on the idempotency store is called now. -/
lemma did_of_step {e : Event ι} (hstep : step cfg s e = some s') {j : ι} {u : ℕ}
    {c : Prog.Performed HandlerE} (hc : ¬c.act.IsStore) (h : s'.Did j u c) :
    s.Did j u c ∨ u = s.now := by
  rcases step_idempotency hstep with ⟨-, -, -, hdid⟩ | ⟨k, x, a, p, r, -, -, -, -, -, -, hdid⟩
  · exact .inl ((hdid j u c hc).mp h)
  · exact ((hdid j u c).mp h).imp id fun h => h.2.1

lemma isStore_of_isRelease {a : HandlerAct} (h : a.IsRelease) : ¬a.IsStore := by
  cases a with
  | finish | abandon => exact id
  | begin | store => exact absurd h id

lemma Holds.step (h : s.Holds cfg i t user key body) (ht : t ≤ s.now) {e : Event ι}
    (hstep : Service.step cfg s e = some s') : s'.Holds cfg i t user key body := by
  obtain ⟨⟨t₀, hres, hle, hlt⟩, hfree⟩ := h
  refine ⟨⟨t₀, (step_grows hstep).2 _ _ _ hres, hle, hlt⟩, fun u c hc hrel => ?_⟩
  rcases did_of_step hstep (isStore_of_isRelease hrel) hc with hc | rfl
  · exact hfree u c hc hrel
  · exact ht

lemma Retains.step (h : s.Retains cfg i t user key body) {e : Event ι}
    (hstep : Service.step cfg s e = some s') : s'.Retains cfg i t user key body := by
  obtain ⟨t₀, found, hdid, hle, hlt⟩ := h
  exact ⟨t₀, found, (step_grows hstep).2 _ _ _ hdid, hle, hlt⟩

/-- Every reservation that stands is held, and whoever was told of one met it. -/
structure Occupied (cfg : Settings) (s : Service ι b) : Prop where
  held : ∀ user key fp t₀,
    s.idempotency.find (UserId.asStr user, key) = some (.inFlight fp t₀) →
    ∃ j body, s.Reserved j t₀ user key body ∧ fp = cfg.fingerprint body ∧ ¬s.Released j
  inFlight : ∀ i t user key body, s.Did i t ⟨.begin (UserId.asStr user) key body, .inFlight⟩ →
    ∃ j body', j ≠ i ∧ s.Holds cfg j t user key body' ∧
      cfg.fingerprint body' = cfg.fingerprint body
  mismatched : ∀ i t user key body,
    s.Did i t ⟨.begin (UserId.asStr user) key body, .bodyMismatch⟩ →
    ∃ j body', j ≠ i ∧ (s.Holds cfg j t user key body' ∨ s.Retains cfg j t user key body') ∧
      cfg.fingerprint body' ≠ cfg.fingerprint body

lemma occupied_init : Occupied cfg (init ι b cfg) := by
  constructor <;> simp [init, Did, IdempotencyStore.new, IdempotencyStore.find]

/-- A live reservation is held at the instant it is met. -/
lemma Occupied.holds (h : Occupied cfg s) (hinv : Inv cfg s) {fp : UInt64} {t₀ : ℕ}
    (hfind : s.idempotency.find (user.asStr, key) = some (.inFlight fp t₀))
    (hlive : s.idempotency.live s.now (.inFlight fp t₀) = true) :
    ∃ j body, s.Holds cfg j s.now user key body ∧ fp = cfg.fingerprint body := by
  obtain ⟨j, body, hres, hfp, hnot⟩ := h.held user key fp t₀ hfind
  have hpast := hinv.tracks.past j t₀ _ hres
  refine ⟨j, body, ⟨⟨t₀, hres, hpast, (hinv.kept.live_inFlight hpast).mp hlive⟩, ?_⟩, hfp⟩
  intro u c hc hrel
  exact absurd ⟨u, c, hc, hrel⟩ hnot

/-- An outcome that is met is retained. -/
lemma retains_of_find (hinv : Inv cfg s) {fp : UInt64} {t₀ : ℕ} {found : Recorded}
    (hfind : s.idempotency.find (user.asStr, key) = some (.complete fp t₀ found))
    (hlive : s.idempotency.live s.now (.complete fp t₀ found) = true) :
    ∃ j body, s.Retains cfg j s.now user key body ∧ fp = cfg.fingerprint body := by
  obtain ⟨j, body, hdid, hfp⟩ := hinv.kept.wrote _ _ hfind
  have hpast := hinv.tracks.past j t₀ _ hdid
  exact ⟨j, body, ⟨t₀, found, hdid, hpast, (hinv.kept.live_complete hpast).mp hlive⟩, hfp⟩

/-- What is found under a key is not the doing of a create that has done nothing. -/
lemma ne_of_none (hnone : ∀ t c, ¬s.Did i t c) {j : ι}
    (h : s.Holds cfg j t user key body ∨ s.Retains cfg j t user key body) : j ≠ i := by
  rintro rfl
  rcases h with ⟨⟨t₀, hres, -⟩, -⟩ | ⟨t₀, found, hdid, -⟩
  · exact hnone _ _ hres
  · exact hnone _ _ hdid

/-- A create is reserved one key, for one body. -/
lemma Tracks.reserved_unique (hs : Tracks cfg s) {t' : ℕ} {user' : UserId} {key' body' : String}
    (h : s.Reserved i t user key body) (h' : s.Reserved i t' user' key' body') :
    user = user' ∧ key = key' := by
  obtain ⟨x, headers, hx, hreq, hkey, -⟩ := hs.of_begin h
  obtain ⟨x', headers', hx', hreq', hkey', -⟩ := hs.of_begin h'
  rw [hx] at hx'
  obtain rfl := Option.some.inj hx'
  rw [hreq] at hreq'
  obtain ⟨rfl, rfl, rfl⟩ := Request.create.inj hreq'
  rw [hkey] at hkey'
  exact ⟨rfl, Option.some.inj hkey'⟩

/-- An entry says that a create is running only if it is a reservation for such a body. -/
lemma answer_eq_inFlight {fp : UInt64} {entry : Idempotency.Entry}
    (h : entry.answer fp = .inFlight) : ∃ since, entry = .inFlight fp since := by
  cases entry with
  | inFlight fp' since =>
    simp only [Entry.answer] at h
    split at h
    · cases h
    · rename_i hfp
      rw [not_not.mp hfp]
      exact ⟨since, rfl⟩
  | complete fp' recordedAt found =>
    simp only [Entry.answer] at h
    split at h <;> cases h

lemma answer_eq_bodyMismatch {fp : UInt64} {entry : Idempotency.Entry}
    (h : entry.answer fp = .bodyMismatch) : entry.fingerprint ≠ fp := by
  cases entry with
  | inFlight fp' since =>
    simp only [Entry.answer] at h
    split at h
    · assumption
    · cases h
  | complete fp' recordedAt found =>
    simp only [Entry.answer] at h
    split at h
    · assumption
    · cases h

/-- Reservations stay held until they are given up. -/
lemma Occupied.held_step (h : Occupied cfg s) (hinv : Inv cfg s) {e : Event ι}
    (hstep : Service.step cfg s e = some s') (user : UserId) (key : String) (fp : UInt64) (t₀ : ℕ)
    (hfind : s'.idempotency.find (user.asStr, key) = some (.inFlight fp t₀)) :
    ∃ j body, s'.Reserved j t₀ user key body ∧ fp = cfg.fingerprint body ∧ ¬s'.Released j := by
  rcases step_idempotency hstep with
    ⟨-, hidem, -, hdid⟩ | ⟨i, x, a, k, r, rfl, hx, -, hrest, hp, -, hdid⟩
  · rw [hidem] at hfind
    obtain ⟨j, body, hres, hfp, hnot⟩ := h.held user key fp t₀ hfind
    refine ⟨j, body, (hdid _ _ _ id).mpr hres, hfp, ?_⟩
    rintro ⟨u, c, hc, hrel⟩
    exact hnot ⟨u, c, (hdid _ u c (isStore_of_isRelease hrel)).mp hc, hrel⟩
  · -- a reservation that stood before still stands, unless this call gave it up
    have hold : s.idempotency.find (user.asStr, key) = some (.inFlight fp t₀) →
        (∀ t body, s.Reserved i t user key body → ¬a.IsRelease) →
        ∃ j body, s'.Reserved j t₀ user key body ∧ fp = cfg.fingerprint body ∧ ¬s'.Released j := by
      intro hfind hno
      obtain ⟨j, body, hres, hfp, hnot⟩ := h.held user key fp t₀ hfind
      refine ⟨j, body, (hdid _ _ _).mpr (.inl hres), hfp, ?_⟩
      rintro ⟨u, c, hc, hrel⟩
      rcases (hdid _ u c).mp hc with hc | ⟨rfl, -, rfl⟩
      · exact hnot ⟨u, c, hc, hrel⟩
      · exact hno t₀ body hres hrel
    cases a with
    | store op => exact absurd rfl (perform_not_store hp op)
    | begin u k' bd =>
      rcases IdempotencyStore.begin_cases (Option.some.inj hp) with
        ⟨rfl, -, hafter⟩ | ⟨entry, -, -, -, hexp⟩
      · rw [hafter] at hfind
        split at hfind
        · rename_i hslot
          obtain ⟨rfl, rfl⟩ := Prod.mk.inj hslot
          cases hfind
          obtain ⟨-, hnone⟩ := hinv.tracks.sent_of_begin hx hrest
          refine ⟨i, bd, (hdid _ _ _).mpr (.inr ⟨rfl, rfl, rfl⟩), rfl, ?_⟩
          rintro ⟨u, c, hc, hrel⟩
          rcases (hdid _ _ _).mp hc with hc | ⟨-, -, rfl⟩
          · exact hnone u c hc
          · exact hrel
        · exact hold (IdempotencyStore.find_expire_eq_some.mp hfind).1 fun _ _ _ => id
      · rw [hexp] at hfind
        exact hold (IdempotencyStore.find_expire_eq_some.mp hfind).1 fun _ _ _ => id
    | finish u k' bd found =>
      obtain ⟨user', key', body', t', hi, -, hfinish, -⟩ :=
        hinv.tracks.reserved_of_release hx hrest trivial
      obtain ⟨rfl, rfl, rfl⟩ := hfinish u k' bd found rfl
      have hst : s.idempotency.finish cfg.fingerprint s.now user'.asStr k' bd found =
          s'.idempotency := congrArg Prod.snd (Option.some.inj hp)
      rw [← hst, IdempotencyStore.find_finish] at hfind
      split at hfind
      · cases hfind
      · rename_i hslot
        refine hold hfind fun t body hres _ => hslot ?_
        obtain ⟨rfl, rfl⟩ := hinv.tracks.reserved_unique hres hi
        rfl
    | abandon u k' =>
      obtain ⟨user', key', body', t', hi, -, -, habandon⟩ :=
        hinv.tracks.reserved_of_release hx hrest trivial
      obtain ⟨rfl, rfl⟩ := habandon u k' rfl
      have hst : s.idempotency.abandon user'.asStr k' = s'.idempotency :=
        congrArg Prod.snd (Option.some.inj hp)
      rw [← hst, IdempotencyStore.find_abandon] at hfind
      split at hfind
      · cases (Option.filter_eq_some_iff.mp hfind).2
      · rename_i hslot
        refine hold hfind fun t body hres _ => hslot ?_
        obtain ⟨rfl, rfl⟩ := hinv.tracks.reserved_unique hres hi
        rfl

/-- What a create is told at the step that asks for its key, and the entry that says so. -/
lemma begin_of_step (hinv : Inv cfg s) {e : Event ι} (hstep : Service.step cfg s e = some s')
    {found : Lookup} (hfound : found ≠ .reserved)
    (h : s'.Did i t ⟨.begin user.asStr key body, found⟩) :
    s.Did i t ⟨.begin user.asStr key body, found⟩ ∨ t = s.now ∧ (∀ t c, ¬s.Did i t c) ∧
      ∃ entry, s.idempotency.find (user.asStr, key) = some entry ∧
        s.idempotency.live s.now entry = true ∧ found = entry.answer (cfg.fingerprint body) := by
  rcases step_idempotency hstep with
    ⟨-, -, -, hdid⟩ | ⟨j, x, a, k, r, rfl, hx, -, hrest, hp, -, hdid⟩
  · exact .inl ((hdid _ _ _ id).mp h)
  · rcases (hdid _ _ _).mp h with h | ⟨rfl, rfl, hc⟩
    · exact .inl h
    · cases hc
      rcases IdempotencyStore.begin_cases (Option.some.inj hp) with
        ⟨hr, -, -⟩ | ⟨entry, hfind, hlive, hr, -⟩
      · exact absurd hr hfound
      · exact .inr ⟨rfl, (hinv.tracks.sent_of_begin hx hrest).2, entry, hfind, hlive, hr⟩

theorem Occupied.step (h : Occupied cfg s) (hinv : Inv cfg s) {e : Event ι}
    (hstep : Service.step cfg s e = some s') : Occupied cfg s' := by
  refine ⟨h.held_step hinv hstep, fun i t user key body hc => ?_, fun i t user key body hc => ?_⟩
  · rcases begin_of_step hinv hstep (by simp) hc with hc | ⟨rfl, hnone, entry, hfind, hlive, hans⟩
    · obtain ⟨j, body', hne, hholds, hfp⟩ := h.inFlight i t user key body hc
      exact ⟨j, body', hne, hholds.step (hinv.tracks.past i t _ hc) hstep, hfp⟩
    · obtain ⟨since, rfl⟩ := answer_eq_inFlight hans.symm
      obtain ⟨j, body', hholds, hfp⟩ := h.holds hinv hfind hlive
      exact ⟨j, body', ne_of_none hnone (.inl hholds), hholds.step le_rfl hstep, hfp.symm⟩
  · rcases begin_of_step hinv hstep (by simp) hc with hc | ⟨rfl, hnone, entry, hfind, hlive, hans⟩
    · obtain ⟨j, body', hne, hrival, hfp⟩ := h.mismatched i t user key body hc
      refine ⟨j, body', hne, ?_, hfp⟩
      exact hrival.imp (·.step (hinv.tracks.past i t _ hc) hstep) (·.step hstep)
    · have hfp := answer_eq_bodyMismatch hans.symm
      cases entry with
      | inFlight fp since =>
        obtain ⟨j, body', hholds, rfl⟩ := h.holds hinv hfind hlive
        exact ⟨j, body', ne_of_none hnone (.inl hholds), .inl (hholds.step le_rfl hstep), hfp⟩
      | complete fp recordedAt found =>
        obtain ⟨j, body', hretains, rfl⟩ := retains_of_find hinv hfind hlive
        exact ⟨j, body', ne_of_none hnone (.inr hretains), .inr (hretains.step hstep), hfp⟩

/-- Every run keeps to who holds which key. -/
theorem occupied_of_run {es : List (Event ι)}
    (hrun : (machine ι b cfg).run (init ι b cfg) es = some s) : Occupied cfg s :=
  (Machine.run_invariant (M := machine ι b cfg) (fun s => Inv cfg s ∧ Occupied cfg s)
    (fun _ _ _ h hs => ⟨h.1.step hs, h.2.step h.1 hs⟩) ⟨inv_init, occupied_init⟩ hrun).2

/-- What a call returned refuses the request because it failed, or else says no more of it. -/
lemma answer_eq_error {op : StoreOp} {r : op.Ret} {e : ProfileError} (h : op.answer r = .error e) :
    (∃ f, r = .error f ∧ e = .store f) ∨
      (e ≠ .idempotencyInFlight ∧ e ≠ .idempotencyReused) ∧ ∀ f, e ≠ .store f := by
  cases op with
  | create user input =>
    rcases r with f | (_ | p)
    · exact .inl ⟨f, rfl, (Except.error.inj h).symm⟩
    · obtain rfl := Except.error.inj h
      exact .inr (by simp)
    · cases h
  | get user =>
    rcases r with f | (_ | p)
    · exact .inl ⟨f, rfl, (Except.error.inj h).symm⟩
    · obtain rfl := Except.error.inj h
      exact .inr (by simp)
    · cases h
  | update user expected input =>
    rcases r with f | (p | v | _)
    · exact .inl ⟨f, rfl, (Except.error.inj h).symm⟩
    · cases h
    · obtain rfl := Except.error.inj h
      exact .inr (by simp)
    · obtain rfl := Except.error.inj h
      exact .inr (by simp)
  | history user =>
    rcases r with f | (_ | ⟨first, rest⟩)
    · exact .inl ⟨f, rfl, (Except.error.inj h).symm⟩
    · obtain rfl := Except.error.inj h
      exact .inr (by simp)
    · cases h

/-! ### Whom a refused create conflicts with -/

/-- A request that makes no sense is not refused for its key. -/
lemma op_ne_conflict {parse : String → Option ProfileInput} {request : Request} {e : ProfileError}
    (h : request.op parse = .error e) : e ≠ .idempotencyInFlight ∧ e ≠ .idempotencyReused := by
  rcases Request.op_error h with rfl | ⟨reason, rfl⟩ | rfl | rfl <;> simp

/-- Whoever holds a key, or has its outcome retained there, was sent a create under it. -/
lemma sent_of_rival (hinv : Inv cfg s)
    (h : s.Holds cfg i t user key body ∨ s.Retains cfg i t user key body) :
    ∃ headers, idempotencyKey headers = some key ∧ s.Sent i (.create user headers body) := by
  rcases h with ⟨⟨t₀, hres, -⟩, -⟩ | ⟨t₀, found, hdid, -⟩
  · obtain ⟨x, headers, hx, hreq, hkey, -⟩ := hinv.tracks.of_begin hres
    exact ⟨headers, hkey, x, hx, hreq⟩
  · obtain ⟨x, headers, input, p, hx, hreq, hkey, -⟩ := hinv.tracks.of_finish hdid
    exact ⟨headers, hkey, x, hx, hreq⟩

/-- A create that is refused for its key conflicts with another one that was sent. -/
theorem Occupied.conflicts (h : Occupied cfg s) (hinv : Inv cfg s) {q : Request} {e : ProfileError}
    (hsent : s.Sent i q) (hanswered : s.Answered i (.error e))
    (he : e = .idempotencyInFlight ∨ e = .idempotencyReused) :
    ∃ j q', j ≠ i ∧ s.Sent j q' ∧ Conflicts cfg q e q' := by
  have hno : ¬(e ≠ .idempotencyInFlight ∧ e ≠ .idempotencyReused) := by
    rintro ⟨hin, hre⟩
    exact he.elim hin hre
  obtain ⟨x, hx, rfl⟩ := hsent
  have hfollows := hinv.tracks.follows i x hx
  rw [hanswered.rest_eq hx] at hfollows
  have houtcome : Outcome cfg.parse x.request (x.log.map Prod.snd) (.error e) :=
    (x.request.ends_handler cfg.parse).follows hfollows
  generalize hanswer : (.error e : Answer) = answer at houtcome
  cases houtcome with
  | rejected hop hnone =>
    obtain rfl := Except.error.inj hanswer
    exact absurd (op_ne_conflict hop) hno
  | stored op r hop hstored =>
    rcases answer_eq_error hanswer.symm with ⟨f, -, rfl⟩ | ⟨hkey, -⟩
    · exact absurd (by simp) hno
    · exact absurd hkey hno
  | told hreq hkey hlog htold =>
    rename_i user headers key body found
    rw [hreq]
    obtain ⟨t, hdid⟩ := did_of_map hx (by rw [hlog]; exact List.mem_singleton_self _)
    rw [← hanswer] at htold
    cases found with
    | reserved => cases htold
    | inFlight =>
      obtain rfl := Except.error.inj (Option.some.inj htold)
      obtain ⟨j, body', hne, hholds, hfp⟩ := h.inFlight i t user key body hdid
      obtain ⟨headers', hkey', hsent⟩ := sent_of_rival hinv (.inl hholds)
      exact ⟨j, _, hne, hsent, .inFlight hkey hkey' hfp⟩
    | bodyMismatch =>
      obtain rfl := Except.error.inj (Option.some.inj htold)
      obtain ⟨j, body', hne, hrival, hfp⟩ := h.mismatched i t user key body hdid
      obtain ⟨headers', hkey', hsent⟩ := sent_of_rival hinv hrival
      exact ⟨j, _, hne, hsent, .reused hkey hkey' hfp⟩
    | replay found => cases htold

end Knova.Service
