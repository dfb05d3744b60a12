import Knova.Library.Machine
import Knova.Profile.Idempotency
import Mathlib.Logic.Function.Basic

/-!
# Who holds an idempotency key

Handlers call `begin` once and, if it answered `Reserved`, call `finish` or `abandon` once,
with any delay in between. Since entries carry no owner, a handler that is late enough
releases a reservation that another handler has made under the same key meanwhile. Up to
such a step a key has one holder at a time.
-/

namespace Knova.Idempotency

open Library

/-- What is left for a handler to do with its key. -/
inductive Phase
  | holding (since : ℕ)
  | over
  deriving DecidableEq

/-- A handler that has called `begin`. -/
structure Handler where
  user : String
  key : String
  body : String
  phase : Phase
  deriving DecidableEq

def Handler.slot (h : Handler) : Slot := (h.user, h.key)

/-- The store, the clock and the handlers. The code does not keep `maker`, who made the
last reservation under a slot. -/
structure Reservations (ι : Type) where
  store : IdempotencyStore
  now : ℕ
  handler : ι → Option Handler
  maker : Slot → Option ι

inductive Event (ι : Type)
  | begin (i : ι) (user key body : String)
  | finish (i : ι) (recorded : Recorded)
  | abandon (i : ι)
  | tick (d : ℕ)

/-- The handler whose reservation an event releases. -/
def Event.releases {ι : Type} : Event ι → Option ι
  | .finish i _ => some i
  | .abandon i => some i
  | _ => none

namespace Reservations

variable {ι : Type} [DecidableEq ι] {hash : String → UInt64}

def init (ι : Type) (retention reservationTimeout : ℕ) : Reservations ι :=
  ⟨.new retention reservationTimeout, 0, fun _ => none, fun _ => none⟩

def step (hash : String → UInt64) (s : Reservations ι) : Event ι → Option (Reservations ι)
  | .begin i user key body =>
    match s.handler i with
    | some _ => none
    | none =>
      let (answer, store) := s.store.begin hash s.now user key body
      if answer = .reserved then some
        { s with
          store
          handler := Function.update s.handler i (some ⟨user, key, body, .holding s.now⟩)
          maker := Function.update s.maker (user, key) (some i) }
      else some
        { s with
          store
          handler := Function.update s.handler i (some ⟨user, key, body, .over⟩) }
  | .finish i recorded =>
    match s.handler i with
    | some ⟨user, key, body, .holding _⟩ => some
        { s with
          store := s.store.finish hash s.now user key body recorded
          handler := Function.update s.handler i (some ⟨user, key, body, .over⟩) }
    | _ => none
  | .abandon i =>
    match s.handler i with
    | some ⟨user, key, body, .holding _⟩ => some
        { s with
          store := s.store.abandon user key
          handler := Function.update s.handler i (some ⟨user, key, body, .over⟩) }
    | _ => none
  | .tick d => some { s with now := s.now + d }

abbrev machine (ι : Type) [DecidableEq ι] (hash : String → UInt64) : Machine where
  State := Reservations ι
  Event := Event ι
  step := step hash

/-- Handler `i` was `Reserved` at `since` and has called neither `finish` nor `abandon`. -/
def Holding (s : Reservations ι) (i : ι) (h : Handler) (since : ℕ) : Prop :=
  s.handler i = some h ∧ h.phase = .holding since

/-- Handler `i` holds an unexpired reservation of `slot`. -/
def Holds (s : Reservations ι) (i : ι) (slot : Slot) : Prop :=
  ∃ h since, s.Holding i h since ∧ h.slot = slot ∧ s.now - since < s.store.reservationTimeout

/-- No slot has two holders. -/
def Exclusive (s : Reservations ι) : Prop :=
  ∀ slot i j, s.Holds i slot → s.Holds j slot → i = j

/-- The event removes or overwrites a reservation that another handler made. -/
def Steals (s : Reservations ι) (e : Event ι) : Prop :=
  ∃ i h since fp made j, e.releases = some i ∧ s.Holding i h since ∧
    s.store.find h.slot = some (.inFlight fp made) ∧ s.maker h.slot = some j ∧ j ≠ i

/-- A handler that releases its key does so before the key has been reserved anew after
its own reservation ran out. -/
def InTime (s : Reservations ι) (e : Event ι) : Prop :=
  ∀ i h since fp made, e.releases = some i → s.Holding i h since →
    s.store.find h.slot = some (.inFlight fp made) → made < since + s.store.reservationTimeout

/-- A slot whose entry, if any, is a recorded outcome. -/
def Settled (store : IdempotencyStore) (slot : Slot) : Prop :=
  ∀ fp made, store.find slot ≠ some (.inFlight fp made)

omit [DecidableEq ι] in
lemma settled_finish (s : Reservations ι) (h : Handler) (recorded : Recorded) :
    Settled (s.store.finish hash s.now h.user h.key h.body recorded) h.slot := by
  intro fp made hf
  simp [IdempotencyStore.find_finish, Handler.slot] at hf

omit [DecidableEq ι] in
lemma settled_abandon (s : Reservations ι) (h : Handler) :
    Settled (s.store.abandon h.user h.key) h.slot := by
  intro fp made hf
  simp [IdempotencyStore.find_abandon, Handler.slot, Option.filter_eq_some_iff,
    Entry.isComplete] at hf

/-- Everything one step can do: reserve, be refused, release, or wait. -/
theorem step_cases {s s' : Reservations ι} {e : Event ι} (hs : step hash s e = some s') :
    (∃ i user key body, e = .begin i user key body ∧ s.handler i = none ∧
      (s.store.expire s.now).find (user, key) = none ∧
      s' = { s with
        store := (s.store.begin hash s.now user key body).2
        handler := Function.update s.handler i (some ⟨user, key, body, .holding s.now⟩)
        maker := Function.update s.maker (user, key) (some i) }) ∨
    (∃ i user key body, e = .begin i user key body ∧ s.handler i = none ∧
      s' = { s with
        store := s.store.expire s.now
        handler := Function.update s.handler i (some ⟨user, key, body, .over⟩) }) ∨
    (∃ i h since store, e.releases = some i ∧ s.Holding i h since ∧ Settled store h.slot ∧
      (∀ slot, slot ≠ h.slot → store.find slot = s.store.find slot) ∧
      store.reservationTimeout = s.store.reservationTimeout ∧
      s' = { s with
        store
        handler := Function.update s.handler i (some { h with phase := .over }) }) ∨
    ∃ d, e = .tick d ∧ s' = { s with now := s.now + d } := by
  cases e with
  | begin i user key body =>
    simp only [step] at hs
    split at hs
    · cases hs
    · rename_i hi
      cases hf : (s.store.expire s.now).find (user, key) with
      | none =>
        rw [if_pos (IdempotencyStore.begin_reserved_iff.mpr hf)] at hs
        exact .inl ⟨i, user, key, body, rfl, hi, hf, (Option.some.inj hs).symm⟩
      | some entry =>
        rw [IdempotencyStore.begin_of_some hf,
          if_neg (IdempotencyStore.answer_ne_reserved _ entry)] at hs
        exact .inr (.inl ⟨i, user, key, body, rfl, hi, (Option.some.inj hs).symm⟩)
  | finish i recorded =>
    simp only [step] at hs
    split at hs
    · rename_i user key body since hi
      refine .inr (.inr (.inl ⟨i, ⟨user, key, body, .holding since⟩, since, _, rfl, ⟨hi, rfl⟩,
        settled_finish s ⟨user, key, body, .holding since⟩ recorded, ?_, rfl,
        (Option.some.inj hs).symm⟩))
      intro slot hslot
      change slot ≠ (user, key) at hslot
      rw [IdempotencyStore.find_finish, if_neg hslot]
    · cases hs
  | abandon i =>
    simp only [step] at hs
    split at hs
    · rename_i user key body since hi
      refine .inr (.inr (.inl ⟨i, ⟨user, key, body, .holding since⟩, since, _, rfl, ⟨hi, rfl⟩,
        settled_abandon s ⟨user, key, body, .holding since⟩, ?_,
        IdempotencyStore.abandon_windows.2, (Option.some.inj hs).symm⟩))
      intro slot hslot
      change slot ≠ (user, key) at hslot
      rw [IdempotencyStore.find_abandon, if_neg hslot]
    · cases hs
  | tick d => exact .inr (.inr (.inr ⟨d, rfl, (Option.some.inj hs).symm⟩))

/-! ### The invariant of timely runs -/

structure Inv (hash : String → UInt64) (s : Reservations ι) : Prop where
  past : ∀ i h t, s.Holding i h t → t ≤ s.now
  made : ∀ slot fp t, s.store.find slot = some (.inFlight fp t) →
    ∃ i h, s.maker slot = some i ∧ s.Holding i h t ∧ h.slot = slot
  latest : ∀ i h t fp made, s.Holding i h t → s.store.find h.slot = some (.inFlight fp made) →
    t ≤ made
  kept : ∀ i h t, s.Holding i h t → s.now - t < s.store.reservationTimeout →
    s.store.find h.slot = some (.inFlight (hash h.body) t) ∧ s.maker h.slot = some i
  apart : ∀ i j h k t u, i ≠ j → s.Holding i h t → s.Holding j k u → h.slot = k.slot →
    t + s.store.reservationTimeout ≤ u ∨ u + s.store.reservationTimeout ≤ t

omit [DecidableEq ι] in
lemma inv_init (retention reservationTimeout : ℕ) :
    Inv hash (init ι retention reservationTimeout) := by
  constructor <;> simp [init, Holding, IdempotencyStore.new, IdempotencyStore.find]

omit [DecidableEq ι] in
/-- An unexpired reservation survives `expire`. -/
lemma Inv.find_expire_kept {s : Reservations ι} (hs : Inv hash s) {i : ι} {h : Handler} {t : ℕ}
    (hi : s.Holding i h t) (ht : s.now - t < s.store.reservationTimeout) :
    (s.store.expire s.now).find h.slot = some (.inFlight (hash h.body) t) := by
  rw [IdempotencyStore.find_expire_eq_some]
  exact ⟨(hs.kept i h t hi ht).1, by simpa [IdempotencyStore.live] using ht⟩

omit [DecidableEq ι] in
lemma holding_unique {s : Reservations ι} {i : ι} {h k : Handler} {t u : ℕ}
    (hh : s.Holding i h t) (hk : s.Holding i k u) : h = k ∧ t = u := by
  obtain ⟨hi, ht⟩ := hh
  obtain ⟨hi', hu⟩ := hk
  rw [hi] at hi'
  cases hi'
  rw [ht] at hu
  cases hu
  exact ⟨rfl, rfl⟩

/-- Who holds what after one handler changed. -/
lemma holding_update {s s' : Reservations ι} {i j : ι} {x h : Handler} {t : ℕ}
    (hs : s'.handler = Function.update s.handler i (some x)) :
    s'.Holding j h t ↔ (j = i ∧ h = x ∧ x.phase = .holding t) ∨ (j ≠ i ∧ s.Holding j h t) := by
  unfold Holding
  rw [hs]
  by_cases hji : j = i
  · subst hji
    simp only [Function.update_self, Option.some.injEq, true_and, ne_eq, not_true_eq_false,
      false_and, or_false]
    constructor
    · rintro ⟨rfl, ht⟩
      exact ⟨rfl, ht⟩
    · rintro ⟨rfl, ht⟩
      exact ⟨rfl, ht⟩
  · simp [hji]

/-- A handler that reserves a free slot. -/
lemma Inv.reserve {s s' : Reservations ι} (hs : Inv hash s) {i : ι} {user key body : String}
    (hi : s.handler i = none) (hf : (s.store.expire s.now).find (user, key) = none)
    (hs' : s' = { s with
      store := (s.store.begin hash s.now user key body).2
      handler := Function.update s.handler i (some ⟨user, key, body, .holding s.now⟩)
      maker := Function.update s.maker (user, key) (some i) }) : Inv hash s' := by
  have hfind : ∀ slot, s'.store.find slot = if slot = (user, key)
      then some (.inFlight (hash body) s.now) else (s.store.expire s.now).find slot := by
    intro slot
    rw [hs']
    exact (IdempotencyStore.begin_of_none hf).2 slot
  have hwin : s'.store.reservationTimeout = s.store.reservationTimeout := by
    rw [hs']
    exact IdempotencyStore.begin_windows.2
  have hnow : s'.now = s.now := by rw [hs']
  have hmaker : s'.maker = Function.update s.maker (user, key) (some i) := by rw [hs']
  have hold : ∀ {j h t}, s'.Holding j h t ↔ (j = i ∧ h = ⟨user, key, body, .holding s.now⟩ ∧
      Phase.holding s.now = .holding t) ∨ (j ≠ i ∧ s.Holding j h t) :=
    holding_update (by rw [hs'])
  -- a handler whose reservation is alive cannot have left its slot free
  have hfree : ∀ j h t, s.Holding j h t → s.now - t < s.store.reservationTimeout →
      h.slot ≠ (user, key) := by
    intro j h t hj ht heq
    have := hs.find_expire_kept hj ht
    rw [heq, hf] at this
    cases this
  constructor
  · intro j h t hj
    rw [hnow]
    rcases hold.mp hj with ⟨-, -, ht⟩ | ⟨-, hj⟩
    · cases ht
      exact le_refl _
    · exact hs.past j h t hj
  · intro slot fp t ht
    rw [hfind] at ht
    split at ht
    · rename_i heq
      cases ht
      exact ⟨i, ⟨user, key, body, .holding s.now⟩, by rw [hmaker, heq, Function.update_self],
        hold.mpr (.inl ⟨rfl, rfl, rfl⟩), heq.symm⟩
    · rename_i hne
      obtain ⟨j, h, hm, hj, hslot⟩ :=
        hs.made slot fp t (IdempotencyStore.find_expire_eq_some.mp ht).1
      have hji : j ≠ i := by
        rintro rfl
        have := hi.symm.trans hj.1
        cases this
      exact ⟨j, h, by rw [hmaker, Function.update_of_ne hne, hm], hold.mpr (.inr ⟨hji, hj⟩), hslot⟩
  · intro j h t fp made hj hmade
    rw [hfind] at hmade
    split at hmade
    · cases hmade
      rcases hold.mp hj with ⟨-, -, ht⟩ | ⟨-, hj⟩
      · cases ht
        exact le_refl _
      · exact hs.past j h t hj
    · rename_i hne
      rcases hold.mp hj with ⟨-, rfl, -⟩ | ⟨-, hj⟩
      · exact absurd rfl hne
      · exact hs.latest j h t fp made hj (IdempotencyStore.find_expire_eq_some.mp hmade).1
  · intro j h t hj ht
    rw [hnow, hwin] at ht
    rw [hfind, hmaker]
    rcases hold.mp hj with ⟨rfl, rfl, hph⟩ | ⟨-, hj⟩
    · cases hph
      exact ⟨by simp [Handler.slot], by simp [Handler.slot]⟩
    · have hne := hfree j h t hj ht
      rw [if_neg hne, Function.update_of_ne hne]
      exact ⟨hs.find_expire_kept hj ht, (hs.kept j h t hj ht).2⟩
  · intro j k h h' t u hjk hj hk hslot
    rw [hwin]
    -- an older holder of the slot that is now reserved has run out of time
    have hold_out : ∀ j h t, s.Holding j h t → h.slot = (user, key) →
        t + s.store.reservationTimeout ≤ s.now := by
      intro j h t hj heq
      have hpast := hs.past j h t hj
      by_contra hlt
      exact hfree j h t hj (by omega) heq
    rcases hold.mp hj with ⟨rfl, rfl, hph⟩ | ⟨-, hj⟩
    · cases hph
      rcases hold.mp hk with ⟨rfl, -, -⟩ | ⟨-, hk⟩
      · exact absurd rfl hjk
      · exact .inr (hold_out k h' u hk hslot.symm)
    · rcases hold.mp hk with ⟨rfl, rfl, hph⟩ | ⟨-, hk⟩
      · cases hph
        exact .inl (hold_out j h t hj hslot)
      · exact hs.apart j k h h' t u hjk hj hk hslot

/-- A handler that is refused: only what has expired is dropped. -/
lemma Inv.refuse {s s' : Reservations ι} (hs : Inv hash s) {i : ι} {user key body : String}
    (hi : s.handler i = none) (hs' : s' = { s with
      store := s.store.expire s.now
      handler := Function.update s.handler i (some ⟨user, key, body, .over⟩) }) :
    Inv hash s' := by
  subst hs'
  have hold : ∀ {j h t}, Holding { s with
      store := s.store.expire s.now
      handler := Function.update s.handler i (some ⟨user, key, body, .over⟩) } j h t ↔
      j ≠ i ∧ s.Holding j h t := by
    intro j h t
    rw [holding_update rfl]
    simp
  constructor
  · exact fun j h t hj => hs.past j h t (hold.mp hj).2
  · intro slot fp t ht
    obtain ⟨j, h, hm, hj, hslot⟩ :=
      hs.made slot fp t (IdempotencyStore.find_expire_eq_some.mp ht).1
    have hji : j ≠ i := by
      rintro rfl
      have := hi.symm.trans hj.1
      cases this
    exact ⟨j, h, hm, hold.mpr ⟨hji, hj⟩, hslot⟩
  · intro j h t fp made hj hmade
    exact hs.latest j h t fp made (hold.mp hj).2 (IdempotencyStore.find_expire_eq_some.mp hmade).1
  · intro j h t hj ht
    exact ⟨hs.find_expire_kept (hold.mp hj).2 ht, (hs.kept j h t (hold.mp hj).2 ht).2⟩
  · intro j k h h' t u hjk hj hk hslot
    exact hs.apart j k h h' t u hjk (hold.mp hj).2 (hold.mp hk).2 hslot

/-- A handler that releases its slot in time. -/
lemma Inv.release {s s' : Reservations ι} (hs : Inv hash s) {i : ι} {h₀ : Handler} {since : ℕ}
    {store : IdempotencyStore} (hi : s.Holding i h₀ since)
    (hin : ∀ fp made, s.store.find h₀.slot = some (.inFlight fp made) →
      made < since + s.store.reservationTimeout) (hset : Settled store h₀.slot)
    (hother : ∀ slot, slot ≠ h₀.slot → store.find slot = s.store.find slot)
    (hwin : store.reservationTimeout = s.store.reservationTimeout) (hs' : s' = { s with
      store
      handler := Function.update s.handler i (some { h₀ with phase := .over }) }) :
    Inv hash s' := by
  subst hs'
  have hold : ∀ {j h t}, Holding { s with
      store
      handler := Function.update s.handler i (some { h₀ with phase := .over }) } j h t ↔
      j ≠ i ∧ s.Holding j h t := by
    intro j h t
    rw [holding_update rfl]
    simp
  have hne : ∀ slot fp t, store.find slot = some (.inFlight fp t) → slot ≠ h₀.slot := by
    rintro slot fp t ht rfl
    exact hset fp t ht
  constructor
  · exact fun j h t hj => hs.past j h t (hold.mp hj).2
  · intro slot fp t ht
    have hslot := hne slot fp t ht
    dsimp only at ht
    rw [hother slot hslot] at ht
    obtain ⟨j, h, hm, hj, rfl⟩ := hs.made slot fp t ht
    have hji : j ≠ i := by
      rintro rfl
      rw [(holding_unique hj hi).1] at hslot
      exact hslot rfl
    exact ⟨j, h, hm, hold.mpr ⟨hji, hj⟩, rfl⟩
  · intro j h t fp made hj hmade
    have hslot := hne h.slot fp made hmade
    dsimp only at hmade
    rw [hother h.slot hslot] at hmade
    exact hs.latest j h t fp made (hold.mp hj).2 hmade
  · intro j h t hj ht
    obtain ⟨hji, hj⟩ := hold.mp hj
    dsimp only at ht
    rw [hwin] at ht
    obtain ⟨hfind, hmaker⟩ := hs.kept j h t hj ht
    have hslot : h.slot ≠ h₀.slot := by
      -- the releasing handler would be late, or the other one expired
      intro heq
      have hlate := hin _ t (heq ▸ hfind)
      have hpast := hs.past i h₀ since hi
      rcases hs.apart i j h₀ h since t (Ne.symm hji) hi hj heq.symm with hle | hle
      · omega
      · omega
    dsimp only
    rw [hother h.slot hslot]
    exact ⟨hfind, hmaker⟩
  · intro j k h h' t u hjk hj hk hslot
    dsimp only
    rw [hwin]
    exact hs.apart j k h h' t u hjk (hold.mp hj).2 (hold.mp hk).2 hslot

/-- Every step taken in time keeps the invariant. -/
theorem Inv.step {s s' : Reservations ι} (hs : Inv hash s) {e : Event ι} (hin : s.InTime e)
    (hstep : step hash s e = some s') : Inv hash s' := by
  obtain ⟨i, user, key, body, -, hi, hf, hs'⟩ | ⟨i, user, key, body, -, hi, hs'⟩ |
    ⟨i, h, since, store, he, hi, hset, hother, hwin, hs'⟩ | ⟨d, -, rfl⟩ := step_cases hstep
  · exact hs.reserve hi hf hs'
  · exact hs.refuse hi hs'
  · exact hs.release hi (fun fp made hf => hin i h since fp made he hi hf) hset hother hwin hs'
  · refine ⟨fun j h t hj => ?_, hs.made, hs.latest, fun j h t hj ht => ?_, hs.apart⟩
    · have := hs.past j h t hj
      dsimp only
      omega
    · refine hs.kept j h t hj ?_
      dsimp only at ht
      omega

omit [DecidableEq ι] in
/-- Two unexpired reservations of one slot have one holder. -/
lemma Inv.exclusive {s : Reservations ι} (hs : Inv hash s) : s.Exclusive := by
  rintro slot i j ⟨h, t, hi, rfl, ht⟩ ⟨k, u, hj, hslot, hu⟩
  by_contra hij
  have ht' := hs.past i h t hi
  have hu' := hs.past j k u hj
  rcases hs.apart i j h k t u hij hi hj hslot.symm with hle | hle
  · omega
  · omega

omit [DecidableEq ι] in
/-- A timely release touches nobody else's reservation. -/
lemma Inv.not_steals {s : Reservations ι} (hs : Inv hash s) {e : Event ι} (hin : s.InTime e) :
    ¬s.Steals e := by
  rintro ⟨i, h, since, fp, made, j, he, hi, hf, hm, hji⟩
  have hlate := hin i h since fp made he hi hf
  have hlatest := hs.latest i h since fp made hi hf
  obtain ⟨j', k, hm', hj, hslot⟩ := hs.made h.slot fp made hf
  rw [hm] at hm'
  cases hm'
  rcases hs.apart i j h k since made (Ne.symm hji) hi hj hslot.symm with hle | hle
  · omega
  · omega

omit [DecidableEq ι] in
/-- A late release steals, if reservations last at all. -/
lemma Inv.inTime_of_not_steals {s : Reservations ι} (hs : Inv hash s) {e : Event ι}
    (hpos : 0 < s.store.reservationTimeout) (hn : ¬s.Steals e) : s.InTime e := by
  intro i h since fp made he hi hf
  by_contra hlate
  obtain ⟨j, k, hm, hj, -⟩ := hs.made h.slot fp made hf
  refine hn ⟨i, h, since, fp, made, j, he, hi, hf, hm, ?_⟩
  rintro rfl
  have := (holding_unique hi hj).2
  omega

lemma step_timeout {s s' : Reservations ι} {e : Event ι} (hstep : step hash s e = some s') :
    s'.store.reservationTimeout = s.store.reservationTimeout := by
  obtain ⟨i, user, key, body, -, -, -, rfl⟩ | ⟨i, user, key, body, -, -, rfl⟩ |
    ⟨i, h, since, store, -, -, -, -, hwin, rfl⟩ | ⟨d, -, rfl⟩ := step_cases hstep
  · exact IdempotencyStore.begin_windows.2
  · rfl
  · exact hwin
  · rfl

/-- In every run whose releases are in time, a key has at most one holder in every state,
and no release removes or overwrites a reservation that another handler made. Where
reservations last at all, no other runs have the second property. -/
theorem one_holder (ι : Type) [DecidableEq ι] (hash : String → UInt64)
    (retention reservationTimeout : ℕ) (es : List (Event ι)) (s : Reservations ι)
    (hrun : (machine ι hash).run (init ι retention reservationTimeout) es = some s) :
    ((machine ι hash).EveryStep InTime (init ι retention reservationTimeout) es →
      (machine ι hash).EveryStep (fun s e => Exclusive s ∧ ¬Steals s e)
          (init ι retention reservationTimeout) es ∧ s.Exclusive) ∧
    (0 < reservationTimeout →
      (machine ι hash).EveryStep (fun s e => ¬Steals s e)
        (init ι retention reservationTimeout) es →
      (machine ι hash).EveryStep InTime (init ι retention reservationTimeout) es) := by
  refine ⟨fun hin => ⟨?_, ?_⟩, fun hpos hn => ?_⟩
  · exact hin.imp (Inv hash) (fun s e s' hs hin hstep => Inv.step hs hin hstep)
      (fun s e hs hin => ⟨Inv.exclusive hs, Inv.not_steals hs hin⟩) (inv_init _ _)
  · have hs := Machine.run_invariant_of_everyStep (Inv hash)
      (fun s e s' hs hin hstep => Inv.step hs hin hstep) (inv_init _ _) hin hrun
    exact hs.exclusive
  · refine hn.imp (fun s : Reservations ι => Inv hash s ∧ 0 < s.store.reservationTimeout) ?_ ?_
      ⟨inv_init _ _, hpos⟩
    · intro s e s' hs hn hstep
      refine ⟨hs.1.step (hs.1.inTime_of_not_steals hs.2 hn) hstep, ?_⟩
      rw [step_timeout hstep]
      exact hs.2
    · exact fun s e hs hn => hs.1.inTime_of_not_steals hs.2 hn

/-- Handler `0` outlives its reservation of a minute; handler `1` reserves the key anew;
when handler `0` fails and abandons the key, handler `2` can reserve it as well. -/
theorem one_holder_fails :
    let es : List (Event ℕ) := [.begin 0 "u" "k" "b", .tick (60 * 10 ^ 9), .begin 1 "u" "k" "b",
      .abandon 0, .begin 2 "u" "k" "b"]
    ∃ s, (machine ℕ fun _ => 0).run (init ℕ IdempotencyStore.defaultRetention
        IdempotencyStore.defaultReservationTimeout) es = some s ∧
      s.Holds 1 ("u", "k") ∧ s.Holds 2 ("u", "k") := by
  refine ⟨_, rfl, ⟨⟨"u", "k", "b", .holding (60 * 10 ^ 9)⟩, _, ⟨rfl, rfl⟩, rfl, by decide⟩,
    ⟨⟨"u", "k", "b", .holding (60 * 10 ^ 9)⟩, _, ⟨rfl, rfl⟩, rfl, by decide⟩⟩

/-- A handler that releases its key within the minute, and a retry. -/
theorem one_holder_release :
    let s₀ := init ℕ IdempotencyStore.defaultRetention IdempotencyStore.defaultReservationTimeout
    let es : List (Event ℕ) := [.begin 0 "u" "k" "b", .tick 5, .abandon 0, .begin 1 "u" "k" "b"]
    (machine ℕ fun _ => 0).EveryStep (fun s e => Exclusive s ∧ ¬Steals s e) s₀ es := by
  intro s₀ es
  have hrun : ∃ s, (machine ℕ fun _ => 0).run s₀ es = some s := ⟨_, rfl⟩
  obtain ⟨s, hrun⟩ := hrun
  refine ((one_holder ℕ _ _ _ es s hrun).1 ?_).1
  refine ⟨?_, fun s₁ h₁ => ⟨?_, fun s₂ h₂ => ⟨?_, fun s₃ h₃ => ⟨?_, fun _ _ => trivial⟩⟩⟩⟩
  · intro i h since fp made he
    cases he
  · intro i h since fp made he
    cases he
  · obtain rfl := Option.some.inj h₁
    obtain rfl := Option.some.inj h₂
    intro i h since fp made he hi hf
    obtain rfl := Option.some.inj he
    obtain rfl := Option.some.inj hi.1
    cases hi.2
    obtain ⟨-, rfl⟩ := Entry.inFlight.inj (Option.some.inj hf)
    decide
  · intro i h since fp made he
    cases he

end Reservations

end Knova.Idempotency
