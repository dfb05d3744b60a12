import Knova.Profile.Idempotency

/-!
# Idempotency keys do not observe each other

`begin` sweeps the whole table, `finish` and `abandon` sweep nothing, so what stands under one
key depends on the traffic on others. What of it is unexpired does not, and `begin` answers
from that alone.
-/

namespace Knova.Idempotency

/-- A call on the store. -/
inductive StoreCall
  | begin (user key body : String)
  | finish (user key body : String) (recorded : Recorded)
  | abandon (user key : String)
  deriving DecidableEq

def StoreCall.slot : StoreCall → Slot
  | .begin user key _ => (user, key)
  | .finish user key _ _ => (user, key)
  | .abandon user key => (user, key)

namespace IdempotencyStore

variable {s t u : IdempotencyStore} {hash : String → UInt64} {now : ℕ} {slot : Slot}

/-- Whatever is live later was live before. -/
lemma live_of_le {later : ℕ} (h : now ≤ later) {entry : Entry} (hlive : s.live later entry) :
    s.live now entry := by
  cases entry <;> simp only [live, decide_eq_true_eq] at hlive ⊢ <;> omega

lemma live_congr (hretention : t.retention = s.retention)
    (htimeout : t.reservationTimeout = s.reservationTimeout) : t.live = s.live := by
  funext now entry
  cases entry <;> simp only [live, hretention, htimeout]

/-- From `now` on, the two tables hold the same under `slot`, once expired entries are
dropped. -/
def Agree (now : ℕ) (s t : IdempotencyStore) (slot : Slot) : Prop :=
  ∀ later, now ≤ later → (t.expire later).find slot = (s.expire later).find slot

lemma Agree.mono {later : ℕ} (h : Agree now s t slot) (hle : now ≤ later) : Agree later s t slot :=
  fun n hn => h n (Nat.le_trans hle hn)

/-- What expired before expires later. -/
lemma find_expire_expire {later : ℕ} (h : now ≤ later) :
    ((s.expire now).expire later).find slot = (s.expire later).find slot := by
  rw [find_expire, find_expire, find_expire, Option.filter_filter]
  congr 1
  funext entry
  have hlive : (s.expire now).live = s.live := live_congr rfl rfl
  rw [hlive]
  cases hl : s.live later entry with
  | false => rw [Bool.and_false]
  | true => rw [live_of_le h hl, Bool.and_self]

lemma Agree.expire (h : Agree now s t slot) : Agree now s (t.expire now) slot :=
  fun later hle => (find_expire_expire hle).trans (h later hle)

lemma find_expire_of_none {later : ℕ} (h : now ≤ later) (hf : (s.expire now).find slot = none) :
    (s.expire later).find slot = none := by
  rw [← find_expire_expire h, find_expire, hf, Option.filter_none]

/-- A key that is free stays free until it is reserved. -/
lemma agree_of_none (hs : (s.expire now).find slot = none) (ht : (t.expire now).find slot = none) :
    Agree now s t slot := fun later hle => by
  rw [find_expire_of_none hle hs, find_expire_of_none hle ht]

lemma Agree.congr (h : Agree now s t slot) (hfind : u.find slot = t.find slot)
    (hlive : u.live = t.live) : Agree now s u slot := fun later hle => by
  rw [← h later hle, find_expire, find_expire, hfind, hlive]

/-- What `begin` answers depends on the live entry under the slot only. -/
lemma begin_fst_congr {user key body : String}
    (h : (t.expire now).find (user, key) = (s.expire now).find (user, key)) :
    (t.begin hash now user key body).1 = (s.begin hash now user key body).1 := by
  cases hs : (s.expire now).find (user, key) with
  | none => rw [(begin_of_none hs).1, (begin_of_none (h.trans hs)).1]
  | some entry => rw [begin_of_some hs, begin_of_some (h.trans hs)]

/-! ### Runs -/

/-- The answer of a call, if it is a `begin`, and the store after it. -/
def perform (hash : String → UInt64) (s : IdempotencyStore) :
    ℕ × StoreCall → Option Lookup × IdempotencyStore
  | (now, .begin user key body) =>
    let (found, s) := s.begin hash now user key body
    (some found, s)
  | (now, .finish user key body recorded) => (none, s.finish hash now user key body recorded)
  | (_, .abandon user key) => (none, s.abandon user key)

/-- What `begin` answers in a run, each answer with the slot it is about. -/
def answers (hash : String → UInt64) (s : IdempotencyStore) :
    List (ℕ × StoreCall) → List (Slot × Lookup)
  | [] => []
  | call :: rest =>
    (s.perform hash call).1.toList.map (Prod.mk call.2.slot) ++
      (s.perform hash call).2.answers hash rest

variable {call : StoreCall}

lemma live_perform : (s.perform hash (now, call)).2.live = s.live := by
  cases call with
  | begin user key body => exact live_congr begin_windows.1 begin_windows.2
  | finish user key body recorded => rfl
  | abandon user key => exact live_congr abandon_windows.1 abandon_windows.2

/-- A call changes nothing under other slots but what has expired. -/
lemma agree_perform_of_ne (h : Agree now s t slot) (hne : slot ≠ call.slot) :
    Agree now s (t.perform hash (now, call)).2 slot := by
  have hlive : (t.perform hash (now, call)).2.live = t.live := live_perform
  cases call with
  | begin user key body =>
    cases hf : (t.expire now).find (user, key) with
    | none =>
      obtain ⟨-, hfind⟩ := @begin_of_none t hash now user key body hf
      exact h.expire.congr ((hfind slot).trans (if_neg hne)) hlive
    | some entry =>
      change Agree now s (t.begin hash now user key body).2 slot
      rw [begin_of_some hf]
      exact h.expire
  | finish user key body recorded => exact h.congr (find_finish.trans (if_neg hne)) hlive
  | abandon user key => exact h.congr (find_abandon.trans (if_neg hne)) hlive

/-- A call is answered, and changes its own slot, by what is unexpired there. -/
lemma agree_perform (h : Agree now s t call.slot) (hlive : t.live = s.live) :
    (t.perform hash (now, call)).1 = (s.perform hash (now, call)).1 ∧
    Agree now (s.perform hash (now, call)).2 (t.perform hash (now, call)).2 call.slot := by
  have hlive' : (t.perform hash (now, call)).2.live = (s.perform hash (now, call)).2.live := by
    rw [live_perform, live_perform, hlive]
  cases call with
  | begin user key body =>
    have hsame : (t.expire now).find (user, key) = (s.expire now).find (user, key) := h now le_rfl
    refine ⟨congrArg some (begin_fst_congr hsame), ?_⟩
    change Agree now (s.begin hash now user key body).2 (t.begin hash now user key body).2 _
    cases hs : (s.expire now).find (user, key) with
    | none =>
      intro later _
      change (t.begin hash now user key body).2.live =
        (s.begin hash now user key body).2.live at hlive'
      change ((t.begin hash now user key body).2.expire later).find (user, key) =
        ((s.begin hash now user key body).2.expire later).find (user, key)
      rw [find_expire, find_expire, (begin_of_none hs).2, (begin_of_none (hsame.trans hs)).2,
        if_pos rfl, if_pos rfl, hlive']
    | some entry =>
      rw [begin_of_some hs, begin_of_some (hsame.trans hs)]
      intro later hle
      rw [find_expire_expire hle, find_expire_expire hle]
      exact h later hle
  | finish user key body recorded =>
    refine ⟨rfl, fun later _ => ?_⟩
    change ((t.finish hash now user key body recorded).expire later).find (user, key) =
      ((s.finish hash now user key body recorded).expire later).find (user, key)
    change (t.finish hash now user key body recorded).live =
      (s.finish hash now user key body recorded).live at hlive'
    rw [find_expire, find_expire, find_finish, find_finish, if_pos rfl, if_pos rfl, hlive']
  | abandon user key =>
    refine ⟨rfl, fun later hle => ?_⟩
    have hfind := h later hle
    have hcomm : ∀ v : IdempotencyStore, ((v.abandon user key).expire later).find (user, key) =
        ((v.expire later).find (user, key)).filter Entry.isComplete := by
      intro v
      have hv : (v.abandon user key).live = v.live := live_congr abandon_windows.1 abandon_windows.2
      rw [find_expire, find_expire, find_abandon, if_pos rfl, hv, Option.filter_filter,
        Option.filter_filter]
      exact congrArg (Option.filter · _) (funext fun entry => Bool.and_comm _ _)
    change ((t.abandon user key).expire later).find (user, key) =
      ((s.abandon user key).expire later).find (user, key)
    rw [hcomm, hcomm]
    exact congrArg _ hfind

/-- From tables that agree on a slot, the run and the one that is left of it for the slot give
the same answers there. -/
lemma filter_answers {trace : List (ℕ × StoreCall)} (h : Agree now s t slot)
    (hlive : t.live = s.live) (hordered : (trace.map Prod.fst).Pairwise (· ≤ ·))
    (hlater : ∀ call ∈ trace, now ≤ call.1) :
    (t.answers hash trace).filter (fun answer => answer.1 = slot) =
      s.answers hash (trace.filter fun call => call.2.slot = slot) := by
  induction trace generalizing now s t with
  | nil => rfl
  | cons call trace ih =>
    obtain ⟨instant, call⟩ := call
    have hagree : Agree instant s t slot := h.mono (hlater _ List.mem_cons_self)
    rw [List.map_cons, List.pairwise_cons] at hordered
    have hrest : ∀ call ∈ trace, instant ≤ call.1 := fun call hcall =>
      hordered.1 call.1 (List.mem_map_of_mem hcall)
    have hperformed : ∀ v : IdempotencyStore, (v.perform hash (instant, call)).2.live = v.live :=
      fun _ => live_perform
    rw [answers, List.filter_append]
    by_cases hslot : call.slot = slot
    · subst hslot
      obtain ⟨hanswer, hnext⟩ := @agree_perform s t hash instant call hagree hlive
      have hfilter : ((t.perform hash (instant, call)).1.toList.map
          (Prod.mk call.slot)).filter (fun answer => answer.1 = call.slot) =
          (t.perform hash (instant, call)).1.toList.map (Prod.mk call.slot) := by
        rw [List.filter_eq_self]
        intro answer hmem
        obtain ⟨found, -, rfl⟩ := List.mem_map.mp hmem
        exact decide_eq_true rfl
      rw [List.filter_cons_of_pos (by simp), answers, hfilter, hanswer,
        ih hnext (by rw [hperformed, hperformed, hlive]) hordered.2 hrest]
    · have hnext := @agree_perform_of_ne s t hash instant slot call hagree (Ne.symm hslot)
      have hfilter : ((t.perform hash (instant, call)).1.toList.map
          (Prod.mk call.slot)).filter (fun answer => answer.1 = slot) = [] := by
        rw [List.filter_eq_nil_iff]
        intro answer hmem
        obtain ⟨found, -, rfl⟩ := List.mem_map.mp hmem
        exact fun heq => hslot (of_decide_eq_true heq)
      rw [List.filter_cons_of_neg (by simpa using hslot), hfilter, List.nil_append,
        ih hnext (by rw [hperformed, hlive]) hordered.2 hrest]

/-- What `begin` answers about one user's key is what it answers where the calls about all
others are left out. -/
theorem keys_independent (hash : String → UInt64) (retention reservationTimeout : ℕ)
    (trace : List (ℕ × StoreCall)) (hordered : (trace.map Prod.fst).Pairwise (· ≤ ·))
    (slot : Slot) :
    ((new retention reservationTimeout).answers hash trace).filter
        (fun answer => answer.1 = slot) =
      (new retention reservationTimeout).answers hash
        (trace.filter fun call => call.2.slot = slot) :=
  @filter_answers _ _ hash 0 slot trace (fun _ _ => rfl) rfl hordered fun _ _ => Nat.zero_le _

/-- The reservation of `u` lapses before it is abandoned; only one of the runs has swept it
by then. -/
theorem keys_independent_lapse :
    let hash : String → UInt64 := fun body => UInt64.ofNat body.length
    ((new 100 10).answers hash [(0, .begin "u" "k" "a"), (20, .begin "v" "k" "a"),
        (25, .abandon "u" "k"), (30, .begin "u" "k" "b")]).filter
          (fun answer => answer.1 = ("u", "k")) =
      (new 100 10).answers hash
        [(0, .begin "u" "k" "a"), (25, .abandon "u" "k"), (30, .begin "u" "k" "b")] :=
  keys_independent _ 100 10 [(0, .begin "u" "k" "a"), (20, .begin "v" "k" "a"),
    (25, .abandon "u" "k"), (30, .begin "u" "k" "b")] (by decide) ("u", "k")

end IdempotencyStore

end Knova.Idempotency
