import Knova.Library.Completion
import Knova.Library.Mutex

/-!
# Locks without deadlock

A call that holds a lock takes no other before it has released it. It may wait for a lock of
lower rank to be free, as a writer that keeps new readers out waits for those inside to leave.
Then whoever holds a lock can take a step or waits for one that holds a lower one, so every
chain of waiting calls ends, and no set of calls can block each other.
-/

namespace Knova.Library

/-- Which lock an action needs nobody to hold, which it takes and which it gives back. A reader
of a reader-writer lock takes it for reading and waits for the writer. -/
structure Locking (E : Signature) (Lock : Type) where
  awaits : E.Act → Option Lock
  acquires : E.Act → Option Lock
  releases : E.Act → Option Lock
  rank : Lock → ℕ

namespace Locking

variable {E : Signature} {Lock α β : Type} {D : Locking E Lock} {l : Lock}

/-- A program that holds `l` takes no lock until it gives `l` back, and waits at most for locks
of lower rank. -/
def Carries (D : Locking E Lock) (l : Lock) : Prog E α → Prop
  | .pure _ => False
  | .act a k => D.acquires a = none ∧ (∀ l', D.awaits a = some l' → D.rank l' < D.rank l) ∧
      (D.releases a = some l ∨ ∀ r, Carries D l (k r))

/-- A program that carries every lock it takes, and so holds one lock at a time. -/
def Disciplined (D : Locking E Lock) : Prog E α → Prop
  | .pure _ => True
  | .act a k => (∀ l, D.acquires a = some l → ∀ r, D.Carries l (k r)) ∧ ∀ r, Disciplined D (k r)

@[simp] lemma carries_pure {a : α} : ¬D.Carries l (.pure a : Prog E α) := id

@[simp] lemma disciplined_pure {a : α} : D.Disciplined (.pure a : Prog E α) := trivial

/-- An action that takes no lock leaves a disciplined program. -/
lemma disciplined_act {a : E.Act} {k : E.Ans a → Prog E α} (ha : D.acquires a = none)
    (hk : ∀ r, D.Disciplined (k r)) : D.Disciplined (.act a k) := by
  refine ⟨fun l hl => ?_, hk⟩
  rw [ha] at hl
  cases hl

/-- An action that waits for nothing keeps a lock or gives it back. -/
lemma carries_act {a : E.Act} {k : E.Ans a → Prog E α} (ha : D.acquires a = none)
    (hawaits : D.awaits a = none) (hk : D.releases a = some l ∨ ∀ r, D.Carries l (k r)) :
    D.Carries l (.act a k) := by
  refine ⟨ha, fun l' hl' => ?_, hk⟩
  rw [hawaits] at hl'
  cases hl'

lemma Carries.acquires_eq_none {a : E.Act} {k : E.Ans a → Prog E α}
    (h : D.Carries l (.act a k)) : D.acquires a = none := h.1

/-- A program that carries a lock only waits for locks of lower rank. -/
lemma Carries.rank_lt {a : E.Act} {k : E.Ans a → Prog E α} (h : D.Carries l (.act a k))
    {l' : Lock} (hawaits : D.awaits a = some l') : D.rank l' < D.rank l := h.2.1 l' hawaits

/-- A program that carries a lock has the action before it that gives the lock back. -/
lemma Carries.exists_releases [∀ a, Nonempty (E.Ans a)] {P : E.Act → Prop} {p : Prog E α}
    (h : D.Carries l p) (hp : p.All P) : ∃ a, P a ∧ D.releases a = some l := by
  induction p with
  | pure a => exact h.elim
  | act a k ih =>
    rcases h.2.2 with hreleases | hcarried
    · exact ⟨a, hp.1, hreleases⟩
    · obtain ⟨r⟩ := ‹∀ a, Nonempty (E.Ans a)› a
      exact ih r (hcarried r) (hp.2 r)

end Locking

namespace SharedObject

variable {ι : Type} [DecidableEq ι] {I : Signature}

/-- How the calls of an object take and give back its locks. -/
structure Discipline (O : SharedObject ι I) (Lock : Type) extends Locking O.E Lock where
  holds : O.State → Lock → ι → Prop
  /-- What the locks themselves keep. -/
  inv : O.State → Prop
  init : inv O.init ∧ ∀ l i, ¬holds O.init l i
  body : ∀ op, toLocking.Disciplined (O.body op)
  /-- A lock is held by whoever held it and did not give it back, or has just taken it. -/
  exec : ∀ {i a s r s'}, inv s → (∀ l, acquires a = some l → ¬holds s l i) →
    O.exec i a s = some (r, s') → inv s' ∧ ∀ l j, holds s' l j →
      (j = i ∧ acquires a = some l) ∨ (holds s l j ∧ (j = i → releases a ≠ some l))

namespace Discipline

variable {O : SharedObject ι I} {Lock : Type} (D : O.Discipline Lock) {c c' : O.Config}

/-- Whoever holds a lock is a call that carries it. -/
structure Manned (c : O.Config) : Prop where
  inv : D.inv c.shared
  disciplined : ∀ i op p, c.thread i = some (.running op p) → D.Disciplined p
  carries : ∀ l i, D.holds c.shared l i → ∃ op p, c.thread i = some (.running op p) ∧ D.Carries l p

omit [DecidableEq ι] in
lemma manned_initial : D.Manned O.initial where
  inv := D.init.1
  disciplined i op p h := by cases h
  carries l i h := absurd h (D.init.2 l i)

variable {D}

/-- What holds of the threads, once `i` runs `p`. -/
lemma disciplined_update (h : D.Manned c) {i : ι} {t : Thread I O.E}
    (ht : ∀ op p, t = .running op p → D.Disciplined p) (j : ι) (op : I.Act)
    (p : Prog O.E (I.Ans op))
    (hj : Function.update c.thread i (some t) j = some (.running op p)) : D.Disciplined p := by
  by_cases hji : j = i
  · subst hji
    rw [Function.update_self] at hj
    exact ht op p (Option.some.inj hj)
  · rw [Function.update_of_ne hji] at hj
    exact h.disciplined j op p hj

lemma Manned.step (h : D.Manned c) {m : Move ι I} (hs : O.step c m = some c') : D.Manned c' := by
  obtain ⟨i, op, -, hi, rfl⟩ | ⟨i, op, a, k, r, s, -, hi, he, rfl⟩ | ⟨i, op, r, -, hi, rfl⟩ :=
    step_cases hs
  · refine ⟨h.inv, disciplined_update h fun op' p hp => ?_, fun l j hl => ?_⟩
    · cases hp
      exact D.body op
    · obtain ⟨op', p, hj, hp⟩ := h.carries l j hl
      have hji : j ≠ i := by
        rintro rfl
        rw [hi] at hj
        cases hj
      exact ⟨op', p, (Function.update_of_ne hji ..).trans hj, hp⟩
  · have hact := h.disciplined i op _ hi
    -- a call that is about to take a lock holds none
    have hunheld : ∀ l, D.acquires a = some l → ¬D.holds c.shared l i := by
      intro l hl hheld
      obtain ⟨op', p, hi', hp⟩ := h.carries l i hheld
      rw [hi] at hi'
      cases hi'
      rw [hp.acquires_eq_none] at hl
      cases hl
    obtain ⟨hinv, hlocks⟩ := D.exec h.inv hunheld he
    refine ⟨hinv, disciplined_update h fun op' p hp => ?_, fun l j hl => ?_⟩
    · cases hp
      exact hact.2 r
    · rcases hlocks l j hl with ⟨rfl, hacquired⟩ | ⟨hheld, hkept⟩
      · exact ⟨op, k r, Function.update_self .., hact.1 l hacquired r⟩
      · obtain ⟨op', p, hj, hp⟩ := h.carries l j hheld
        by_cases hji : j = i
        · subst hji
          rw [hi] at hj
          cases hj
          refine ⟨op, k r, Function.update_self .., ?_⟩
          rcases hp.2.2 with hreleased | hcarried
          · exact absurd hreleased (hkept rfl)
          · exact hcarried r
        · exact ⟨op', p, (Function.update_of_ne hji ..).trans hj, hp⟩
  · refine ⟨h.inv, disciplined_update h fun op' p hp => (by cases hp), fun l j hl => ?_⟩
    obtain ⟨op', p, hj, hp⟩ := h.carries l j hl
    have hji : j ≠ i := by
      rintro rfl
      rw [hi] at hj
      cases hj
      exact hp
    exact ⟨op', p, (Function.update_of_ne hji ..).trans hj, hp⟩

theorem manned_of_reachable (hc : O.Reachable c) : D.Manned c := by
  obtain ⟨moves, hrun⟩ := hc
  exact Machine.run_invariant (M := O.machine) D.Manned (fun _ _ _ h hs => h.step hs)
    D.manned_initial hrun

/-- Only a lock that somebody holds makes a call wait. -/
def OnlyLocks (D : O.Discipline Lock) (c : O.Config) : Prop :=
  ∀ i op a k, c.thread i = some (.running op (.act a k)) → O.exec i a c.shared = none →
    ∃ l j, D.awaits a = some l ∧ D.holds c.shared l j

/-- A call that cannot take a step waits for a lock that another call carries. -/
theorem Manned.waits (h : D.Manned c) (hlocks : D.OnlyLocks c) {i : ι} {op : I.Act}
    {p : Prog O.E (I.Ans op)} (hi : c.thread i = some (.running op p)) (hstuck : ¬Enabled c i) :
    ∃ a k l j other q, p = .act a k ∧ D.awaits a = some l ∧ D.holds c.shared l j ∧ j ≠ i ∧
      c.thread j = some (.running other q) ∧ D.Carries l q := by
  cases p with
  | pure r => exact absurd (enabled_of_pure hi) hstuck
  | act a k =>
    have he : O.exec i a c.shared = none := by
      by_contra hne
      exact hstuck (enabled_of_exec hi (Option.isSome_iff_ne_none.mpr hne))
    obtain ⟨l, j, hawaits, hl⟩ := hlocks i op a k hi he
    obtain ⟨other, q, hj, hq⟩ := h.carries l j hl
    refine ⟨a, k, l, j, other, q, rfl, hawaits, hl, ?_, hj, hq⟩
    -- nobody waits for a lock of its own
    rintro rfl
    rw [hi] at hj
    cases hj
    exact lt_irrefl _ (hq.rank_lt hawaits)

/-- Where a lock is held, some call can take a step: the ranks go down along the calls that wait
for each other. -/
lemma Manned.exists_enabled_of_holds (h : D.Manned c) (hlocks : D.OnlyLocks c) {l : Lock} {j : ι}
    (hl : D.holds c.shared l j) : ∃ i, Enabled c i := by
  induction hn : D.rank l using Nat.strong_induction_on generalizing l j with
  | _ n ih =>
    obtain ⟨op, p, hj, hp⟩ := h.carries l j hl
    by_cases hstep : Enabled c j
    · exact ⟨j, hstep⟩
    · obtain ⟨a, k, l', j', -, -, rfl, hawaits, hl', -⟩ := h.waits hlocks hj hstep
      exact ih _ (hn ▸ hp.rank_lt hawaits) hl' rfl

/-- Where a call is running, some call can take a step. -/
theorem Manned.exists_enabled (h : D.Manned c) (hlocks : D.OnlyLocks c) {i : ι} {op : I.Act}
    {p : Prog O.E (I.Ans op)} (hi : c.thread i = some (.running op p)) : ∃ j, Enabled c j := by
  by_cases hstep : Enabled c i
  · exact ⟨i, hstep⟩
  · obtain ⟨-, -, l, j, -, -, -, -, hl, -⟩ := h.waits hlocks hi hstep
    exact h.exists_enabled_of_holds hlocks hl

end Discipline

end SharedObject

/-! ### One mutex -/

section Mutex

variable {ι σ : Type} [DecidableEq ι] {I : Signature} {init : σ}
  {seq : (op : I.Act) → σ → I.Ans op × σ}

/-- Every call takes the mutex once and gives it back. -/
def mutexDiscipline (ι : Type) [DecidableEq ι] (I : Signature) (init : σ)
    (seq : (op : I.Act) → σ → I.Ans op × σ) : (mutexObject ι I init seq).Discipline Unit where
  awaits
    | .lock => some ()
    | _ => none
  acquires
    | .lock => some ()
    | _ => none
  releases
    | .unlock => some ()
    | _ => none
  rank _ := 0
  holds s _ i := s.holder = some i
  inv _ := True
  init := ⟨trivial, fun _ _ h => by cases h⟩
  body op := by
    refine ⟨fun _ _ _ => Locking.carries_act rfl rfl (.inr fun _ => ?_), fun _ => ?_⟩
    · exact Locking.carries_act rfl rfl (.inl rfl)
    · exact Locking.disciplined_act rfl fun _ => Locking.disciplined_act rfl fun _ => trivial
  exec := by
    intro i a s r s' _ _ he
    refine ⟨trivial, fun _ j hj => ?_⟩
    cases a with
    | lock =>
      simp only [mutexObject] at he
      split at he
      · cases he
        exact .inl ⟨(Option.some.inj hj).symm, rfl⟩
      · cases he
    | work op =>
      simp only [mutexObject] at he
      split at he
      · cases he
        exact .inr ⟨hj, fun _ => by simp⟩
      · cases he
    | unlock =>
      simp only [mutexObject] at he
      split at he
      · cases he
        cases hj
      · cases he

/-- Where a call is running, some call can take a step. -/
theorem mutexObject_enabled {c : (mutexObject ι I init seq).Config}
    (hc : (mutexObject ι I init seq).Reachable c) {i : ι} {op : I.Act}
    {p : Prog (mutexObject ι I init seq).E (I.Ans op)}
    (hi : c.thread i = some (.running op p)) : ∃ j, SharedObject.Enabled c j := by
  -- what each call knows, whatever the sequential code does
  let L : LinearizationPoints (mutexObject ι I init seq) (fun _ : Unit => fun _ _ _ => True) () :=
    mutexObject_linearizationPoints (fun _ _ => True) trivial fun _ _ _ _ => ⟨(), trivial, trivial⟩
  obtain ⟨order, a, hx⟩ := L.reachable_explained hc
  have hmanned := SharedObject.Discipline.manned_of_reachable (D := mutexDiscipline ι I init seq) hc
  refine hmanned.exists_enabled (fun j op a k hj he => ?_) hi
  obtain ⟨done, hstage, -⟩ := hx.running j op _ hj
  cases hstage with
  | waiting =>
    -- the mutex is free or held
    cases hholder : c.shared.holder with
    | none => simp [mutexObject, hholder] at he
    | some j' => exact ⟨(), j', rfl, hholder⟩
  | locked hholder => simp [mutexObject, hholder] at he
  | worked r hholder => simp [mutexObject, hholder] at he

end Mutex

end Knova.Library
