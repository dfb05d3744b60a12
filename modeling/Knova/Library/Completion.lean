import Knova.Library.SharedObject
import Mathlib.Algebra.BigOperators.Group.List.Lemmas
import Mathlib.Algebra.Order.BigOperators.Group.List
import Mathlib.Algebra.Order.Ring.Nat

/-!
# Runs that complete

The events of a machine belong to tasks. Where every task takes boundedly many steps, a run
without new tasks cannot go on for ever; where some task can always take a step until all are
done, it cannot stop before that either. Together, every task completes under every schedule.
-/

namespace Knova.Library

/-- As many elements as `k` for each of the elements of `starts`, or fewer. -/
lemma length_le_of_count_le {ι : Type} [DecidableEq ι] {l starts : List ι} {k : ℕ}
    (hsub : ∀ i ∈ l, i ∈ starts) (hcount : ∀ i ∈ l, l.count i ≤ k) :
    l.length ≤ k * starts.length := by
  have hdedup : l.dedup.length ≤ starts.length :=
    (List.subperm_of_subset l.nodup_dedup fun i hi => hsub i (List.mem_dedup.mp hi)).length_le
  calc l.length = (l.dedup.map fun i => l.count i).sum :=
        (List.sum_map_count_dedup_eq_length l).symm
    _ ≤ (l.dedup.map fun i => l.count i).length • k :=
        List.sum_le_card_nsmul _ _ fun n hn => by
          obtain ⟨i, hi, rfl⟩ := List.mem_map.mp hn
          exact hcount i (List.mem_dedup.mp hi)
    _ = k * l.dedup.length := by simp [Nat.mul_comm]
    _ ≤ k * starts.length := Nat.mul_le_mul_left k hdedup

namespace Prog

variable {E : Signature} {α : Type}

/-- The program performs at most so many actions, whatever they answer. -/
def Within : Prog E α → ℕ → Prop
  | .pure _, _ => True
  | .act _ _, 0 => False
  | .act _ k, n + 1 => ∀ r, (k r).Within n

@[simp] lemma within_pure {a : α} {n : ℕ} : (Prog.pure a : Prog E α).Within n := by
  cases n <;> trivial

@[simp] lemma within_act {a : E.Act} {k : E.Ans a → Prog E α} {n : ℕ} :
    (Prog.act a k).Within (n + 1) ↔ ∀ r, (k r).Within n := Iff.rfl

/-- A program that has an action to perform has one left. -/
lemma Within.exists_succ {a : E.Act} {k : E.Ans a → Prog E α} {n : ℕ}
    (h : (Prog.act a k).Within n) : ∃ m, n = m + 1 ∧ ∀ r, (k r).Within m := by
  cases n with
  | zero => exact h.elim
  | succ m => exact ⟨m, rfl, h⟩

lemma Within.mono {p : Prog E α} {m n : ℕ} (h : p.Within m) (hmn : m ≤ n) : p.Within n := by
  induction p generalizing m n with
  | pure a => exact within_pure
  | act a k ih =>
    obtain ⟨m, rfl, hk⟩ := h.exists_succ
    obtain ⟨n, rfl⟩ := Nat.exists_eq_add_one_of_ne_zero (by omega : n ≠ 0)
    exact fun r => ih r (hk r) (by omega)

end Prog

/-! ### Tasks -/

namespace Machine

/-- The tasks of a machine: whose step an event is, which events bring a new task, and how many
steps a task has left in a state. -/
structure Tasks (M : Machine) (ι : Type) where
  owner : M.Event → Option ι
  starts : M.Event → Option ι
  /-- The task has not been brought yet. -/
  idle : M.State → ι → Prop
  /-- At most so many steps of the task are left. -/
  left : M.State → ι → ℕ → Prop
  bound : ℕ
  idle_left : ∀ {s i}, idle s i → left s i bound
  idle_owner : ∀ {s e s' i}, idle s i → M.step s e = some s' → owner e = some i →
    starts e = some i
  idle_step : ∀ {s e s' i}, idle s i → M.step s e = some s' → owner e ≠ some i → idle s' i
  left_owner : ∀ {s e s' i n}, left s i n → M.step s e = some s' → owner e = some i →
    ∃ m, m < n ∧ left s' i m
  left_step : ∀ {s e s' i n}, left s i n → M.step s e = some s' → owner e ≠ some i →
    left s' i n

namespace Tasks

variable {M : Machine} {ι : Type} [DecidableEq ι] {T : M.Tasks ι} {s t : M.State}
  {es : List M.Event}

lemma count_le {i : ι} {n : ℕ} (h : T.left s i n) (hrun : M.run s es = some t) :
    (es.filterMap T.owner).count i ≤ n := by
  induction es generalizing s n with
  | nil => simp
  | cons e es ih =>
    obtain ⟨s', hstep, hrest⟩ := run_cons_eq_some.mp hrun
    by_cases howner : T.owner e = some i
    · obtain ⟨m, hmn, hm⟩ := T.left_owner h hstep howner
      rw [List.filterMap_cons_some howner, List.count_cons_self]
      have := ih hm hrest
      omega
    · have hrest := ih (T.left_step h hstep howner) hrest
      cases ho : T.owner e with
      | none => rwa [List.filterMap_cons_none ho]
      | some j =>
        have hji : j ≠ i := by
          rintro rfl
          exact howner ho
        rwa [List.filterMap_cons_some ho, List.count_cons_of_ne hji]

/-- A task that took a step was brought. -/
lemma mem_starts {i : ι} (h : T.idle s i) (hrun : M.run s es = some t)
    (hi : i ∈ es.filterMap T.owner) : i ∈ es.filterMap T.starts := by
  induction es generalizing s with
  | nil => simp at hi
  | cons e es ih =>
    obtain ⟨s', hstep, hrest⟩ := run_cons_eq_some.mp hrun
    by_cases howner : T.owner e = some i
    · rw [List.filterMap_cons_some (T.idle_owner h hstep howner)]
      exact List.mem_cons_self ..
    · have hmem : i ∈ es.filterMap T.owner := by
        cases ho : T.owner e with
        | none => rwa [List.filterMap_cons_none ho] at hi
        | some j =>
          rw [List.filterMap_cons_some ho] at hi
          rcases List.mem_cons.mp hi with rfl | hi
          · exact absurd ho howner
          · exact hi
      have := ih (T.idle_step h hstep howner) hrest hmem
      obtain ⟨d, hd, hdi⟩ := List.mem_filterMap.mp this
      exact List.mem_filterMap.mpr ⟨d, List.mem_cons_of_mem _ hd, hdi⟩

/-- The steps of all tasks of a run, against the tasks that were brought. -/
theorem length_le (hidle : ∀ i, T.idle s i) (hrun : M.run s es = some t) :
    (es.filterMap T.owner).length ≤ T.bound * (es.filterMap T.starts).length :=
  length_le_of_count_le (fun i hi => mem_starts (hidle i) hrun hi)
    fun i _ => count_le (T.idle_left (hidle i)) hrun

/-- Once no more tasks are brought, the tasks take so many steps only. -/
theorem steps_le {rest : List M.Event} (hidle : ∀ i, T.idle s i)
    (hrun : M.run s (es ++ rest) = some t) (hrest : ∀ e ∈ rest, T.starts e = none) :
    (rest.filterMap T.owner).length ≤ T.bound * (es.filterMap T.starts).length := by
  have h := length_le hidle hrun
  rw [List.filterMap_append, List.filterMap_append, List.filterMap_eq_nil_iff.mpr hrest,
    List.append_nil, List.length_append] at h
  omega

/-- An event that is a task's step and brings no task. -/
def Continues (T : M.Tasks ι) (e : M.Event) : Prop := (T.owner e).isSome ∧ T.starts e = none

omit [DecidableEq ι] in
lemma length_filterMap_owner {rest : List M.Event} (h : ∀ e ∈ rest, T.Continues e) :
    (rest.filterMap T.owner).length = rest.length := by
  induction rest with
  | nil => rfl
  | cons e rest ih =>
    obtain ⟨i, hi⟩ := Option.isSome_iff_exists.mp (h e (List.mem_cons_self ..)).1
    rw [List.filterMap_cons_some hi, List.length_cons, List.length_cons,
      ih fun d hd => h d (List.mem_cons_of_mem _ hd)]

/-- However a run goes on without new tasks, it goes on for so long only. -/
theorem continuation_le {rest : List M.Event} (hidle : ∀ i, T.idle s i)
    (hrun : M.run s (es ++ rest) = some t) (hrest : ∀ e ∈ rest, T.Continues e) :
    rest.length ≤ T.bound * (es.filterMap T.starts).length := by
  rw [← length_filterMap_owner hrest]
  exact steps_le hidle hrun fun e he => (hrest e he).2

/-- Where an event of a kind that brings no task is enabled until all is done, all gets done by
events of this kind. -/
theorem completes (Kind : M.Event → Prop) (Done : M.State → Prop)
    (hkind : ∀ e, Kind e → T.Continues e) (hidle : ∀ i, T.idle s i) (hrun : M.run s es = some t)
    (hlive : ∀ fs u, M.run s fs = some u → ¬Done u → ∃ e, Kind e ∧ (M.step u e).isSome) :
    ∃ rest u, (∀ e ∈ rest, Kind e) ∧ M.run t rest = some u ∧ Done u := by
  by_contra hnone
  -- otherwise there are continuations of every length
  have hlong : ∀ n, ∃ rest u, rest.length = n ∧ (∀ e ∈ rest, Kind e) ∧ M.run t rest = some u := by
    intro n
    induction n with
    | zero => exact ⟨[], t, rfl, by simp, rfl⟩
    | succ n ih =>
      obtain ⟨rest, u, hlength, hrest, hu⟩ := ih
      obtain ⟨e, he, hstep⟩ := hlive (es ++ rest) u (run_append_eq_some.mpr ⟨t, hrun, hu⟩)
        fun hdone => hnone ⟨rest, u, hrest, hu, hdone⟩
      obtain ⟨v, hv⟩ := Option.isSome_iff_exists.mp hstep
      refine ⟨rest ++ [e], v, by simp [hlength], ?_,
        run_append_eq_some.mpr ⟨u, hu, run_cons_eq_some.mpr ⟨v, hv, rfl⟩⟩⟩
      intro d hd
      rcases List.mem_append.mp hd with hd | hd
      · exact hrest d hd
      · obtain rfl := List.mem_singleton.mp hd
        exact he
  obtain ⟨rest, u, hlength, hrest, hu⟩ := hlong (T.bound * (es.filterMap T.starts).length + 1)
  have := continuation_le hidle (run_append_eq_some.mpr ⟨t, hrun, hu⟩)
    fun e he => hkind e (hrest e he)
  omega

end Tasks

end Machine

/-! ### The calls of a shared object -/

/-- Whose step a move is. -/
def Move.caller {ι : Type} {I : Signature} : Move ι I → ι
  | .invoke i _ | .act i | .ret i => i

/-- The call a move makes. -/
def Move.invoked {ι : Type} {I : Signature} : Move ι I → Option ι
  | .invoke i _ => some i
  | _ => none

/-- At most `k` moves of a call are left, where a call that has not been made has `n` actions. -/
def Thread.Left {I E : Signature} (n k : ℕ) : Option (Thread I E) → Prop
  | none => n + 2 ≤ k
  | some (.running _ p) => ∃ m, p.Within m ∧ m + 1 ≤ k
  | some (.returned _ _) => True

namespace SharedObject

variable {ι : Type} [DecidableEq ι] {I : Signature} {O : SharedObject ι I} {c c' : O.Config}

/-- The move that a step makes takes one of the moves its call has left. -/
lemma left_of_step {n k : ℕ} (hbody : ∀ op, (O.body op).Within n) {m : Move ι I}
    (hs : O.step c m = some c') (h : Thread.Left n k (c.thread m.caller)) :
    ∃ k', k' < k ∧ Thread.Left n k' (c'.thread m.caller) := by
  obtain ⟨i, op, rfl, hi, rfl⟩ | ⟨i, op, a, q, r, s, rfl, hi, -, rfl⟩ | ⟨i, op, r, rfl, hi, rfl⟩ :=
    step_cases hs
  all_goals
    dsimp only [Move.caller] at h ⊢
    rw [hi] at h
    rw [Function.update_self]
  · change n + 2 ≤ k at h
    exact ⟨n + 1, by omega, n, hbody op, le_refl _⟩
  · obtain ⟨m, hm, hle⟩ := h
    obtain ⟨m, rfl, hq⟩ := hm.exists_succ
    exact ⟨m + 1, by omega, m, hq r, le_refl _⟩
  · obtain ⟨m, -, hle⟩ := h
    exact ⟨0, by omega, trivial⟩

/-- A move leaves the other calls as they are. -/
lemma thread_of_ne {m : Move ι I} (hs : O.step c m = some c') {i : ι} (hi : m.caller ≠ i) :
    c'.thread i = c.thread i := by
  obtain ⟨j, op, rfl, -, rfl⟩ | ⟨j, op, a, q, r, s, rfl, -, -, rfl⟩ | ⟨j, op, r, rfl, -, rfl⟩ :=
    step_cases hs
  all_goals exact Function.update_of_ne (Ne.symm hi) _ _

/-- The calls of an object whose programs perform at most `n` actions. -/
def tasks (O : SharedObject ι I) {n : ℕ} (hbody : ∀ op, (O.body op).Within n) :
    O.machine.Tasks ι where
  owner m := some m.caller
  starts := Move.invoked
  idle c i := c.thread i = none
  left c i k := Thread.Left n k (c.thread i)
  bound := n + 2
  idle_left h := by
    rw [h]
    exact le_refl _
  idle_owner := by
    intro c m c' i h hs ho
    obtain rfl := Option.some.inj ho
    obtain ⟨j, op, rfl, -, -⟩ | ⟨j, op, a, q, r, s, rfl, hj, -, -⟩ | ⟨j, op, r, rfl, hj, -⟩ :=
      step_cases hs
    · rfl
    all_goals
      dsimp only [Move.caller] at h
      rw [h] at hj
      cases hj
  idle_step h hs ho := (thread_of_ne hs fun hi => ho (congrArg some hi)).trans h
  left_owner := by
    intro c m c' i k h hs ho
    obtain rfl := Option.some.inj ho
    exact left_of_step hbody hs h
  left_step := by
    intro c m c' i k h hs ho
    rwa [thread_of_ne hs fun hi => ho (congrArg some hi)]

/-- A running call has come some way through its program. -/
theorem follows_of_reachable (hc : O.Reachable c) {i : ι} {op : I.Act} {p : Prog O.E (I.Ans op)}
    (hi : c.thread i = some (.running op p)) : ∃ log, (O.body op).Follows log p := by
  obtain ⟨moves, hrun⟩ := hc
  refine Machine.run_invariant (M := O.machine) (fun d => ∀ j op p,
    d.thread j = some (.running op p) → ∃ log, (O.body op).Follows log p) ?_
    (fun j op p hj => by cases hj) hrun i op p hi
  intro d m d' hd hs j op p hj
  by_cases hm : m.caller = j
  · subst hm
    obtain ⟨k, op', rfl, -, rfl⟩ | ⟨k, op', a, q, r, s, rfl, hk, -, rfl⟩ |
      ⟨k, op', r, rfl, -, rfl⟩ := step_cases hs
    all_goals
      dsimp only [Move.caller] at hj
      rw [Function.update_self] at hj
      cases hj
    · exact ⟨[], .refl _⟩
    · obtain ⟨log, hlog⟩ := hd k _ _ hk
      exact ⟨_, hlog.snoc r⟩
  · rw [thread_of_ne hs hm] at hj
    exact hd j op p hj

/-- The call `i` can take a step. -/
def Enabled (c : O.Config) (i : ι) : Prop := (O.step c (.act i)).isSome ∨ (O.step c (.ret i)).isSome

lemma enabled_of_exec {i : ι} {op : I.Act} {a : O.E.Act} {k : O.E.Ans a → Prog O.E (I.Ans op)}
    (hi : c.thread i = some (.running op (.act a k))) (he : (O.exec i a c.shared).isSome) :
    Enabled c i := by
  obtain ⟨⟨r, s⟩, hrs⟩ := Option.isSome_iff_exists.mp he
  left
  simp only [step, hi, hrs, Option.isSome_some]

lemma enabled_of_pure {i : ι} {op : I.Act} {r : I.Ans op}
    (hi : c.thread i = some (.running op (.pure r))) : Enabled c i := by
  right
  simp only [step, hi, Option.isSome_some]

/-- Every call that has been made has returned. -/
def Quiescent (c : O.Config) : Prop := ∀ i t, c.thread i = some t → ∃ op r, t = .returned op r

/-- Where a running call means that some call can take a step, every schedule completes all
calls: it goes on until they have returned, and for so long only. -/
theorem quiescent_of_enabled {n : ℕ} (hbody : ∀ op, (O.body op).Within n)
    (hlive : ∀ d : O.Config, O.Reachable d → ∀ i op p, d.thread i = some (.running op p) →
      ∃ j, Enabled d j) {moves rest : List (Move ι I)}
    (hrun : O.machine.run O.initial (moves ++ rest) = some c)
    (hrest : ∀ m ∈ rest, m.invoked = none) :
    rest.length ≤ (n + 2) * (moves.filterMap Move.invoked).length ∧
      (Quiescent c ∨ ∃ j, Enabled c j) ∧
      ∃ more d, (∀ m ∈ more, m.invoked = none) ∧ O.machine.run c more = some d ∧ Quiescent d := by
  have hnext : ∀ d : O.Config, O.Reachable d → Quiescent d ∨ ∃ j, Enabled d j := by
    intro d hd
    by_cases h : ∃ i op p, d.thread i = some (.running op p)
    · obtain ⟨i, op, p, hi⟩ := h
      exact .inr (hlive d hd i op p hi)
    · refine .inl fun i t ht => ?_
      cases t with
      | running op p => exact absurd ⟨i, op, p, ht⟩ h
      | returned op r => exact ⟨op, r, rfl⟩
  have hidle : ∀ i, (O.tasks hbody).idle O.initial i := fun _ => rfl
  refine ⟨Machine.Tasks.continuation_le hidle hrun fun m hm => ⟨rfl, hrest m hm⟩,
    hnext c ⟨_, hrun⟩, ?_⟩
  obtain ⟨more, d, hmore, hd, hdone⟩ :=
    Machine.Tasks.completes _ Quiescent (fun _ h => h) hidle hrun fun fs u hu hdone => by
      rcases hnext u ⟨fs, hu⟩ with hquiet | ⟨j, hact | hret⟩
      · exact absurd hquiet hdone
      · exact ⟨.act j, ⟨rfl, rfl⟩, hact⟩
      · exact ⟨.ret j, ⟨rfl, rfl⟩, hret⟩
  exact ⟨more, d, fun m hm => (hmore m hm).2, hd, hdone⟩

end SharedObject

end Knova.Library
