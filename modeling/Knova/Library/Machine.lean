import Mathlib.Data.List.Induction

/-!
# Deterministic machines driven by events

All nondeterminism (which process moves, what the clock shows, which faults occur) sits
in the event, so that a run is a list of events and can be evaluated.
-/

namespace Knova.Library

/-- A state machine whose step is a partial function of the state and an event. -/
structure Machine where
  State : Type
  Event : Type
  step : State → Event → Option State

namespace Machine

variable {M : Machine}

/-- The state after a list of events, if every one of them is enabled in its turn. -/
def run (M : Machine) : M.State → List M.Event → Option M.State
  | s, [] => some s
  | s, e :: es =>
    match M.step s e with
    | none => none
    | some s' => run M s' es

@[simp] lemma run_nil (s : M.State) : M.run s [] = some s := rfl

lemma run_cons_eq_some {s t : M.State} {e : M.Event} {es : List M.Event} :
    M.run s (e :: es) = some t ↔ ∃ s', M.step s e = some s' ∧ M.run s' es = some t := by
  cases h : M.step s e with
  | none => simp [run, h]
  | some s' => simp [run, h]

lemma run_append_eq_some {s t : M.State} {es fs : List M.Event} :
    M.run s (es ++ fs) = some t ↔ ∃ s', M.run s es = some s' ∧ M.run s' fs = some t := by
  induction es generalizing s with
  | nil => simp
  | cons e es ih =>
    simp only [List.cons_append, run_cons_eq_some, ih]
    constructor
    · rintro ⟨s₁, h₁, s₂, h₂, h₃⟩
      exact ⟨s₂, ⟨s₁, h₁, h₂⟩, h₃⟩
    · rintro ⟨s₂, ⟨s₁, h₁, h₂⟩, h₃⟩
      exact ⟨s₁, h₁, s₂, h₂, h₃⟩

/-- A property kept by every step is kept by every run. -/
theorem run_invariant (I : M.State → Prop)
    (hstep : ∀ s e s', I s → M.step s e = some s' → I s')
    {s t : M.State} {es : List M.Event} (hs : I s) (h : M.run s es = some t) : I t := by
  induction es generalizing s with
  | nil =>
    obtain rfl : s = t := by simpa using h
    exact hs
  | cons e es ih =>
    obtain ⟨s', he, h'⟩ := run_cons_eq_some.mp h
    exact ih (hstep s e s' hs he) h'

/-- A reflexive and transitive relation between neighbouring states relates the two ends
of every run that starts where an invariant holds. -/
theorem run_relates (I : M.State → Prop) (R : M.State → M.State → Prop)
    (hrefl : ∀ s, R s s) (htrans : ∀ s t u, R s t → R t u → R s u)
    (hstep : ∀ s e s', I s → M.step s e = some s' → I s' ∧ R s s')
    {s t : M.State} {es : List M.Event} (hs : I s) (h : M.run s es = some t) :
    I t ∧ R s t := by
  induction es generalizing s with
  | nil =>
    obtain rfl : s = t := by simpa using h
    exact ⟨hs, hrefl s⟩
  | cons e es ih =>
    obtain ⟨s', he, h'⟩ := run_cons_eq_some.mp h
    obtain ⟨hI, hR⟩ := hstep s e s' hs he
    obtain ⟨hI', hR'⟩ := ih hI h'
    exact ⟨hI', htrans s s' t hR hR'⟩

/-- In the run of `es` from `s` to `t`, the event `e` took the machine from `u` to `v`. -/
def Passes (M : Machine) (s : M.State) (es : List M.Event) (t : M.State) (e : M.Event)
    (u v : M.State) : Prop :=
  ∃ before after, es = before ++ e :: after ∧ M.run s before = some u ∧ M.step u e = some v ∧
    M.run v after = some t

lemma Passes.snoc {s t t' u v : M.State} {es : List M.Event} {e d : M.Event}
    (h : M.Passes s es t e u v) (hd : M.step t d = some t') : M.Passes s (es ++ [d]) t' e u v := by
  obtain ⟨before, after, rfl, hbefore, he, hafter⟩ := h
  refine ⟨before, after ++ [d], by simp, hbefore, he, ?_⟩
  exact run_append_eq_some.mpr ⟨t, hafter, run_cons_eq_some.mpr ⟨t', hd, rfl⟩⟩

lemma passes_last {s t t' : M.State} {es : List M.Event} {e : M.Event} (h : M.run s es = some t)
    (he : M.step t e = some t') : M.Passes s (es ++ [e]) t' e t t' :=
  ⟨es, [], rfl, h, he, rfl⟩

/-- A transition of a run is its last one or one of those before. -/
lemma Passes.cases_snoc {s t t' u v : M.State} {es : List M.Event} {e d : M.Event}
    (h : M.Passes s (es ++ [d]) t' e u v) (hrun : M.run s es = some t) :
    M.Passes s es t e u v ∨ e = d ∧ u = t ∧ v = t' := by
  obtain ⟨before, after, heq, hbefore, he, hafter⟩ := h
  rcases List.eq_nil_or_concat after with rfl | ⟨after, last, rfl⟩
  · obtain ⟨rfl, hlast⟩ := List.append_inj' heq rfl
    obtain rfl := List.cons.inj hlast |>.1
    rw [hrun] at hbefore
    exact .inr ⟨rfl, (Option.some.inj hbefore).symm, Option.some.inj hafter⟩
  · have heq' : es ++ [d] = (before ++ e :: after) ++ [last] := by simpa using heq
    obtain ⟨rfl, -⟩ := List.append_inj' heq' rfl
    obtain ⟨u', hu', hmid⟩ := run_append_eq_some.mp hrun
    rw [hbefore] at hu'
    obtain rfl := Option.some.inj hu'
    obtain ⟨v', hv', hmid⟩ := run_cons_eq_some.mp hmid
    rw [he] at hv'
    obtain rfl := Option.some.inj hv'
    exact .inl ⟨before, after, rfl, hbefore, he, hmid⟩

/-- What holds at the start, and after a run if it held before the run's last step, holds after
every run. -/
theorem run_induction {s t : M.State} {es : List M.Event} (P : List M.Event → M.State → Prop)
    (hstart : P [] s) (hstep : ∀ es t e t', M.run s es = some t → P es t → M.step t e = some t' →
      P (es ++ [e]) t') (h : M.run s es = some t) : P es t := by
  induction es using List.reverseRecOn generalizing t with
  | nil =>
    obtain rfl : s = t := by simpa using h
    exact hstart
  | append_singleton es e ih =>
    obtain ⟨t₁, hbefore, hlast⟩ := run_append_eq_some.mp h
    obtain ⟨t₂, he, hnil⟩ := run_cons_eq_some.mp hlast
    obtain rfl : t₂ = t := by simpa using hnil
    exact hstep es t₁ e t₂ hbefore (ih hbefore) he

/-- The run of `es` from `s` goes through `u`. -/
def Visits (M : Machine) (s : M.State) (es : List M.Event) (u : M.State) : Prop :=
  ∃ before, before <+: es ∧ M.run s before = some u

lemma visits_nil {s u : M.State} : M.Visits s [] u ↔ u = s := by
  simp [Visits, eq_comm]

lemma visits_snoc {s t t' u : M.State} {es : List M.Event} {e : M.Event}
    (h : M.run s es = some t) (he : M.step t e = some t') :
    M.Visits s (es ++ [e]) u ↔ M.Visits s es u ∨ u = t' := by
  have hlast : M.run s (es ++ [e]) = some t' :=
    run_append_eq_some.mpr ⟨t, h, run_cons_eq_some.mpr ⟨t', he, rfl⟩⟩
  constructor
  · rintro ⟨before, hprefix, hbefore⟩
    rcases List.prefix_concat_iff.mp hprefix with rfl | hprefix
    · rw [hlast] at hbefore
      exact .inr (Option.some.inj hbefore).symm
    · exact .inl ⟨before, hprefix, hbefore⟩
  · rintro (⟨before, hprefix, hbefore⟩ | rfl)
    · exact ⟨before, hprefix.trans (List.prefix_append _ _), hbefore⟩
    · exact ⟨_, List.prefix_refl _, hlast⟩

/-- Every step of the run of `es` from `s` is taken where `P` allows it. -/
def EveryStep (M : Machine) (P : M.State → M.Event → Prop) : M.State → List M.Event → Prop
  | _, [] => True
  | s, e :: es => P s e ∧ ∀ s', M.step s e = some s' → EveryStep M P s' es

lemma everyStep_cons {P : M.State → M.Event → Prop} {s : M.State} {e : M.Event}
    {es : List M.Event} : M.EveryStep P s (e :: es) ↔
      P s e ∧ (M.step s e).elim True fun s' => M.EveryStep P s' es := by
  cases h : M.step s e with
  | none => simp [EveryStep, h]
  | some s' => simp [EveryStep, h]

/-- A condition that can be decided at every step can be decided over a run. -/
instance decidableEveryStep {P : M.State → M.Event → Prop} [∀ s e, Decidable (P s e)] :
    ∀ s es, Decidable (M.EveryStep P s es)
  | _, [] => .isTrue trivial
  | s, e :: es =>
    have : Decidable ((M.step s e).elim True fun s' => M.EveryStep P s' es) :=
      match M.step s e with
      | none => .isTrue trivial
      | some s' => decidableEveryStep s' es
    decidable_of_iff _ everyStep_cons.symm

lemma EveryStep.append {P : M.State → M.Event → Prop} {s : M.State} {es fs : List M.Event}
    (h : M.EveryStep P s (es ++ fs)) : M.EveryStep P s es ∧
      ∀ s', M.run s es = some s' → M.EveryStep P s' fs := by
  induction es generalizing s with
  | nil =>
    refine ⟨trivial, fun s' hrun => ?_⟩
    obtain rfl : s = s' := by simpa using hrun
    exact h
  | cons e es ih =>
    refine ⟨⟨h.1, fun s' he => (ih (h.2 s' he)).1⟩, fun s' hrun => ?_⟩
    obtain ⟨s₁, he, hrest⟩ := run_cons_eq_some.mp hrun
    exact (ih (h.2 s₁ he)).2 s' hrest

lemma EveryStep.concat {P : M.State → M.Event → Prop} {s : M.State} {es fs : List M.Event}
    (h : M.EveryStep P s es) (hend : ∀ s', M.run s es = some s' → M.EveryStep P s' fs) :
    M.EveryStep P s (es ++ fs) := by
  induction es generalizing s with
  | nil => exact hend s rfl
  | cons e es ih =>
    exact ⟨h.1, fun s' he => ih (h.2 s' he) fun t ht => hend t (run_cons_eq_some.mpr ⟨s', he, ht⟩)⟩

lemma EveryStep.and {P Q : M.State → M.Event → Prop} {s : M.State} {es : List M.Event}
    (hP : M.EveryStep P s es) (hQ : M.EveryStep Q s es) :
    M.EveryStep (fun s e => P s e ∧ Q s e) s es := by
  induction es generalizing s with
  | nil => trivial
  | cons e es ih => exact ⟨⟨hP.1, hQ.1⟩, fun s' he => ih (hP.2 s' he) (hQ.2 s' he)⟩

/-- What holds of every event holds at every step. -/
lemma everyStep_of_mem {Q : M.Event → Prop} {s : M.State} {es : List M.Event}
    (h : ∀ e ∈ es, Q e) : M.EveryStep (fun _ e => Q e) s es := by
  induction es generalizing s with
  | nil => trivial
  | cons e es ih =>
    exact ⟨h e (by simp), fun _ _ => ih fun e he => h e (by simp [he])⟩

/-- Under an invariant of the steps that meet `P`, a run that meets `P` meets whatever
follows from `P`. -/
theorem EveryStep.imp {P Q : M.State → M.Event → Prop} (I : M.State → Prop)
    (hstep : ∀ s e s', I s → P s e → M.step s e = some s' → I s')
    (hPQ : ∀ s e, I s → P s e → Q s e) {s : M.State} {es : List M.Event} (hs : I s)
    (hP : M.EveryStep P s es) : M.EveryStep Q s es := by
  induction es generalizing s with
  | nil => trivial
  | cons e es ih =>
    exact ⟨hPQ s e hs hP.1, fun s' he => ih (hstep s e s' hs hP.1 he) (hP.2 s' he)⟩

/-- A property kept by the steps that meet a condition is kept by the runs all of whose
steps meet it. -/
theorem run_invariant_of_everyStep {P : M.State → M.Event → Prop} (I : M.State → Prop)
    (hstep : ∀ s e s', I s → P s e → M.step s e = some s' → I s')
    {s t : M.State} {es : List M.Event} (hs : I s) (hP : M.EveryStep P s es)
    (h : M.run s es = some t) : I t := by
  induction es generalizing s with
  | nil =>
    obtain rfl : s = t := by simpa using h
    exact hs
  | cons e es ih =>
    obtain ⟨s', he, h'⟩ := run_cons_eq_some.mp h
    exact ih (hstep s e s' hs hP.1 he) (hP.2 s' he) h'

/-- Two machines run alike wherever their steps agree. -/
theorem run_congr {S E : Type} {f g : S → E → Option S} {P Q : S → E → Prop}
    (hfg : ∀ s e, P s e → Q s e → f s e = g s e) {s : S} {es : List E}
    (hP : EveryStep ⟨S, E, f⟩ P s es) (hQ : EveryStep ⟨S, E, g⟩ Q s es) :
    run ⟨S, E, f⟩ s es = run ⟨S, E, g⟩ s es := by
  induction es generalizing s with
  | nil => rfl
  | cons e es ih =>
    have heq := hfg s e hP.1 hQ.1
    cases hg : g s e with
    | none => simp only [run, heq, hg]
    | some s' =>
      simp only [run, heq, hg]
      exact ih (hP.2 s' (heq.trans hg)) (hQ.2 s' hg)

end Machine

/-- What stands in a table after one entry was written is that entry, or stood there before. -/
lemma update_eq_some {ι α : Type} [DecidableEq ι] {f : ι → Option α} {i j : ι} {x y : α}
    (h : Function.update f j (some y) i = some x) :
    (i = j ∧ y = x) ∨ (i ≠ j ∧ f i = some x) := by
  by_cases hij : i = j
  · subst hij
    rw [Function.update_self] at h
    exact .inl ⟨rfl, Option.some.inj h⟩
  · rw [Function.update_of_ne hij] at h
    exact .inr ⟨hij, h⟩

end Knova.Library
