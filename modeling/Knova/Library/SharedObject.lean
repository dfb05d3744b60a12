import Knova.Library.Program
import Knova.Library.Machine

/-!
# Shared objects and their interleavings

A shared object runs each call as a program of atomic actions on one shared state. Its
machine interleaves the actions of any number of calls in any order; a call is named by
its identifier, and every identifier is used once.
-/

namespace Knova.Library

/-- An object with interface `I` whose calls run as programs over atomic actions. An
action that is not enabled (a lock that is taken) has no outcome. -/
structure SharedObject (ι : Type) (I : Signature) where
  E : Signature
  State : Type
  init : State
  body : (op : I.Act) → Prog E (I.Ans op)
  exec : ι → (a : E.Act) → State → Option (E.Ans a × State)

/-- A call that is being executed, or has returned. -/
inductive Thread (I E : Signature)
  | running (op : I.Act) (p : Prog E (I.Ans op))
  | returned (op : I.Act) (r : I.Ans op)

def Thread.op {I E : Signature} : Thread I E → I.Act
  | .running op _ => op
  | .returned op _ => op

/-- What the callers of an object see. -/
inductive HistoryEvent (ι : Type) (I : Signature)
  | invoke (i : ι) (op : I.Act)
  | ret (i : ι) (op : I.Act) (r : I.Ans op)

/-- A step of an interleaving: a call starts, performs its next action, or returns. -/
inductive Move (ι : Type) (I : Signature)
  | invoke (i : ι) (op : I.Act)
  | act (i : ι)
  | ret (i : ι)

namespace SharedObject

variable {ι : Type} [DecidableEq ι] {I : Signature}

/-- The shared state, the calls made so far, and the history of invocations and returns. -/
structure Config (O : SharedObject ι I) where
  shared : O.State
  thread : ι → Option (Thread I O.E)
  history : List (HistoryEvent ι I)

def initial (O : SharedObject ι I) : O.Config :=
  ⟨O.init, fun _ => none, []⟩

/-- The interleaving semantics. -/
def step (O : SharedObject ι I) (c : O.Config) : Move ι I → Option O.Config
  | .invoke i op =>
    match c.thread i with
    | none => some
        { c with
          thread := Function.update c.thread i (some (.running op (O.body op)))
          history := c.history ++ [.invoke i op] }
    | some _ => none
  | .act i =>
    match c.thread i with
    | some (.running op (.act a k)) =>
      match O.exec i a c.shared with
      | some (r, s) => some
          { c with
            shared := s
            thread := Function.update c.thread i (some (.running op (k r))) }
      | none => none
    | _ => none
  | .ret i =>
    match c.thread i with
    | some (.running op (.pure r)) => some
        { c with
          thread := Function.update c.thread i (some (.returned op r))
          history := c.history ++ [.ret i op r] }
    | _ => none

abbrev machine (O : SharedObject ι I) : Machine where
  State := O.Config
  Event := Move ι I
  step := O.step

/-- Configurations reached by some interleaving of some calls. -/
def Reachable (O : SharedObject ι I) (c : O.Config) : Prop :=
  ∃ moves, O.machine.run O.initial moves = some c

/-- Runs one call alone on a state. -/
def alone (O : SharedObject ι I) (i : ι) (op : I.Act) (s : O.State) :
    Option (I.Ans op × O.State) :=
  (O.body op).eval (O.exec i) s

/-- Makes calls one after another, each alone, and lists what they return. -/
def sequence (O : SharedObject ι I) (i : ι) :
    List I.Act → O.State → Option (List (Σ op, I.Ans op) × O.State)
  | [], s => some ([], s)
  | op :: ops, s =>
    match O.alone i op s with
    | none => none
    | some (r, s') =>
      match O.sequence i ops s' with
      | none => none
      | some (rs, t) => some (⟨op, r⟩ :: rs, t)

omit [DecidableEq ι] in
lemma sequence_cons {O : SharedObject ι I} {i : ι} {op : I.Act} {ops : List I.Act}
    {s s' t : O.State} {r : I.Ans op} {rs : List (Σ op, I.Ans op)}
    (h : O.alone i op s = some (r, s')) (hs : O.sequence i ops s' = some (rs, t)) :
    O.sequence i (op :: ops) s = some (⟨op, r⟩ :: rs, t) := by
  simp only [sequence, h, hs]

omit [DecidableEq ι] in
lemma sequence_cons_eq_some {O : SharedObject ι I} {i : ι} {op : I.Act} {ops : List I.Act}
    {s t : O.State} {rs : List (Σ op, I.Ans op)}
    (h : O.sequence i (op :: ops) s = some (rs, t)) :
    ∃ r s' rs', O.alone i op s = some (r, s') ∧ O.sequence i ops s' = some (rs', t) ∧
      rs = ⟨op, r⟩ :: rs' := by
  simp only [sequence] at h
  split at h
  · cases h
  · rename_i r s' halone
    split at h
    · cases h
    · rename_i rs' t' hrest
      obtain ⟨rfl, rfl⟩ := Prod.mk.inj (Option.some.inj h)
      exact ⟨r, s', rs', halone, hrest, rfl⟩

omit [DecidableEq ι] in
/-- Where every call alone returns, so does every sequence of calls. -/
lemma sequence_returns {O : SharedObject ι I} {i : ι} (P : O.State → Prop)
    (hP : ∀ s op, P s → ∃ r s', O.alone i op s = some (r, s') ∧ P s') (ops : List I.Act)
    {s : O.State} (hs : P s) : ∃ rs t, O.sequence i ops s = some (rs, t) ∧ P t := by
  induction ops generalizing s with
  | nil => exact ⟨[], s, rfl, hs⟩
  | cons op ops ih =>
    obtain ⟨r, s', halone, hs'⟩ := hP s op hs
    obtain ⟨rs, t, hrest, ht⟩ := ih hs'
    exact ⟨_, t, sequence_cons halone hrest, ht⟩

/-- Everything one step can do. -/
theorem step_cases {O : SharedObject ι I} {c c' : O.Config} {m : Move ι I}
    (h : O.step c m = some c') :
    (∃ i op, m = .invoke i op ∧ c.thread i = none ∧ c' = ⟨c.shared,
        Function.update c.thread i (some (.running op (O.body op))),
        c.history ++ [.invoke i op]⟩) ∨
    (∃ i op a k r s, m = .act i ∧ c.thread i = some (.running op (.act a k)) ∧
      O.exec i a c.shared = some (r, s) ∧ c' = ⟨s,
        Function.update c.thread i (some (.running op (k r))), c.history⟩) ∨
    (∃ i op r, m = .ret i ∧ c.thread i = some (.running op (.pure r)) ∧ c' = ⟨c.shared,
        Function.update c.thread i (some (.returned op r)),
        c.history ++ [.ret i op r]⟩) := by
  cases m with
  | invoke i op =>
    cases hi : c.thread i with
    | none =>
      simp only [step, hi, Option.some.injEq] at h
      exact .inl ⟨i, op, rfl, hi, h.symm⟩
    | some q => simp [step, hi] at h
  | act i =>
    right; left
    simp only [step] at h
    split at h
    · rename_i op a k hi
      split at h
      · rename_i r s he
        exact ⟨i, op, a, k, r, s, rfl, hi, he, (Option.some.inj h).symm⟩
      · cases h
    · cases h
  | ret i =>
    right; right
    simp only [step] at h
    split at h
    · rename_i op r hi
      exact ⟨i, op, r, rfl, hi, (Option.some.inj h).symm⟩
    · cases h

/-- What a call returned stays. -/
lemma returned_of_step {O : SharedObject ι I} {c c' : O.Config} {m : Move ι I}
    (h : O.step c m = some c') {i : ι} {op : I.Act} {r : I.Ans op}
    (hi : c.thread i = some (.returned op r)) : c'.thread i = some (.returned op r) := by
  obtain ⟨j, opj, -, hj, rfl⟩ | ⟨j, opj, a, k, q, s, -, hj, -, rfl⟩ | ⟨j, opj, q, -, hj, rfl⟩ :=
    step_cases h
  all_goals
    dsimp only
    rw [Function.update_of_ne, hi]
    rintro rfl
    rw [hi] at hj
    cases hj

/-- Every call there is was there before the step, or is the one that was made. -/
lemma thread_of_step {O : SharedObject ι I} {c c' : O.Config} {m : Move ι I}
    (h : O.step c m = some c') {i : ι} {t' : Thread I O.E} (hi : c'.thread i = some t') :
    m = .invoke i t'.op ∨ ∃ t, c.thread i = some t ∧ t.op = t'.op := by
  obtain ⟨j, opj, rfl, hj, rfl⟩ | ⟨j, opj, a, k, q, s, -, hj, -, rfl⟩ | ⟨j, opj, q, -, hj, rfl⟩ :=
    step_cases h
  all_goals
    dsimp only at hi
    by_cases hij : i = j
    · subst hij
      rw [Function.update_self] at hi
      obtain rfl := Option.some.inj hi
      first
        | exact .inl rfl
        | exact .inr ⟨_, hj, rfl⟩
    · rw [Function.update_of_ne hij] at hi
      exact .inr ⟨t', hi, rfl⟩

/-- Every call there is was there before the run, or was made in it. -/
lemma thread_of_run {O : SharedObject ι I} {c c' : O.Config} {moves : List (Move ι I)}
    (h : O.machine.run c moves = some c') {i : ι} {t' : Thread I O.E}
    (hi : c'.thread i = some t') :
    .invoke i t'.op ∈ moves ∨ ∃ t, c.thread i = some t ∧ t.op = t'.op := by
  induction moves generalizing c with
  | nil =>
    obtain rfl : c = c' := Option.some.inj h
    exact .inr ⟨t', hi, rfl⟩
  | cons m moves ih =>
    obtain ⟨c₁, hstep, hrest⟩ := Machine.run_cons_eq_some.mp h
    rcases ih hrest with hmem | ⟨t₁, ht₁, hop⟩
    · exact .inl (List.mem_cons_of_mem _ hmem)
    · rw [← hop]
      rcases thread_of_step hstep ht₁ with rfl | hbefore
      · exact .inl (List.mem_cons_self ..)
      · exact .inr hbefore

/-- Calls that run perform actions in `P` only, and the shared state satisfies `I`. -/
structure Confined (O : SharedObject ι I) (P : O.E.Act → Prop) (J : O.State → Prop)
    (c : O.Config) : Prop where
  shared : J c.shared
  running : ∀ i op p, c.thread i = some (.running op p) → p.All P

/-- What every action in `P` keeps, every interleaving of calls confined to `P` keeps. -/
theorem Confined.step {O : SharedObject ι I} {P : O.E.Act → Prop} {J : O.State → Prop}
    (hexec : ∀ i a s r s', P a → J s → O.exec i a s = some (r, s') → J s') {c c' : O.Config}
    {m : Move ι I} (h : Confined O P J c) (hm : ∀ i op, m = .invoke i op → (O.body op).All P)
    (hs : O.step c m = some c') : Confined O P J c' := by
  have hupdate : ∀ j (t : Thread I O.E), (∀ op p, t = .running op p → p.All P) →
      ∀ i op p, Function.update c.thread j (some t) i = some (.running op p) → p.All P := by
    intro j t ht i op p hi
    by_cases hij : i = j
    · subst hij
      rw [Function.update_self] at hi
      exact ht op p (Option.some.inj hi)
    · rw [Function.update_of_ne hij] at hi
      exact h.running i op p hi
  obtain ⟨j, opj, rfl, -, rfl⟩ | ⟨j, opj, a, k, q, s, -, hj, he, rfl⟩ | ⟨j, opj, q, -, -, rfl⟩ :=
    step_cases hs
  · refine ⟨h.shared, hupdate j _ fun op p hp => ?_⟩
    cases hp
    exact hm j opj rfl
  · obtain ⟨ha, hk⟩ := h.running j opj _ hj
    refine ⟨hexec j a _ _ _ ha h.shared he, hupdate j _ fun op p hp => ?_⟩
    cases hp
    exact hk q
  · refine ⟨h.shared, hupdate j _ fun op p hp => ?_⟩
    cases hp

/-- However the call of `i` goes on, it returns what `Q` allows. -/
def Bound (O : SharedObject ι I) (c : O.Config) (i : ι) (op : I.Act) (Q : I.Ans op → Prop) :
    Prop :=
  (∃ p, c.thread i = some (.running op p) ∧ p.Returns Q) ∨
    ∃ r, c.thread i = some (.returned op r) ∧ Q r

lemma Bound.step {O : SharedObject ι I} {c c' : O.Config} {m : Move ι I} {i : ι} {op : I.Act}
    {Q : I.Ans op → Prop} (h : O.Bound c i op Q) (hs : O.step c m = some c') :
    O.Bound c' i op Q := by
  rcases h with ⟨p, hi, hp⟩ | ⟨r, hi, hr⟩
  · have hkeep : ∀ {j} {t : Thread I O.E}, i ≠ j →
        Function.update c.thread j (some t) i = some (.running op p) :=
      fun hij => (Function.update_of_ne hij ..).trans hi
    obtain ⟨j, opj, -, hj, rfl⟩ | ⟨j, opj, a, k, q, s, -, hj, -, rfl⟩ | ⟨j, opj, q, -, hj, rfl⟩ :=
      step_cases hs
    · by_cases hij : i = j
      · subst hij
        rw [hi] at hj
        cases hj
      · exact .inl ⟨p, hkeep hij, hp⟩
    · by_cases hij : i = j
      · subst hij
        rw [hi] at hj
        cases hj
        exact .inl ⟨k q, Function.update_self .., hp q⟩
      · exact .inl ⟨p, hkeep hij, hp⟩
    · by_cases hij : i = j
      · subst hij
        rw [hi] at hj
        cases hj
        exact .inr ⟨q, Function.update_self .., hp⟩
      · exact .inl ⟨p, hkeep hij, hp⟩
  · exact .inr ⟨r, returned_of_step hs hi, hr⟩

end SharedObject

end Knova.Library
