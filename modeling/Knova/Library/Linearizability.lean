import Knova.Library.SharedObject
import Mathlib.Data.List.Nodup

/-!
# Linearizability by linearization points

A history is linearizable when one sequential order of its calls, legal for the
specification and never against real time, explains every result. This file derives
linearizability of every interleaving from an assertion for each program point: every
call takes effect in exactly one of its own actions, and no action disturbs what
another call relies on.
-/

namespace Knova.Library

variable {ι : Type} {I : Signature} {A : Type}

/-- A call with its result, at its place in a sequential order. -/
structure Entry (ι : Type) (I : Signature) where
  id : ι
  op : I.Act
  ret : I.Ans op

/-- A sequential specification: what a call may return on an abstract state, and the
state it leaves. -/
abbrev Spec (I : Signature) (A : Type) := A → (op : I.Act) → I.Ans op → A → Prop

/-- Sequential executions of a specification. -/
inductive Legal (spec : Spec I A) (a₀ : A) : List (Entry ι I) → A → Prop
  | nil : Legal spec a₀ [] a₀
  | snoc {order : List (Entry ι I)} {a b : A} (e : Entry ι I) :
      Legal spec a₀ order a → spec a e.op e.ret b → Legal spec a₀ (order ++ [e]) b

/-- The call `i` returned before the call `j` was invoked. -/
def Precedes (h : List (HistoryEvent ι I)) (i j : ι) : Prop :=
  ∃ h₁ h₂, h = h₁ ++ h₂ ∧ (∃ op r, HistoryEvent.ret i op r ∈ h₁) ∧
    ∃ op, HistoryEvent.invoke j op ∈ h₂

/-- `order` is a sequential execution of calls of `h` that explains every returned
result and respects real time. -/
structure Linearizes (spec : Spec I A) (a₀ : A) (h : List (HistoryEvent ι I))
    (order : List (Entry ι I)) (a : A) : Prop where
  legal : Legal spec a₀ order a
  nodup : (order.map Entry.id).Nodup
  invoked : ∀ e ∈ order, HistoryEvent.invoke e.id e.op ∈ h
  complete : ∀ i op r, HistoryEvent.ret i op r ∈ h → ⟨i, op, r⟩ ∈ order
  realTime : ∀ e ∈ order, ∀ e' ∈ order, Precedes h e.id e'.id → [e, e'].Sublist order

def Linearizable (spec : Spec I A) (a₀ : A) (h : List (HistoryEvent ι I)) : Prop :=
  ∃ order a, Linearizes spec a₀ h order a

lemma Legal.mono {spec spec' : Spec I A} (hs : ∀ a op r b, spec a op r b → spec' a op r b)
    {a₀ a : A} {order : List (Entry ι I)} (h : Legal spec a₀ order a) :
    Legal spec' a₀ order a := by
  induction h with
  | nil => exact .nil
  | snoc e _ he ih => exact .snoc e ih (hs _ _ _ _ he)

lemma Linearizes.mono {spec spec' : Spec I A} (hs : ∀ a op r b, spec a op r b → spec' a op r b)
    {a₀ a : A} {h : List (HistoryEvent ι I)} {order : List (Entry ι I)}
    (hl : Linearizes spec a₀ h order a) : Linearizes spec' a₀ h order a :=
  ⟨hl.legal.mono hs, hl.nodup, hl.invoked, hl.complete, hl.realTime⟩

/-- Every entry of a sequential execution ran on the state its predecessors left. -/
lemma Legal.split {spec : Spec I A} {a₀ a : A} {order : List (Entry ι I)}
    (hl : Legal spec a₀ order a) {e : Entry ι I} (he : e ∈ order) :
    ∃ pre post b c, order = pre ++ e :: post ∧ Legal spec a₀ pre b ∧ spec b e.op e.ret c := by
  induction hl with
  | nil => cases he
  | snoc d hpre hs ih =>
    rcases List.mem_append.mp he with he | he
    · obtain ⟨pre, post, b, c, rfl, h₁, h₂⟩ := ih he
      exact ⟨pre, post ++ [d], b, c, by simp, h₁, h₂⟩
    · obtain rfl := List.mem_singleton.mp he
      exact ⟨_, [], _, _, rfl, hpre, hs⟩

/-- The last call of a sequential execution. -/
lemma Legal.snoc_cases {spec : Spec I A} {a₀ a : A} {order : List (Entry ι I)} {e : Entry ι I}
    (hl : Legal spec a₀ (order ++ [e]) a) : ∃ b, Legal spec a₀ order b ∧ spec b e.op e.ret a := by
  generalize heq : order ++ [e] = whole at hl
  cases hl with
  | nil => simp at heq
  | snoc d hrest hs =>
    obtain ⟨rfl, hd⟩ := List.append_inj' heq rfl
    obtain rfl : e = d := by simpa using hd
    exact ⟨_, hrest, hs⟩

/-- A sequential execution in two parts. -/
lemma Legal.append {spec : Spec I A} {a₀ a : A} {pre post : List (Entry ι I)}
    (hl : Legal spec a₀ (pre ++ post) a) : ∃ b, Legal spec a₀ pre b ∧ Legal spec b post a := by
  induction post using List.reverseRecOn generalizing a with
  | nil => exact ⟨a, by simpa using hl, .nil⟩
  | append_singleton post e ih =>
    rw [← List.append_assoc] at hl
    obtain ⟨c, hrest, hs⟩ := hl.snoc_cases
    obtain ⟨b, hpre, hb⟩ := ih hrest
    exact ⟨b, hpre, .snoc e hb hs⟩

/-- The first call of a sequential execution. -/
lemma Legal.cons {spec : Spec I A} {a₀ a : A} {e : Entry ι I} {post : List (Entry ι I)}
    (hl : Legal spec a₀ (e :: post) a) : ∃ b, spec a₀ e.op e.ret b ∧ Legal spec b post a := by
  have hparts : Legal spec a₀ ([] ++ [e] ++ post) a := hl
  obtain ⟨b, hfirst, hpost⟩ := hparts.append
  obtain ⟨c, hnil, hs⟩ := hfirst.snoc_cases
  refine ⟨b, ?_, hpost⟩
  generalize horder : ([] : List (Entry ι I)) = order at hnil
  cases hnil with
  | nil => exact hs
  | snoc => simp at horder

/-- What every call keeps holds after a sequential execution, and what every call relates a state
to, the execution does. -/
lemma Legal.relates {spec : Spec I A} {P : A → Prop} {R : A → A → Prop}
    (hrefl : ∀ a, R a a) (htrans : ∀ a b c, R a b → R b c → R a c)
    (hstep : ∀ a op r b, P a → spec a op r b → P b ∧ R a b) {a₀ a : A} {order : List (Entry ι I)}
    (hl : Legal spec a₀ order a) (h₀ : P a₀) : P a ∧ R a₀ a := by
  induction hl with
  | nil => exact ⟨h₀, hrefl _⟩
  | snoc e _ hs ih =>
    obtain ⟨hb, hr⟩ := hstep _ _ _ _ ih.1 hs
    exact ⟨hb, htrans _ _ _ ih.2 hr⟩

/-- What precedes an entry extends every prefix of the order without it. -/
lemma prefix_of_not_mem {order pre post : List (Entry ι I)} {e : Entry ι I}
    (h : order <+: pre ++ e :: post) (he : e ∉ order) : order <+: pre := by
  have hpre : pre ++ [e] <+: pre ++ e :: post := ⟨post, by simp⟩
  refine List.prefix_of_prefix_length_le h (List.prefix_append _ _) ?_
  by_contra hlt
  have hlong : pre ++ [e] <+: order :=
    List.prefix_of_prefix_length_le hpre h (by simpa using Nat.succ_le_of_lt (Nat.lt_of_not_le hlt))
  exact he (hlong.subset (by simp))

/-- Entries of an order without repeated calls are determined by their calls. -/
lemma entry_eq_of_id_eq {order : List (Entry ι I)} (hn : (order.map Entry.id).Nodup)
    {e e' : Entry ι I} (he : e ∈ order) (he' : e' ∈ order) (h : e.id = e'.id) : e = e' :=
  List.inj_on_of_nodup_map hn he he' h

lemma precedes_append_ret {h : List (HistoryEvent ι I)} {i j k : ι} {op : I.Act}
    {r : I.Ans op} (hp : Precedes (h ++ [.ret k op r]) i j) : Precedes h i j := by
  obtain ⟨h₁, h₂, heq, hret, opj, hinv⟩ := hp
  rcases List.eq_nil_or_concat h₂ with rfl | ⟨h₂, e, rfl⟩
  · simp at hinv
  · rw [List.concat_eq_append, ← List.append_assoc] at heq
    obtain ⟨rfl, he⟩ := List.append_inj' heq rfl
    refine ⟨h₁, h₂, rfl, hret, opj, ?_⟩
    simp only [List.cons.injEq, and_true] at he
    subst he
    simpa using hinv

lemma precedes_append_invoke {h : List (HistoryEvent ι I)} {i j k : ι} {op : I.Act}
    (hne : j ≠ k) (hp : Precedes (h ++ [.invoke k op]) i j) : Precedes h i j := by
  obtain ⟨h₁, h₂, heq, ⟨opi, r, hret⟩, opj, hinv⟩ := hp
  rcases List.eq_nil_or_concat h₂ with rfl | ⟨h₂, e, rfl⟩
  · simp at hinv
  · rw [List.concat_eq_append, ← List.append_assoc] at heq
    obtain ⟨rfl, he⟩ := List.append_inj' heq rfl
    refine ⟨h₁, h₂, rfl, ⟨opi, r, hret⟩, opj, ?_⟩
    simp only [List.cons.injEq, and_true] at he
    subst he
    simpa [hne] using hinv

section Steps

variable {spec : Spec I A} {a₀ a b : A} {h : List (HistoryEvent ι I)} {order : List (Entry ι I)}

/-- A call that is made leaves the order as it is. -/
lemma Linearizes.invoke (hl : Linearizes spec a₀ h order a) {i : ι} {op : I.Act}
    (hi : ∀ e ∈ order, e.id ≠ i) : Linearizes spec a₀ (h ++ [.invoke i op]) order a where
  legal := hl.legal
  nodup := hl.nodup
  invoked e he := List.mem_append_left _ (hl.invoked e he)
  complete j opj r hr := hl.complete j opj r (by simpa using hr)
  realTime e he e' he' hp := hl.realTime e he e' he' (precedes_append_invoke (hi e' he') hp)

/-- A call that took effect may return what it took effect with. -/
lemma Linearizes.ret (hl : Linearizes spec a₀ h order a) {i : ι} {op : I.Act} {r : I.Ans op}
    (hmem : ⟨i, op, r⟩ ∈ order) : Linearizes spec a₀ (h ++ [.ret i op r]) order a where
  legal := hl.legal
  nodup := hl.nodup
  invoked e he := List.mem_append_left _ (hl.invoked e he)
  complete j opj q hq := by
    rcases List.mem_append.mp hq with hq | hq
    · exact hl.complete j opj q hq
    · cases List.mem_singleton.mp hq
      exact hmem
  realTime e he e' he' hp := hl.realTime e he e' he' (precedes_append_ret hp)

/-- A call that was made and has not returned may take effect now. -/
lemma Linearizes.snoc (hl : Linearizes spec a₀ h order a) {e : Entry ι I}
    (hs : spec a e.op e.ret b) (hi : ∀ d ∈ order, d.id ≠ e.id)
    (hinvoked : HistoryEvent.invoke e.id e.op ∈ h)
    (hret : ∀ op r, HistoryEvent.ret e.id op r ∉ h) :
    Linearizes spec a₀ h (order ++ [e]) b where
  legal := .snoc e hl.legal hs
  nodup := by
    rw [List.map_append]
    refine List.Nodup.append hl.nodup (by simp) ?_
    intro j hj hj'
    obtain ⟨d, hd, rfl⟩ := List.mem_map.mp hj
    exact hi d hd (by simpa using hj')
  invoked d hd := by
    rcases List.mem_append.mp hd with hd | hd
    · exact hl.invoked d hd
    · obtain rfl := List.mem_singleton.mp hd
      exact hinvoked
  complete j opj q hq := List.mem_append_left _ (hl.complete j opj q hq)
  realTime d hd d' hd' hp := by
    have hsplit : ∀ x ∈ order ++ [e], x ∈ order ∨ x = e := by simp
    rcases hsplit d hd with hbefore | rfl
    · rcases hsplit d' hd' with hbefore' | rfl
      · exact (hl.realTime d hbefore d' hbefore' hp).trans (List.sublist_append_left _ _)
      · exact (List.singleton_sublist.mpr hbefore).append (List.Sublist.refl [d'])
    · obtain ⟨h₁, h₂, rfl, ⟨op, r, hmem⟩, -⟩ := hp
      exact absurd (List.mem_append_left _ hmem) (hret op r)

/-- The last call of an order comes once in it. -/
lemma Linearizes.id_ne_last {e : Entry ι I} (hl : Linearizes spec a₀ h (order ++ [e]) b) :
    ∀ d ∈ order, d.id ≠ e.id := by
  intro d hd hid
  have hnodup := hl.nodup
  rw [List.map_append] at hnodup
  apply List.disjoint_of_nodup_append hnodup (List.mem_map_of_mem hd)
  rw [hid]
  exact List.mem_singleton_self _

/-- Where one call returned before another was made, the state the one left leads to the state
the other found, which is that of all calls before it. -/
theorem Linearizes.of_precedes {P : A → Prop} {R : A → A → Prop} (hrefl : ∀ a, R a a)
    (htrans : ∀ a b c, R a b → R b c → R a c)
    (hstep : ∀ a op r b, P a → spec a op r b → P b ∧ R a b) (h₀ : P a₀)
    (hl : Linearizes spec a₀ h order a) {i j : ι} {op op' : I.Act} {r : I.Ans op} {r' : I.Ans op'}
    (hi : HistoryEvent.ret i op r ∈ h) (hj : HistoryEvent.ret j op' r' ∈ h)
    (hp : Precedes h i j) : ∃ pre a₁ a₂ a₃ a₄, pre ++ [⟨j, op', r'⟩] <+: order ∧
      Legal spec a₀ pre a₃ ∧ P a₁ ∧ spec a₁ op r a₂ ∧ R a₁ a₂ ∧ R a₂ a₃ ∧ P a₃ ∧
        spec a₃ op' r' a₄ := by
  have hsub := hl.realTime _ (hl.complete i op r hi) _ (hl.complete j op' r' hj) hp
  obtain ⟨front, back, rfl, hfront, hback⟩ := List.cons_sublist_iff.mp hsub
  obtain ⟨pre, mid, rfl⟩ := List.append_of_mem hfront
  obtain ⟨mid', post, rfl⟩ := List.append_of_mem (List.singleton_sublist.mp hback)
  have horder : (pre ++ ⟨i, op, r⟩ :: mid) ++ (mid' ++ ⟨j, op', r'⟩ :: post) =
      ((pre ++ ⟨i, op, r⟩ :: mid) ++ mid') ++ ⟨j, op', r'⟩ :: post := (List.append_assoc ..).symm
  have hlegal := hl.legal
  rw [horder] at hlegal
  obtain ⟨a₃, hbefore, hlast⟩ := hlegal.append
  obtain ⟨a₄, hs', -⟩ := hlast.cons
  obtain ⟨b, hfirst, hmid'⟩ := hbefore.append
  obtain ⟨a₁, hpre, hrest⟩ := hfirst.append
  obtain ⟨a₂, hs, hmid⟩ := hrest.cons
  have h₁ := (hpre.relates hrefl htrans hstep h₀).1
  obtain ⟨h₂, h₁₂⟩ := hstep _ _ _ _ h₁ hs
  obtain ⟨hb, h₂b⟩ := hmid.relates hrefl htrans hstep h₂
  obtain ⟨h₃, hb₃⟩ := hmid'.relates hrefl htrans hstep hb
  refine ⟨_, a₁, a₂, a₃, a₄, ⟨post, ?_⟩, hbefore, h₁, hs, h₁₂, htrans _ _ _ h₂b hb₃, h₃, hs'⟩
  simp

end Steps

/-! ### What the history of a configuration records -/

section History

variable [DecidableEq ι] {O : SharedObject ι I}

/-- The history mentions exactly the calls made and the results returned. -/
structure SharedObject.Recorded (c : O.Config) : Prop where
  invoke_mem : ∀ i op, HistoryEvent.invoke i op ∈ c.history ↔
    ∃ t, c.thread i = some t ∧ t.op = op
  ret_mem : ∀ i op r, HistoryEvent.ret i op r ∈ c.history ↔
    c.thread i = some (.returned op r)

namespace SharedObject

omit [DecidableEq ι] in
lemma recorded_initial : Recorded O.initial where
  invoke_mem := by simp [initial]
  ret_mem := by simp [initial]

lemma recorded_step {c c' : O.Config} {m : Move ι I} (hc : Recorded c)
    (h : O.step c m = some c') : Recorded c' := by
  obtain ⟨i, op, -, hi, rfl⟩ | ⟨i, op, a, k, r, s, -, hi, -, rfl⟩ | ⟨i, op, r, -, hi, rfl⟩ :=
    step_cases h
  · constructor
    · intro j op'
      by_cases hj : j = i
      · subst hj
        have := hc.invoke_mem j op'
        simp [hi] at this
        simp [this, Thread.op, eq_comm]
      · simp [hc.invoke_mem, hj]
    · intro j op' r'
      by_cases hj : j = i
      · subst hj
        have := hc.ret_mem j op' r'
        simp [hi] at this
        simp [this]
      · simp [hc.ret_mem, hj]
  · constructor
    · intro j op'
      by_cases hj : j = i
      · subst hj
        simp [hc.invoke_mem, hi, Thread.op]
      · simp [hc.invoke_mem, hj]
    · intro j op' r'
      by_cases hj : j = i
      · subst hj
        simp [hc.ret_mem, hi]
      · simp [hc.ret_mem, hj]
  · constructor
    · intro j op'
      by_cases hj : j = i
      · subst hj
        simp [hc.invoke_mem, hi, Thread.op]
      · simp [hc.invoke_mem, hj]
    · intro j op' r'
      by_cases hj : j = i
      · subst hj
        have := hc.ret_mem j op' r'
        simp only [hi, Option.some.injEq, reduceCtorEq, iff_false] at this
        simp only [List.mem_append, this, false_or, List.mem_singleton, Function.update_self,
          Option.some.injEq]
        constructor
        · intro he
          cases he
          rfl
        · intro he
          cases he
          rfl
      · simp [hc.ret_mem, hj]

end SharedObject

end History

/-! ### Linearization points -/

/-- Assertions from which every interleaving is linearizable. `inv` relates the shared
state to the abstract one; `stage i s a op p done` is what call `i` knows when `p` is
left of it, where `done` is its result once it has taken effect. -/
structure LinearizationPoints [DecidableEq ι] (O : SharedObject ι I) (spec : Spec I A)
    (a₀ : A) where
  inv : O.State → A → Prop
  stage : ι → O.State → A → (op : I.Act) → Prog O.E (I.Ans op) → Option (I.Ans op) → Prop
  init : inv O.init a₀
  start : ∀ i s a op, inv s a → stage i s a op (O.body op) none
  /-- An action either changes nothing abstractly or is where its call takes effect, and
  it leaves what every other call knows true. -/
  act : ∀ i s a op x k done r s', inv s a → stage i s a op (.act x k) done →
    O.exec i x s = some (r, s') → ∃ a' done',
      (a' = a ∧ done' = done ∨ done = none ∧ ∃ q, done' = some q ∧ spec a op q a') ∧
      inv s' a' ∧ stage i s' a' op (k r) done' ∧
      ∀ j, j ≠ i → ∀ opj p d, stage j s a opj p d → stage j s' a' opj p d
  finish : ∀ i s a op r done, stage i s a op (.pure r) done → done = some r

namespace LinearizationPoints

variable [DecidableEq ι] {O : SharedObject ι I} {spec : Spec I A} {a₀ : A}

/-- Linearization points for a specification are ones for every weaker specification. -/
def mono {spec' : Spec I A} (L : LinearizationPoints O spec a₀)
    (hs : ∀ a op r b, spec a op r b → spec' a op r b) : LinearizationPoints O spec' a₀ where
  inv := L.inv
  stage := L.stage
  init := L.init
  start := L.start
  act := by
    intro i s a op x k done r s' hinv hstage he
    obtain ⟨a', done', heff, hrest⟩ := L.act i s a op x k done r s' hinv hstage he
    refine ⟨a', done', ?_, hrest⟩
    rcases heff with h | ⟨hnone, q, hq, hspec⟩
    · exact .inl h
    · exact .inr ⟨hnone, q, hq, hs _ _ _ _ hspec⟩
  finish := L.finish

/-- A configuration explained by a sequential order of the calls that took effect. -/
structure Explains (L : LinearizationPoints O spec a₀) (c : O.Config)
    (order : List (Entry ι I)) (a : A) : Prop where
  recorded : SharedObject.Recorded c
  linearizes : Linearizes spec a₀ c.history order a
  inv : L.inv c.shared a
  running : ∀ i op p, c.thread i = some (.running op p) → ∃ done,
    L.stage i c.shared a op p done ∧ ∀ r, ⟨i, op, r⟩ ∈ order ↔ done = some r

lemma explains_initial (L : LinearizationPoints O spec a₀) : L.Explains O.initial [] a₀ where
  recorded := SharedObject.recorded_initial
  linearizes := {
    legal := .nil
    nodup := by simp
    invoked := by simp
    complete := by simp [SharedObject.initial]
    realTime := by simp }
  inv := L.init
  running := by simp [SharedObject.initial]

variable {L : LinearizationPoints O spec a₀} {c c' : O.Config} {order : List (Entry ι I)}
  {a : A}

/-- What explains a configuration explains it for every weaker specification. -/
lemma Explains.mono {spec' : Spec I A} (hs : ∀ a op r b, spec a op r b → spec' a op r b)
    (h : L.Explains c order a) : (L.mono hs).Explains c order a :=
  ⟨h.recorded, h.linearizes.mono hs, h.inv, h.running⟩

/-- A call in the order has been made. -/
lemma Explains.thread_of_mem (h : L.Explains c order a) {e : Entry ι I} (he : e ∈ order) :
    ∃ t, c.thread e.id = some t ∧ t.op = e.op :=
  (h.recorded.invoke_mem e.id e.op).mp (h.linearizes.invoked e he)

lemma Explains.returned_mem (h : L.Explains c order a) {i : ι} {op : I.Act} {r : I.Ans op}
    (hi : c.thread i = some (.returned op r)) : ⟨i, op, r⟩ ∈ order :=
  h.linearizes.complete i op r ((h.recorded.ret_mem i op r).mpr hi)

lemma Explains.invoke (h : L.Explains c order a) {i : ι} {op : I.Act}
    (hi : c.thread i = none) (hs : O.step c (.invoke i op) = some c')
    (hc' : c' = ⟨c.shared, Function.update c.thread i (some (.running op (O.body op))),
      c.history ++ [.invoke i op]⟩) : L.Explains c' order a := by
  have hfresh : ∀ e ∈ order, e.id ≠ i := by
    intro e he hid
    obtain ⟨t, ht, -⟩ := h.thread_of_mem he
    rw [hid, hi] at ht
    cases ht
  refine ⟨SharedObject.recorded_step h.recorded hs, ?_, ?_, ?_⟩
  · subst hc'
    exact h.linearizes.invoke hfresh
  · subst hc'
    exact h.inv
  · subst hc'
    intro j opj p hj
    by_cases hji : j = i
    · subst hji
      simp only [Function.update_self, Option.some.injEq, Thread.running.injEq] at hj
      obtain ⟨rfl, hp⟩ := hj
      obtain rfl := eq_of_heq hp
      refine ⟨none, L.start j c.shared a _ h.inv, fun r => ?_⟩
      simp only [reduceCtorEq, iff_false]
      intro hmem
      exact hfresh _ hmem rfl
    · simp only [Function.update_of_ne hji] at hj
      exact h.running j opj p hj

lemma Explains.ret (h : L.Explains c order a) {i : ι} {op : I.Act} {r : I.Ans op}
    (hi : c.thread i = some (.running op (.pure r))) (hs : O.step c (.ret i) = some c')
    (hc' : c' = ⟨c.shared, Function.update c.thread i (some (.returned op r)),
      c.history ++ [.ret i op r]⟩) : L.Explains c' order a := by
  obtain ⟨done, hstage, hdone⟩ := h.running i op _ hi
  have hmem : ⟨i, op, r⟩ ∈ order := (hdone r).mpr (L.finish _ _ _ _ _ _ hstage)
  refine ⟨SharedObject.recorded_step h.recorded hs, ?_, ?_, ?_⟩
  · subst hc'
    exact h.linearizes.ret hmem
  · subst hc'
    exact h.inv
  · subst hc'
    intro j opj p hj
    by_cases hji : j = i
    · subst hji
      simp at hj
    · simp only [Function.update_of_ne hji] at hj
      exact h.running j opj p hj

/-- One action: the order stays as it is, or the acting call is appended to it. -/
lemma Explains.act (h : L.Explains c order a) {i : ι} {op : I.Act} {x : O.E.Act}
    {k : O.E.Ans x → Prog O.E (I.Ans op)} {r : O.E.Ans x} {s : O.State}
    (hi : c.thread i = some (.running op (.act x k))) (he : O.exec i x c.shared = some (r, s))
    (hs : O.step c (.act i) = some c')
    (hc' : c' = ⟨s, Function.update c.thread i (some (.running op (k r))), c.history⟩) :
    L.Explains c' order a ∨ ∃ q b, spec a op q b ∧ L.Explains c' (order ++ [⟨i, op, q⟩]) b := by
  obtain ⟨done, hstage, hdone⟩ := h.running i op _ hi
  obtain ⟨a', done', heff, hinv, hself, hothers⟩ :=
    L.act i c.shared a op x k done r s h.inv hstage he
  have hrec := SharedObject.recorded_step h.recorded hs
  have hkeep : ∀ j ≠ i, ∀ opj p, c'.thread j = some (.running opj p) → ∃ d,
      L.stage j s a' opj p d ∧ ∀ q, ⟨j, opj, q⟩ ∈ order ↔ d = some q := by
    intro j hj opj p hthread
    subst hc'
    simp only [Function.update_of_ne hj] at hthread
    obtain ⟨d, hd, hd'⟩ := h.running j opj p hthread
    exact ⟨d, hothers j hj opj p d hd, hd'⟩
  rcases heff with ⟨rfl, rfl⟩ | ⟨hnone, q, rfl, hspec⟩
  · refine .inl ⟨hrec, ?_, ?_, ?_⟩
    · subst hc'
      exact h.linearizes
    · subst hc'
      exact hinv
    · intro j opj p hj
      by_cases hji : j = i
      · subst hji
        subst hc'
        simp only [Function.update_self, Option.some.injEq, Thread.running.injEq] at hj
        obtain ⟨rfl, hp⟩ := hj
        obtain rfl := eq_of_heq hp
        exact ⟨done', hself, hdone⟩
      · obtain ⟨d, hd, hd'⟩ := hkeep j hji opj p hj
        subst hc'
        exact ⟨d, hd, hd'⟩
  · -- the call takes effect here, so it was not in the order and had not returned
    have hfresh : ∀ e ∈ order, e.id ≠ i := by
      intro e hmem hid
      obtain ⟨t, ht, hop⟩ := h.thread_of_mem hmem
      obtain ⟨j, opj, q'⟩ := e
      dsimp only at hid ht hop
      subst hid
      rw [hi] at ht
      cases ht
      dsimp only [Thread.op] at hop
      subst hop
      have := (hdone q').mp hmem
      rw [hnone] at this
      cases this
    refine .inr ⟨q, a', hspec, hrec, ?_, ?_, ?_⟩
    · subst hc'
      refine h.linearizes.snoc hspec hfresh ((h.recorded.invoke_mem i op).mpr ⟨_, hi, rfl⟩) ?_
      intro opi ri hret
      rw [h.recorded.ret_mem, hi] at hret
      cases hret
    · subst hc'
      exact hinv
    · intro j opj p hj
      by_cases hji : j = i
      · subst hji
        subst hc'
        simp only [Function.update_self, Option.some.injEq, Thread.running.injEq] at hj
        obtain ⟨rfl, hp⟩ := hj
        obtain rfl := eq_of_heq hp
        refine ⟨some q, hself, fun q' => ?_⟩
        have hnot : (⟨j, op, q'⟩ : Entry ι I) ∉ order := fun hmem => hfresh _ hmem rfl
        simp [hnot, eq_comm]
      · obtain ⟨d, hd, hd'⟩ := hkeep j hji opj p hj
        subst hc'
        refine ⟨d, hd, fun q' => ?_⟩
        simp [hd', hji]

/-- A step keeps the order that explains the configuration, or is the action in which a
call takes effect and is appended to it. -/
theorem Explains.step_cases (h : L.Explains c order a) {m : Move ι I} (hs : O.step c m = some c') :
    L.Explains c' order a ∨ ∃ e b, m = .act e.id ∧ spec a e.op e.ret b ∧
      L.Explains c' (order ++ [e]) b := by
  obtain ⟨i, op, rfl, hi, hc'⟩ | ⟨i, op, x, k, r, s, rfl, hi, he, hc'⟩ |
    ⟨i, op, r, rfl, hi, hc'⟩ := SharedObject.step_cases hs
  · exact .inl (h.invoke hi hs hc')
  · rcases h.act hi he hs hc' with h' | ⟨q, b, hspec, h'⟩
    · exact .inl h'
    · exact .inr ⟨⟨i, op, q⟩, b, rfl, hspec, h'⟩
  · exact .inl (h.ret hi hs hc')

/-- The call that took effect in a step was running before it. -/
lemma Explains.running_of_act {e : Entry ι I} {b : A} (h : L.Explains c' (order ++ [e]) b)
    (hs : O.step c (.act e.id) = some c') : ∃ p, c.thread e.id = some (.running e.op p) := by
  obtain ⟨th, hth, hop⟩ := h.thread_of_mem (List.mem_append_right _ (List.mem_singleton_self _))
  obtain ⟨i, op, hm, -⟩ | ⟨i, op, x, k, r, s, hm, hi, -, rfl⟩ | ⟨i, op, r, hm, -⟩ :=
    SharedObject.step_cases hs
  · cases hm
  · obtain rfl := Move.act.inj hm
    dsimp only at hth
    rw [Function.update_self] at hth
    obtain rfl := Option.some.inj hth
    rw [← hop]
    exact ⟨_, hi⟩
  · cases hm

/-- Every step extends the order that explains the configuration. -/
theorem Explains.step (h : L.Explains c order a) {m : Move ι I} (hs : O.step c m = some c') :
    ∃ new a', L.Explains c' (order ++ new) a' := by
  rcases h.step_cases hs with h' | ⟨e, b, -, -, h'⟩
  · exact ⟨[], a, by simpa using h'⟩
  · exact ⟨[e], b, h'⟩

theorem Explains.run (h : L.Explains c order a) {moves : List (Move ι I)}
    (hrun : O.machine.run c moves = some c') : ∃ new a', L.Explains c' (order ++ new) a' := by
  induction moves generalizing c order a with
  | nil =>
    obtain rfl : c = c' := Option.some.inj hrun
    exact ⟨[], a, by simpa using h⟩
  | cons m moves ih =>
    obtain ⟨c₁, hstep, hrest⟩ := Machine.run_cons_eq_some.mp hrun
    obtain ⟨new, a₁, h₁⟩ := h.step hstep
    obtain ⟨new', a', h'⟩ := ih h₁ hrest
    exact ⟨new ++ new', a', by rwa [← List.append_assoc]⟩

/-- A call that runs alone, from any point of its program. -/
lemma eval_stage (L : LinearizationPoints O spec a₀) {i : ι} {op : I.Act} {r : I.Ans op}
    {p : Prog O.E (I.Ans op)} {done : Option (I.Ans op)} {s t : O.State} (hinv : L.inv s a)
    (hstage : L.stage i s a op p done) (he : p.eval (O.exec i) s = some (r, t)) :
    ∃ b, L.inv t b ∧ (done = some r ∧ b = a ∨ done = none ∧ spec a op r b) := by
  induction p generalizing s a done with
  | pure q =>
    obtain ⟨rfl, rfl⟩ := Prod.mk.inj (Option.some.inj he)
    exact ⟨a, hinv, .inl ⟨L.finish _ _ _ _ _ _ hstage, rfl⟩⟩
  | act x k ih =>
    obtain ⟨q, s', hx, hrest⟩ := Prog.eval_act_eq_some he
    obtain ⟨a', done', heff, hinv', hstage', -⟩ := L.act i s a op x k done q s' hinv hstage hx
    obtain ⟨b, hb, hdone⟩ := ih q hinv' hstage' hrest
    refine ⟨b, hb, ?_⟩
    rcases heff with ⟨rfl, rfl⟩ | ⟨rfl, q', rfl, hspec⟩
    · exact hdone
    · -- the call took effect here, so it cannot take effect again
      rcases hdone with ⟨hq, rfl⟩ | ⟨hq, -⟩
      · obtain rfl := Option.some.inj hq
        exact .inr ⟨rfl, hspec⟩
      · cases hq

/-- A call that runs alone behaves as the specification says. -/
theorem alone_spec (L : LinearizationPoints O spec a₀) {i : ι} {op : I.Act} {r : I.Ans op}
    {s t : O.State} (hinv : L.inv s a) (h : O.alone i op s = some (r, t)) :
    ∃ b, spec a op r b ∧ L.inv t b := by
  obtain ⟨b, hb, hdone⟩ := L.eval_stage hinv (L.start i s a op hinv) h
  rcases hdone with ⟨hnone, -⟩ | ⟨-, hspec⟩
  · cases hnone
  · exact ⟨b, hspec, hb⟩

theorem reachable_explained (L : LinearizationPoints O spec a₀) (hc : O.Reachable c) :
    ∃ order a, L.Explains c order a := by
  obtain ⟨moves, hrun⟩ := hc
  obtain ⟨new, a, h⟩ := L.explains_initial.run hrun
  exact ⟨_, a, h⟩

theorem linearizable (L : LinearizationPoints O spec a₀) (hc : O.Reachable c) :
    Linearizable spec a₀ c.history := by
  obtain ⟨order, a, h⟩ := L.reachable_explained hc
  exact ⟨order, a, h.linearizes⟩

end LinearizationPoints

end Knova.Library
