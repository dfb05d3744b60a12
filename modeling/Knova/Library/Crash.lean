import Knova.Library.Linearizability

/-!
# Processes that end

The calls on a shared object are made by processes, and a process may end between any two
actions: its calls go no further, and what it held of the shared state is given up. Where giving
up changes nothing abstractly, the object stays linearizable: a call whose process ended has
taken effect as a whole, or not at all.
-/

namespace Knova.Library

variable {ι κ : Type} {I : Signature} {A : Type}

/-- The interface of an object whose processes may end. -/
@[reducible] def Mortal.Ans (I : Signature) (κ : Type) : I.Act ⊕ κ → Type
  | .inl op => I.Ans op
  | .inr _ => Unit

abbrev Mortal (I : Signature) (κ : Type) : Signature := ⟨I.Act ⊕ κ, Mortal.Ans I κ⟩

namespace Prog

variable {E : Signature} {α : Type}

/-- The same program, among processes that may end. -/
def lift (κ : Type) : Prog E α → Prog (Mortal E κ) α
  | .pure r => .pure r
  | .act a k => .act (.inl a) fun r => (k r).lift κ

lemma lift_eq_pure {p : Prog E α} {r : α} (h : p.lift κ = .pure r) : p = .pure r := by
  cases p with
  | pure q =>
    cases h
    rfl
  | act a k => cases h

end Prog

/-- A shared state, and which processes have ended. -/
structure Survivors (σ κ : Type) where
  value : σ
  ended : κ → Bool

namespace SharedObject

/-- The object with its processes: `on i` makes the call `i`, and `crash k` is what the end of
`k` leaves of the shared state. -/
def mortal [DecidableEq κ] (O : SharedObject ι I) (on : ι → κ) (crash : κ → O.State → O.State) :
    SharedObject ι (Mortal I κ) where
  E := Mortal O.E κ
  State := Survivors O.State κ
  init := ⟨O.init, fun _ => false⟩
  body
    | .inl op => (O.body op).lift κ
    | .inr k => .act (.inr k) fun _ => .pure ()
  exec i
    | .inl a, s =>
      if s.ended (on i) then none
      else (O.exec i a s.value).map fun q => (q.1, { s with value := q.2 })
    | .inr k, s => some ((), ⟨crash k s.value, Function.update s.ended k true⟩)

end SharedObject

/-- The calls among what happened. -/
def HistoryEvent.call : HistoryEvent ι (Mortal I κ) → Option (HistoryEvent ι I)
  | .invoke i (.inl op) => some (.invoke i op)
  | .ret i (.inl op) r => some (.ret i op r)
  | _ => none

def Entry.call : Entry ι (Mortal I κ) → Option (Entry ι I)
  | ⟨i, .inl op, r⟩ => some ⟨i, op, r⟩
  | ⟨_, .inr _, _⟩ => none

/-- The end of a process changes nothing. -/
def Spec.mortal (spec : Spec I A) (κ : Type) : Spec (Mortal I κ) A
  | a, .inl op, r, b => spec a op r b
  | a, .inr _, _, b => b = a

/-! ### Orders of calls alone -/

lemma Entry.call_eq_some {e : Entry ι (Mortal I κ)} {d : Entry ι I} :
    e.call = some d ↔ e = ⟨d.id, .inl d.op, d.ret⟩ := by
  obtain ⟨i, op | k, r⟩ := e
  · constructor
    · intro h
      cases h
      rfl
    · intro h
      cases h
      rfl
  · constructor
    · intro h
      cases h
    · intro h
      cases h

lemma HistoryEvent.call_eq_invoke {e : HistoryEvent ι (Mortal I κ)} {i : ι} {op : I.Act} :
    e.call = some (.invoke i op) ↔ e = .invoke i (.inl op) := by
  rcases e with ⟨j, op' | k⟩ | ⟨j, op' | k, r⟩ <;> simp [call]

lemma HistoryEvent.call_eq_ret {e : HistoryEvent ι (Mortal I κ)} {i : ι} {op : I.Act}
    {r : I.Ans op} : e.call = some (.ret i op r) ↔ e = .ret i (.inl op) r := by
  rcases e with ⟨j, op' | k⟩ | ⟨j, op' | k, q⟩
  · simp [call]
  · simp [call]
  · constructor
    · intro h
      cases h
      rfl
    · intro h
      cases h
      rfl
  · constructor
    · intro h
      cases h
    · intro h
      cases h

lemma Legal.calls {spec : Spec I A} {a₀ a : A} {order : List (Entry ι (Mortal I κ))}
    (h : Legal (spec.mortal κ) a₀ order a) : Legal spec a₀ (order.filterMap Entry.call) a := by
  induction h with
  | nil => exact .nil
  | snoc e _ hs ih =>
    rw [List.filterMap_append]
    obtain ⟨i, op | k, r⟩ := e
    · exact .snoc ⟨i, op, r⟩ ih hs
    · obtain rfl : _ = _ := hs
      change Legal spec a₀ (_ ++ []) _
      rwa [List.append_nil]

lemma precedes_of_calls {h : List (HistoryEvent ι (Mortal I κ))} {i j : ι}
    (hp : Precedes (h.filterMap HistoryEvent.call) i j) : Precedes h i j := by
  obtain ⟨h₁, h₂, heq, ⟨op, r, hret⟩, op', hinvoke⟩ := hp
  obtain ⟨g₁, g₂, rfl, rfl, rfl⟩ := List.filterMap_eq_append_iff.mp heq
  obtain ⟨e, he, hcall⟩ := List.mem_filterMap.mp hret
  obtain ⟨e', he', hcall'⟩ := List.mem_filterMap.mp hinvoke
  obtain rfl := HistoryEvent.call_eq_ret.mp hcall
  obtain rfl := HistoryEvent.call_eq_invoke.mp hcall'
  exact ⟨g₁, g₂, rfl, ⟨_, _, he⟩, _, he'⟩

/-- An order of the calls and of the ends of processes is one of the calls. -/
theorem Linearizes.calls {spec : Spec I A} {a₀ a : A} {h : List (HistoryEvent ι (Mortal I κ))}
    {order : List (Entry ι (Mortal I κ))} (hl : Linearizes (spec.mortal κ) a₀ h order a) :
    Linearizes spec a₀ (h.filterMap HistoryEvent.call) (order.filterMap Entry.call) a where
  legal := hl.legal.calls
  nodup := by
    have hpairs := List.pairwise_map.mp hl.nodup
    refine List.pairwise_map.mpr (List.pairwise_filterMap.mpr (hpairs.imp ?_))
    intro d d' hne e he e' he'
    obtain rfl := Entry.call_eq_some.mp he
    obtain rfl := Entry.call_eq_some.mp he'
    exact hne
  invoked e he := by
    obtain ⟨d, hd, hcall⟩ := List.mem_filterMap.mp he
    obtain rfl := Entry.call_eq_some.mp hcall
    exact List.mem_filterMap.mpr ⟨_, hl.invoked _ hd, rfl⟩
  complete i op r hr := by
    obtain ⟨e, he, hcall⟩ := List.mem_filterMap.mp hr
    obtain rfl := HistoryEvent.call_eq_ret.mp hcall
    exact List.mem_filterMap.mpr ⟨_, hl.complete _ _ _ he, rfl⟩
  realTime e he e' he' hp := by
    obtain ⟨d, hd, hcall⟩ := List.mem_filterMap.mp he
    obtain ⟨d', hd', hcall'⟩ := List.mem_filterMap.mp he'
    obtain rfl := Entry.call_eq_some.mp hcall
    obtain rfl := Entry.call_eq_some.mp hcall'
    exact (hl.realTime _ hd _ hd' (precedes_of_calls hp)).filterMap Entry.call

/-! ### Linearization points -/

section Points

variable [DecidableEq ι] [DecidableEq κ] {O : SharedObject ι I} {spec : Spec I A} {a₀ a : A}
  {L : LinearizationPoints O spec a₀} {on : ι → κ} {crash : κ → O.State → O.State}
  {s s' : Survivors O.State κ} {i : ι}

omit [DecidableEq ι] in
/-- Only a process that lives acts. -/
lemma SharedObject.exec_living {x : O.E.Act} {r : O.E.Ans x}
    (he : (O.mortal on crash).exec i (.inl x) s = some (r, s')) :
    s.ended (on i) = false ∧ O.exec i x s.value = some (r, s'.value) ∧ s'.ended = s.ended := by
  cases hended : s.ended (on i) with
  | true => simp [mortal, hended] at he
  | false =>
    simp only [mortal, hended, Bool.false_eq_true, if_false, Option.map_eq_some_iff] at he
    obtain ⟨⟨answer, value⟩, hx, hs⟩ := he
    obtain ⟨rfl, rfl⟩ := Prod.mk.inj hs
    exact ⟨rfl, hx, rfl⟩

/-- What a call knows among processes that may end: what it would know, while its process lives. -/
inductive Mortal.Stage (L : LinearizationPoints O spec a₀) (on : ι → κ) (i : ι)
    (s : Survivors O.State κ) (a : A) : (op : (Mortal I κ).Act) →
      Prog (Mortal O.E κ) ((Mortal I κ).Ans op) → Option ((Mortal I κ).Ans op) → Prop
  | living {op : I.Act} {q : Prog (Mortal O.E κ) (I.Ans op)} {done : Option (I.Ans op)}
    (p : Prog O.E (I.Ans op)) : q = p.lift κ → s.ended (on i) = false →
    L.stage i s.value a op p done → Mortal.Stage L on i s a (.inl op) q done
  | lost {op : I.Act} {q : Prog (Mortal O.E κ) (I.Ans op)} {done : Option (I.Ans op)}
    (p : Prog O.E (I.Ans op)) : q = p.lift κ → s.ended (on i) = true →
    (∀ r, p = .pure r → done = some r) → Mortal.Stage L on i s a (.inl op) q done
  | crashing (k : κ) :
    Mortal.Stage L on i s a (.inr k) (.act (.inr k) fun _ => .pure ()) none
  | crashed (k : κ) : Mortal.Stage L on i s a (.inr k) (.pure ()) (some ())

/-- The end of `k` changes nothing abstractly, and leaves what the calls of other processes know
true. -/
def Harmless (L : LinearizationPoints O spec a₀) (on : ι → κ) (crash : κ → O.State → O.State) :
    Prop :=
  ∀ k s a, L.inv s a → L.inv (crash k s) a ∧ ∀ i, on i ≠ k → ∀ op p done,
    L.stage i s a op p done → L.stage i (crash k s) a op p done

lemma Mortal.Stage.start (hinv : L.inv s.value a) (op : (Mortal I κ).Act) :
    Mortal.Stage L on i s a op ((O.mortal on crash).body op) none := by
  cases op with
  | inl op =>
    have hstart := L.start i s.value a op hinv
    cases hended : s.ended (on i) with
    | false => exact .living (O.body op) rfl hended hstart
    | true =>
      refine .lost (O.body op) rfl hended fun r hr => ?_
      rw [hr] at hstart
      exact L.finish _ _ _ _ _ _ hstart
  | inr k => exact .crashing k

omit [DecidableEq κ] in
/-- What the action of another call keeps. -/
lemma Mortal.Stage.frame {j : ι} {b : A} {op : (Mortal I κ).Act}
    {q : Prog (Mortal O.E κ) ((Mortal I κ).Ans op)} {done : Option ((Mortal I κ).Ans op)}
    (h : Mortal.Stage L on j s a op q done) (hended : s'.ended (on j) = s.ended (on j))
    (hstage : ∀ op p done, L.stage j s.value a op p done → L.stage j s'.value b op p done) :
    Mortal.Stage L on j s' b op q done := by
  cases h with
  | living p heq hup hp => exact .living p heq (hended.trans hup) (hstage _ _ _ hp)
  | lost p heq hdown hdone => exact .lost p heq (hended.trans hdown) hdone
  | crashing k => exact .crashing k
  | crashed k => exact .crashed k

/-- What the end of a process keeps: its calls are lost, and the others go on. -/
lemma Mortal.Stage.outlives (hcrash : Harmless L on crash) (hinv : L.inv s.value a) {j : ι}
    {op : (Mortal I κ).Act} {q : Prog (Mortal O.E κ) ((Mortal I κ).Ans op)}
    {done : Option ((Mortal I κ).Ans op)} (h : Mortal.Stage L on j s a op q done) (k : κ) :
    Mortal.Stage L on j ⟨crash k s.value, Function.update s.ended k true⟩ a op q done := by
  by_cases hk : on j = k
  · have hdown : Function.update s.ended k true (on j) = true := by rw [hk, Function.update_self]
    cases h with
    | living p heq hup hp =>
      refine .lost p heq hdown ?_
      rintro r rfl
      exact L.finish _ _ _ _ _ _ hp
    | lost p heq _ hdone => exact .lost p heq hdown hdone
    | crashing k => exact .crashing k
    | crashed k => exact .crashed k
  · exact h.frame (Function.update_of_ne hk ..) ((hcrash k s.value a hinv).2 j hk)

/-- One action among processes that may end. -/
lemma Mortal.Stage.act (hcrash : Harmless L on crash) (hinv : L.inv s.value a)
    {op : (Mortal I κ).Act} {x : (Mortal O.E κ).Act}
    {f : (Mortal O.E κ).Ans x → Prog (Mortal O.E κ) ((Mortal I κ).Ans op)}
    {done : Option ((Mortal I κ).Ans op)} (h : Mortal.Stage L on i s a op (.act x f) done)
    {r : (Mortal O.E κ).Ans x} (he : (O.mortal on crash).exec i x s = some (r, s')) :
    ∃ a' done',
      (a' = a ∧ done' = done ∨ done = none ∧ ∃ q, done' = some q ∧ spec.mortal κ a op q a') ∧
      L.inv s'.value a' ∧ Mortal.Stage L on i s' a' op (f r) done' ∧
      ∀ j, j ≠ i → ∀ op' q d, Mortal.Stage L on j s a op' q d →
        Mortal.Stage L on j s' a' op' q d := by
  cases h with
  | living p heq hup hp =>
    cases p with
    | pure q => cases heq
    | act y g =>
      cases heq
      obtain ⟨-, hy, hended⟩ := SharedObject.exec_living he
      obtain ⟨a', done', heff, hinv', hself, hothers⟩ := L.act _ _ _ _ _ _ _ _ _ hinv hp hy
      refine ⟨a', done', heff, hinv', .living _ rfl ?_ hself, fun j hj op' q d hq => ?_⟩
      · rwa [hended]
      · exact hq.frame (congrFun hended _) (hothers j hj)
  | lost p heq hdown hdone =>
    cases p with
    | pure q => cases heq
    | act y g =>
      cases heq
      rw [(SharedObject.exec_living he).1] at hdown
      cases hdown
  | crashing k =>
    obtain ⟨-, rfl⟩ := Prod.mk.inj (Option.some.inj he)
    exact ⟨a, some (), .inr ⟨rfl, (), rfl, rfl⟩, (hcrash k s.value a hinv).1, .crashed k,
      fun j _ op' q d hq => hq.outlives hcrash hinv k⟩

omit [DecidableEq κ] in
lemma Mortal.Stage.finish {op : (Mortal I κ).Act} {r : (Mortal I κ).Ans op}
    {done : Option ((Mortal I κ).Ans op)} (h : Mortal.Stage L on i s a op (.pure r) done) :
    done = some r := by
  cases h with
  | living p heq hup hp =>
    obtain rfl := Prog.lift_eq_pure heq.symm
    exact L.finish _ _ _ _ _ _ hp
  | lost p heq hdown hdone => exact hdone r (Prog.lift_eq_pure heq.symm)
  | crashed k => rfl

/-- An object whose processes end harmlessly has the linearization points it has without. -/
def mortalPoints (hcrash : Harmless L on crash) :
    LinearizationPoints (O.mortal on crash) (spec.mortal κ) a₀ where
  inv s a := L.inv s.value a
  stage := Mortal.Stage L on
  init := L.init
  start _ _ _ op hinv := .start hinv op
  act _ _ _ _ _ _ _ _ _ hinv hstage he := hstage.act hcrash hinv he
  finish _ _ _ _ _ _ hstage := hstage.finish

/-- The history of the calls, without the ends of processes. -/
def calls (c : (O.mortal on crash).Config) : List (HistoryEvent ι I) :=
  c.history.filterMap HistoryEvent.call

/-- The calls on an object whose processes end harmlessly are linearizable. -/
theorem Harmless.linearizes (hcrash : Harmless L on crash) {c : (O.mortal on crash).Config}
    (hc : (O.mortal on crash).Reachable c) : ∃ order a,
      Linearizes spec a₀ (calls c) order a ∧ L.inv c.shared.value a := by
  obtain ⟨order, a, hx⟩ := (mortalPoints hcrash).reachable_explained hc
  exact ⟨_, a, hx.linearizes.calls, hx.inv⟩

end Points

end Knova.Library
