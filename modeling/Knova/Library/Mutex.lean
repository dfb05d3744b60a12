import Knova.Library.Linearizability

/-!
# Sequential objects behind one mutex

Every call takes the mutex, does all of its work while it holds it, and releases it. Such
an object is linearizable for whatever its sequential code refines.
-/

namespace Knova.Library

/-- A value and the call that holds its mutex. -/
structure Guarded (ι σ : Type) where
  value : σ
  holder : Option ι

inductive GuardedAct (I : Signature)
  | lock
  | work (op : I.Act)
  | unlock

@[reducible] def GuardedAct.Ans {I : Signature} : GuardedAct I → Type
  | .lock => Unit
  | .work op => I.Ans op
  | .unlock => Unit

variable {ι σ A : Type} [DecidableEq ι] {I : Signature}

/-- `seq` run under a mutex. -/
def mutexObject (ι : Type) [DecidableEq ι] (I : Signature) (init : σ)
    (seq : (op : I.Act) → σ → I.Ans op × σ) : SharedObject ι I where
  E := ⟨GuardedAct I, GuardedAct.Ans⟩
  State := Guarded ι σ
  init := ⟨init, none⟩
  body op := .act .lock fun _ => .act (.work op) fun r => .act .unlock fun _ => .pure r
  exec i
    | .lock, s => if s.holder = none then some ((), { s with holder := some i }) else none
    | .work op, s =>
      if s.holder = some i then
        some ((seq op s.value).1, { s with value := (seq op s.value).2 })
      else none
    | .unlock, s => if s.holder = some i then some ((), { s with holder := none }) else none

/-- A call alone on a free mutex object is its sequential code. -/
lemma mutexObject_alone (init : σ) (seq : (op : I.Act) → σ → I.Ans op × σ) (i : ι)
    (op : I.Act) (v : σ) : (mutexObject ι I init seq).alone i op ⟨v, none⟩ =
      some ((seq op v).1, ⟨(seq op v).2, none⟩) := by
  simp [SharedObject.alone, mutexObject, Prog.eval]

namespace Mutex

variable {init : σ} {seq : (op : I.Act) → σ → I.Ans op × σ}

/-- What a call knows at each point of its program. -/
inductive Stage (i : ι) (s : Guarded ι σ) (op : I.Act) :
    Prog (mutexObject ι I init seq).E (I.Ans op) → Option (I.Ans op) → Prop
  | waiting : Stage i s op ((mutexObject ι I init seq).body op) none
  | locked : s.holder = some i → Stage i s op
      (.act (.work op) fun r => .act .unlock fun _ => .pure r) none
  | worked (r : I.Ans op) : s.holder = some i → Stage i s op
      (.act .unlock fun _ => .pure r) (some r)
  | released (r : I.Ans op) : Stage i s op (.pure r) (some r)

/-- A step that does not take the mutex from `i` keeps what `i` knows. -/
lemma Stage.mono {i : ι} {s s' : Guarded ι σ} {op : I.Act}
    {p : Prog (mutexObject ι I init seq).E (I.Ans op)} {done : Option (I.Ans op)}
    (h : Stage i s op p done) (hs : s.holder = some i → s'.holder = some i) :
    Stage i s' op p done := by
  cases h with
  | waiting => exact .waiting
  | locked hi => exact .locked (hs hi)
  | worked r hi => exact .worked r (hs hi)
  | released r => exact .released r

/-- While the mutex is free, a call that has done its work has nothing left to do. -/
lemma Stage.eq_pure_of_free (init : σ) (seq : (op : I.Act) → σ → I.Ans op × σ) {i : ι}
    {s : Guarded ι σ} {op : I.Act}
    {p : Prog (mutexObject ι I init seq).E (I.Ans op)} {r : I.Ans op}
    (h : Stage i s op p (some r)) (hs : s.holder = none) : p = .pure r := by
  cases h with
  | worked r hi =>
    rw [hs] at hi
    cases hi
  | released r => rfl

end Mutex

/-- Linearization points of a mutex object whose sequential code refines `spec` through
the relation `rel`: a call takes effect in its `work`. -/
def mutexObject_linearizationPoints {spec : Spec I A} {a₀ : A} {init : σ}
    {seq : (op : I.Act) → σ → I.Ans op × σ} (rel : σ → A → Prop) (hinit : rel init a₀)
    (hseq : ∀ v a op, rel v a → ∃ a', spec a op (seq op v).1 a' ∧ rel (seq op v).2 a') :
    LinearizationPoints (mutexObject ι I init seq) spec a₀ where
  inv s a := rel s.value a
  stage i s _ op p done := Mutex.Stage i s op p done
  init := hinit
  start _ _ _ _ _ := .waiting
  act := by
    intro i s a op x k done r s' hinv hstage hexec
    cases hstage with
    | waiting =>
      simp only [mutexObject] at hexec
      split at hexec
      · rename_i hfree
        cases hexec
        refine ⟨a, none, .inl ⟨rfl, rfl⟩, hinv, .locked rfl, ?_⟩
        intro j hj opj p d hd
        exact hd.mono (by simp [hfree])
      · cases hexec
    | locked hi =>
      simp only [mutexObject, hi] at hexec
      cases hexec
      obtain ⟨a', hspec, hrel⟩ := hseq s.value a op hinv
      refine ⟨a', some (seq op s.value).1, .inr ⟨rfl, _, rfl, hspec⟩, hrel, .worked _ rfl, ?_⟩
      intro j hj opj p d hd
      exact hd.mono fun hj' => hi.symm.trans hj'
    | worked q hi =>
      simp only [mutexObject, hi] at hexec
      cases hexec
      refine ⟨a, some q, .inl ⟨rfl, rfl⟩, hinv, .released q, ?_⟩
      intro j hj opj p d hd
      refine hd.mono fun hj' => ?_
      rw [hi] at hj'
      exact absurd (Option.some.inj hj').symm hj
  finish := by
    intro i s a op r done h
    cases h
    rfl

end Knova.Library
