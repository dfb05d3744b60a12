import Mathlib.Logic.Function.Basic

/-!
# Programs over atomic actions

A program performs atomic actions one at a time and chooses how to go on from each
answer. `Prog.eval` runs a program alone; the interleaved semantics of many programs
over one shared state is built on top of the same type in `Knova.Library.SharedObject`.
-/

namespace Knova.Library

/-- Names of operations together with the type of each one's answer. -/
structure Signature where
  Act : Type
  Ans : Act → Type

/-- Programs performing actions of `E` and finishing with an `α`. -/
inductive Prog (E : Signature) (α : Type) : Type
  | pure (a : α) : Prog E α
  | act (a : E.Act) (k : E.Ans a → Prog E α) : Prog E α

namespace Prog

variable {E : Signature} {α β σ : Type}

def bind : Prog E α → (α → Prog E β) → Prog E β
  | .pure a, f => f a
  | .act a k, f => .act a (fun r => bind (k r) f)

instance : Monad (Prog E) where
  pure := .pure
  bind := bind

@[simp] lemma pure_bind (x : α) (f : α → Prog E β) : (Prog.pure x).bind f = f x := rfl

@[simp] lemma act_bind (a : E.Act) (k : E.Ans a → Prog E α) (f : α → Prog E β) :
    (Prog.act a k).bind f = .act a fun r => (k r).bind f := rfl

/-- The program that performs one action and returns its answer. -/
def perform (a : E.Act) : Prog E (E.Ans a) :=
  .act a .pure

/-- Runs a program alone; `none` when an action is not enabled. -/
def eval (exec : (a : E.Act) → σ → Option (E.Ans a × σ)) : Prog E α → σ → Option (α × σ)
  | .pure a, s => some (a, s)
  | .act a k, s =>
    match exec a s with
    | none => none
    | some (r, s') => eval exec (k r) s'

@[simp] lemma eval_pure (exec : (a : E.Act) → σ → Option (E.Ans a × σ)) (x : α) (s : σ) :
    eval exec (.pure x) s = some (x, s) := rfl

lemma eval_act {exec : (a : E.Act) → σ → Option (E.Ans a × σ)} {a : E.Act}
    {k : E.Ans a → Prog E α} {s s' : σ} {r : E.Ans a} (h : exec a s = some (r, s')) :
    eval exec (.act a k) s = eval exec (k r) s' := by
  simp only [eval, h]

/-- What a program that returned did first: one action, or nothing at all. -/
lemma eval_act_eq_some {exec : (a : E.Act) → σ → Option (E.Ans a × σ)} {a : E.Act}
    {k : E.Ans a → Prog E α} {s t : σ} {x : α} (h : eval exec (.act a k) s = some (x, t)) :
    ∃ r s', exec a s = some (r, s') ∧ eval exec (k r) s' = some (x, t) := by
  cases he : exec a s with
  | none => simp [eval, he] at h
  | some q => exact ⟨q.1, q.2, rfl, by simpa [eval, he] using h⟩

/-- Runs a program alone where every action is enabled. -/
def run (exec : (a : E.Act) → σ → E.Ans a × σ) : Prog E α → σ → α × σ
  | .pure a, s => (a, s)
  | .act a k, s => run exec (k (exec a s).1) (exec a s).2

@[simp] lemma run_pure (exec : (a : E.Act) → σ → E.Ans a × σ) (x : α) (s : σ) :
    run exec (.pure x) s = (x, s) := rfl

lemma run_bind (exec : (a : E.Act) → σ → E.Ans a × σ) (p : Prog E α) (f : α → Prog E β)
    (s : σ) : run exec (p.bind f) s = run exec (f (run exec p s).1) (run exec p s).2 := by
  induction p generalizing s with
  | pure a => rfl
  | act a k ih => exact ih _ _

/-- One action a program performed, and the answer it went on with. -/
structure Performed (E : Signature) where
  act : E.Act
  ans : E.Ans act

/-- `Follows p t q`: after the actions and answers of `t`, what is left of `p` is `q`. -/
inductive Follows : Prog E α → List (Performed E) → Prog E α → Prop
  | refl (p : Prog E α) : Follows p [] p
  | step {a : E.Act} {k : E.Ans a → Prog E α} (r : E.Ans a) {t : List (Performed E)}
      {q : Prog E α} : Follows (k r) t q → Follows (.act a k) (⟨a, r⟩ :: t) q

lemma follows_nil {p q : Prog E α} (h : Follows p [] q) : p = q := by
  cases h
  rfl

lemma follows_pure_iff {x : α} {t : List (Performed E)} {q : Prog E α} :
    Follows (.pure x) t q ↔ t = [] ∧ q = .pure x := by
  constructor
  · rintro ⟨⟩
    exact ⟨rfl, rfl⟩
  · rintro ⟨rfl, rfl⟩
    exact .refl _

lemma follows_act_iff {a : E.Act} {k : E.Ans a → Prog E α} {t : List (Performed E)}
    {q : Prog E α} : Follows (.act a k) t q ↔
      t = [] ∧ q = .act a k ∨ ∃ r t', t = ⟨a, r⟩ :: t' ∧ Follows (k r) t' q := by
  constructor
  · intro h
    cases h with
    | refl => exact .inl ⟨rfl, rfl⟩
    | step r h => exact .inr ⟨r, _, rfl, h⟩
  · rintro (⟨rfl, rfl⟩ | ⟨r, t', rfl, h⟩)
    · exact .refl _
    · exact .step r h

lemma Follows.snoc {p : Prog E α} {t : List (Performed E)} {a : E.Act}
    {k : E.Ans a → Prog E α} (h : Follows p t (.act a k)) (r : E.Ans a) :
    Follows p (t ++ [⟨a, r⟩]) (k r) := by
  generalize hq : Prog.act a k = q at h
  induction h with
  | refl p => subst hq; exact .step r (.refl _)
  | step r' _ ih => exact .step r' (ih hq)

/-! ### Programs that perform some actions only -/

variable {P : E.Act → Prop}

/-- Every action a program may perform satisfies `P`. -/
def All (P : E.Act → Prop) : Prog E α → Prop
  | .pure _ => True
  | .act a k => P a ∧ ∀ r, All P (k r)

lemma All.bind {p : Prog E α} {f : α → Prog E β} (hp : p.All P) (hf : ∀ x, (f x).All P) :
    (p.bind f).All P := by
  induction p with
  | pure x => exact hf x
  | act a k ih => exact ⟨hp.1, fun r => ih r (hp.2 r)⟩

/-- What a program has performed satisfies `P`, and so does what is left. -/
lemma All.follows {p q : Prog E α} {t : List (Performed E)} (hp : p.All P) (h : Follows p t q) :
    (∀ c ∈ t, P c.act) ∧ q.All P := by
  induction h with
  | refl p => exact ⟨by simp, hp⟩
  | step r _ ih =>
    obtain ⟨ht, hq⟩ := ih (hp.2 r)
    exact ⟨List.forall_mem_cons.mpr ⟨hp.1, ht⟩, hq⟩

/-- What every action in `P` keeps, a run alone keeps. -/
lemma All.run {exec : (a : E.Act) → σ → E.Ans a × σ} {I : σ → Prop}
    (hexec : ∀ a s, P a → I s → I (exec a s).2) {p : Prog E α} (hp : p.All P) {s : σ} (hs : I s) :
    I (run exec p s).2 := by
  induction p generalizing s with
  | pure x => exact hs
  | act a k ih => exact ih _ (hp.2 _) (hexec a s hp.1 hs)

/-- Every result a program may finish with satisfies `Q`. -/
def Returns (Q : α → Prop) : Prog E α → Prop
  | .pure x => Q x
  | .act _ k => ∀ r, Returns Q (k r)

lemma Returns.follows {Q : α → Prop} {p q : Prog E α} {t : List (Performed E)} (hp : p.Returns Q)
    (h : Follows p t q) : q.Returns Q := by
  induction h with
  | refl p => exact hp
  | step r _ ih => exact ih (hp r)

/-- However a program that made the calls of `log` goes on, it ends with calls and a result in
`Q`. -/
def Ends (Q : List (Performed E) → α → Prop) (log : List (Performed E)) : Prog E α → Prop
  | .pure x => Q log x
  | .act a k => ∀ r, Ends Q (log ++ [⟨a, r⟩]) (k r)

lemma Ends.follows {Q : List (Performed E) → α → Prop} {log t : List (Performed E)}
    {p q : Prog E α} (hp : p.Ends Q log) (h : Follows p t q) : q.Ends Q (log ++ t) := by
  induction h generalizing log with
  | refl p => simpa using hp
  | step r _ ih => simpa using ih (hp r)

end Prog

end Knova.Library
