import Knova.Library.Crash
import Knova.Profile.SharedHistory

/-!
# Restarts

A store opened on a database file survives its process. A process may end between any two
statements, and another one opens the file: what was acknowledged is there, what was not is there
as a whole or not at all, and no lock is left behind.
-/

namespace Knova.SqliteProfiles.Replicas

open Library Histories

variable {ι κ : Type}

section Crash

variable [DecidableEq κ]

/-- The process of the store `k` ends: SQLite rolls its transaction back, and its mutex is gone. -/
def crash (k : κ) (s : Replicas ι κ) : Replicas ι κ :=
  { s.rollback k with holder := Function.update s.holder k none }

variable {s : Replicas ι κ} {h : Histories} {k : κ}

@[simp] lemma crash_committed : (s.crash k).committed = s.committed := by
  unfold crash rollback
  split <;> rfl

@[simp] lemma crash_holder : (s.crash k).holder = Function.update s.holder k none := rfl

@[simp] lemma crash_transaction :
    (s.crash k).transaction = Function.update s.transaction k none := by
  unfold crash rollback
  split <;> rfl

/-- Whoever was writing does so no more, and every other writer goes on. -/
lemma Inv.crash_writer (hs : Inv s h) :
    (s.crash k).writer = if s.writer = some k then none else s.writer := by
  have hmine := hs.writer k
  unfold crash rollback
  split
  · rename_i db hdb
    rw [if_pos (hmine.mpr ⟨db, hdb⟩)]
  · rename_i hnot
    rw [if_neg fun hw => ?_]
    · rfl
    · obtain ⟨db, hdb⟩ := hmine.mp hw
      exact hnot db hdb

lemma Inv.crash (hs : Inv s h) (k : κ) : Inv (s.crash k) h where
  stored := by
    rw [crash_committed]
    exact hs.stored
  writer k' := by
    rw [hs.crash_writer, crash_transaction]
    by_cases hk : k' = k
    · subst hk
      rw [Function.update_self]
      split
      · simp
      · rename_i hne
        simp [hne]
    · rw [Function.update_of_ne hk]
      split
      · rename_i hw
        have hother := hs.writer k'
        rw [hw] at hother
        rw [← hother]
        simp [Ne.symm hk]
      · exact hs.writer k'
  idle k' hk' := by
    rw [crash_holder] at hk'
    rw [crash_transaction]
    by_cases hk : k' = k
    · rw [hk, Function.update_self]
    · rw [Function.update_of_ne hk] at hk' ⊢
      exact hs.idle k' hk'

omit [DecidableEq κ] in
/-- A call knows what it knew where nothing that it sees has changed. -/
lemma Place.of_eq {on : ι → κ} {i : ι} {s' : Replicas ι κ} {call : StoreCalls.Act}
    {p : Prog E (StoreCalls.Ans call)} {told done : Option (StoreCalls.Ans call)}
    (hp : Place on i s h call p told done) (hholder : s'.holder (on i) = s.holder (on i))
    (htransaction : s'.transaction (on i) = s.transaction (on i))
    (hcommitted : s'.committed = s.committed) : Place on i s' h call p told done := by
  cases hp with
  | waiting heq => exact .waiting heq
  | holding hi ht heq => exact .holding (hholder.trans hi) (htransaction.trans ht) heq
  | begun w hi ht hw he heq =>
    exact .begun w (hholder.trans hi) (htransaction.trans ht) hw he heq
  | writing w db hi ht hw he heq =>
    rw [← hcommitted] at he ⊢
    exact .writing w db (hholder.trans hi) (htransaction.trans ht) hw he heq
  | ended r hi ht heq => exact .ended r (hholder.trans hi) (htransaction.trans ht) heq
  | leaving r hi ht heq => exact .leaving r (hholder.trans hi) (htransaction.trans ht) heq
  | left r heq => exact .left r heq

lemma Place.outlives {on : ι → κ} {i : ι} {call : StoreCalls.Act}
    {p : Prog E (StoreCalls.Ans call)} {told done : Option (StoreCalls.Ans call)}
    (hp : Place on i s h call p told done) (hi : on i ≠ k) :
    Place on i (s.crash k) h call p told done := by
  refine hp.of_eq ?_ ?_ crash_committed
  · rw [crash_holder, Function.update_of_ne hi]
  · rw [crash_transaction, Function.update_of_ne hi]

/-- The end of a process leaves what is committed, and what the calls of other processes know. -/
lemma harmless_crash [DecidableEq ι] (on : ι → κ) : Harmless (linearizationPoints on) on crash :=
  fun k _ _ hs => ⟨hs.crash k, fun _ hi _ _ _ ⟨told, hp⟩ => ⟨told, hp.outlives hi⟩⟩

/-! ### Connections -/

variable {k' : κ}

/-- A statement moves its own connection only. -/
lemma execute_other {env : Env} {a : SqlAct} (hk : k ≠ k') :
    (execute env k' a s).2.holder = s.holder ∧
      (execute env k' a s).2.transaction k = s.transaction k := by
  have hset : ∀ t, (s.setTransaction k' t).transaction k = s.transaction k :=
    fun t => Function.update_of_ne hk ..
  have hread : ∀ a, (s.read k' a).2.holder = s.holder ∧
      (s.read k' a).2.transaction k = s.transaction k := by
    intro a
    unfold read
    split
    · exact ⟨rfl, hset _⟩
    · exact ⟨rfl, rfl⟩
  have hwrite : ∀ a, (s.write k' a).2.holder = s.holder ∧
      (s.write k' a).2.transaction k = s.transaction k := by
    intro a
    unfold write
    split
    · exact ⟨rfl, rfl⟩
    · dsimp only
      unfold store
      split
      · exact ⟨rfl, rfl⟩
      · exact ⟨rfl, hset _⟩
  unfold execute
  split
  · exact ⟨rfl, rfl⟩
  · cases a with
    | begin behavior =>
      cases behavior with
      | deferred =>
        simp only [perform, Replicas.begin]
        split
        · exact ⟨rfl, hset _⟩
        · exact ⟨rfl, rfl⟩
      | immediate =>
        simp only [perform, Replicas.begin]
        split
        · split
          · exact ⟨rfl, hset _⟩
          · exact ⟨rfl, rfl⟩
        · exact ⟨rfl, rfl⟩
    | commit =>
      simp only [perform, commit]
      split
      · exact ⟨rfl, rfl⟩
      · exact ⟨rfl, hset _⟩
      · exact ⟨rfl, hset _⟩
    | drop =>
      simp only [perform, rollback]
      split
      · exact ⟨rfl, hset _⟩
      · exact ⟨rfl, hset _⟩
    | insertProfile user address phone version => exact hwrite _
    | insertRevision user version address phone recordedAtMs => exact hwrite _
    | updateProfile address phone next user expected => exact hwrite _
    | selectVersion user => exact hread _
    | selectProfile user => exact hread _
    | selectRevisions user => exact hread _

/-- An action of a call moves its own connection only. -/
lemma exec_other [DecidableEq ι] {on : ι → κ} {i : ι} {a : Act} {r : a.Ans} {s' : Replicas ι κ}
    (he : exec on i a s = some (r, s')) (hk : k ≠ on i) :
    s'.holder k = s.holder k ∧ s'.transaction k = s.transaction k := by
  cases a with
  | lock =>
    simp only [exec] at he
    split at he
    · cases he
      exact ⟨Function.update_of_ne hk .., rfl⟩
    · cases he
  | statement env a =>
    simp only [exec] at he
    split at he
    · have hother : (execute env (on i) a s).2.holder = s.holder ∧
          (execute env (on i) a s).2.transaction k = s.transaction k := execute_other hk
      rw [Option.some.inj he] at hother
      exact ⟨congrFun hother.1 k, hother.2⟩
    · cases he
  | unlock =>
    simp only [exec] at he
    split at he
    · cases he
      exact ⟨Function.update_of_ne hk .., rfl⟩
    · cases he

end Crash

/-! ### Runs with restarts -/

variable [DecidableEq ι] [DecidableEq κ]

/-- The stores of one file, each in a process that may end; the call `i` is made in the process
`on i`. A process that starts again is another one. -/
abbrev restarting (on : ι → κ) : SharedObject ι (Mortal StoreCalls κ) :=
  (object on).mortal on crash

/-- Processes that have ended hold nothing. -/
def Released (s : Survivors (Replicas ι κ) κ) : Prop :=
  ∀ k, s.ended k = true → s.value.holder k = none ∧ s.value.transaction k = none

variable {on : ι → κ}

lemma Released.exec {s s' : Survivors (Replicas ι κ) κ} (h : Released s) {i : ι}
    {a : (Mortal E κ).Act} {r : (Mortal E κ).Ans a}
    (he : (restarting on).exec i a s = some (r, s')) : Released s' := by
  intro k hk
  cases a with
  | inl a =>
    obtain ⟨hliving, ha, hended⟩ := SharedObject.exec_living he
    rw [hended] at hk
    have hne : k ≠ on i := by
      rintro rfl
      rw [hliving] at hk
      cases hk
    obtain ⟨hholder, htransaction⟩ := exec_other ha hne
    obtain ⟨hnone, hidle⟩ := h k hk
    exact ⟨hholder.trans hnone, htransaction.trans hidle⟩
  | inr k' =>
    have hs : s' = ⟨s.value.crash k', Function.update s.ended k' true⟩ :=
      (Prod.mk.inj (Option.some.inj he)).2.symm
    subst hs
    dsimp only at hk ⊢
    rw [crash_holder, crash_transaction]
    by_cases hkk : k = k'
    · rw [hkk, Function.update_self, Function.update_self]
      exact ⟨rfl, rfl⟩
    · rw [Function.update_of_ne hkk] at hk ⊢
      rw [Function.update_of_ne hkk]
      exact h k hk

lemma released_step {c c' : (restarting on).Config} {m : Move ι (Mortal StoreCalls κ)}
    (h : Released c.shared) (hstep : (restarting on).step c m = some c') :
    Released c'.shared := by
  obtain ⟨i, op, -, -, rfl⟩ | ⟨i, op, a, f, r, s, -, -, he, rfl⟩ | ⟨i, op, r, -, -, rfl⟩ :=
    SharedObject.step_cases hstep
  · exact h
  · exact h.exec he
  · exact h

/-- What a run with restarts leaves, where its calls took effect in `order` and left `h`. -/
structure Durable (on : ι → κ) (c : (restarting on).Config)
    (order : List (Library.Entry ι StoreCalls)) (h : Histories) : Prop where
  linearizes : Linearizes contract Histories.empty (calls c) order h
  /-- The file holds what the calls in the order wrote. -/
  stored : Stored c.shared.value.committed h
  /-- What was acknowledged is in the file. -/
  acknowledged : ∀ i call r user rev, HistoryEvent.ret i call r ∈ calls c →
    written (⟨i, call, r⟩ : Library.Entry ι StoreCalls) = some (user, rev) →
    c.shared.value.committed.profileRevisions.lookup (user, (revisionRow rev).1) =
      some (revisionRow rev).2
  /-- What is in the file was written by a call that was made. -/
  attributed : ∀ user v row,
    c.shared.value.committed.profileRevisions.lookup (user, v) = some row →
    ∃ d ∈ order, ∃ rev, HistoryEvent.invoke d.id d.op ∈ calls c ∧ written d = some (user, rev) ∧
      (v, row) = revisionRow rev
  /-- A process that has ended blocks nobody. -/
  released : ∀ k, c.shared.ended k = true → c.shared.value.holder k = none ∧
    c.shared.value.transaction k = none ∧ c.shared.value.writer ≠ some k

/-- Restarts lose nothing that was acknowledged, and leave nothing half done: for any number of
stores on one file whose processes end between any two statements. -/
theorem restarts_lose_nothing (on : ι → κ) {moves : List (Move ι (Mortal StoreCalls κ))}
    {c : (restarting on).Config}
    (hrun : (restarting on).machine.run (restarting on).initial moves = some c) :
    ∃ order h, Durable on c order h := by
  obtain ⟨order, h, hl, hinv⟩ := (harmless_crash on).linearizes ⟨moves, hrun⟩
  have hreleased : Released c.shared :=
    Machine.run_invariant (M := (restarting on).machine) (fun c => Released c.shared)
      (fun _ _ _ h hs => released_step h hs) (fun k hk => by cases hk) hrun
  refine ⟨order, h, hl, hinv.stored, ?_, ?_, ?_⟩
  · intro i call r user rev hret hwritten
    have hmem := hl.complete i call r hret
    have hrev := (mem_of_writtenFor hl.legal).mpr ⟨_, hmem, writtenFor_eq_some.mpr hwritten⟩
    exact (hinv.stored.revision user _ _).mpr ⟨rev, hrev, rfl⟩
  · intro user v row hrow
    obtain ⟨rev, hrev, heq⟩ := (hinv.stored.revision user v row).mp hrow
    obtain ⟨d, hd, hw⟩ := (mem_of_writtenFor hl.legal).mp hrev
    exact ⟨d, hd, rev, hl.invoked d hd, writtenFor_eq_some.mp hw, heq⟩
  · intro k hk
    obtain ⟨hholder, htransaction⟩ := hreleased k hk
    exact ⟨hholder, htransaction, hinv.not_writer (by simp [htransaction])⟩

/-- A process ends while its update is about to commit; the next one finds the created profile. -/
theorem restarts_lose_nothing_update :
    let on : ℕ → ℕ := fun i => i / 2
    let env : Env := ⟨7, fun _ => false⟩
    let input : ProfileInput := ⟨"1 Main St", "5550100"⟩
    let moves : List (Move ℕ (Mortal StoreCalls ℕ)) :=
      [.invoke 0 (.inl (.create ⟨"u"⟩ input, env))] ++ List.replicate 7 (.act 0) ++ [.ret 0] ++
      [.invoke 1 (.inl (.update ⟨"u"⟩ .initial input, env))] ++ List.replicate 4 (.act 1) ++
      [.invoke 2 (.inr 0), .act 2, .invoke 3 (.inl (.get ⟨"u"⟩, env))] ++
      List.replicate 3 (.act 3) ++ [.ret 3]
    ∃ c order h, (restarting on).machine.run (restarting on).initial moves = some c ∧
      c.thread 3 = some (.returned (.inl (.get ⟨"u"⟩, env))
        (.ok (some ⟨⟨"u"⟩, "1 Main St", "5550100", .initial⟩))) ∧
      Durable on c order h := by
  intro on env input moves
  obtain ⟨c, hrun, hread⟩ : ∃ c,
      (restarting on).machine.run (restarting on).initial moves = some c ∧
      c.thread 3 = some (.returned (.inl (.get ⟨"u"⟩, env))
        (.ok (some ⟨⟨"u"⟩, "1 Main St", "5550100", .initial⟩))) :=
    ⟨_, rfl, rfl⟩
  obtain ⟨order, h, hdurable⟩ := restarts_lose_nothing on hrun
  exact ⟨c, order, h, hrun, hread, hdurable⟩

end Knova.SqliteProfiles.Replicas
