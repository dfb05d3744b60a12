import Knova.Profile.Replicas

/-!
# What a call on a replica does

A transaction that writes is settled when it takes the write lock: from there on its answer is
what it would be alone, because no other connection can commit. It takes effect as it commits.
-/

namespace Knova.SqliteProfiles

open Library Histories

/-! ### The shape of the methods -/

def Reads : SqlAct → Prop
  | .selectVersion _ => True
  | .selectProfile _ => True
  | .selectRevisions _ => True
  | _ => False

def Writes : SqlAct → Prop
  | .insertProfile .. => True
  | .insertRevision .. => True
  | .updateProfile .. => True
  | _ => False

/-- What a transaction that may write consists of: statements on rows, and a commit only at
its end. -/
def Scoped {α : Type} : SqlProg α → Prop
  | .pure _ => True
  | .act a k => (Reads a ∨ Writes a) ∧ (∀ r, Scoped (k r)) ∨ a = .commit ∧ ∀ r, ∃ x, k r = .pure x

/-- What a deferred transaction consists of, where its first statement writes. -/
def Opening {α : Type} : SqlProg (Except StoreError α) → Prop
  | .pure r => ∃ e, r = .error e
  | .act a k => Writes a ∧ (∃ e, k none = .pure (.error e)) ∧ ∀ r, Scoped (k r)

/-- How a transaction that returns `r` ends. -/
def ending {α : Type} (r : Except StoreError α) : SqlProg (Except StoreError α) :=
  .act .drop fun _ => .pure r

section Shape

variable {α : Type} {a : SqlAct} {k : a.Val → SqlProg (Except StoreError α)}

lemma scoped_attempt (ha : Reads a ∨ Writes a) (hk : ∀ x, Scoped (k x)) :
    Scoped (attempt a k) := by
  refine .inl ⟨ha, fun r => ?_⟩
  cases r with
  | none => exact trivial
  | some x => exact hk x

lemma scoped_commit (r : Except StoreError α) : Scoped (attempt .commit fun _ => .pure r) := by
  refine .inr ⟨rfl, fun answer => ?_⟩
  cases answer with
  | none => exact ⟨_, rfl⟩
  | some x => exact ⟨_, rfl⟩

end Shape

/-- A call reads once, or writes in a transaction. -/
lemma body_cases (env : Env) (op : StoreOp) :
    (∃ a k, body env op = .act a k ∧ Reads a ∧ (∀ r, ∃ x, k r = .pure x) ∧ op.input = none) ∨
      (∃ w, body env op = transaction .deferred w ∧ Opening w) ∨
      ∃ w, body env op = transaction .immediate w ∧ Scoped w := by
  cases op with
  | create user input =>
    refine .inr (.inl ⟨_, rfl, ?_⟩)
    rw [toSql_eq (v := .initial) (by decide)]
    refine ⟨trivial, ⟨_, rfl⟩, fun r => ?_⟩
    cases r with
    | none => exact trivial
    | some inserted =>
      dsimp only
      split
      · exact trivial
      · exact scoped_attempt (.inr trivial) fun _ => scoped_commit _
  | get user =>
    refine .inl ⟨_, _, rfl, trivial, fun r => ?_, rfl⟩
    cases r with
    | none => exact ⟨_, rfl⟩
    | some x => exact ⟨_, rfl⟩
  | update user expected input =>
    refine .inr (.inr ⟨_, rfl, ?_⟩)
    split
    · exact trivial
    · split
      · exact trivial
      · split
        · exact trivial
        · refine scoped_attempt (.inr trivial) fun changed => ?_
          split
          · exact scoped_attempt (.inl trivial) fun _ => trivial
          · exact scoped_attempt (.inr trivial) fun _ => scoped_commit _
  | history user =>
    refine .inl ⟨_, _, rfl, trivial, fun r => ?_, rfl⟩
    cases r with
    | none => exact ⟨_, rfl⟩
    | some x => exact ⟨_, rfl⟩

lemma body_act (env : Env) (op : StoreOp) : ∃ a k, body env op = .act a k := by
  rcases body_cases env op with ⟨a, k, heq, -⟩ | ⟨w, heq, -⟩ | ⟨w, heq, -⟩
  · exact ⟨a, k, heq⟩
  · exact ⟨_, _, heq⟩
  · exact ⟨_, _, heq⟩

/-- A statement on rows, run in a transaction, leaves what is committed alone. -/
lemma perform_rows {a : SqlAct} (ha : Reads a ∨ Writes a) (committed db : Db) :
    ∃ db', (perform a ⟨committed, some db⟩).2 = ⟨committed, some db'⟩ := by
  cases a with
  | insertProfile user address phone version =>
    simp only [perform, view, Option.getD_some]
    split
    · exact ⟨db, rfl⟩
    · exact ⟨_, rfl⟩
  | insertRevision user version address phone recordedAtMs =>
    simp only [perform, view, Option.getD_some]
    split
    · exact ⟨db, rfl⟩
    · split
      · exact ⟨db, rfl⟩
      · exact ⟨_, rfl⟩
  | updateProfile address phone next user expected =>
    simp only [perform, view, Option.getD_some]
    split
    · exact ⟨db, rfl⟩
    · split
      · exact ⟨_, rfl⟩
      · exact ⟨db, rfl⟩
  | selectVersion user => exact ⟨db, rfl⟩
  | selectProfile user => exact ⟨db, rfl⟩
  | selectRevisions user => exact ⟨db, rfl⟩
  | _ => simp [Reads, Writes] at ha

lemma perform_unchanged {a : SqlAct} (ha : Reads a) (c : Connection) : (perform a c).2 = c := by
  cases a with
  | selectVersion user => rfl
  | selectProfile user => rfl
  | selectRevisions user => rfl
  | _ => exact ha.elim

lemma exec_unchanged {env : Env} {a : SqlAct} (ha : Reads a) (c : Connection) :
    (exec env a c).2 = c := by
  unfold exec
  split
  · rfl
  · exact perform_unchanged ha c

namespace Replicas

variable {ι κ : Type}

/-! ### Statements -/

section Statements

variable [DecidableEq κ] {env : Env} {s : Replicas ι κ} {k : κ} {a : SqlAct} {db : Db}

lemma perform_reads (ha : Reads a) : perform k a s = s.read k a := by
  cases a with
  | selectVersion user => rfl
  | selectProfile user => rfl
  | selectRevisions user => rfl
  | _ => exact ha.elim

lemma perform_writes (ha : Writes a) : perform k a s = s.write k a := by
  cases a with
  | insertProfile user address phone version => rfl
  | insertRevision user version address phone recordedAtMs => rfl
  | updateProfile address phone next user expected => rfl
  | _ => exact ha.elim

lemma working_self (hw : s.writer = some k) (ht : s.transaction k = some (.writing db)) :
    s.working k db = s := by
  unfold working setTransaction
  rw [← ht, Function.update_eq_self, ← hw]

/-- A statement outside every transaction sees what is committed. -/
lemma execute_idle (ht : s.transaction k = none) (ha : Reads a) :
    execute env k a s = ((SqliteProfiles.exec env a ⟨s.committed, none⟩).1, s) := by
  unfold execute SqliteProfiles.exec
  split
  · rfl
  · simp only [perform_reads ha, read, connection, ht]

/-- A statement in a transaction that writes does what it would alone. -/
lemma execute_writing (env : Env) (hw : s.writer = some k)
    (ht : s.transaction k = some (.writing db)) (ha : Reads a ∨ Writes a) : ∃ r db',
      SqliteProfiles.exec env a ⟨s.committed, some db⟩ = (r, ⟨s.committed, some db'⟩) ∧
      execute env k a s = (r, s.working k db') := by
  unfold execute SqliteProfiles.exec
  split
  · exact ⟨none, db, rfl, by rw [working_self hw ht]⟩
  · obtain ⟨db', hdb⟩ := perform_rows ha s.committed db
    refine ⟨(SqliteProfiles.perform a ⟨s.committed, some db⟩).1, db', Prod.ext rfl hdb, ?_⟩
    rcases ha with ha | ha
    · rw [perform_unchanged ha] at hdb
      obtain rfl := Option.some.inj (Connection.mk.inj hdb).2
      rw [working_self hw ht, perform_reads ha]
      simp only [read, connection, ht]
    · simp only [perform_writes ha, write, reserve, ht, store, hdb, view, Option.getD_some]

/-- The first statement of a transaction fails, or takes the write lock. -/
lemma execute_begun (env : Env) (ht : s.transaction k = some .begun) (ha : Writes a) :
    execute env k a s = (none, s) ∨ s.writer = none ∧ ∃ r db',
      SqliteProfiles.exec env a ⟨s.committed, some s.committed⟩ =
        (r, ⟨s.committed, some db'⟩) ∧
      execute env k a s = (r, s.working k db') := by
  unfold execute SqliteProfiles.exec
  split
  · exact .inl rfl
  · rw [perform_writes ha]
    cases hw : s.writer with
    | some k' => exact .inl (by simp [write, reserve, ht, hw])
    | none =>
      obtain ⟨db', hdb⟩ := perform_rows (.inr ha) s.committed s.committed
      refine .inr ⟨rfl, _, db', Prod.ext rfl hdb, ?_⟩
      simp [write, reserve, ht, hw, store, hdb, view]

end Statements

/-! ### What every call keeps -/

/-- What is committed holds `h`, the writer is the connection whose transaction writes, and a
connection that no call holds has no transaction open. -/
structure Inv (s : Replicas ι κ) (h : Histories) : Prop where
  stored : Stored s.committed h
  writer : ∀ k, s.writer = some k ↔ ∃ db, s.transaction k = some (.writing db)
  idle : ∀ k, s.holder k = none → s.transaction k = none

/-- From `s` to `s'` only the connection `k` moved, which no call but `i` held, and something
was committed only if it was writing. -/
structure Frame (k : κ) (i : ι) (s s' : Replicas ι κ) (h h' : Histories) : Prop where
  holder : ∀ k', k' ≠ k → s'.holder k' = s.holder k'
  transaction : ∀ k', k' ≠ k → s'.transaction k' = s.transaction k'
  alone : ∀ j, s.holder k = some j → j = i
  committed : s.writer = some k ∨ s'.committed = s.committed ∧ h' = h

section Inv

variable {s : Replicas ι κ} {h h' : Histories} {k : κ} {i : ι}

lemma inv_opened : Inv (opened ι κ) Histories.empty where
  stored := stored_empty
  writer k := by simp [opened]
  idle k _ := rfl

/-- The projection of what is committed. -/
lemma Inv.projection (hs : Inv s h) (user : UserId) :
    s.committed.profiles.lookup user = (revisionsOf s.committed user).getLast?.map fun last =>
      ⟨last.2.address, last.2.phoneNumber, last.1⟩ := by
  rw [hs.stored.revisionsOf_eq, hs.stored.profile, List.getLast?_map, Option.map_map]
  rfl

lemma Frame.of_holder {s' : Replicas ι κ} (hi : s.holder k = some i)
    (hholder : s'.holder = s.holder)
    (ht : ∀ k', k' ≠ k → s'.transaction k' = s.transaction k')
    (hc : s.writer = some k ∨ s'.committed = s.committed ∧ h' = h) : Frame k i s s' h h' where
  holder k' _ := by rw [hholder]
  transaction := ht
  alone j hj := by
    rw [hi] at hj
    exact (Option.some.inj hj).symm
  committed := hc

/-- Only the writing transaction can be the writer. -/
lemma Inv.not_writer (hs : Inv s h) (ht : ∀ db, s.transaction k ≠ some (.writing db)) :
    s.writer ≠ some k := by
  intro hw
  obtain ⟨db, hdb⟩ := (hs.writer k).mp hw
  exact ht db hdb

variable [DecidableEq κ]

lemma Inv.lock (hs : Inv s h) : Inv { s with holder := Function.update s.holder k (some i) } h where
  stored := hs.stored
  writer := hs.writer
  idle k' hk' := by
    apply hs.idle
    by_cases hkk : k' = k
    · subst hkk
      simp at hk'
    · simpa [hkk] using hk'

lemma Inv.unlock (hs : Inv s h) (ht : s.transaction k = none) :
    Inv { s with holder := Function.update s.holder k none } h where
  stored := hs.stored
  writer := hs.writer
  idle k' hk' := by
    by_cases hkk : k' = k
    · subst hkk
      exact ht
    · exact hs.idle k' (by simpa [hkk] using hk')

/-- The transaction of a held connection changes, and neither before nor after it writes. -/
lemma Inv.setTransaction (hs : Inv s h) {t : Option Transaction} (hi : s.holder k = some i)
    (ht : ∀ db, s.transaction k ≠ some (.writing db)) (ht' : ∀ db, t ≠ some (.writing db)) :
    Inv (s.setTransaction k t) h where
  stored := hs.stored
  writer k' := by
    by_cases hkk : k' = k
    · subst hkk
      simp [Replicas.setTransaction, hs.not_writer ht, ht']
    · simpa [Replicas.setTransaction, hkk] using hs.writer k'
  idle k' hk' := by
    by_cases hkk : k' = k
    · subst hkk
      rw [show s.holder k' = none from hk'] at hi
      cases hi
    · simpa [Replicas.setTransaction, hkk] using hs.idle k' hk'

/-- A held connection writes. -/
lemma Inv.working (hs : Inv s h) (hi : s.holder k = some i)
    (hw : s.writer = none ∨ s.writer = some k) (db : Db) : Inv (s.working k db) h where
  stored := hs.stored
  writer k' := by
    by_cases hkk : k' = k
    · subst hkk
      simp [Replicas.working, Replicas.setTransaction]
    · have hne : s.writer ≠ some k' := by
        rcases hw with hw | hw
        · simp [hw]
        · simpa [hw] using Ne.symm hkk
      simpa [Replicas.working, Replicas.setTransaction, hkk, Ne.symm hkk, hne] using hs.writer k'
  idle k' hk' := by
    by_cases hkk : k' = k
    · subst hkk
      rw [show s.holder k' = none from hk'] at hi
      cases hi
    · simpa [Replicas.working, Replicas.setTransaction, hkk] using hs.idle k' hk'

/-- The writer ends its transaction, and `db` is committed. -/
lemma Inv.ended (hs : Inv s h) (hw : s.writer = some k) {db : Db}
    (hdb : Stored db h') (n : ℕ) :
    Inv { s.setTransaction k none with committed := db, changes := n, writer := none } h' where
  stored := hdb
  writer k' := by
    by_cases hkk : k' = k
    · subst hkk
      simp [Replicas.setTransaction]
    · have hk' := hs.writer k'
      rw [hw] at hk'
      simpa [Replicas.setTransaction, hkk, Ne.symm hkk] using hk'
  idle k' hk' := by
    by_cases hkk : k' = k
    · subst hkk
      simp [Replicas.setTransaction]
    · simpa [Replicas.setTransaction, hkk] using hs.idle k' hk'

end Inv

/-! ### How far a call has come -/

/-- What a run of a call alone answers and commits, where `h` was committed before. -/
def Effect (call : StoreCalls.Act) (h : Histories) (q : StoreCalls.Ans call × Connection) : Prop :=
  ∃ h', contract h call q.1 h' ∧ Stored q.2.committed h'

/-- What a transaction answers and commits if no other connection moves any more, when `w` is
left of it and it sees `db`. -/
def undisturbed {α : Type} (env : Env) (w : SqlProg α) (committed db : Db) : α × Connection :=
  w.run (SqliteProfiles.exec env) ⟨committed, some db⟩

/-- What the call `i` knows when `p` is left of it. `told` is its answer once that is settled,
`done` its answer once it has taken effect. -/
inductive Place (on : ι → κ) (i : ι) (s : Replicas ι κ) (h : Histories) (call : StoreCalls.Act)
    (p : Prog E (StoreCalls.Ans call)) :
    Option (StoreCalls.Ans call) → Option (StoreCalls.Ans call) → Prop
  | waiting : p = withConnection call.2 (body call.2 call.1) → Place on i s h call p none none
  | holding : s.holder (on i) = some i → s.transaction (on i) = none →
    p = statements call.2 (body call.2 call.1) → Place on i s h call p none none
  | begun (w : SqlProg (StoreCalls.Ans call)) : s.holder (on i) = some i →
    s.transaction (on i) = some .begun → Opening w →
    (∀ db g, Stored db g → Effect call g (undisturbed call.2 w db db)) →
    p = statements call.2 (w.bind ending) → Place on i s h call p none none
  | writing (w : SqlProg (StoreCalls.Ans call)) (db : Db) : s.holder (on i) = some i →
    s.transaction (on i) = some (.writing db) → Scoped w →
    Effect call h (undisturbed call.2 w s.committed db) →
    p = statements call.2 (w.bind ending) →
    Place on i s h call p
      (some (undisturbed call.2 w s.committed db).1) none
  | ended (r : StoreCalls.Ans call) : s.holder (on i) = some i → s.transaction (on i) = none →
    p = statements call.2 (ending r) → Place on i s h call p (some r) (some r)
  | leaving (r : StoreCalls.Ans call) : s.holder (on i) = some i → s.transaction (on i) = none →
    p = statements call.2 (.pure r) → Place on i s h call p (some r) (some r)
  | left (r : StoreCalls.Ans call) : p = .pure r → Place on i s h call p (some r) (some r)

/-- The next thing left of `p` is a statement, and `i`'s connection holds the write lock. -/
def Working (on : ι → κ) (i : ι) (s : Replicas ι κ) {α : Type} (p : Prog E α) : Prop :=
  (∃ env a k, p = .act (.statement env a) k) ∧ ∃ db, s.transaction (on i) = some (.writing db)

lemma undisturbed_act {α : Type} {env : Env} {a : SqlAct} {k : Option a.Val → SqlProg α}
    {committed committed' db db' : Db} {r : Option a.Val}
    (h : SqliteProfiles.exec env a ⟨committed, some db⟩ = (r, ⟨committed', some db'⟩)) :
    undisturbed env (.act a k) committed db = undisturbed env (k r) committed' db' := by
  rw [undisturbed, Prog.run, h]
  rfl

section Place

variable {on : ι → κ} {i j : ι} {s s' : Replicas ι κ} {h h' : Histories} {call : StoreCalls.Act}
  {p : Prog E (StoreCalls.Ans call)} {told done : Option (StoreCalls.Ans call)}

/-- What another call does leaves what `j` knows true. -/
lemma Place.frame (hp : Place on j s h call p told done) (hs : Inv s h) (hij : j ≠ i)
    (hf : Frame (on i) i s s' h h') : Place on j s' h' call p told done := by
  -- a call that holds its connection holds another one than `i` moved
  have hon : s.holder (on j) = some j → on j ≠ on i := by
    intro hj heq
    rw [heq] at hj
    exact hij (hf.alone j hj)
  cases hp with
  | waiting heq => exact .waiting heq
  | holding hj ht heq =>
    exact .holding ((hf.holder _ (hon hj)).trans hj) ((hf.transaction _ (hon hj)).trans ht) heq
  | begun w hj ht hw he heq =>
    exact .begun w ((hf.holder _ (hon hj)).trans hj) ((hf.transaction _ (hon hj)).trans ht) hw he
      heq
  | writing w db hj ht hw he heq =>
    rcases hf.committed with hwriter | ⟨hc, rfl⟩
    · have hmine := (hs.writer _).mpr ⟨db, ht⟩
      rw [hwriter] at hmine
      exact absurd (Option.some.inj hmine).symm (hon hj)
    · rw [← hc] at he ⊢
      exact .writing w db ((hf.holder _ (hon hj)).trans hj)
        ((hf.transaction _ (hon hj)).trans ht) hw he heq
  | ended r hj ht heq =>
    exact .ended r ((hf.holder _ (hon hj)).trans hj) ((hf.transaction _ (hon hj)).trans ht) heq
  | leaving r hj ht heq =>
    exact .leaving r ((hf.holder _ (hon hj)).trans hj) ((hf.transaction _ (hon hj)).trans ht) heq
  | left r heq => exact .left r heq

/-- While a call writes its answer is settled, by what is committed. -/
lemma Place.of_working (hp : Place on i s h call p told done) (hw : Working on i s p) :
    ∃ q h', told = some q ∧ contract h call q h' := by
  obtain ⟨⟨env, a, k, hk⟩, db, hdb⟩ := hw
  cases hp with
  | waiting heq =>
    rw [hk] at heq
    cases heq
  | writing w db _ _ _ he _ =>
    obtain ⟨h', hc, -⟩ := he
    exact ⟨_, h', rfl, hc⟩
  | left r heq =>
    rw [hk] at heq
    cases heq
  | holding _ ht _ => simp [ht] at hdb
  | begun w _ ht _ _ _ => simp [ht] at hdb
  | ended r _ ht _ => simp [ht] at hdb
  | leaving r _ ht _ => simp [ht] at hdb

lemma statements_ne_pure {α : Type} {env : Env} (w : SqlProg α) {r : α} :
    statements env w ≠ .pure r := by
  intro heq
  cases w with
  | pure x => cases heq
  | act a k => cases heq

/-- A call that has nothing left to do has taken effect, and its answer is the settled one. -/
lemma Place.of_pure {r : StoreCalls.Ans call} (hp : Place on i s h call (.pure r) told done) :
    told = some r ∧ done = some r := by
  cases hp with
  | left q heq =>
    obtain rfl := Prog.pure.inj heq
    exact ⟨rfl, rfl⟩
  | waiting heq => cases heq
  | holding _ _ heq => exact absurd heq.symm (statements_ne_pure _)
  | begun w _ _ _ _ heq => exact absurd heq.symm (statements_ne_pure _)
  | writing w db _ _ _ _ heq => exact absurd heq.symm (statements_ne_pure _)
  | ended q _ _ heq => exact absurd heq.symm (statements_ne_pure _)
  | leaving q _ _ heq => exact absurd heq.symm (statements_ne_pure _)

end Place

/-! ### One action -/

/-- An action of the call `i` took `s` to `s'` and left `p` of the call. What is true of the
tables, of the other calls and of `i` goes on; the call takes effect at most here, and an
answer once settled stays. -/
structure Turn (on : ι → κ) (i : ι) (s : Replicas ι κ) (h : Histories) (call : StoreCalls.Act)
    (told done : Option (StoreCalls.Ans call)) (s' : Replicas ι κ)
    (p : Prog E (StoreCalls.Ans call)) (h' : Histories)
    (told' done' : Option (StoreCalls.Ans call)) : Prop where
  inv : Inv s' h'
  frame : Frame (on i) i s s' h h'
  place : Place on i s' h' call p told' done'
  effect : h' = h ∧ done' = done ∨ done = none ∧ ∃ q, done' = some q ∧ contract h call q h'
  kept : ∀ q, told = some q → told' = some q
  settled : told = none → ∀ q, told' = some q →
    (∃ e, q = .error e) ∨ Working on i s' p ∨ call.1.input = none

section Turn

variable [DecidableEq κ] {on : ι → κ} {i : ι} {s : Replicas ι κ} {h : Histories}
  {call : StoreCalls.Act}

lemma turn_lock (hs : Inv s h) (hfree : s.holder (on i) = none) :
    Turn on i s h call none none
      { s with holder := Function.update s.holder (on i) (some i) }
      (statements call.2 (body call.2 call.1)) h none none where
  inv := hs.lock
  frame := {
    holder := fun k' hk' => Function.update_of_ne hk' _ _
    transaction := fun _ _ => rfl
    alone := by simp [hfree]
    committed := .inr ⟨rfl, rfl⟩ }
  place := .holding (Function.update_self ..) (hs.idle _ hfree) rfl
  effect := .inl ⟨rfl, rfl⟩
  kept := by simp
  settled := by simp

lemma turn_unlock (hs : Inv s h) (hi : s.holder (on i) = some i)
    (ht : s.transaction (on i) = none) (r : StoreCalls.Ans call) :
    Turn on i s h call (some r) (some r)
      { s with holder := Function.update s.holder (on i) none } (.pure r) h (some r) (some r) where
  inv := hs.unlock ht
  frame := {
    holder := fun k' hk' => Function.update_of_ne hk' _ _
    transaction := fun _ _ => rfl
    alone := by simp [hi]
    committed := .inr ⟨rfl, rfl⟩ }
  place := .left r rfl
  effect := .inl ⟨rfl, rfl⟩
  kept := fun _ hq => hq
  settled := by simp

/-- Leaving without a change: the call takes effect here if it has not yet. -/
lemma turn_leave (hs : Inv s h) (hi : s.holder (on i) = some i)
    (ht : ∀ db, s.transaction (on i) ≠ some (.writing db)) {r : StoreCalls.Ans call}
    {told done : Option (StoreCalls.Ans call)}
    (hdone : done = some r ∨ done = none ∧ contract h call r h)
    (htold : told = some r ∨ told = none ∧ ((∃ e, r = .error e) ∨ call.1.input = none)) :
    Turn on i s h call told done (s.setTransaction (on i) none) (statements call.2 (.pure r)) h
      (some r) (some r) where
  inv := hs.setTransaction hi ht (by simp)
  frame := .of_holder hi rfl (fun k' hk' => Function.update_of_ne hk' _ _) (.inr ⟨rfl, rfl⟩)
  place := .leaving r hi (Function.update_self ..) rfl
  effect := by
    rcases hdone with rfl | ⟨rfl, hr⟩
    · exact .inl ⟨rfl, rfl⟩
    · exact .inr ⟨rfl, r, rfl, hr⟩
  kept := by
    rcases htold with rfl | ⟨rfl, -⟩
    · exact fun _ hq => hq
    · simp
  settled := by
    rcases htold with rfl | ⟨rfl, hr⟩
    · simp
    · rintro - q hq
      obtain rfl := Option.some.inj hq
      exact hr.imp_right .inr

lemma statements_ending {α : Type} (env : Env) (w : SqlProg (Except StoreError α)) :
    ∃ a k, statements env (w.bind ending) = .act (.statement env a) k := by
  cases w with
  | pure r => exact ⟨.drop, _, rfl⟩
  | act a k => exact ⟨a, _, rfl⟩

/-- The call writes, or goes on writing. -/
lemma turn_working (hs : Inv s h) (hi : s.holder (on i) = some i)
    (hwriter : s.writer = none ∨ s.writer = some (on i)) (w : SqlProg (StoreCalls.Ans call))
    (db : Db) (hw : Scoped w)
    (he : Effect call h (undisturbed call.2 w s.committed db))
    {told : Option (StoreCalls.Ans call)}
    (htold : told = none ∨
      told = some (undisturbed call.2 w s.committed db).1) :
    Turn on i s h call told none (s.working (on i) db) (statements call.2 (w.bind ending)) h
      (some (undisturbed call.2 w s.committed db).1) none where
  inv := hs.working hi hwriter db
  frame := .of_holder hi rfl (fun k' hk' => Function.update_of_ne hk' _ _) (.inr ⟨rfl, rfl⟩)
  place := .writing w db hi (Function.update_self ..) hw he rfl
  effect := .inl ⟨rfl, rfl⟩
  kept := by
    rcases htold with rfl | rfl
    · simp
    · exact fun _ hq => hq
  settled _ _ _ := by
    obtain ⟨a, k, hk⟩ := statements_ending call.2 w
    exact .inr (.inl ⟨⟨call.2, a, k, hk⟩, db, Function.update_self ..⟩)

/-- The transaction commits, and the call takes effect. -/
lemma turn_commit (hs : Inv s h) (hi : s.holder (on i) = some i) {db : Db}
    (ht : s.transaction (on i) = some (.writing db)) {r : StoreCalls.Ans call} {h' : Histories}
    (hr : contract h call r h') (hdb : Stored db h') :
    Turn on i s h call (some r) none
      { s.setTransaction (on i) none with
        committed := db, changes := s.changes + 1, writer := none }
      (statements call.2 (ending r)) h' (some r) (some r) where
  inv := hs.ended ((hs.writer _).mpr ⟨db, ht⟩) hdb _
  frame := .of_holder hi rfl (fun k' hk' => Function.update_of_ne hk' _ _)
    (.inl ((hs.writer _).mpr ⟨db, ht⟩))
  place := .ended r hi (Function.update_self ..) rfl
  effect := .inr ⟨rfl, r, rfl, hr⟩
  kept := fun _ hq => hq
  settled := by simp

/-- The transaction is rolled back, and the call takes effect without a change. -/
lemma turn_rollback (hs : Inv s h) (hi : s.holder (on i) = some i) {db : Db}
    (ht : s.transaction (on i) = some (.writing db)) {r : StoreCalls.Ans call}
    (hr : contract h call r h) :
    Turn on i s h call (some r) none { s.setTransaction (on i) none with writer := none }
      (statements call.2 (.pure r)) h (some r) (some r) where
  inv := hs.ended ((hs.writer _).mpr ⟨db, ht⟩) hs.stored _
  frame := .of_holder hi rfl (fun k' hk' => Function.update_of_ne hk' _ _) (.inr ⟨rfl, rfl⟩)
  place := .leaving r hi (Function.update_self ..) rfl
  effect := .inr ⟨rfl, r, rfl, hr⟩
  kept := fun _ hq => hq
  settled := by simp

/-- A deferred transaction is open, and nothing has run in it, or has succeeded in it. -/
lemma turn_begun (hs : Inv s h) (hi : s.holder (on i) = some i)
    (ht : ∀ db, s.transaction (on i) ≠ some (.writing db)) (w : SqlProg (StoreCalls.Ans call))
    (hw : Opening w)
    (he : ∀ db g, Stored db g → Effect call g (undisturbed call.2 w db db)) :
    Turn on i s h call none none (s.setTransaction (on i) (some .begun))
      (statements call.2 (w.bind ending)) h none none where
  inv := hs.setTransaction hi ht (by simp)
  frame := .of_holder hi rfl (fun k' hk' => Function.update_of_ne hk' _ _) (.inr ⟨rfl, rfl⟩)
  place := .begun w hi (Function.update_self ..) hw he rfl
  effect := .inl ⟨rfl, rfl⟩
  kept := by simp
  settled := by simp

lemma setTransaction_self {t : Option Transaction} (ht : s.transaction (on i) = t) :
    s.setTransaction (on i) t = s := by
  rw [setTransaction, ← ht, Function.update_eq_self]

/-- A statement outside every transaction, which changes nothing, is all the call does. -/
lemma turn_answer (hs : Inv s h) (hi : s.holder (on i) = some i)
    (ht : s.transaction (on i) = none) {r : StoreCalls.Ans call} (hr : contract h call r h)
    (hanswer : (∃ e, r = .error e) ∨ call.1.input = none) :
    Turn on i s h call none none s (statements call.2 (.pure r)) h (some r) (some r) := by
  have hturn : Turn on i s h call none none (s.setTransaction (on i) none)
      (statements call.2 (.pure r)) h (some r) (some r) :=
    turn_leave hs hi (by simp [ht]) (.inr ⟨rfl, hr⟩) (.inr ⟨rfl, hanswer⟩)
  rwa [setTransaction_self ht] at hturn

/-- The tables determine the histories. -/
lemma stored_unique {db : Db} {g g' : Histories} (hg : Stored db g) (hg' : Stored db g') :
    g = g' := by
  funext user
  have heq : (revisionsOf db user).mapM readRevision = some (g user) := hg.mapM_readRevision
  rw [hg'.mapM_readRevision] at heq
  exact (Option.some.inj heq).symm

/-- A run that committed nothing took effect without a change. -/
lemma Effect.unchanged {q : StoreCalls.Ans call × Connection} (he : Effect call h q)
    (hs : Stored q.2.committed h) : contract h call q.1 h := by
  obtain ⟨h', hc, hdb⟩ := he
  rwa [stored_unique hdb hs] at hc

lemma contract_error {e : StoreError} : contract h call (.error e) h := .inr ⟨⟨e, rfl⟩, rfl⟩

/-- A statement of a transaction that writes. -/
lemma turn_of_writing (hs : Inv s h) (hi : s.holder (on i) = some i) {db : Db}
    (ht : s.transaction (on i) = some (.writing db)) {a : SqlAct}
    {k : Option a.Val → SqlProg (StoreCalls.Ans call)} (hw : Scoped (.act a k))
    (he : Effect call h (undisturbed call.2 (.act a k) s.committed db)) :
    ∃ h' told' done', Turn on i s h call
      (some (undisturbed call.2 (.act a k) s.committed db).1) none
      (execute call.2 (on i) a s).2
      (statements call.2 ((k (execute call.2 (on i) a s).1).bind ending)) h' told' done' := by
  have hwriter := (hs.writer _).mpr ⟨db, ht⟩
  rcases hw with ⟨ha, hk⟩ | ⟨rfl, hk⟩
  · obtain ⟨r, db', halone, hshared⟩ := execute_writing call.2 hwriter ht ha
    rw [undisturbed_act halone] at he ⊢
    rw [hshared]
    exact ⟨h, _, _, turn_working hs hi (.inr hwriter) (k r) db' (hk r) he (.inr rfl)⟩
  · by_cases hfails : call.2.fails .commit
    · have halone : SqliteProfiles.exec call.2 .commit ⟨s.committed, some db⟩ =
          (none, ⟨s.committed, some db⟩) := exec_failed rfl hfails
      have hshared : execute call.2 (on i) .commit s = (none, s) := by
        simp [execute, SqlAct.statement, hfails]
      obtain ⟨x, hx⟩ := hk none
      rw [undisturbed_act halone] at he ⊢
      rw [hshared]
      have hturn := turn_working hs hi (.inr hwriter) (k none) db (by rw [hx]; trivial) he
        (.inr rfl)
      rw [working_self hwriter ht] at hturn
      exact ⟨h, _, _, hturn⟩
    · have halone : SqliteProfiles.exec call.2 .commit ⟨s.committed, some db⟩ =
          (some (), ⟨db, none⟩) := exec_performed rfl hfails
      obtain ⟨x, hx⟩ := hk (some ())
      have hrun : undisturbed call.2 (.act .commit k) s.committed db = (x, ⟨db, none⟩) := by
        rw [undisturbed, Prog.run, halone]
        dsimp only
        rw [hx, Prog.run]
      rw [hrun] at he ⊢
      obtain ⟨h', hx', hdb⟩ := he
      have hshared : execute call.2 (on i) .commit s = s.commit (on i) := by
        simp [execute, SqlAct.statement, hfails, perform]
      rw [hshared, commit, ht]
      dsimp only
      rw [hx]
      exact ⟨h', _, _, turn_commit hs hi ht hx' hdb⟩

/-- The first statement of a deferred transaction. -/
lemma turn_of_begun (hs : Inv s h) (hi : s.holder (on i) = some i)
    (ht : s.transaction (on i) = some .begun) {a : SqlAct}
    {k : Option a.Val → SqlProg (StoreCalls.Ans call)} (hw : Opening (.act a k))
    (he : ∀ db g, Stored db g → Effect call g (undisturbed call.2 (.act a k) db db)) :
    ∃ h' told' done', Turn on i s h call none none (execute call.2 (on i) a s).2
      (statements call.2 ((k (execute call.2 (on i) a s).1).bind ending)) h' told' done' := by
  obtain ⟨ha, ⟨e, hnone⟩, hk⟩ := hw
  rcases execute_begun call.2 ht ha with hshared | ⟨hfree, r, db, halone, hshared⟩
  · rw [hshared]
    dsimp only
    have hopening : Opening (k none) := by
      rw [hnone]
      exact ⟨e, rfl⟩
    have heffect : ∀ db g, Stored db g → Effect call g (undisturbed call.2 (k none) db db) := by
      intro db g hdb
      rw [hnone]
      exact ⟨g, contract_error, hdb⟩
    have hturn : Turn on i s h call none none (s.setTransaction (on i) (some .begun))
        (statements call.2 ((k none).bind ending)) h none none :=
      turn_begun hs hi (by simp [ht]) (k none) hopening heffect
    rw [setTransaction_self ht] at hturn
    exact ⟨h, _, _, hturn⟩
  · have heffect := he s.committed h hs.stored
    rw [undisturbed_act halone] at heffect
    rw [hshared]
    exact ⟨h, _, _, turn_working hs hi (.inl hfree) (k r) db (hk r) heffect (.inl rfl)⟩

/-- What a call alone on idle tables does. -/
lemma effect_body (call : StoreCalls.Act) {db : Db} {g : Histories} (hdb : Stored db g) :
    Effect call g ((body call.2 call.1).run (SqliteProfiles.exec call.2) ⟨db, none⟩) := by
  rcases run_body call.2 (c := ⟨db, none⟩) ⟨rfl, hdb⟩ call.1 with
    ⟨h', hplain, hr⟩ | ⟨herr, hr, -⟩
  · exact ⟨h', .inl hplain, hr.stored⟩
  · exact ⟨g, .inr ⟨herr, rfl⟩, hr.stored⟩

/-- What the work of a call's transaction does, run alone from tables that hold `g`. -/
lemma effect_transaction {behavior : TransactionBehavior} {w : SqlProg (StoreCalls.Ans call)}
    (hbody : body call.2 call.1 = SqliteProfiles.transaction behavior w)
    (hbegin : ¬call.2.fails .begin = true) {db : Db} {g : Histories} (hdb : Stored db g) :
    Effect call g (undisturbed call.2 w db db) := by
  obtain ⟨g', hc, hg'⟩ := effect_body call hdb
  rw [hbody, run_transaction _ _ rfl, if_neg hbegin] at hc hg'
  exact ⟨g', hc, hg'⟩

/-- A transaction begins, or fails to. -/
lemma turn_of_begin (hs : Inv s h) (hi : s.holder (on i) = some i)
    (ht : s.transaction (on i) = none) {behavior : TransactionBehavior}
    {w : SqlProg (StoreCalls.Ans call)}
    (hbody : body call.2 call.1 = SqliteProfiles.transaction behavior w)
    (hw : behavior = .deferred ∧ Opening w ∨ behavior = .immediate ∧ Scoped w)
    {k : Option Unit → SqlProg (StoreCalls.Ans call)}
    (hact : body call.2 call.1 = .act (.begin behavior) k) :
    ∃ h' told' done', Turn on i s h call none none (execute call.2 (on i) (.begin behavior) s).2
      (statements call.2 (k (execute call.2 (on i) (.begin behavior) s).1)) h' told' done' := by
  obtain ⟨hnone, hsome⟩ : k none = .pure (.error .backend) ∧ k (some ()) = w.bind ending := by
    rw [hbody] at hact
    unfold SqliteProfiles.transaction attempt at hact
    cases hact
    exact ⟨rfl, rfl⟩
  have hidle : ∀ db, s.transaction (on i) ≠ some (.writing db) := by simp [ht]
  have hfail : execute call.2 (on i) (.begin behavior) s = (none, s) →
      ∃ h' told' done', Turn on i s h call none none
        (execute call.2 (on i) (.begin behavior) s).2
        (statements call.2 (k (execute call.2 (on i) (.begin behavior) s).1)) h' told' done' := by
    intro hshared
    rw [hshared]
    dsimp only
    rw [hnone]
    exact ⟨h, _, _, turn_answer hs hi ht contract_error (.inl ⟨.backend, rfl⟩)⟩
  by_cases hfails : call.2.fails .begin
  · exact hfail (by simp [execute, SqlAct.statement, hfails])
  · have hshared : execute call.2 (on i) (.begin behavior) s = s.begin (on i) behavior := by
      simp [execute, SqlAct.statement, hfails, perform]
    rcases hw with ⟨rfl, hw⟩ | ⟨rfl, hw⟩
    · rw [hshared, Replicas.begin, ht]
      dsimp only
      rw [hsome]
      exact ⟨h, _, _, turn_begun hs hi hidle w hw fun db g hdb =>
        effect_transaction hbody hfails hdb⟩
    · cases hwriter : s.writer with
      | some k' => exact hfail (by simp [hshared, Replicas.begin, ht, hwriter])
      | none =>
        rw [hshared]
        simp only [Replicas.begin, ht, hwriter, Option.isNone_none, if_true]
        rw [hsome]
        exact ⟨h, _, _, turn_working hs hi (.inl hwriter) w s.committed hw
          (effect_transaction hbody hfails hs.stored) (.inl rfl)⟩

/-- The first statement of a call. -/
lemma turn_of_holding (hs : Inv s h) (hi : s.holder (on i) = some i)
    (ht : s.transaction (on i) = none) {a : SqlAct}
    {k : Option a.Val → SqlProg (StoreCalls.Ans call)} (hbody : body call.2 call.1 = .act a k) :
    ∃ h' told' done', Turn on i s h call none none (execute call.2 (on i) a s).2
      (statements call.2 (k (execute call.2 (on i) a s).1)) h' told' done' := by
  rcases body_cases call.2 call.1 with ⟨a', k', heq, ha, hk, hinput⟩ | ⟨w, heq, hw⟩ | ⟨w, heq, hw⟩
  · rw [hbody] at heq
    cases heq
    have heffect := effect_body call hs.stored
    obtain ⟨x, hx⟩ := hk (SqliteProfiles.exec call.2 a ⟨s.committed, none⟩).1
    rw [hbody, Prog.run, hx, Prog.run, exec_unchanged ha] at heffect
    rw [execute_idle ht ha]
    dsimp only
    rw [hx]
    exact ⟨h, _, _, turn_answer hs hi ht (heffect.unchanged hs.stored) (.inr hinput)⟩
  · have hact := hbody.symm.trans heq
    unfold SqliteProfiles.transaction attempt at hact
    cases hact
    exact turn_of_begin hs hi ht heq (.inl ⟨rfl, hw⟩) hbody
  · have hact := hbody.symm.trans heq
    unfold SqliteProfiles.transaction attempt at hact
    cases hact
    exact turn_of_begin hs hi ht heq (.inr ⟨rfl, hw⟩) hbody

lemma exec_statement [DecidableEq ι] {env : Env} {a : SqlAct} {r : Option a.Val}
    {s' : Replicas ι κ} (hi : s.holder (on i) = some i)
    (he : exec on i (.statement env a) s = some (r, s')) :
    (execute env (on i) a s).1 = r ∧ (execute env (on i) a s).2 = s' := by
  simp only [exec, hi, if_true, Option.some.injEq] at he
  rw [he]
  exact ⟨rfl, rfl⟩

/-- The last statement of a transaction that never took the write lock, or has committed. -/
lemma turn_of_ending (hs : Inv s h) (hi : s.holder (on i) = some i)
    (ht : ∀ db, s.transaction (on i) ≠ some (.writing db)) {r : StoreCalls.Ans call}
    {told done : Option (StoreCalls.Ans call)}
    (hdone : done = some r ∨ done = none ∧ contract h call r h)
    (htold : told = some r ∨ told = none ∧ ((∃ e, r = .error e) ∨ call.1.input = none)) :
    Turn on i s h call told done (execute call.2 (on i) .drop s).2
      (statements call.2 (.pure r)) h (some r) (some r) := by
  have hshared : (execute call.2 (on i) .drop s).2 = s.setTransaction (on i) none := by
    change s.rollback (on i) = _
    unfold rollback
    split
    · rename_i db hdb
      exact absurd hdb (ht db)
    · rfl
  rw [hshared]
  exact turn_leave hs hi ht hdone htold

/-- One action of a call. -/
theorem Place.turn [DecidableEq ι] (hs : Inv s h) {x : Act}
    {k : x.Ans → Prog E (StoreCalls.Ans call)} {told done : Option (StoreCalls.Ans call)}
    (hp : Place on i s h call (.act x k) told done) {r : x.Ans} {s' : Replicas ι κ}
    (he : exec on i x s = some (r, s')) :
    ∃ h' told' done', Turn on i s h call told done s' (k r) h' told' done' := by
  cases hp with
  | waiting heq =>
    cases heq
    simp only [exec] at he
    split at he
    · rename_i hfree
      cases he
      exact ⟨h, _, _, turn_lock hs (Option.isNone_iff_eq_none.mp hfree)⟩
    · cases he
  | holding hi ht heq =>
    obtain ⟨a, f, hbody⟩ := body_act call.2 call.1
    rw [hbody] at heq
    cases heq
    obtain ⟨rfl, rfl⟩ := exec_statement hi he
    exact turn_of_holding hs hi ht hbody
  | begun w hi ht hw heffect heq =>
    cases w with
    | pure q =>
      cases heq
      obtain ⟨rfl, rfl⟩ := exec_statement hi he
      obtain ⟨e, rfl⟩ := hw
      exact ⟨h, _, _, turn_of_ending hs hi (by simp [ht]) (.inr ⟨rfl, contract_error⟩)
        (.inr ⟨rfl, .inl ⟨e, rfl⟩⟩)⟩
    | act a f =>
      cases heq
      obtain ⟨rfl, rfl⟩ := exec_statement hi he
      exact turn_of_begun hs hi ht hw heffect
  | writing w db hi ht hw heffect heq =>
    cases w with
    | pure q =>
      cases heq
      obtain ⟨rfl, rfl⟩ := exec_statement hi he
      have hshared : (execute call.2 (on i) .drop s).2 =
          { s.setTransaction (on i) none with writer := none } := by
        change s.rollback (on i) = _
        rw [rollback, ht]
      rw [hshared]
      exact ⟨h, _, _, turn_rollback hs hi ht (heffect.unchanged hs.stored)⟩
    | act a f =>
      cases heq
      obtain ⟨rfl, rfl⟩ := exec_statement hi he
      exact turn_of_writing hs hi ht hw heffect
  | ended q hi ht heq =>
    cases heq
    obtain ⟨rfl, rfl⟩ := exec_statement hi he
    exact ⟨h, _, _, turn_of_ending hs hi (by simp [ht]) (.inl rfl) (.inl rfl)⟩
  | leaving q hi ht heq =>
    cases heq
    simp only [exec, hi, if_true] at he
    cases he
    exact ⟨h, _, _, turn_unlock hs hi ht q⟩
  | left q heq => cases heq

end Turn

end Replicas

end Knova.SqliteProfiles
