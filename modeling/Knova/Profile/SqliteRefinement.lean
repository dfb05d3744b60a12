import Knova.Profile.Sqlite

/-!
# The SQLite repository keeps the contract

The two tables represent every user's revisions: the row in `profiles` is the last one,
the rows in `profile_revisions` are all of them. Every method run on tables that
represent some histories does what the contract allows.
-/

namespace Knova.SqliteProfiles

open Library Histories

/-- A counter as SQLite stores it. -/
def clamp (n : ℕ) : I64 := ⟨min n (2 ^ 63 - 1), by omega, by omega⟩

lemma clamp_val {n : ℕ} (h : n < 2 ^ 63) : (clamp n).val = n := by
  simp only [clamp]
  omega

lemma clamp_inj {n m : ℕ} (hn : n < 2 ^ 63) (hm : m < 2 ^ 63) (h : clamp n = clamp m) :
    n = m := by
  have := congrArg I64.val h
  rw [clamp_val hn, clamp_val hm] at this
  exact_mod_cast this

lemma toSql_eq {v : Version} (h : v.get < 2 ^ 63) : toSql v = .ok (clamp v.get) := by
  simp only [toSql, h, dite_true, Except.ok.injEq]
  ext
  rw [clamp_val h]

lemma fromSql_clamp {v : Version} (h : v.get < 2 ^ 63) : fromSql (clamp v.get) = v := by
  ext
  simp only [fromSql, clamp_val h]
  omega

lemma u64ToSql_eq {n : Fin (2 ^ 64)} (h : n.val < 2 ^ 63) : u64ToSql n = some (clamp n.val) := by
  simp only [u64ToSql, h, dite_true, Option.some.injEq]
  ext
  rw [clamp_val h]

lemma u64ToSql_eq_none {n : Fin (2 ^ 64)} (h : ¬n.val < 2 ^ 63) : u64ToSql n = none := by
  simp only [u64ToSql, h, dite_false]

lemma u64FromSql_clamp {n : Fin (2 ^ 64)} (h : n.val < 2 ^ 63) :
    u64FromSql (clamp n.val) = some n := by
  have hv := clamp_val h
  simp only [u64FromSql, hv, Int.natCast_nonneg, if_true, Option.some.injEq]
  ext
  simp

/-- The row of `profiles` a revision projects to. -/
def profileRow (rev : Revision) : ProfileRow :=
  ⟨rev.address, rev.phoneNumber, clamp rev.version.get⟩

/-- The row of `profile_revisions` of a revision, after its version. -/
def revisionRow (rev : Revision) : I64 × RevisionRow :=
  (clamp rev.version.get, ⟨rev.address, rev.phoneNumber, clamp rev.recordedAtMs.val⟩)

/-- Both of a revision's numbers fit an `i64`. -/
def Fits (rev : Revision) : Prop := rev.version.get < 2 ^ 63 ∧ rev.recordedAtMs.val < 2 ^ 63

lemma readRevision_revisionRow {rev : Revision} (h : Fits rev) :
    readRevision (revisionRow rev) = some rev := by
  simp [readRevision, revisionRow, u64FromSql_clamp h.2, fromSql_clamp h.1]

/-- The tables hold the revisions of `h`. -/
structure Stored (db : Db) (h : Histories) : Prop where
  profile : ∀ user, db.profiles.lookup user = (h user).getLast?.map profileRow
  revision : ∀ user v row, db.profileRevisions.lookup (user, v) = some row ↔
    ∃ rev ∈ h user, (v, row) = revisionRow rev
  contiguous : ∀ user, Contiguous (h user)
  fits : ∀ user, ∀ rev ∈ h user, Fits rev

lemma stored_empty : Stored ⟨∅, ∅⟩ Histories.empty where
  profile user := by simp [Histories.empty]
  revision user v row := by simp [Histories.empty]
  contiguous user := .nil
  fits user := by simp [Histories.empty]

/-! ### Reading the tables -/

section Read

variable {db : Db} {h : Histories} {user : UserId}

lemma Stored.profile_getLast (hs : Stored db h) {last : Revision}
    (hl : (h user).getLast? = some last) : db.profiles.lookup user = some (profileRow last) := by
  rw [hs.profile, hl]
  rfl

lemma Stored.version_inj (hs : Stored db h) {last : Revision}
    (hl : (h user).getLast? = some last) {v : Version} (hv : v.get < 2 ^ 63) :
    clamp last.version.get = clamp v.get ↔ last.version = v := by
  constructor
  · intro hc
    ext
    exact clamp_inj (hs.fits user last (List.mem_of_getLast? hl)).1 hv hc
  · rintro rfl
    rfl

lemma Stored.eq_of_row_version (hs : Stored db h) {x y : Revision} (hx : x ∈ h user)
    (hy : y ∈ h user) (hv : (revisionRow x).1 = (revisionRow y).1) : x = y := by
  refine (hs.contiguous user).eq_of_version_eq hx hy (Version.ext ?_)
  exact clamp_inj (hs.fits user x hx).1 (hs.fits user y hy).1 hv

lemma Stored.mem_rows (hs : Stored db h) {x : I64 × RevisionRow} :
    x ∈ (db.profileRevisions.entries.filter fun e => e.1.1 = user).map (fun e => (e.1.2, e.2)) ↔
      ∃ rev ∈ h user, x = revisionRow rev := by
  rw [← hs.revision user x.1 x.2, ← Option.mem_def, AList.mem_lookup_iff]
  simp only [List.mem_map, List.mem_filter, decide_eq_true_eq]
  constructor
  · rintro ⟨⟨⟨owner, v⟩, row⟩, ⟨he, rfl⟩, rfl⟩
    exact he
  · intro he
    exact ⟨⟨(user, x.1), x.2⟩, ⟨he, rfl⟩, rfl⟩

lemma nodup_rows (db : Db) (user : UserId) :
    ((db.profileRevisions.entries.filter fun e => e.1.1 = user).map
      fun e => (e.1.2, e.2)).Nodup := by
  refine List.Nodup.map_on ?_ (db.profileRevisions.nodupKeys.nodup.filter _)
  rintro ⟨⟨o, v⟩, r⟩ hx ⟨⟨o', v'⟩, r'⟩ hy hxy
  simp only [List.mem_filter, decide_eq_true_eq] at hx hy
  obtain ⟨-, rfl⟩ := hx
  obtain ⟨-, rfl⟩ := hy
  simp only [Prod.mk.injEq] at hxy
  obtain ⟨rfl, rfl⟩ := hxy
  rfl

lemma Stored.pairwise_rows (hs : Stored db h) :
    ((h user).map revisionRow).Pairwise fun a b => a.1.val < b.1.val := by
  refine List.pairwise_map.mpr ((hs.contiguous user).pairwise.imp_of_mem ?_)
  intro x y hx hy hxy
  simp only [revisionRow, clamp_val (hs.fits user x hx).1, clamp_val (hs.fits user y hy).1]
  exact_mod_cast hxy

/-- The history query answers the rows of `h`, in its order: both lists have the same
members and are sorted by version. -/
lemma Stored.revisionsOf_eq (hs : Stored db h) :
    revisionsOf db user = (h user).map revisionRow := by
  have hmem : ∀ x, x ∈ revisionsOf db user ↔ ∃ rev ∈ h user, x = revisionRow rev := by
    intro x
    rw [revisionsOf, List.mem_mergeSort, hs.mem_rows]
  have hsorted : (revisionsOf db user).Pairwise fun a b => a.1.val ≤ b.1.val := by
    have hle : (revisionsOf db user).Pairwise fun a b => decide (a.1.val ≤ b.1.val) :=
      List.pairwise_mergeSort (by simp; omega) (by simp; omega) _
    simpa using hle
  have hnodup : (revisionsOf db user).Nodup := List.nodup_mergeSort.mpr (nodup_rows db user)
  have hperm : (revisionsOf db user).Perm ((h user).map revisionRow) := by
    refine (List.perm_ext_iff_of_nodup hnodup ?_).mpr ?_
    · exact hs.pairwise_rows.imp fun hlt heq => by simp [heq] at hlt
    · intro x
      simp only [hmem x, List.mem_map, eq_comm]
  refine List.Perm.eq_of_pairwise ?_ hsorted (hs.pairwise_rows.imp le_of_lt) hperm
  intro a b ha hb hab hba
  obtain ⟨x, hx, rfl⟩ := (hmem a).mp ha
  obtain ⟨y, hy, rfl⟩ := List.mem_map.mp hb
  rw [hs.eq_of_row_version hx hy (I64.ext (le_antisymm hab hba))]

lemma Stored.mapM_readRevision (hs : Stored db h) :
    (revisionsOf db user).mapM readRevision = some (h user) := by
  rw [hs.revisionsOf_eq]
  have hfits := hs.fits user
  generalize h user = l at hfits
  induction l with
  | nil => rfl
  | cons rev l ih =>
    rw [List.map_cons, List.mapM_cons, readRevision_revisionRow (hfits rev (by simp)),
      ih fun r hr => hfits r (by simp [hr])]
    rfl

end Read

/-! ### Writing the tables -/

section Write

variable {db : Db} {h : Histories} {user : UserId} {rev : Revision}

lemma Stored.lookup_next (hs : Stored db h) (hv : rev.version.get = (h user).length + 1)
    (hfits : Fits rev) :
    db.profileRevisions.lookup (user, clamp rev.version.get) = none := by
  rw [Option.eq_none_iff_forall_ne_some]
  intro row hrow
  obtain ⟨old, hold, heq⟩ := (hs.revision user _ row).mp hrow
  obtain ⟨k, hk, rfl⟩ := List.mem_iff_getElem.mp hold
  have hver := (hs.contiguous user).getElem_version hk
  have := clamp_inj hfits.1 (hs.fits user _ hold).1 (Prod.mk.inj heq).1
  omega

/-- Writing the next revision of a user into both tables. -/
lemma Stored.append (hs : Stored db h) (hv : rev.version.get = (h user).length + 1)
    (hfits : Fits rev) :
    Stored ⟨db.profiles.insert user (profileRow rev),
        db.profileRevisions.insert (user, (revisionRow rev).1) (revisionRow rev).2⟩
      (Function.update h user (h user ++ [rev])) where
  profile u := by
    by_cases hu : u = user
    · subst hu
      simp
    · rw [AList.lookup_insert_ne hu, Function.update_of_ne hu]
      exact hs.profile u
  revision u v row := by
    by_cases hu : u = user
    · subst hu
      rw [Function.update_self]
      by_cases hver : v = (revisionRow rev).1
      · subst hver
        have hnone := hs.lookup_next hv hfits
        rw [AList.lookup_insert]
        constructor
        · rintro ⟨⟩
          exact ⟨rev, by simp, rfl⟩
        · rintro ⟨r, hr, heq⟩
          rcases List.mem_append.mp hr with hr | hr
          · have := (hs.revision u _ row).mpr ⟨r, hr, heq⟩
            simp only [revisionRow, hnone, reduceCtorEq] at this
          · rw [List.mem_singleton.mp hr] at heq
            exact congrArg some (Prod.mk.inj heq).2.symm
      · have hne : (u, v) ≠ (u, (revisionRow rev).1) := by simpa using hver
        rw [AList.lookup_insert_ne hne, hs.revision u v row]
        constructor
        · rintro ⟨r, hr, heq⟩
          exact ⟨r, by simp [hr], heq⟩
        · rintro ⟨r, hr, heq⟩
          rcases List.mem_append.mp hr with hr | hr
          · exact ⟨r, hr, heq⟩
          · rw [List.mem_singleton.mp hr] at heq
            exact absurd (Prod.mk.inj heq).1 hver
    · have hne : (u, v) ≠ (user, (revisionRow rev).1) := by
        intro heq
        exact hu (Prod.mk.inj heq).1
      rw [AList.lookup_insert_ne hne, Function.update_of_ne hu]
      exact hs.revision u v row
  contiguous u := by
    by_cases hu : u = user
    · subst hu
      rw [Function.update_self]
      exact (hs.contiguous u).snoc hv
    · rw [Function.update_of_ne hu]
      exact hs.contiguous u
  fits u := by
    by_cases hu : u = user
    · subst hu
      rw [Function.update_self]
      intro r hr
      rcases List.mem_append.mp hr with hr | hr
      · exact hs.fits u r hr
      · rwa [List.mem_singleton.mp hr]
    · rw [Function.update_of_ne hu]
      exact hs.fits u

end Write

/-! ### The methods -/

section Methods

variable {env : Env} {c : Connection} {h : Histories}

lemma exec_failed {a : SqlAct} {st : Statement} (ha : a.statement = some st)
    (hf : env.fails st = true) : exec env a c = (none, c) := by
  simp [exec, ha, hf]

lemma exec_performed {a : SqlAct} {st : Statement} (ha : a.statement = some st)
    (hf : ¬env.fails st = true) : exec env a c = perform a c := by
  simp [exec, ha, hf]

lemma run_attempt {α : Type} (a : SqlAct) (k : a.Val → SqlProg (Except StoreError α))
    (c : Connection) : (attempt a k).run (exec env) c =
      match exec env a c with
      | (none, c') => (.error .backend, c')
      | (some x, c') => (k x).run (exec env) c' := by
  unfold attempt
  rw [Prog.run]
  rcases exec env a c with ⟨_ | x, c'⟩
  · rfl
  · rfl

/-- A transaction on an idle connection: `work` sees what is committed, and the
connection is idle again afterwards. -/
lemma run_transaction {α : Type} (behavior : TransactionBehavior)
    (work : SqlProg (Except StoreError α)) (hidle : c.working = none) :
    (transaction behavior work).run (exec env) c =
      if env.fails .begin then (.error .backend, c)
      else
        ((work.run (exec env) (⟨c.committed, some c.committed⟩ : Connection)).1,
          ⟨(work.run (exec env) (⟨c.committed, some c.committed⟩ : Connection)).2.committed,
            none⟩) := by
  unfold transaction
  rw [run_attempt]
  by_cases hb : env.fails .begin
  · simp [exec, SqlAct.statement, hb]
  · simp [exec, SqlAct.statement, hb, perform, hidle, Prog.run_bind, Prog.run]

/-- The driver fails no statement, and the clock fits the timestamp column. -/
def Quiet (env : Env) : Prop := (∀ st, env.fails st = false) ∧ env.nowMs.val < 2 ^ 63

/-- An update whose next version fits the version column. -/
def InRange : StoreOp → Prop
  | .update _ expected _ => expected.get + 1 < 2 ^ 63
  | _ => True

/-- The connection is idle and its tables hold `h`. -/
structure Represents (c : Connection) (h : Histories) : Prop where
  idle : c.working = none
  stored : Stored c.committed h

/-- What a method may do: what the plain specification says or, for a reason, an error
that changes nothing. -/
def Outcome (env : Env) (op : StoreOp) (h : Histories) (r : op.Ret) (c' : Connection) : Prop :=
  (∃ h', (r, h') = apply env op h ∧ Represents c' h') ∨
    ((∃ e, r = .error e) ∧ Represents c' h ∧ ¬(Quiet env ∧ InRange op))

lemma not_quiet {st : Statement} (hf : env.fails st = true) : ¬Quiet env := by
  intro hq
  rw [hq.1 st] at hf
  cases hf

/-- Leaving a method with an error after its transaction was rolled back. -/
lemma Outcome.rollback {op : StoreOp} {db : Db} (hs : Stored db h) (e : StoreError)
    (hnot : ¬(Quiet env ∧ InRange op)) : Outcome env op h (.error e) ⟨db, none⟩ :=
  .inr ⟨⟨e, rfl⟩, ⟨rfl, hs⟩, hnot⟩

/-- The last two statements of an accepted write, after the row of `profiles` changed. -/
lemma run_publish {op : StoreOp} {db : Db} {user : UserId} (rev : Revision)
    {a : SqlAct} {r : op.Ret} (hs : Stored db h)
    (ha : a = .insertRevision user (clamp rev.version.get) rev.address rev.phoneNumber
      rev.recordedAtMs)
    (hv : rev.version.get = (h user).length + 1) (hver : rev.version.get < 2 ^ 63)
    (hnow : env.nowMs = rev.recordedAtMs)
    (hplain : (r, Function.update h user (h user ++ [rev])) = apply env op h) :
    let q := (attempt a fun _ => attempt .commit fun _ => .pure r).run (exec env)
      ⟨db, some { db with profiles := db.profiles.insert user (profileRow rev) }⟩
    Outcome env op h q.1 ⟨q.2.committed, none⟩ := by
  subst ha
  dsimp only
  rw [run_attempt]
  by_cases hinsert : env.fails .insertRevision
  · rw [exec_failed rfl hinsert]
    exact .rollback hs _ fun h => not_quiet hinsert h.1
  rw [exec_performed rfl hinsert]
  by_cases htime : rev.recordedAtMs.val < 2 ^ 63
  · have hfits : Fits rev := ⟨hver, htime⟩
    simp only [perform, view, Option.getD_some, u64ToSql_eq htime, hs.lookup_next hv hfits,
      write, run_attempt]
    by_cases hcommit : env.fails .commit
    · rw [exec_failed rfl hcommit]
      exact .rollback hs _ fun h => not_quiet hcommit h.1
    · rw [exec_performed rfl hcommit]
      exact .inl ⟨_, hplain, rfl, hs.append hv hfits⟩
  · simp only [perform, u64ToSql_eq_none htime]
    refine .rollback hs _ fun h => htime ?_
    rw [← hnow]
    exact h.1.2

lemma run_create (hr : Represents c h) (user : UserId) (input : ProfileInput) :
    Outcome env (.create user input) h ((create env.nowMs user input).run (exec env) c).1
      ((create env.nowMs user input).run (exec env) c).2 := by
  obtain ⟨db, working⟩ := c
  obtain ⟨rfl, hs⟩ := hr
  dsimp only at hs
  unfold create
  rw [run_transaction _ _ rfl]
  by_cases hbegin : env.fails .begin
  · simp only [hbegin, if_true]
    exact .rollback hs _ fun h => not_quiet hbegin h.1
  simp only [hbegin, Bool.false_eq_true, if_false, toSql_eq (v := .initial) (by decide)]
  rw [run_attempt]
  by_cases hprofile : env.fails .insertProfile
  · rw [exec_failed rfl hprofile]
    exact .rollback hs _ fun h => not_quiet hprofile h.1
  rw [exec_performed rfl hprofile]
  cases hlook : db.profiles.lookup user with
  | some row =>
    simp only [perform, view, Option.getD_some, hlook, if_true, Prog.run_pure]
    refine .inl ⟨h, ?_, rfl, hs⟩
    cases hh : h user with
    | nil => simp [hs.profile, hh] at hlook
    | cons x l => simp [apply, hh]
  | none =>
    have hnil : h user = [] := by simpa [hs.profile] using hlook
    simp only [perform, view, Option.getD_some, hlook, write, Nat.one_ne_zero, if_false]
    refine run_publish (revision env.nowMs .initial input) hs rfl ?_ ?_ rfl ?_
    · simp [hnil, revision]
    · simp [revision]
    · simp [apply, hnil, revision]

lemma run_get (hr : Represents c h) (user : UserId) :
    Outcome env (.get user) h ((get user).run (exec env) c).1
      ((get user).run (exec env) c).2 := by
  obtain ⟨db, working⟩ := c
  obtain ⟨rfl, hs⟩ := hr
  dsimp only at hs
  unfold get
  rw [run_attempt]
  by_cases hselect : env.fails .selectProfile
  · rw [exec_failed rfl hselect]
    exact .rollback hs _ fun h => not_quiet hselect h.1
  rw [exec_performed rfl hselect]
  refine .inl ⟨h, ?_, rfl, hs⟩
  simp only [perform, view, Option.getD_none, hs.profile, Prog.run_pure, apply, Option.map_map]
  cases hl : (h user).getLast? with
  | none => rfl
  | some last =>
    simp [profileRow, fromSql_clamp (hs.fits user last (List.mem_of_getLast? hl)).1]

lemma run_history (hr : Represents c h) (user : UserId) :
    Outcome env (.history user) h ((history user).run (exec env) c).1
      ((history user).run (exec env) c).2 := by
  obtain ⟨db, working⟩ := c
  obtain ⟨rfl, hs⟩ := hr
  dsimp only at hs
  unfold history
  rw [run_attempt]
  by_cases hselect : env.fails .selectRevisions
  · rw [exec_failed rfl hselect]
    exact .rollback hs _ fun h => not_quiet hselect h.1
  rw [exec_performed rfl hselect]
  refine .inl ⟨h, ?_, rfl, hs⟩
  simp [perform, view, hs.mapM_readRevision, apply]

/-- The read that tells a stale version from a missing profile. -/
lemma run_unchanged {db : Db} {user : UserId} {expected : Version} {input : ProfileInput}
    (hs : Stored db h)
    (hplain : (.ok (staleOrMissing ((db.profiles.lookup user).map ProfileRow.version)), h) =
      apply env (.update user expected input) h) :
    let q := (unchanged user).run (exec env) ⟨db, some db⟩
    Outcome env (.update user expected input) h q.1 ⟨q.2.committed, none⟩ := by
  dsimp only
  unfold unchanged
  rw [run_attempt]
  by_cases hselect : env.fails .selectVersion
  · rw [exec_failed rfl hselect]
    exact .rollback hs _ fun h => not_quiet hselect h.1
  · rw [exec_performed rfl hselect]
    exact .inl ⟨h, hplain, rfl, hs⟩

lemma run_update (hr : Represents c h) (user : UserId) (expected : Version)
    (input : ProfileInput) :
    Outcome env (.update user expected input) h
      ((update env.nowMs user expected input).run (exec env) c).1
      ((update env.nowMs user expected input).run (exec env) c).2 := by
  obtain ⟨db, working⟩ := c
  obtain ⟨rfl, hs⟩ := hr
  dsimp only at hs
  unfold update
  rw [run_transaction _ _ rfl]
  by_cases hbegin : env.fails .begin
  · simp only [hbegin, if_true]
    exact .rollback hs _ fun h => not_quiet hbegin h.1
  simp only [hbegin, Bool.false_eq_true, if_false]
  cases hnext : expected.checkedNext with
  | none =>
    refine .rollback hs _ fun h => ?_
    have hmax := Version.checkedNext_eq_none.mp hnext
    have hrange : expected.get + 1 < 2 ^ 63 := h.2
    omega
  | some next =>
    have hget := Version.checkedNext_eq_some.mp hnext
    by_cases hfits : next.get < 2 ^ 63
    · have hexp : expected.get < 2 ^ 63 := by omega
      simp only [toSql_eq hfits, toSql_eq hexp]
      rw [run_attempt]
      by_cases hupdate : env.fails .updateProfile
      · rw [exec_failed rfl hupdate]
        exact .rollback hs _ fun h => not_quiet hupdate h.1
      rw [exec_performed rfl hupdate]
      cases hl : (h user).getLast? with
      | none =>
        have hlook : db.profiles.lookup user = none := by simp [hs.profile, hl]
        simp only [perform, view, Option.getD_some, hlook, if_true]
        exact run_unchanged hs (by simp [apply, hl, hlook, staleOrMissing])
      | some last =>
        have hlook := hs.profile_getLast hl
        have hlast := hs.fits user last (List.mem_of_getLast? hl)
        by_cases hver : last.version = expected
        · subst hver
          have hrow : (profileRow last).version = clamp last.version.get := rfl
          simp only [perform, view, Option.getD_some, hlook, hrow, if_true, write,
            Nat.one_ne_zero, if_false]
          refine run_publish (revision env.nowMs next input) hs rfl ?_ hfits rfl ?_
          · rw [← (hs.contiguous user).getLast?_version hl]
            exact hget
          · simp [apply, hl, hnext, revision]
        · have hrow : (profileRow last).version ≠ clamp expected.get :=
            fun heq => hver ((hs.version_inj hl hexp).mp heq)
          simp only [perform, view, Option.getD_some, hlook, hrow, if_true, if_false]
          refine run_unchanged hs ?_
          simp [apply, hl, hver, hlook, staleOrMissing, profileRow, fromSql_clamp hlast.1]
    · have hexh : toSql next = .error .versionExhausted := by simp only [toSql, hfits, dite_false]
      simp only [hexh]
      refine .rollback hs _ fun h => ?_
      have hrange : expected.get + 1 < 2 ^ 63 := h.2
      omega

/-- Every method run on tables that hold `h`. -/
theorem run_body (env : Env) (hr : Represents c h) (op : StoreOp) :
    Outcome env op h ((body env op).run (exec env) c).1 ((body env op).run (exec env) c).2 := by
  cases op with
  | create user input => exact run_create hr user input
  | get user => exact run_get hr user
  | update user expected input => exact run_update hr user expected input
  | history user => exact run_history hr user

/-- Without faults and in range, a method answers what the plain specification says. -/
lemma run_body_quiet (hr : Represents c h) (op : StoreOp) (hq : Quiet env) (hin : InRange op) :
    ((body env op).run (exec env) c).1 = (apply env op h).1 := by
  rcases run_body env hr op with ⟨h', hplain, -⟩ | ⟨-, -, hnot⟩
  · rw [← hplain]
  · exact absurd ⟨hq, hin⟩ hnot

/-- An update whose next version does not fit the column is refused before any row is
looked at. -/
theorem run_update_exhausted (env : Env) (user : UserId) (input : ProfileInput)
    {expected : Version} (hidle : c.working = none) (hbegin : ¬env.fails .begin = true)
    (hrange : ¬expected.get + 1 < 2 ^ 63) :
    ((update env.nowMs user expected input).run (exec env) c).1 = .error .versionExhausted := by
  unfold update
  rw [run_transaction _ _ hidle, if_neg hbegin]
  cases hnext : expected.checkedNext with
  | none => rfl
  | some next =>
    have hget := Version.checkedNext_eq_some.mp hnext
    have hfits : ¬next.get < 2 ^ 63 := by omega
    have hexh : toSql next = .error .versionExhausted := by simp only [toSql, hfits, dite_false]
    simp only [hexh, Prog.run_pure]

end Methods

lemma represents_empty : Represents empty Histories.empty := ⟨rfl, stored_empty⟩

/-- A call alone on an idle store is its method's program. -/
lemma object_alone {ι : Type} [DecidableEq ι] (i : ι) (call : StoreOp × Env) (c : Connection) :
    (object ι).alone i call ⟨c, none⟩ = some ((work call c).1, ⟨(work call c).2, none⟩) :=
  mutexObject_alone empty work i call c

/-- A read alone answers the projection of the last revision. -/
lemma alone_get {ι : Type} [DecidableEq ι] {c : Connection} {h : Histories}
    (hr : Represents c h) (i : ι) (user : UserId) {env : Env} (hq : Quiet env) :
    ∃ t, (object ι).alone i (.get user, env) ⟨c, none⟩ =
      some (.ok ((h user).getLast?.map (project user)), t) := by
  have hrun : (work (.get user, env) c).1 = _ := run_body_quiet hr (.get user) hq trivial
  rw [object_alone, hrun]
  exact ⟨_, rfl⟩

/-- The audit alone answers the whole history. -/
lemma alone_history {ι : Type} [DecidableEq ι] {c : Connection} {h : Histories}
    (hr : Represents c h) (i : ι) (user : UserId) {env : Env} (hq : Quiet env) :
    ∃ t, (object ι).alone i (.history user, env) ⟨c, none⟩ = some (.ok (h user), t) := by
  have hrun : (work (.history user, env) c).1 = _ :=
    run_body_quiet hr (.history user) hq trivial
  rw [object_alone, hrun]
  exact ⟨_, rfl⟩

/-- The linearization points of the SQLite store, for the contract: a call takes effect
while it holds the connection. -/
def linearizationPoints (ι : Type) [DecidableEq ι] :
    LinearizationPoints (object ι) Histories.contract Histories.empty :=
  mutexObject_linearizationPoints Represents represents_empty fun c h call hr => by
    rcases run_body call.2 hr call.1 with ⟨h', hplain, hr'⟩ | ⟨herr, hr', -⟩
    · exact ⟨h', .inl hplain, hr'⟩
    · exact ⟨h, .inr ⟨herr, rfl⟩, hr'⟩

end Knova.SqliteProfiles
