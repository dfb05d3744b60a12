import Knova.Profile.MemoryAlone
import Knova.Profile.SqliteRefinement

/-!
# Conformance of the two backends

The same calls, made one after another on an empty store of each backend. The backends
agree on every call as long as no update expects a version whose successor exceeds an
`i64`: SQLite refuses such an update before it looks at the row.
-/

namespace Knova

open Library

/-- A revision less its timestamp. -/
def Revision.untimed (rev : Revision) : Revision := { rev with recordedAtMs := 0 }

/-- What a call answered, timestamps excepted. -/
def StoreOp.outcome : (op : StoreOp) → op.Ret → op.Ret
  | .history _, .ok revisions => .ok (revisions.map Revision.untimed)
  | .history _, .error e => .error e
  | .create _ _, r => r
  | .get _, r => r
  | .update _ _ _, r => r

/-- The outcomes of a sequence of calls. -/
def outcomes (results : List (Σ call : StoreOp × Env, call.1.Ret)) :
    List (Σ op : StoreOp, op.Ret) :=
  results.map fun r => ⟨r.1.1, r.1.1.outcome r.2⟩

namespace Histories

/-- Two histories of all users that differ in timestamps only. -/
def Agree (h h' : Histories) : Prop :=
  ∀ user, (h user).map Revision.untimed = (h' user).map Revision.untimed

lemma Agree.getLast? {h h' : Histories} (ha : Agree h h') (user : UserId) :
    (h user).getLast?.map Revision.untimed = (h' user).getLast?.map Revision.untimed := by
  rw [← List.getLast?_map, ← List.getLast?_map, ha user]

lemma Agree.eq_nil {h h' : Histories} (ha : Agree h h') {user : UserId} :
    h user = [] ↔ h' user = [] := by
  rw [← List.map_eq_nil_iff (f := Revision.untimed), ha user, List.map_eq_nil_iff]

lemma Agree.append {h h' : Histories} (ha : Agree h h') (user : UserId) (t t' : Fin (2 ^ 64))
    (version : Version) (input : ProfileInput) :
    Agree (Function.update h user (h user ++ [revision t version input]))
      (Function.update h' user (h' user ++ [revision t' version input])) := by
  intro u
  by_cases hu : u = user
  · subst hu
    simp [ha u, revision, Revision.untimed]
  · simp [hu, ha u]

lemma Agree.create {h h' : Histories} (ha : Agree h h') (env env' : Env) (user : UserId)
    (input : ProfileInput) :
    (apply env (.create user input) h).1 = (apply env' (.create user input) h').1 ∧
      Agree (apply env (.create user input) h).2 (apply env' (.create user input) h').2 := by
  cases hh : h user with
  | nil =>
    have hh' := ha.eq_nil.mp hh
    have happend := ha.append user env.nowMs env'.nowMs .initial input
    rw [hh, hh', List.nil_append, List.nil_append] at happend
    simp only [apply_create, hh, hh']
    exact ⟨rfl, happend⟩
  | cons x l =>
    cases hh' : h' user with
    | nil =>
      rw [ha.eq_nil.mpr hh'] at hh
      cases hh
    | cons x' l' =>
      simp only [apply, hh, hh']
      exact ⟨trivial, ha⟩

lemma Agree.update {h h' : Histories} (ha : Agree h h') (env env' : Env) (user : UserId)
    (expected : Version) (input : ProfileInput) :
    (apply env (.update user expected input) h).1 =
        (apply env' (.update user expected input) h').1 ∧
      Agree (apply env (.update user expected input) h).2
        (apply env' (.update user expected input) h').2 := by
  have hlast := ha.getLast? user
  cases hl : (h user).getLast? with
  | none =>
    have hl' : (h' user).getLast? = none := by simpa [hl] using hlast.symm
    simp only [apply, hl, hl']
    exact ⟨trivial, ha⟩
  | some last =>
    obtain ⟨last', hl', huntimed⟩ : ∃ last', (h' user).getLast? = some last' ∧
        last'.untimed = last.untimed := by
      simpa [hl] using hlast.symm
    have hver : last'.untimed.version = last.untimed.version := by rw [huntimed]
    change last'.version = last.version at hver
    simp only [apply, hl, hl', hver]
    split
    · exact ⟨rfl, ha⟩
    · split
      · exact ⟨rfl, ha⟩
      · rename_i next _
        exact ⟨rfl, ha.append user env.nowMs env'.nowMs next input⟩

/-- The plain specification does not depend on the clock beyond the timestamps. -/
theorem Agree.apply {h h' : Histories} (ha : Agree h h') (env env' : Env) (op : StoreOp) :
    op.outcome (apply env op h).1 = op.outcome (Histories.apply env' op h').1 ∧
      Agree (Histories.apply env op h).2 (Histories.apply env' op h').2 := by
  cases op with
  | create user input =>
    obtain ⟨heq, hagree⟩ := ha.create env env' user input
    exact ⟨congrArg _ heq, hagree⟩
  | get user =>
    have hproject : ∀ l : List Revision,
        l.getLast?.map (project user) = (l.map Revision.untimed).getLast?.map (project user) := by
      intro l
      rw [List.getLast?_map, Option.map_map]
      rfl
    refine ⟨?_, ha⟩
    simp only [StoreOp.outcome, Histories.apply_get]
    rw [hproject (h user), hproject (h' user), ha user]
  | update user expected input =>
    obtain ⟨heq, hagree⟩ := ha.update env env' user expected input
    exact ⟨congrArg _ heq, hagree⟩
  | history user =>
    refine ⟨?_, ha⟩
    simp only [StoreOp.outcome, Histories.apply, ha user]

end Histories

/-! ### The two backends side by side -/

section Conformance

variable {ι : Type} [DecidableEq ι] {mask : ℕ} {hash : UserId → UInt64} (i : ι)

/-- Two stores that hold the same histories, timestamps excepted. -/
def Alike (hash : UserId → UInt64) (s : InMemoryProfiles ι mask)
    (t : Guarded ι Connection) : Prop :=
  ∃ h h' : Histories, InMemoryProfiles.Inv hash s h ∧ s.Free ∧ t.holder = none ∧
    SqliteProfiles.Represents t.value h' ∧ h.Agree h'

/-- No stored version is out of SQLite's range, so the plain specification never refuses
an update that expects one. -/
lemma plain_update_ok {h h' : Histories} {db : Db} (env : Env) (user : UserId)
    {expected : Version} (input : ProfileInput) (ha : h.Agree h')
    (hs : SqliteProfiles.Stored db h') (hrange : ¬expected.get + 1 < 2 ^ 63) :
    ∃ answer, (Histories.apply env (.update user expected input) h).1 = .ok answer := by
  have hlast := ha.getLast? user
  cases hl : (h user).getLast? with
  | none => exact ⟨.missing, by simp [Histories.apply, hl]⟩
  | some last =>
    obtain ⟨last', hl', huntimed⟩ : ∃ last', (h' user).getLast? = some last' ∧
        last'.untimed = last.untimed := by
      simpa [hl] using hlast.symm
    have hver : last'.untimed.version = last.untimed.version := by rw [huntimed]
    change last'.version = last.version at hver
    have hfits := (hs.fits user last' (List.mem_of_getLast? hl')).1
    rw [hver] at hfits
    by_cases hexp : last.version = expected
    · subst hexp
      cases hnext : last.version.checkedNext with
      | none =>
        have := Version.checkedNext_eq_none.mp hnext
        omega
      | some next =>
        exact ⟨.applied (project user (revision env.nowMs next input)),
          by simp [Histories.apply_update, hl, hnext]⟩
    · exact ⟨.stale last.version, by simp [Histories.apply, hl, hexp]⟩

/-- One call on both stores. The outcomes agree, and the stores stay alike, unless the
call is an update out of SQLite's range; then SQLite answers an error and the in-memory
store does not. -/
lemma alike_call {s : InMemoryProfiles ι mask} {t : Guarded ι Connection}
    (ha : Alike hash s t) (op : StoreOp) (env env' : Env) (hq : SqliteProfiles.Quiet env') :
    ∃ r s' r' t',
      (InMemoryProfiles.object ι mask hash).alone i (op, env) s = some (r, s') ∧
      (SqliteProfiles.object ι).alone i (op, env') t = some (r', t') ∧
      (SqliteProfiles.InRange op → op.outcome r = op.outcome r' ∧ Alike hash s' t') ∧
      (¬SqliteProfiles.InRange op → op.outcome r ≠ op.outcome r') := by
  obtain ⟨h, h', hinv, hfree, hholder, hrep, hagree⟩ := ha
  obtain ⟨c, holder⟩ := t
  dsimp only at hholder hrep
  subst hholder
  obtain ⟨r, s', halone, hfree'⟩ := InMemoryProfiles.alone_returns (i := i) hinv hfree (op, env)
  obtain ⟨h₁, hspec, hinv'⟩ :=
    (InMemoryProfiles.linearizationPoints ι mask hash).alone_spec hinv halone
  refine ⟨r, s', _, _, halone, SqliteProfiles.object_alone i (op, env') c, ?_, ?_⟩
  · intro hrange
    rcases SqliteProfiles.run_body env' hrep op with
      ⟨h₁', hplain, hrep'⟩ | ⟨-, -, hnot⟩
    · have happly := hagree.apply env env' op
      rw [← hspec, ← hplain] at happly
      exact ⟨happly.1, h₁, h₁', hinv', hfree', rfl, hrep', happly.2⟩
    · exact absurd ⟨hq, hrange⟩ hnot
  · intro hrange
    obtain ⟨user, expected, input, rfl⟩ : ∃ user expected input,
        op = .update user expected input := by
      cases op with
      | update user expected input => exact ⟨user, expected, input, rfl⟩
      | _ => exact absurd trivial hrange
    have hbegin : ¬env'.fails .begin = true := by simp [hq.1]
    have hsqlite := SqliteProfiles.run_update_exhausted env' user input hrep.idle hbegin hrange
    have hmemory := plain_update_ok env user input hagree hrep.stored hrange
    rw [← hspec] at hmemory
    obtain ⟨answer, rfl⟩ := hmemory
    simp only [StoreOp.outcome, SqliteProfiles.work, SqliteProfiles.body, hsqlite, ne_eq,
      reduceCtorEq, not_false_eq_true]

lemma memory_sequence_returns (calls : List (StoreOp × Env)) {s : InMemoryProfiles ι mask}
    (hs : ∃ h, InMemoryProfiles.Inv hash s h ∧ s.Free) :
    ∃ rs t, (InMemoryProfiles.object ι mask hash).sequence i calls s = some (rs, t) := by
  obtain ⟨rs, t, hrun, -⟩ := SharedObject.sequence_returns (i := i)
    (O := InMemoryProfiles.object ι mask hash)
    (fun s => ∃ h, InMemoryProfiles.Inv hash s h ∧ s.Free)
    (fun s call ⟨h, hinv, hfree⟩ => by
      obtain ⟨r, s', halone, hfree'⟩ :=
        InMemoryProfiles.alone_returns (i := i) hinv hfree call
      obtain ⟨h', -, hinv'⟩ :=
        (InMemoryProfiles.linearizationPoints ι mask hash).alone_spec hinv halone
      exact ⟨r, s', halone, h', hinv', hfree'⟩) calls hs
  exact ⟨rs, t, hrun⟩

lemma sqlite_sequence_returns (calls : List (StoreOp × Env)) {t : Guarded ι Connection}
    (ht : t.holder = none) :
    ∃ rs u, (SqliteProfiles.object ι).sequence i calls t = some (rs, u) := by
  obtain ⟨rs, u, hrun, -⟩ := SharedObject.sequence_returns (i := i)
    (O := SqliteProfiles.object ι) (fun t : Guarded ι Connection => t.holder = none)
    (fun ⟨c, holder⟩ call hfree => by
      dsimp only at hfree
      subst hfree
      exact ⟨_, _, SqliteProfiles.object_alone i call c, rfl⟩) calls ht
  exact ⟨rs, u, hrun⟩

/-- A sequence of calls on two stores that are alike. -/
lemma outcomes_agree_iff (calls : List (StoreOp × Env × Env))
    (hq : ∀ call ∈ calls, SqliteProfiles.Quiet call.2.2) {s : InMemoryProfiles ι mask}
    {t : Guarded ι Connection} (ha : Alike hash s t) :
    ∃ rs s' rs' t',
      (InMemoryProfiles.object ι mask hash).sequence i
        (calls.map fun call => (call.1, call.2.1)) s = some (rs, s') ∧
      (SqliteProfiles.object ι).sequence i
        (calls.map fun call => (call.1, call.2.2)) t = some (rs', t') ∧
      (outcomes rs = outcomes rs' ↔ ∀ call ∈ calls, SqliteProfiles.InRange call.1) := by
  induction calls generalizing s t with
  | nil => exact ⟨[], s, [], t, rfl, rfl, by simp⟩
  | cons call calls ih =>
    obtain ⟨op, env, env'⟩ := call
    obtain ⟨r, s₁, r', t₁, hmem, hsql, hin, hout⟩ :=
      alike_call i ha op env env' (hq (op, env, env') (by simp))
    by_cases hrange : SqliteProfiles.InRange op
    · obtain ⟨heq, ha₁⟩ := hin hrange
      obtain ⟨rs, s', rs', t', hms, hss, hiff⟩ :=
        ih (fun call hcall => hq call (by simp [hcall])) ha₁
      refine ⟨_, s', _, t', SharedObject.sequence_cons hmem hms,
        SharedObject.sequence_cons hsql hss, ?_⟩
      simp only [outcomes, List.map_cons, List.cons.injEq, heq, true_and, List.forall_mem_cons,
        hrange]
      exact hiff
    · obtain ⟨h, -, hinv, hfree, hholder, -⟩ := ha
      obtain ⟨rs, s', hms⟩ := memory_sequence_returns i
        (((op, env, env') :: calls).map fun call => (call.1, call.2.1)) ⟨h, hinv, hfree⟩
      obtain ⟨rs', t', hss⟩ := sqlite_sequence_returns i
        (((op, env, env') :: calls).map fun call => (call.1, call.2.2)) hholder
      refine ⟨rs, s', rs', t', hms, hss, ?_⟩
      -- the outcomes differ at this call already
      obtain ⟨q, _, qs, hmem', -, rfl⟩ := SharedObject.sequence_cons_eq_some hms
      obtain ⟨q', _, qs', hsql', -, rfl⟩ := SharedObject.sequence_cons_eq_some hss
      obtain ⟨rfl, -⟩ := Prod.mk.inj (Option.some.inj (hmem.symm.trans hmem'))
      obtain ⟨rfl, -⟩ := Prod.mk.inj (Option.some.inj (hsql.symm.trans hsql'))
      simp only [outcomes, List.map_cons, List.cons.injEq, Sigma.mk.injEq, true_and, heq_eq_eq,
        hout hrange, false_and, List.forall_mem_cons, hrange]

end Conformance

lemma alike_empty {ι : Type} {mask : ℕ} (hash : UserId → UInt64) :
    Alike hash (InMemoryProfiles.empty : InMemoryProfiles ι mask)
      (⟨SqliteProfiles.empty, none⟩ : Guarded ι Connection) :=
  ⟨Histories.empty, Histories.empty,
    ⟨fun _ _ => rfl, by simp [InMemoryProfiles.empty, InMemoryProfiles.find],
      by simp [InMemoryProfiles.empty, InMemoryProfiles.find]⟩,
    InMemoryProfiles.free_empty, rfl, SqliteProfiles.represents_empty, fun _ => rfl⟩

/-- For every sequence of calls on the empty store, with no fault of the SQLite backend,
the two backends answer the same outcomes exactly when no update expects a version whose
successor exceeds an `i64`. -/
theorem backends_conform_iff {ι : Type} [DecidableEq ι] (i : ι) (shards : ℕ)
    (hash : UserId → UInt64) (calls : List (StoreOp × Env × Env))
    (hq : ∀ call ∈ calls, SqliteProfiles.Quiet call.2.2) :
    ∀ mask ∈ InMemoryProfiles.withShards shards, ∃ rs s rs' t,
      (InMemoryProfiles.object ι mask hash).sequence i
        (calls.map fun call => (call.1, call.2.1)) InMemoryProfiles.empty = some (rs, s) ∧
      (SqliteProfiles.object ι).sequence i
        (calls.map fun call => (call.1, call.2.2)) ⟨SqliteProfiles.empty, none⟩ = some (rs', t) ∧
      (outcomes rs = outcomes rs' ↔ ∀ call ∈ calls, SqliteProfiles.InRange call.1) := by
  intro mask _
  exact outcomes_agree_iff i calls hq (alike_empty hash)

/-- On the empty store SQLite answers an update that expects the largest version with
`VersionExhausted`, the in-memory store with `Missing`. -/
theorem backends_conform_fails :
    let env : Env := ⟨0, fun _ => false⟩
    let call : StoreOp × Env :=
      (.update ⟨"u"⟩ ⟨2 ^ 64 - 1, by decide⟩ ⟨"1 Main St", "5550100"⟩, env)
    3 ∈ InMemoryProfiles.withShards 4 ∧ SqliteProfiles.Quiet env ∧
      ∃ rs s rs' t,
        (InMemoryProfiles.object ℕ 3 fun _ => 0).sequence 0 [call] InMemoryProfiles.empty =
          some (rs, s) ∧
        (SqliteProfiles.object ℕ).sequence 0 [call] ⟨SqliteProfiles.empty, none⟩ =
          some (rs', t) ∧
        outcomes rs ≠ outcomes rs' := by
  intro env call
  refine ⟨by decide, ⟨fun _ => rfl, by decide⟩, [⟨call, .ok .missing⟩], _,
    [⟨call, .error .versionExhausted⟩], _, rfl, rfl, ?_⟩
  simp [outcomes, StoreOp.outcome, call]

/-- A create, an update and an audit in two environments. -/
theorem backends_conform_iff_three :
    let env : Env := ⟨7, fun _ => false⟩
    let env' : Env := ⟨8, fun _ => false⟩
    let a : ProfileInput := ⟨"1 Main St", "5550100"⟩
    let calls : List (StoreOp × Env × Env) := [(.create ⟨"u"⟩ a, env, env'),
      (.update ⟨"u"⟩ .initial a, env, env'), (.history ⟨"u"⟩, env, env')]
    ∃ rs s rs' t,
      (InMemoryProfiles.object ℕ 3 fun _ => 0).sequence 0
        (calls.map fun call => (call.1, call.2.1)) InMemoryProfiles.empty = some (rs, s) ∧
      (SqliteProfiles.object ℕ).sequence 0
        (calls.map fun call => (call.1, call.2.2)) ⟨SqliteProfiles.empty, none⟩ = some (rs', t) ∧
      (outcomes rs = outcomes rs' ↔ ∀ call ∈ calls, SqliteProfiles.InRange call.1) := by
  intro env env' a calls
  refine backends_conform_iff 0 4 (fun _ => 0) calls ?_ 3 (by decide)
  simp only [calls, List.forall_mem_cons, List.not_mem_nil, false_implies, implies_true, and_true]
  exact ⟨⟨fun _ => rfl, by decide⟩, ⟨fun _ => rfl, by decide⟩, ⟨fun _ => rfl, by decide⟩⟩

end Knova
