import Knova.Profile.SqliteRefinement

/-!
# Rows written by something else

The tables may hold rows this service did not write, with any version an INTEGER can
hold. Reading clamps a negative version to zero and writing compares the raw integer, so
such a row is never taken for the zero it is shown as.
-/

namespace Knova.SqliteProfiles

open Library

/-- The connection after some calls, made one after another. -/
def after (calls : List StoreCalls.Act) (c : Connection) : Connection :=
  calls.foldl (fun c call => (work call c).2) c

/-- One of the calls is an update of `user` that is accepted. -/
def Accepts (user : UserId) (calls : List StoreCalls.Act) (c : Connection) : Prop :=
  ∃ before expected input env rest p, calls = before ++ (.update user expected input, env) :: rest ∧
    (work (.update user expected input, env) (after before c)).1 = .ok (.applied p)

variable {c : Connection} {env : Env} {user : UserId} {expected : Version} {input : ProfileInput}

@[simp] lemma after_nil : after [] c = c := rfl

@[simp] lemma after_cons (call : StoreCalls.Act) (calls : List StoreCalls.Act) :
    after (call :: calls) c = after calls (work call c).2 := rfl

lemma Accepts.cons {call : StoreCalls.Act} {calls : List StoreCalls.Act}
    (h : Accepts user calls (work call c).2) : Accepts user (call :: calls) c := by
  obtain ⟨before, expected, input, env, rest, p, rfl, hp⟩ := h
  exact ⟨call :: before, expected, input, env, rest, p, rfl, hp⟩

lemma eq_clamp_iff {raw : I64} {n : ℕ} (hn : n < 2 ^ 63) : raw = clamp n ↔ raw.val = n := by
  rw [← clamp_val hn]
  exact ⟨congrArg I64.val, I64.ext⟩

lemma fromSql_of_neg {raw : I64} (h : raw.val < 0) : fromSql raw = ⟨0, by decide⟩ := by
  ext
  simp only [fromSql]
  omega

/-! ### What a call does to tables of any content -/

/-- Everything an update on an idle connection can do. -/
inductive Updated (c : Connection) (env : Env) (user : UserId) (expected : Version)
    (input : ProfileInput) : Except StoreError Update → Connection → Prop
  | failed {st : Statement} : env.fails st = true →
      Updated c env user expected input (.error .backend) c
  | exhausted : ¬expected.get + 1 < 2 ^ 63 →
      Updated c env user expected input (.error .versionExhausted) c
  | missing : c.committed.profiles.lookup user = none →
      Updated c env user expected input (.ok .missing) c
  | stale {row : ProfileRow} : c.committed.profiles.lookup user = some row →
      row.version.val ≠ expected.get →
      Updated c env user expected input (.ok (.stale (fromSql row.version))) c
  -- The revision is not recorded: it is already there, or the clock does not fit.
  | unrecorded {row : ProfileRow} : c.committed.profiles.lookup user = some row →
      row.version.val = expected.get →
      Updated c env user expected input (.error .backend) c
  | applied {row : ProfileRow} {next : Version} {db : Db} :
      c.committed.profiles.lookup user = some row → row.version.val = expected.get →
      next.get = expected.get + 1 → next.get < 2 ^ 63 →
      db.profiles = c.committed.profiles.insert user
        ⟨input.address, input.phoneNumber, clamp next.get⟩ →
      Updated c env user expected input
        (.ok (.applied ⟨user, input.address, input.phoneNumber, next⟩)) ⟨db, none⟩

variable (env) in
/-- The statements after the row of `profiles` changed: both, or nothing. -/
lemma run_record {α : Type} {x : α} (hidle : c.working = none) (rows : HashMap UserId ProfileRow)
    (user : UserId) (version : I64) (address phone : String) (at' : Fin (2 ^ 64)) :
    let q := (attempt (.insertRevision user version address phone at') fun _ =>
      attempt .commit fun _ => .pure (.ok x)).run (exec env)
        ⟨c.committed, some { c.committed with profiles := rows }⟩
    (q.1 = .error .backend ∧ (⟨q.2.committed, none⟩ : Connection) = c) ∨
      (q.1 = .ok x ∧ q.2.committed.profiles = rows) := by
  obtain ⟨db, working⟩ := c
  dsimp only at hidle
  subst hidle
  dsimp only
  rw [run_attempt]
  by_cases hinsert : env.fails .insertRevision
  · rw [exec_failed rfl hinsert]
    exact .inl ⟨rfl, rfl⟩
  rw [exec_performed rfl hinsert]
  cases htime : u64ToSql at' with
  | none => simp [perform, htime]
  | some stored =>
    cases hrow : db.profileRevisions.lookup (user, version) with
    | some row => simp [perform, view, htime, hrow]
    | none =>
      simp only [perform, view, Option.getD_some, htime, hrow, write, run_attempt]
      by_cases hcommit : env.fails .commit
      · rw [exec_failed rfl hcommit]
        exact .inl ⟨rfl, rfl⟩
      · rw [exec_performed rfl hcommit]
        exact .inr ⟨rfl, rfl⟩

/-- The read that tells a stale version from a missing profile. -/
lemma run_zero_rows {db : Db} (user : UserId) (expected : Version) (input : ProfileInput)
    (h : Updated ⟨db, none⟩ env user expected input
      (.ok (staleOrMissing ((db.profiles.lookup user).map ProfileRow.version))) ⟨db, none⟩) :
    let q := (unchanged user).run (exec env) ⟨db, some db⟩
    Updated ⟨db, none⟩ env user expected input q.1 ⟨q.2.committed, none⟩ := by
  dsimp only
  unfold unchanged
  rw [run_attempt]
  by_cases hselect : env.fails .selectVersion
  · rw [exec_failed rfl hselect]
    exact .failed hselect
  · rw [exec_performed rfl hselect]
    exact h

/-- The update statement and what follows it, where both versions fit the column. -/
lemma run_update_in_range {db : Db} {next : Version} (user : UserId) (input : ProfileInput)
    (hget : next.get = expected.get + 1) (hfits : next.get < 2 ^ 63) :
    let q := (attempt (.updateProfile input.address input.phoneNumber (clamp next.get) user
        (clamp expected.get)) fun changed =>
      if changed = 0 then unchanged user
      else
        attempt (.insertRevision user (clamp next.get) input.address input.phoneNumber env.nowMs)
          fun _ => attempt .commit fun _ =>
            .pure (.ok (.applied ⟨user, input.address, input.phoneNumber, next⟩))).run
      (exec env) ⟨db, some db⟩
    Updated ⟨db, none⟩ env user expected input q.1 ⟨q.2.committed, none⟩ := by
  have hexp : expected.get < 2 ^ 63 := by omega
  dsimp only
  rw [run_attempt]
  by_cases hupdate : env.fails .updateProfile
  · rw [exec_failed rfl hupdate]
    exact .failed hupdate
  rw [exec_performed rfl hupdate]
  cases hlook : db.profiles.lookup user with
  | none =>
    simp only [perform, view, Option.getD_some, hlook, if_true]
    refine run_zero_rows user expected input ?_
    rw [hlook]
    exact .missing hlook
  | some row =>
    by_cases hver : row.version = clamp expected.get
    · have hval := (eq_clamp_iff hexp).mp hver
      simp only [perform, view, Option.getD_some, hlook, hver, if_true, write,
        Nat.one_ne_zero, if_false]
      rcases run_record env (c := ⟨db, none⟩)
        (x := Update.applied ⟨user, input.address, input.phoneNumber, next⟩) rfl
        (db.profiles.insert user ⟨input.address, input.phoneNumber, clamp next.get⟩)
        user (clamp next.get) input.address input.phoneNumber env.nowMs with ⟨hr, hc⟩ | ⟨hr, hc⟩
      · rw [hr, hc]
        exact .unrecorded hlook hval
      · rw [hr]
        exact .applied hlook hval hget hfits hc
    · have hne : row.version.val ≠ expected.get := fun hval => hver ((eq_clamp_iff hexp).mpr hval)
      simp only [perform, view, Option.getD_some, hlook, hver, if_false, if_true]
      refine run_zero_rows user expected input ?_
      rw [hlook]
      exact .stale hlook hne

theorem update_cases (hidle : c.working = none) (env : Env) (user : UserId) (expected : Version)
    (input : ProfileInput) : Updated c env user expected input
      (work (.update user expected input, env) c).1
      (work (.update user expected input, env) c).2 := by
  obtain ⟨db, working⟩ := c
  dsimp only at hidle
  subst hidle
  simp only [work, body]
  unfold update
  rw [run_transaction _ _ rfl]
  by_cases hbegin : env.fails .begin
  · simp only [hbegin, if_true]
    exact .failed hbegin
  simp only [hbegin, Bool.false_eq_true, if_false]
  cases hnext : expected.checkedNext with
  | none =>
    have hmax := Version.checkedNext_eq_none.mp hnext
    exact .exhausted (by omega)
  | some next =>
    have hget := Version.checkedNext_eq_some.mp hnext
    by_cases hfits : next.get < 2 ^ 63
    · have hexp : expected.get < 2 ^ 63 := by omega
      simp only [toSql_eq hfits, toSql_eq hexp]
      exact run_update_in_range user input hget hfits
    · have hexh : toSql next = .error .versionExhausted := by simp only [toSql, hfits, dite_false]
      simp only [hexh]
      exact .exhausted (by omega)

/-- A create on an idle connection changes nothing, or it inserts the first row. -/
lemma create_cases (hidle : c.working = none) (env : Env) (user : UserId) (input : ProfileInput) :
    (work (.create user input, env) c).2 = c ∨
      c.committed.profiles.lookup user = none ∧
        (work (.create user input, env) c).2.working = none ∧
        (work (.create user input, env) c).2.committed.profiles =
          c.committed.profiles.insert user ⟨input.address, input.phoneNumber, clamp 1⟩ := by
  obtain ⟨db, working⟩ := c
  dsimp only at hidle
  subst hidle
  simp only [work, body]
  unfold create
  rw [run_transaction _ _ rfl]
  by_cases hbegin : env.fails .begin
  · simp [hbegin]
  have hone : clamp Version.initial.get = clamp 1 := rfl
  simp only [hbegin, Bool.false_eq_true, if_false, toSql_eq (v := .initial) (by decide), hone]
  rw [run_attempt]
  by_cases hprofile : env.fails .insertProfile
  · rw [exec_failed rfl hprofile]
    exact .inl rfl
  rw [exec_performed rfl hprofile]
  cases hlook : db.profiles.lookup user with
  | some row => simp [perform, view, hlook]
  | none =>
    simp only [perform, view, Option.getD_some, hlook, write, Nat.one_ne_zero, if_false]
    rcases run_record env (c := ⟨db, none⟩)
      (x := some (⟨user, input.address, input.phoneNumber, .initial⟩ : Profile)) rfl
      (db.profiles.insert user ⟨input.address, input.phoneNumber, clamp 1⟩)
      user (clamp 1) input.address input.phoneNumber env.nowMs with ⟨-, hc⟩ | ⟨-, hc⟩
    · exact .inl hc
    · exact .inr ⟨trivial, trivial, hc⟩

/-- A read of the row, on tables of any content. -/
lemma work_get (hidle : c.working = none) (hselect : env.fails .selectProfile = false) :
    work (.get user, env) c = (.ok ((c.committed.profiles.lookup user).map fun row =>
      ⟨user, row.address, row.phoneNumber, fromSql row.version⟩), c) := by
  simp only [work, body, get, run_attempt]
  rw [exec_performed rfl (by simp [hselect])]
  simp [perform, view, hidle]

/-- Reads leave the connection as it is. -/
lemma work_read (op : StoreOp) (hop : (∃ u, op = .get u) ∨ ∃ u, op = .history u) :
    (work (op, env) c).2 = c := by
  obtain ⟨u, rfl⟩ | ⟨u, rfl⟩ := hop
  · simp only [work, body, get, run_attempt]
    by_cases hselect : env.fails .selectProfile
    · rw [exec_failed rfl hselect]
    · rw [exec_performed rfl hselect]
      rfl
  · simp only [work, body, history, run_attempt]
    by_cases hselect : env.fails .selectRevisions
    · rw [exec_failed rfl hselect]
    · rw [exec_performed rfl hselect]
      rfl

lemma work_idle (hidle : c.working = none) (call : StoreCalls.Act) :
    (work call c).2.working = none := by
  obtain ⟨op, env⟩ := call
  cases op with
  | create u input =>
    rcases create_cases hidle env u input with hc | ⟨-, hc, -⟩
    · rw [hc, hidle]
    · exact hc
  | get u => rw [work_read _ (.inl ⟨u, rfl⟩), hidle]
  | history u => rw [work_read _ (.inr ⟨u, rfl⟩), hidle]
  | update u expected input =>
    have hu := update_cases hidle env u expected input
    generalize (work (.update u expected input, env) c).1 = r,
      (work (.update u expected input, env) c).2 = c' at hu
    cases hu with
    | applied => rfl
    | _ => exact hidle

/-- A call leaves a row alone, or it is an update that names the stored integer and is
accepted. -/
lemma work_row (hidle : c.working = none) (call : StoreCalls.Act) {row : ProfileRow}
    (hrow : c.committed.profiles.lookup user = some row) :
    (work call c).2.committed.profiles.lookup user = some row ∨
      0 ≤ row.version.val ∧ Accepts user [call] c := by
  obtain ⟨op, env⟩ := call
  cases op with
  | create u input =>
    rcases create_cases hidle env u input with hc | ⟨hnone, -, hprofiles⟩
    · exact .inl (by rw [hc, hrow])
    · have hne : user ≠ u := by
        rintro rfl
        rw [hrow] at hnone
        cases hnone
      exact .inl (by rw [hprofiles, AList.lookup_insert_ne hne, hrow])
  | get u => exact .inl (by rw [work_read _ (.inl ⟨u, rfl⟩), hrow])
  | history u => exact .inl (by rw [work_read _ (.inr ⟨u, rfl⟩), hrow])
  | update u expected input =>
    have hu := update_cases hidle env u expected input
    generalize hr : (work (.update u expected input, env) c).1 = r at hu
    generalize (work (.update u expected input, env) c).2 = c' at hu ⊢
    cases hu with
    | @applied row' next db hlook hval _ _ hprofiles =>
      by_cases hne : user = u
      · subst hne
        obtain rfl : row' = row := Option.some.inj (hlook.symm.trans hrow)
        exact .inr ⟨by omega, [], expected, input, env, [], _, rfl, hr⟩
      · exact .inl (by rw [hprofiles, AList.lookup_insert_ne hne, hrow])
    | _ => exact .inl hrow

/-! ### Sequences of calls -/

lemma after_idle (hidle : c.working = none) (calls : List StoreCalls.Act) :
    (after calls c).working = none := by
  induction calls generalizing c with
  | nil => exact hidle
  | cons call calls ih => exact ih (work_idle hidle call)

/-- A row stays until an update of it is accepted. -/
lemma after_row (hidle : c.working = none) (calls : List StoreCalls.Act) {row : ProfileRow}
    (hrow : c.committed.profiles.lookup user = some row) (hcalls : ¬Accepts user calls c) :
    (after calls c).committed.profiles.lookup user = some row := by
  induction calls generalizing c with
  | nil => exact hrow
  | cons call calls ih =>
    rcases work_row hidle call hrow with hkept | ⟨-, hacc⟩
    · exact ih (work_idle hidle call) hkept fun h => hcalls h.cons
    · obtain ⟨before, expected, input, env, rest, p, heq, hp⟩ := hacc
      refine absurd ?_ hcalls
      cases before with
      | nil =>
        obtain ⟨rfl, rfl⟩ := List.cons.inj heq
        exact ⟨[], expected, input, env, calls, p, rfl, hp⟩
      | cons x before => simp at heq

/-- A row with a negative version stays, whatever is called. -/
lemma after_negative (hidle : c.working = none) (calls : List StoreCalls.Act) {row : ProfileRow}
    (hrow : c.committed.profiles.lookup user = some row) (hneg : row.version.val < 0) :
    (after calls c).committed.profiles.lookup user = some row := by
  induction calls generalizing c with
  | nil => exact hrow
  | cons call calls ih =>
    rcases work_row hidle call hrow with hkept | ⟨hnonneg, -⟩
    · exact ih (work_idle hidle call) hkept
    · omega

/-- A row with a negative version is shown as version zero, and an update that quotes any
version is told so. -/
lemma update_negative (hidle : c.working = none) (env : Env) (input : ProfileInput)
    {row : ProfileRow} (hrow : c.committed.profiles.lookup user = some row)
    (hneg : row.version.val < 0) (hrange : expected.get < 2 ^ 63 - 1) :
    (work (.update user expected input, env) c).1 = .ok (.stale ⟨0, by decide⟩) ∨
      (work (.update user expected input, env) c).1 = .error .backend ∧
        ∃ st, env.fails st = true := by
  have hu := update_cases hidle env user expected input
  generalize (work (.update user expected input, env) c).1 = r,
    (work (.update user expected input, env) c).2 = c' at hu ⊢
  cases hu with
  | failed hst => exact .inr ⟨rfl, _, hst⟩
  | exhausted hnot => omega
  | missing hlook =>
    rw [hrow] at hlook
    cases hlook
  | stale hlook hval =>
    obtain rfl := Option.some.inj (hrow.symm.trans hlook)
    rw [fromSql_of_neg hneg]
    exact .inl rfl
  | unrecorded hlook hval =>
    obtain rfl := Option.some.inj (hrow.symm.trans hlook)
    omega
  | applied hlook hval =>
    obtain rfl := Option.some.inj (hrow.symm.trans hlook)
    omega

/-- An update is accepted only against the integer that is stored, and the row then holds
the next one. -/
lemma update_applied (hidle : c.working = none) {p : Profile}
    (hp : (work (.update user expected input, env) c).1 = .ok (.applied p)) :
    ∃ (row : ProfileRow) (next : Version), c.committed.profiles.lookup user = some row ∧
      row.version.val = expected.get ∧ next.get = expected.get + 1 ∧ next.get < 2 ^ 63 ∧
      (work (.update user expected input, env) c).2.committed.profiles.lookup user =
        some ⟨input.address, input.phoneNumber, clamp next.get⟩ := by
  have hu := update_cases hidle env user expected input
  generalize (work (.update user expected input, env) c).1 = r at hu hp
  generalize (work (.update user expected input, env) c).2 = c' at hu ⊢
  subst hp
  cases hu with
  | @applied row next db hlook hval hget hfits hprofiles =>
    exact ⟨row, next, hlook, hval, hget, hfits, by rw [hprofiles, AList.lookup_insert]⟩

/-- Foreign rows fail closed. Whatever the tables hold and whatever has been called: a row
with a negative version is as it was, and an update of it answers version zero as stale,
unless the driver fails a statement; an update is accepted only if the stored integer is
the version it names, and until the next accepted one a read answers the version after. -/
theorem foreign_rows_fail_closed (db : Db) (calls : List StoreCalls.Act) (user : UserId) :
    let c := after calls ⟨db, none⟩
    (∀ row, db.profiles.lookup user = some row → row.version.val < 0 →
      c.committed.profiles.lookup user = some row ∧
      ∀ (expected : Version) (input : ProfileInput) (env : Env), expected.get < 2 ^ 63 - 1 →
        (work (.update user expected input, env) c).1 = .ok (.stale ⟨0, by decide⟩) ∨
          (work (.update user expected input, env) c).1 = .error .backend ∧
            ∃ st, env.fails st = true) ∧
    ∀ (expected : Version) (input : ProfileInput) (env : Env) (p : Profile),
      (work (.update user expected input, env) c).1 = .ok (.applied p) →
      (∃ row, c.committed.profiles.lookup user = some row ∧ row.version.val = expected.get) ∧
      ∃ next : Version, next.get = expected.get + 1 ∧
        ∀ (later : List StoreCalls.Act) (env' : Env),
          ¬Accepts user later (work (.update user expected input, env) c).2 →
          env'.fails .selectProfile = false →
          (work (.get user, env')
            (after later (work (.update user expected input, env) c).2)).1 =
              .ok (some ⟨user, input.address, input.phoneNumber, next⟩) := by
  intro c
  have hidle : c.working = none := after_idle rfl calls
  refine ⟨fun row hrow hneg => ?_, fun expected input env p hp => ?_⟩
  · have hkept : c.committed.profiles.lookup user = some row := after_negative rfl calls hrow hneg
    exact ⟨hkept, fun expected input env hrange =>
      update_negative hidle env input hkept hneg hrange⟩
  · obtain ⟨row, next, hrow, hval, hget, hfits, hnew⟩ := update_applied hidle hp
    refine ⟨⟨row, hrow, hval⟩, next, hget, fun later env' hlater hselect => ?_⟩
    have hidle' := work_idle hidle (.update user expected input, env)
    have hread := after_row hidle' later hnew hlater
    rw [work_get (after_idle hidle' later) hselect, hread]
    simp [fromSql_clamp hfits]

namespace Foreign

def quiet : Env := ⟨⟨1000, by decide⟩, fun _ => false⟩

/-- One row with the version −5 and one with the version 7; neither has a revision. -/
def db : Db :=
  ⟨(AList.insert ⟨"ada"⟩ ⟨"1 Main St", "+1", ⟨7, by decide, by decide⟩⟩
    (AList.insert ⟨"bob"⟩ ⟨"2 Main St", "+2", ⟨-5, by decide, by decide⟩⟩ ∅)), ∅⟩

def written : ProfileInput := ⟨"3 Main St", "+3"⟩

/-- Both rows are updated with the version that is stored or shown. -/
def calls : List StoreCalls.Act :=
  [(.update ⟨"bob"⟩ ⟨0, by decide⟩ written, quiet), (.create ⟨"bob"⟩ written, quiet)]

end Foreign

/-- Quoting the version zero that is shown for −5 changes nothing, and quoting seven is
accepted. -/
theorem foreign_rows_fail_closed_two :
    (work (.update ⟨"bob"⟩ ⟨0, by decide⟩ Foreign.written, Foreign.quiet)
        (after Foreign.calls ⟨Foreign.db, none⟩)).1 = .ok (.stale ⟨0, by decide⟩) ∧
      ∃ next : Version, next.get = 8 ∧
        (work (.get ⟨"ada"⟩, Foreign.quiet) (work
          (.update ⟨"ada"⟩ ⟨7, by decide⟩ Foreign.written, Foreign.quiet)
            (after Foreign.calls ⟨Foreign.db, none⟩)).2).1 =
          .ok (some ⟨⟨"ada"⟩, "3 Main St", "+3", next⟩) := by
  constructor
  · have hbob := (foreign_rows_fail_closed Foreign.db Foreign.calls ⟨"bob"⟩).1 _ rfl (by decide)
    refine (hbob.2 ⟨0, by decide⟩ Foreign.written Foreign.quiet (by decide)).resolve_right ?_
    rintro ⟨-, st, hst⟩
    cases hst
  · obtain ⟨-, next, hget, hread⟩ :=
      (foreign_rows_fail_closed Foreign.db Foreign.calls ⟨"ada"⟩).2 ⟨7, by decide⟩ Foreign.written
        Foreign.quiet ⟨⟨"ada"⟩, "3 Main St", "+3", ⟨8, by decide⟩⟩ (by decide)
    refine ⟨next, hget, hread [] Foreign.quiet ?_ rfl⟩
    rintro ⟨before, expected, input, env, rest, p, heq, -⟩
    cases before with
    | nil => cases heq
    | cons x before => cases heq

end Knova.SqliteProfiles
