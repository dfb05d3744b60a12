import Knova.Profile.MemoryAlone
import Knova.Profile.SqliteRefinement

/-!
# The storage backends

What holds of the profile store whichever backend was selected: the audit history of a
user is exactly what accepted calls wrote, and the projection is its last revision.
-/

namespace Knova

open Library Histories

/-- Storage backends selectable at startup. -/
inductive Backend
  | memory (mask : ℕ) (hash : UserId → UInt64)
  | sqlite

namespace Backend

variable {ι : Type} [DecidableEq ι]

def object (ι : Type) [DecidableEq ι] : Backend → SharedObject ι StoreCalls
  | .memory mask hash => InMemoryProfiles.object ι mask hash
  | .sqlite => SqliteProfiles.object ι

/-- Both backends keep the contract. -/
def points (ι : Type) [DecidableEq ι] :
    (b : Backend) → LinearizationPoints (b.object ι) contract Histories.empty
  | .memory mask hash =>
    (InMemoryProfiles.linearizationPoints ι mask hash).mono fun _ _ _ _ => contract_of_plain
  | .sqlite => SqliteProfiles.linearizationPoints ι

/-- No writer of `user` is inside its critical section or transaction. -/
def Idle (user : UserId) : (b : Backend) → (b.object ι).State → Prop
  | .memory _ hash, s => InMemoryProfiles.Unlocked hash s user
  | .sqlite, s => s.holder = none

variable {b : Backend} {user : UserId}

/-- The stored projection of a user. -/
def projection : (b : Backend) → (b.object ι).State → UserId → Option Profile
  | .memory _ hash, s, user => InMemoryProfiles.projection hash s user
  | .sqlite, s, user =>
    (s.value.committed.profiles.lookup user).map fun row =>
      ⟨user, row.address, row.phoneNumber, fromSql row.version⟩

/-- The stored projection is that of the last revision. -/
theorem projection_eq (b : Backend) {s : (b.object ι).State} {h : Histories}
    (hinv : (b.points ι).inv s h) (user : UserId) :
    b.projection s user = (h user).getLast?.map (project user) := by
  cases b with
  | memory mask hash =>
    change InMemoryProfiles.Inv hash s h at hinv
    change InMemoryProfiles.projection hash s user = _
    unfold InMemoryProfiles.projection
    cases hf : InMemoryProfiles.find hash s user with
    | none =>
      rw [hinv.absent user hf]
      rfl
    | some slot =>
      obtain ⟨record, last, hr, hlast, hcur, -⟩ := hinv.present user slot hf
      simp [hr, hlast, hcur]
  | sqlite =>
    change SqliteProfiles.Represents s.value h at hinv
    change (s.value.committed.profiles.lookup user).map _ = _
    rw [hinv.stored.profile user, Option.map_map]
    cases hlast : (h user).getLast? with
    | none => rfl
    | some last =>
      have hfits := (hinv.stored.fits user last (List.mem_of_getLast? hlast)).1
      simp [SqliteProfiles.profileRow, SqliteProfiles.fromSql_clamp hfits, project]

/-- What the read methods, run alone outside every critical section, return. -/
theorem reads_of_idle (b : Backend) {s : (b.object ι).State} {h : Histories}
    (hinv : (b.points ι).inv s h) (hidle : b.Idle user s) (i : ι) {env : Env}
    (hq : SqliteProfiles.Quiet env) :
    (∃ t, (b.object ι).alone i (.get user, env) s =
        some (.ok ((h user).getLast?.map (project user)), t)) ∧
      ∃ t, (b.object ι).alone i (.history user, env) s = some (.ok (h user), t) := by
  cases b with
  | memory mask hash =>
    exact ⟨⟨s, InMemoryProfiles.alone_get hinv hidle env⟩,
      ⟨s, InMemoryProfiles.alone_history hinv hidle env⟩⟩
  | sqlite =>
    obtain ⟨c, holder⟩ := s
    change holder = none at hidle
    subst hidle
    exact ⟨SqliteProfiles.alone_get hinv i user hq, SqliteProfiles.alone_history hinv i user hq⟩

/-- Outside every critical section a call that has taken effect has nothing left to do. -/
lemma eq_pure_of_idle (b : Backend) {s : (b.object ι).State} {h : Histories} {i : ι}
    {call : StoreOp × Env} {p : Prog (b.object ι).E call.1.Ret} {r : call.1.Ret}
    (hstage : (b.points ι).stage i s h call p (some r)) (hidle : b.Idle call.1.user s) :
    p = .pure r := by
  cases b with
  | memory mask hash =>
    change InMemoryProfiles.Stage hash i s h call p (some r) at hstage
    change InMemoryProfiles.Unlocked hash s call.1.user at hidle
    cases hstage with
    | releasing _ env r hh =>
      obtain ⟨hf, record, hr, hi, -⟩ := hh
      have := hidle.record _ record hf hr
      rw [hi] at this
      cases this
    | leaving _ env r hw =>
      have := hw.symm.trans hidle.shard
      cases this
    | finished env r => rfl
  | sqlite =>
    exact Mutex.Stage.eq_pure_of_free SqliteProfiles.empty SqliteProfiles.work hstage hidle

/-- A call of `c` has done all of its work with the result `r`. -/
def Settled (c : (b.object ι).Config) (e : Entry ι StoreCalls) : Prop :=
  c.thread e.id = some (.returned e.op e.ret) ∨ c.thread e.id = some (.running e.op (.pure e.ret))

/-- What an observer of a store finds about a user's revisions. -/
structure Audited (b : Backend) (c : (b.object ι).Config) (user : UserId)
    (revisions : List Revision) : Prop where
  /-- The audit read answers them. -/
  history : ∀ i env, SqliteProfiles.Quiet env → ∃ t,
    (b.object ι).alone i (.history user, env) c.shared = some (.ok revisions, t)
  /-- The read answers the projection of the last one. -/
  get : ∀ i env, SqliteProfiles.Quiet env → ∃ t,
    (b.object ι).alone i (.get user, env) c.shared =
      some (.ok (revisions.getLast?.map (project user)), t)
  /-- Their versions are `1, 2, …, n`. -/
  contiguous : Contiguous revisions
  /-- They are what the accepted calls wrote, one each: the create first, then updates. -/
  writers : ∃ calls : List (Entry ι StoreCalls), (calls.map Entry.id).Nodup ∧
    (∀ e, e ∈ calls ↔ Settled c e ∧ (writtenFor user e).isSome) ∧
    calls.map (writtenFor user) = revisions.map some ∧
    (calls = [] ∨ ∃ first rest, calls = first :: rest ∧ first.op.1.isCreate ∧
      ∀ e ∈ rest, ¬e.op.1.isCreate)

lemma settled_iff_mem {c : (b.object ι).Config} {order : List (Entry ι StoreCalls)}
    {h : Histories} (hx : (b.points ι).Explains c order h) (hidle : b.Idle user c.shared)
    {e : Entry ι StoreCalls} (hw : (writtenFor user e).isSome) : Settled c e ↔ e ∈ order := by
  obtain ⟨rev, hrev⟩ := Option.isSome_iff_exists.mp hw
  constructor
  · rintro (hret | hrun)
    · exact hx.returned_mem hret
    · obtain ⟨done, hstage, hdone⟩ := hx.running e.id e.op _ hrun
      exact (hdone e.ret).mpr ((b.points ι).finish _ _ _ _ _ _ hstage)
  · intro hmem
    obtain ⟨t, ht, hop⟩ := hx.thread_of_mem hmem
    obtain ⟨i, call, r⟩ := e
    have huser := user_of_writtenFor hrev
    dsimp only at ht hop huser
    cases t with
    | returned call' r' =>
      obtain rfl : call' = call := hop
      have hmem' := hx.returned_mem ht
      have heq := entry_eq_of_id_eq hx.linearizes.nodup hmem hmem' rfl
      cases heq
      exact .inl ht
    | running call' p =>
      obtain rfl : call' = call := hop
      obtain ⟨done, hstage, hdone⟩ := hx.running i call' p ht
      rw [(hdone r).mp hmem] at hstage
      rw [eq_pure_of_idle b hstage (by rwa [huser])] at ht
      exact .inr ht

/-- A store whose configuration is explained by `h`, observed where `user` is idle. -/
lemma audited_of_explains {c : (b.object ι).Config} {order : List (Entry ι StoreCalls)}
    {h : Histories} (hx : (b.points ι).Explains c order h) (hidle : b.Idle user c.shared) :
    b.Audited c user (h user) where
  history i env hq := (b.reads_of_idle hx.inv hidle i hq).2
  get i env hq := (b.reads_of_idle hx.inv hidle i hq).1
  contiguous := (legal_history hx.linearizes.legal user).2
  writers := by
    refine ⟨Histories.writers user order, ?_, ?_, ?_, ?_⟩
    · exact hx.linearizes.nodup.sublist (List.filter_sublist.map _)
    · intro e
      simp only [Histories.writers, List.mem_filter]
      constructor
      · rintro ⟨hmem, hw⟩
        exact ⟨(settled_iff_mem hx hidle hw).mpr hmem, hw⟩
      · rintro ⟨hs, hw⟩
        exact ⟨(settled_iff_mem hx hidle hw).mp hs, hw⟩
    · rw [map_writers, ← (legal_history hx.linearizes.legal user).1]
    · exact writers_create_first hx.linearizes.legal user

/-- In any two states of one run of either backend, each observed outside the critical
sections of a user's writers, the audit history is complete and contiguous, agrees with
the projection, and has only grown. -/
theorem audit_history (b : Backend) (ι : Type) [DecidableEq ι] (c c' : (b.object ι).Config)
    (moves : List (Move ι StoreCalls)) (user : UserId) (hc : (b.object ι).Reachable c)
    (hrun : (b.object ι).machine.run c moves = some c') (hidle : b.Idle user c.shared)
    (hidle' : b.Idle user c'.shared) :
    ∃ revisions revisions', b.Audited c user revisions ∧ b.Audited c' user revisions' ∧
      revisions <+: revisions' := by
  obtain ⟨order, h, hx⟩ := (b.points ι).reachable_explained hc
  obtain ⟨new, h', hx'⟩ := hx.run hrun
  refine ⟨h user, h' user, audited_of_explains hx hidle, audited_of_explains hx' hidle', ?_⟩
  rw [(legal_history hx.linearizes.legal user).1, (legal_history hx'.linearizes.legal user).1,
    List.filterMap_append]
  exact List.prefix_append _ _

/-- A create, then an update of the profile it made. -/
theorem audit_history_update :
    let env : Env := ⟨0, fun _ => false⟩
    let O := Backend.sqlite.object ℕ
    let creating : List (Move ℕ StoreCalls) :=
      [.invoke 0 (.create ⟨"u"⟩ ⟨"1 Main St", "5550100"⟩, env), .act 0, .act 0, .act 0, .ret 0]
    let updating : List (Move ℕ StoreCalls) :=
      [.invoke 1 (.update ⟨"u"⟩ .initial ⟨"2 Oak Ave", "5550101"⟩, env), .act 1, .act 1, .act 1]
    ∃ c c' : O.Config, O.machine.run O.initial creating = some c ∧
      O.machine.run c updating = some c' ∧
      ∃ revisions revisions', Backend.sqlite.Audited c ⟨"u"⟩ revisions ∧
        Backend.sqlite.Audited c' ⟨"u"⟩ revisions' ∧ revisions <+: revisions' := by
  intro env O creating updating
  refine ⟨_, _, rfl, rfl, ?_⟩
  exact audit_history .sqlite ℕ _ _ updating ⟨"u"⟩ ⟨creating, rfl⟩ rfl rfl rfl

end Backend

end Knova
