import Knova.Library.Locks
import Knova.Profile.Backend

/-!
# Who waits for whom

The shard guard is released before the revisions mutex is taken, so a call holds one lock at a
time. Only a create waits while it holds one: it claims its shard, which keeps new readers out,
and waits for those inside, which only look their record up. Reads of a profile wait for creates
on its shard and for such lookups, and for nothing else. No call of either backend is ever stuck.
-/

namespace Knova

open Library

/-- Whether a call takes the revisions mutex of its user. -/
def StoreOp.locksRevisions : StoreOp → Prop
  | .update _ _ _ => True
  | .history _ => True
  | _ => False

/-- The actions a call performs. -/
def MemAct.By (op : StoreOp) : MemAct → Prop
  | .readShard user | .lookup user => ¬op.isCreate ∧ user = op.user
  | .writeShard user | .awaitReaders user | .entry user | .insert user _ _ | .unlockShard user =>
    op.isCreate ∧ user = op.user
  | .loadCurrent _ => True
  | .lockRevisions _ | .pushRevision _ _ | .storeCurrent _ _ | .cloneRevisions _
  | .unlockRevisions _ => op.locksRevisions

namespace InMemoryProfiles

variable {ι : Type} {mask : ℕ} {hash : UserId → UInt64}

/-- The locks of the store: a shard for reading or for writing, and the revisions of a record. -/
inductive Lock (mask : ℕ)
  | reading (shard : Fin (mask + 1))
  | writing (shard : Fin (mask + 1))
  | revisions (slot : ℕ)
  deriving DecidableEq

/-- Which actions wait for, take and release which locks. A writer that has claimed a shard waits
for its readers, who never wait for anything. -/
def locking (hash : UserId → UInt64) (mask : ℕ) : Locking ⟨MemAct, MemAct.Ans⟩ (Lock mask) where
  awaits
    | .readShard user | .writeShard user => some (.writing (shard hash mask user))
    | .awaitReaders user => some (.reading (shard hash mask user))
    | .lockRevisions slot => some (.revisions slot)
    | _ => none
  acquires
    | .readShard user => some (.reading (shard hash mask user))
    | .writeShard user => some (.writing (shard hash mask user))
    | .lockRevisions slot => some (.revisions slot)
    | _ => none
  releases
    | .lookup user => some (.reading (shard hash mask user))
    | .unlockShard user => some (.writing (shard hash mask user))
    | .unlockRevisions slot => some (.revisions slot)
    | _ => none
  rank
    | .writing _ => 1
    | _ => 0

/-- Apart from taking a lock, a call only waits for the readers of a shard. -/
lemma awaits_readers {a : MemAct} {l : Lock mask} (ha : (locking hash mask).acquires a = none)
    (hawaits : (locking hash mask).awaits a = some l) :
    ∃ user, a = .awaitReaders user ∧ l = .reading (shard hash mask user) := by
  cases a with
  | awaitReaders user => exact ⟨user, rfl, (Option.some.inj hawaits).symm⟩
  | readShard | writeShard | lockRevisions => cases ha
  | lookup | entry | insert | unlockShard | loadCurrent | pushRevision | storeCurrent
  | cloneRevisions | unlockRevisions => cases hawaits

/-- The call `i` holds a lock. -/
def HoldsLock (s : InMemoryProfiles ι mask) : Lock mask → ι → Prop
  | .reading k, i => i ∈ (s.shards k).readers
  | .writing k, i => (s.shards k).writer = some i
  | .revisions slot, i => ∃ record, s.heap[slot]? = some record ∧ record.holder = some i

/-! ### The programs -/

section Programs

variable {l : Lock mask} {user : UserId} {slot : ℕ}

/-- What follows a version test gives the mutex back without waiting. -/
lemma carries_compareAndSwap {nowMs : Fin (2 ^ 64)} {expected v : Version} {input : ProfileInput} :
    (locking hash mask).Carries l (compareAndSwap nowMs user expected input slot v) ↔
      l = .revisions slot := by
  unfold compareAndSwap
  split
  · simp [Locking.Carries, locking, act, bind, Prog.bind, eq_comm, pure]
  · split
    · simp [Locking.Carries, locking, act, bind, Prog.bind, eq_comm, pure]
    · simp [publish, Locking.Carries, locking, act, bind, Prog.bind, eq_comm, pure]

lemma disciplined_compareAndSwap {nowMs : Fin (2 ^ 64)} {expected v : Version}
    {input : ProfileInput} :
    (locking hash mask).Disciplined (compareAndSwap nowMs user expected input slot v) := by
  unfold compareAndSwap
  split
  · simp [Locking.Disciplined, locking, act, bind, Prog.bind, pure]
  · split
    · simp [Locking.Disciplined, locking, act, bind, Prog.bind, pure]
    · simp [publish, Locking.Disciplined, locking, act, bind, Prog.bind, pure]

/-- The shard guard is dropped by the lookup. -/
lemma disciplined_slot {β : Type} {k : Option ℕ → MemProg β}
    (hk : ∀ found, (locking hash mask).Disciplined (k found)) :
    (locking hash mask).Disciplined ((InMemoryProfiles.slot user).bind k) := by
  refine ⟨fun l hl _ => Locking.carries_act rfl rfl (.inl ?_),
    fun _ => Locking.disciplined_act rfl hk⟩
  obtain rfl := Option.some.inj hl
  rfl

/-- Every method holds one lock at a time, and only a create waits while it does. -/
theorem disciplined_body (env : Env) (op : StoreOp) :
    (locking hash mask).Disciplined (body env op) := by
  cases op with
  | create user input =>
    simp only [body, create, act, bind, Prog.bind]
    refine ⟨fun l hl _ => ⟨rfl, fun l' hl' => ?_, .inr fun _ =>
        Locking.carries_act rfl rfl (.inr fun occupied => ?_)⟩,
      fun _ => Locking.disciplined_act rfl fun _ => Locking.disciplined_act rfl fun occupied => ?_⟩
    · -- the readers of the shard it has claimed rank lower
      obtain rfl := Option.some.inj hl
      obtain rfl := Option.some.inj hl'
      exact Nat.zero_lt_one
    · obtain rfl := Option.some.inj hl
      cases occupied <;> simp [Locking.Carries, locking, pure]
    · cases occupied <;> simp [Locking.Disciplined, locking, pure]
  | get user =>
    refine disciplined_slot fun found => ?_
    cases found <;> simp [readAt, Locking.Disciplined, locking, act, bind, Prog.bind, pure]
  | update user expected input =>
    refine disciplined_slot fun found => ?_
    cases found with
    | none => exact Locking.disciplined_pure
    | some slot =>
      refine ⟨fun l hl _ => Locking.carries_act rfl rfl (.inr fun current => ?_),
        fun _ => Locking.disciplined_act rfl fun current => disciplined_compareAndSwap⟩
      exact carries_compareAndSwap.mpr (Option.some.inj hl).symm
  | history user =>
    refine disciplined_slot fun found => ?_
    cases found with
    | none => exact Locking.disciplined_pure
    | some slot =>
      simp [historyAt, Locking.Disciplined, Locking.Carries, locking, act, bind, Prog.bind, pure]

end Programs

/-! ### The locks in the store -/

section Locks

variable [DecidableEq ι] {s s' : InMemoryProfiles ι mask} {i j : ι} {l : Lock mask}
  {user : UserId} {slot : ℕ}

omit [DecidableEq ι] in
/-- The locks of one shard after it changed, and those of the others as they were. -/
lemma holdsLock_setShard {k : Fin (mask + 1)} {sh : Shard ι}
    (h : HoldsLock { s with shards := Function.update s.shards k sh } l j) :
    (l = .reading k ∧ j ∈ sh.readers) ∨ (l = .writing k ∧ sh.writer = some j) ∨
      (l ≠ .reading k ∧ l ≠ .writing k ∧ HoldsLock s l j) := by
  cases l with
  | reading k' =>
    by_cases hk : k' = k
    · subst hk
      exact .inl ⟨rfl, by simpa [HoldsLock] using h⟩
    · exact .inr (.inr ⟨by simpa using hk, by simp, by simpa [HoldsLock, hk] using h⟩)
  | writing k' =>
    by_cases hk : k' = k
    · subst hk
      exact .inr (.inl ⟨rfl, by simpa [HoldsLock] using h⟩)
    · exact .inr (.inr ⟨by simp, by simpa using hk, by simpa [HoldsLock, hk] using h⟩)
  | revisions slot => exact .inr (.inr ⟨by simp, by simp, h⟩)

omit [DecidableEq ι] in
/-- The lock of one record after it changed, and those of the others as they were. -/
lemma holdsLock_setRecord {record : Record ι}
    (h : HoldsLock { s with heap := s.heap.set slot record } l j) :
    (l = .revisions slot ∧ record.holder = some j) ∨ (l ≠ .revisions slot ∧ HoldsLock s l j) := by
  cases l with
  | reading k => exact .inr ⟨by simp, h⟩
  | writing k => exact .inr ⟨by simp, h⟩
  | revisions slot' =>
    obtain ⟨r, hr, hj⟩ := h
    dsimp only at hr
    rw [List.getElem?_set] at hr
    split at hr
    · rename_i heq
      subst heq
      split at hr
      · obtain rfl := Option.some.inj hr
        exact .inl ⟨rfl, hj⟩
      · cases hr
    · rename_i hne
      exact .inr ⟨by simpa [eq_comm] using hne, r, hr, hj⟩

/-- The shards are read by every call once at most. -/
def ReadOnce (s : InMemoryProfiles ι mask) : Prop := ∀ k, (s.shards k).readers.Nodup

omit [DecidableEq ι] in
lemma ReadOnce.setShard (hs : ReadOnce s) {k : Fin (mask + 1)} {sh : Shard ι}
    (hsh : sh.readers.Nodup) : ReadOnce { s with shards := Function.update s.shards k sh } := by
  intro k'
  by_cases hk : k' = k
  · subst hk
    simpa using hsh
  · simpa [hk] using hs k'

/-- What an action of `i` does to the locks. -/
structure Handover (hash : UserId → UInt64) (i : ι) (a : MemAct) (s s' : InMemoryProfiles ι mask) :
    Prop where
  once : ReadOnce s'
  held : ∀ l j, HoldsLock s' l j → (j = i ∧ (locking hash mask).acquires a = some l) ∨
    (HoldsLock s l j ∧ (j = i → (locking hash mask).releases a ≠ some l))

lemma handover_readShard {r : Unit} (hs : ReadOnce s)
    (hfresh : ¬HoldsLock s (.reading (shard hash mask user)) i)
    (he : exec hash i (.readShard user) s = some (r, s')) :
    Handover hash i (.readShard user) s s' := by
  simp only [exec] at he
  obtain ⟨sh, hf, rfl⟩ := onShard_eq_some he
  split at hf
  · cases hf
    refine ⟨hs.setShard (List.nodup_cons.mpr ⟨hfresh, hs _⟩), fun l j hl => ?_⟩
    rcases holdsLock_setShard hl with ⟨rfl, hj⟩ | ⟨rfl, hj⟩ | ⟨-, -, hl⟩
    · rcases List.mem_cons.mp hj with rfl | hj
      · exact .inl ⟨rfl, rfl⟩
      · exact .inr ⟨hj, by simp [locking]⟩
    · exact .inr ⟨hj, by simp [locking]⟩
    · exact .inr ⟨hl, by simp [locking]⟩
  · cases hf

lemma handover_lookup {r : Option ℕ} (hs : ReadOnce s)
    (he : exec hash i (.lookup user) s = some (r, s')) : Handover hash i (.lookup user) s s' := by
  simp only [exec] at he
  obtain ⟨sh, hf, rfl⟩ := onShard_eq_some he
  cases hf
  refine ⟨hs.setShard ((hs _).erase _), fun l j hl => .inr ?_⟩
  rcases holdsLock_setShard hl with ⟨rfl, hj⟩ | ⟨rfl, hj⟩ | ⟨hl, -, hl'⟩
  · refine ⟨List.mem_of_mem_erase hj, ?_⟩
    rintro rfl
    exact absurd hj (hs _).not_mem_erase
  · exact ⟨hj, by simp [locking]⟩
  · exact ⟨hl', fun _ heq => hl (Option.some.inj heq).symm⟩

lemma handover_writeShard {r : Unit} (hs : ReadOnce s)
    (he : exec hash i (.writeShard user) s = some (r, s')) :
    Handover hash i (.writeShard user) s s' := by
  simp only [exec] at he
  obtain ⟨sh, hf, rfl⟩ := onShard_eq_some he
  split at hf
  · cases hf
    refine ⟨hs.setShard (hs _), fun l j hl => ?_⟩
    rcases holdsLock_setShard hl with ⟨rfl, hj⟩ | ⟨rfl, hj⟩ | ⟨-, -, hl⟩
    · exact .inr ⟨hj, by simp [locking]⟩
    · exact .inl ⟨(Option.some.inj hj).symm, rfl⟩
    · exact .inr ⟨hl, by simp [locking]⟩
  · cases hf

lemma handover_insert {current : Profile} {revisions : List Revision} {r : Unit} (hs : ReadOnce s)
    (he : exec hash i (.insert user current revisions) s = some (r, s')) :
    Handover hash i (.insert user current revisions) s s' := by
  simp only [exec] at he
  obtain ⟨sh, hf, rfl⟩ := onShard_eq_some he
  cases hf
  refine ⟨ReadOnce.setShard (s := { s with heap := s.heap ++ [⟨current, revisions, none⟩] }) hs
    (hs _), fun l j hl => .inr ⟨?_, by simp [locking]⟩⟩
  rcases holdsLock_setShard hl with ⟨rfl, hj⟩ | ⟨rfl, hj⟩ | ⟨-, -, hl⟩
  · exact hj
  · exact hj
  · cases l with
    | reading k => exact hl
    | writing k => exact hl
    | revisions slot =>
      -- nobody holds the mutex of the record that was added
      obtain ⟨record, hr, hj⟩ := hl
      dsimp only at hr
      rcases Nat.lt_or_ge slot s.heap.length with hlt | hge
      · exact ⟨record, by rwa [List.getElem?_append_left hlt] at hr, hj⟩
      · rw [List.getElem?_append_right hge, List.getElem?_singleton] at hr
        split at hr
        · obtain rfl := Option.some.inj hr
          cases hj
        · cases hr

lemma handover_unlockShard {r : Unit} (hs : ReadOnce s)
    (he : exec hash i (.unlockShard user) s = some (r, s')) :
    Handover hash i (.unlockShard user) s s' := by
  simp only [exec] at he
  obtain ⟨sh, hf, rfl⟩ := onShard_eq_some he
  cases hf
  refine ⟨hs.setShard (hs _), fun l j hl => .inr ?_⟩
  rcases holdsLock_setShard hl with ⟨rfl, hj⟩ | ⟨rfl, hj⟩ | ⟨-, hl, hl'⟩
  · exact ⟨hj, by simp [locking]⟩
  · cases hj
  · exact ⟨hl', fun _ heq => hl (Option.some.inj heq).symm⟩

lemma handover_lockRevisions {r : Unit} (hs : ReadOnce s)
    (he : exec hash i (.lockRevisions slot) s = some (r, s')) :
    Handover hash i (.lockRevisions slot) s s' := by
  simp only [exec] at he
  obtain ⟨record, record', hr, hf, rfl⟩ := onRecord_eq_some he
  split at hf
  · cases hf
    refine ⟨hs, fun l j hl => ?_⟩
    rcases holdsLock_setRecord hl with ⟨rfl, hj⟩ | ⟨-, hl⟩
    · exact .inl ⟨(Option.some.inj hj).symm, rfl⟩
    · exact .inr ⟨hl, by simp [locking]⟩
  · cases hf

lemma handover_unlockRevisions {r : Unit} (hs : ReadOnce s)
    (he : exec hash i (.unlockRevisions slot) s = some (r, s')) :
    Handover hash i (.unlockRevisions slot) s s' := by
  simp only [exec] at he
  obtain ⟨record, record', hr, hf, rfl⟩ := onRecord_eq_some he
  cases hf
  refine ⟨hs, fun l j hl => .inr ?_⟩
  rcases holdsLock_setRecord hl with ⟨rfl, hj⟩ | ⟨hl, hl'⟩
  · cases hj
  · exact ⟨hl', fun _ heq => hl (Option.some.inj heq).symm⟩

omit [DecidableEq ι] in
/-- An action on a record that leaves its mutex with whoever holds it. -/
lemma handover_onRecord {β : Type} {a : MemAct} {f : Record ι → Option (β × Record ι)} {r : β}
    (hs : ReadOnce s) (he : onRecord slot s f = some (r, s'))
    (ha : (locking hash mask).releases a = none)
    (hf : ∀ record b record', f record = some (b, record') → record'.holder = record.holder) :
    Handover hash i a s s' := by
  obtain ⟨record, record', hr, hrec, rfl⟩ := onRecord_eq_some he
  refine ⟨hs, fun l j hl => .inr ⟨?_, by simp [ha]⟩⟩
  rcases holdsLock_setRecord hl with ⟨rfl, hj⟩ | ⟨-, hl⟩
  · exact ⟨record, hr, by rwa [← hf record r record' hrec]⟩
  · exact hl

/-- What every action does to the locks. -/
theorem handover {a : MemAct} {r : a.Ans} (hs : ReadOnce s)
    (hfresh : ∀ l, (locking hash mask).acquires a = some l → ¬HoldsLock s l i)
    (he : exec hash i a s = some (r, s')) : Handover hash i a s s' := by
  cases a with
  | readShard user => exact handover_readShard hs (hfresh _ rfl) he
  | lookup user => exact handover_lookup hs he
  | writeShard user => exact handover_writeShard hs he
  | awaitReaders user =>
    obtain rfl := exec_awaitReaders he
    exact ⟨hs, fun l j hl => .inr ⟨hl, by simp [locking]⟩⟩
  | entry user =>
    obtain ⟨rfl, -⟩ := exec_entry he
    exact ⟨hs, fun l j hl => .inr ⟨hl, by simp [locking]⟩⟩
  | insert user current revisions => exact handover_insert hs he
  | unlockShard user => exact handover_unlockShard hs he
  | lockRevisions slot => exact handover_lockRevisions hs he
  | unlockRevisions slot => exact handover_unlockRevisions hs he
  | loadCurrent | pushRevision | storeCurrent | cloneRevisions =>
    simp only [exec] at he
    refine handover_onRecord hs he rfl fun record b record' hf => ?_
    cases hf
    rfl

/-- How the methods take and give back the locks of the store. -/
def discipline (ι : Type) [DecidableEq ι] (mask : ℕ) (hash : UserId → UInt64) :
    (object ι mask hash).Discipline (Lock mask) where
  toLocking := locking hash mask
  holds := HoldsLock
  inv := ReadOnce
  init := by
    refine ⟨fun _ => List.nodup_nil, fun l i h => ?_⟩
    cases l <;> simp [object, empty, HoldsLock] at h
  body call := disciplined_body call.2 call.1
  exec hs hfresh he := ⟨(handover hs hfresh he).once, (handover hs hfresh he).held⟩

end Locks

/-! ### Who can make a call wait -/

/-- The call `other` can make the call `op` wait: for their shard, where one of them is a
create, or for the revisions of their user. -/
def Contends (hash : UserId → UInt64) (mask : ℕ) (op other : StoreOp) : Prop :=
  shard hash mask op.user = shard hash mask other.user ∧ (op.isCreate ∨ other.isCreate) ∨
    op.user = other.user ∧ op.locksRevisions ∧ other.locksRevisions

section Waiting

variable {user : UserId} {op : StoreOp}

/-- Every method performs the actions of its kind, on its own user. -/
theorem body_by (env : Env) (op : StoreOp) : (body env op).All (MemAct.By op) := by
  cases op with
  | create user input =>
    have hcreate : (StoreOp.create user input).isCreate := trivial
    refine ⟨⟨hcreate, rfl⟩, fun _ => ⟨⟨hcreate, rfl⟩, fun _ => ⟨⟨hcreate, rfl⟩,
      fun occupied => ?_⟩⟩⟩
    cases occupied with
    | true => exact ⟨⟨hcreate, rfl⟩, fun _ => trivial⟩
    | false => exact ⟨⟨hcreate, rfl⟩, fun _ => ⟨⟨hcreate, rfl⟩, fun _ => trivial⟩⟩
  | get user =>
    refine ⟨⟨id, rfl⟩, fun _ => ⟨⟨id, rfl⟩, fun found => ?_⟩⟩
    cases found with
    | none => trivial
    | some slot => exact ⟨trivial, fun _ => trivial⟩
  | update user expected input =>
    refine ⟨⟨id, rfl⟩, fun _ => ⟨⟨id, rfl⟩, fun found => ?_⟩⟩
    cases found with
    | none => trivial
    | some slot =>
      refine ⟨trivial, fun _ => ⟨trivial, fun current => ?_⟩⟩
      change (compareAndSwap env.nowMs user expected input slot current.version).All _
      unfold compareAndSwap
      split
      · exact ⟨trivial, fun _ => trivial⟩
      · split
        · exact ⟨trivial, fun _ => trivial⟩
        · exact ⟨trivial, fun _ => ⟨trivial, fun _ => ⟨trivial, fun _ => trivial⟩⟩⟩
  | history user =>
    refine ⟨⟨id, rfl⟩, fun _ => ⟨⟨id, rfl⟩, fun found => ?_⟩⟩
    cases found with
    | none => trivial
    | some slot =>
      exact ⟨trivial, fun _ => ⟨trivial, fun _ => ⟨trivial, fun _ => trivial⟩⟩⟩

/-- The lock a call carries is one that its kind of call takes. -/
lemma of_carries {call : StoreOp × Env} {p : MemProg call.1.Ret} {l : Lock mask}
    (hp : p.All (MemAct.By call.1)) (h : (locking hash mask).Carries l p) :
    (∃ k, l = .reading k ∧ k = shard hash mask call.1.user) ∨
      (∃ k, l = .writing k ∧ k = shard hash mask call.1.user ∧ call.1.isCreate) ∨
      ∃ slot, l = .revisions slot ∧ call.1.locksRevisions := by
  have : ∀ a : MemAct, Nonempty a.Ans := by
    intro a
    cases a
    case loadCurrent => exact ⟨⟨⟨""⟩, "", "", .initial⟩⟩
    all_goals exact ⟨default⟩
  obtain ⟨a, ha, hreleases⟩ := h.exists_releases hp
  cases a with
  | lookup user =>
    obtain ⟨-, rfl⟩ := ha
    exact .inl ⟨_, (Option.some.inj hreleases).symm, rfl⟩
  | unlockShard user =>
    obtain ⟨hcreate, rfl⟩ := ha
    exact .inr (.inl ⟨_, (Option.some.inj hreleases).symm, rfl, hcreate⟩)
  | unlockRevisions slot => exact .inr (.inr ⟨slot, (Option.some.inj hreleases).symm, ha⟩)
  | readShard | writeShard | awaitReaders | entry | insert | lockRevisions | loadCurrent
  | pushRevision | storeCurrent | cloneRevisions => cases hreleases

variable {i : ι} {s : InMemoryProfiles ι mask} {h : Histories} {call : StoreOp × Env}

/-- A call that carries the mutex of a record carries that of its user. -/
lemma Stage.find_of_revisions {p : MemProg call.1.Ret} {done : Option call.1.Ret} {slot : ℕ}
    (hstage : Stage hash i s h call p done)
    (hp : (locking hash mask).Carries (.revisions slot) p) :
    s.find hash call.1.user = some slot := by
  cases hstage with
  | entering | updating | auditing | creating => cases hp.1
  | looking hk =>
    rcases hp.2.2 with hreleases | hcarried
    · cases hreleases
    · cases hk with
      | get | update | history => exact (hcarried none).elim
  | reading env hf =>
    rcases hp.2.2 with hreleases | hcarried
    · cases hreleases
    · exact (hcarried ⟨⟨""⟩, "", "", .initial⟩).elim
  | comparing expected input env hh =>
    rcases hp.2.2 with hreleases | hcarried
    · cases hreleases
    · obtain rfl := Lock.revisions.inj
        (carries_compareAndSwap.mp (hcarried ⟨⟨""⟩, "", "", .initial⟩))
      exact hh.1
  | pushing _ _ hh | storing _ _ hh | cloning _ hh | releasing _ _ _ hh =>
    simp only [Locking.Carries, locking, true_and, reduceCtorEq, false_imp_iff, implies_true,
      false_or, Option.some.injEq, Lock.revisions.injEq, forall_const, or_false] at hp
    exact hp ▸ hh.1
  | claimed | entry | inserting | leaving => simp [Locking.Carries, locking] at hp
  | finished => exact hp.elim

variable [DecidableEq ι]

/-- Only a lock that a call holds makes another wait. -/
lemma Stage.onlyLocks {a : MemAct} {k : a.Ans → MemProg call.1.Ret} {done : Option call.1.Ret}
    (hinv : Inv hash s h) (hstage : Stage hash i s h call (.act a k) done)
    (he : exec hash i a s = none) :
    ∃ l j, (locking hash mask).awaits a = some l ∧ HoldsLock s l j := by
  have hmutex : ∀ {user slot}, s.find hash user = some slot →
      exec hash i (.lockRevisions slot) s = none → ∃ j, HoldsLock s (.revisions slot) j := by
    intro user slot hf he
    obtain ⟨record, -, hr, -⟩ := hinv.present _ _ hf
    cases hj : record.holder with
    | none => simp [exec, onRecord, hr, hj] at he
    | some j => exact ⟨j, record, hr, hj⟩
  cases hstage with
  | @entering op env user _ hk =>
    cases hw : (s.shards (shard hash mask user)).writer with
    | none => simp [exec, onShard, hw] at he
    | some j => exact ⟨.writing _, j, rfl, hw⟩
  | creating user input env =>
    cases hw : (s.shards (shard hash mask user)).writer with
    | none => simp [exec, onShard, hw] at he
    | some j => exact ⟨.writing _, j, rfl, hw⟩
  | @claimed user input env hw =>
    cases hreaders : (s.shards (shard hash mask user)).readers with
    | nil => simp [exec, onShard, hreaders] at he
    | cons j readers =>
      have hmem : j ∈ (s.shards (shard hash mask user)).readers := by
        rw [hreaders]
        exact List.mem_cons_self ..
      exact ⟨.reading _, j, rfl, hmem⟩
  | updating expected input env hf =>
    obtain ⟨j, hj⟩ := hmutex hf he
    exact ⟨_, j, rfl, hj⟩
  | auditing env hf =>
    obtain ⟨j, hj⟩ := hmutex hf he
    exact ⟨_, j, rfl, hj⟩
  | looking | entry | inserting | leaving => simp [exec, onShard] at he
  | reading env hf =>
    obtain ⟨record, -, hr, -⟩ := hinv.present _ _ hf
    simp [exec, onRecord, hr] at he
  | comparing _ _ _ hh | pushing _ _ hh | storing _ _ hh | cloning _ hh | releasing _ _ _ hh =>
    obtain ⟨-, record, hr, -⟩ := hh
    simp [exec, onRecord, hr] at he

/-- What a call can wait for: the writer of its shard, the readers there if it is a create, and the
mutex of its user's record. -/
def WaitsOn (hash : UserId → UInt64) (s : InMemoryProfiles ι mask) (op : StoreOp)
    (l : Lock mask) : Prop :=
  (l = .reading (shard hash mask op.user) ∧ op.isCreate) ∨ l = .writing (shard hash mask op.user) ∨
    ∃ slot, l = .revisions slot ∧ s.find hash op.user = some slot ∧ op.locksRevisions

omit [DecidableEq ι] in
lemma Stage.waitsOn {a : MemAct} {k : a.Ans → MemProg call.1.Ret} {done : Option call.1.Ret}
    {l : Lock mask} (hstage : Stage hash i s h call (.act a k) done)
    (ha : (locking hash mask).awaits a = some l) : WaitsOn hash s call.1 l := by
  cases hstage with
  | entering hk =>
    obtain rfl := Option.some.inj ha
    cases hk <;> exact .inr (.inl rfl)
  | creating =>
    obtain rfl := Option.some.inj ha
    exact .inr (.inl rfl)
  | claimed =>
    obtain rfl := Option.some.inj ha
    exact .inl ⟨rfl, trivial⟩
  | updating _ _ _ hf =>
    obtain rfl := Option.some.inj ha
    exact .inr (.inr ⟨_, rfl, hf, trivial⟩)
  | auditing _ hf =>
    obtain rfl := Option.some.inj ha
    exact .inr (.inr ⟨_, rfl, hf, trivial⟩)
  | looking | reading | comparing | pushing | storing | cloning | releasing | entry | inserting
  | leaving => cases ha

omit [DecidableEq ι] in
/-- A call waits for one that contends with it. -/
lemma contends_of_waitsOn {j : ι} {other : StoreOp × Env} {q : MemProg other.1.Ret}
    {done : Option other.1.Ret} {l : Lock mask} (hinv : Inv hash s h)
    (hwaits : WaitsOn hash s call.1 l) (hstage : Stage hash j s h other q done)
    (hby : q.All (MemAct.By other.1)) (hq : (locking hash mask).Carries l q) :
    Contends hash mask call.1 other.1 := by
  rcases hwaits with ⟨rfl, hcreate⟩ | rfl | ⟨slot, rfl, hf, hlocks⟩
  · rcases of_carries hby hq with ⟨k, hl, hk⟩ | ⟨k, hl, -⟩ | ⟨slot, hl, -⟩
    · exact .inl ⟨by rw [← hk, Lock.reading.inj hl], .inl hcreate⟩
    · cases hl
    · cases hl
  · rcases of_carries hby hq with ⟨k, hl, -⟩ | ⟨k, hl, hk, hcreate⟩ | ⟨slot, hl, -⟩
    · cases hl
    · exact .inl ⟨by rw [← hk, Lock.writing.inj hl], .inr hcreate⟩
    · cases hl
  · rcases of_carries hby hq with ⟨k, hl, -⟩ | ⟨k, hl, -⟩ | ⟨slot', hl, hlocks'⟩
    · cases hl
    · cases hl
    · exact .inr ⟨hinv.distinct _ _ slot hf (hstage.find_of_revisions hq), hlocks, hlocks'⟩

omit [DecidableEq ι] in
/-- A reader of a shard is about to look its record up. -/
lemma Stage.lookup_of_reading {p : MemProg call.1.Ret} {done : Option call.1.Ret}
    {k : Fin (mask + 1)} (hstage : Stage hash i s h call p done)
    (hp : (locking hash mask).Carries (.reading k) p) :
    ∃ next, p = .act (.lookup call.1.user) next := by
  cases hstage with
  | looking hk => cases hk <;> exact ⟨_, rfl⟩
  | entering | updating | auditing | creating => cases hp.1
  | claimed => exact absurd (hp.rank_lt rfl) (lt_irrefl _)
  | comparing =>
    rcases hp.2.2 with hreleases | hcarried
    · cases hreleases
    · cases carries_compareAndSwap.mp (hcarried ⟨⟨""⟩, "", "", .initial⟩)
  | reading =>
    rcases hp.2.2 with hreleases | hcarried
    · cases hreleases
    · exact (hcarried ⟨⟨""⟩, "", "", .initial⟩).elim
  | pushing | storing | cloning | releasing | entry | inserting | leaving =>
    simp [Locking.Carries, locking] at hp
  | finished => exact hp.elim

/-- A call that cannot take a step waits for one that works on the same shard, where one of the
two is a create, or on the revisions of the same user. That one can take a step, or it is a
create that waits for a call to look its record up in the shard, which can. -/
theorem waits_for (ι : Type) [DecidableEq ι] (mask : ℕ) (hash : UserId → UInt64)
    (c : (object ι mask hash).Config) (hc : (object ι mask hash).Reachable c) (i : ι)
    (call : StoreOp × Env) (p : MemProg call.1.Ret)
    (hi : c.thread i = some (.running call p)) :
    SharedObject.Enabled c i ∨ ∃ j other q, j ≠ i ∧ c.thread j = some (.running other q) ∧
      Contends hash mask call.1 other.1 ∧
      (SharedObject.Enabled c j ∨ other.1.isCreate ∧ ∃ j' reader next,
        c.thread j' = some (.running reader (.act (.lookup reader.1.user) next)) ∧
          Contends hash mask other.1 reader.1 ∧ SharedObject.Enabled c j') := by
  obtain ⟨order, h, hx⟩ := (linearizationPoints ι mask hash).reachable_explained hc
  have hmanned := SharedObject.Discipline.manned_of_reachable (D := discipline ι mask hash) hc
  have hlocks : (discipline ι mask hash).OnlyLocks c := by
    intro j other a next hj he
    obtain ⟨done, hstage, -⟩ := hx.running j other _ hj
    exact hstage.onlyLocks hx.inv he
  have hby : ∀ {j other q}, c.thread j = some (.running other q) → q.All (MemAct.By other.1) := by
    intro j other q hj
    obtain ⟨log, hlog⟩ := SharedObject.follows_of_reachable hc hj
    exact ((body_by other.2 other.1).follows hlog).2
  -- whoever waits, waits for a call that contends with it
  have hcontends : ∀ {i j call other a next l q}, c.thread i = some (.running call (.act a next)) →
      (locking hash mask).awaits a = some l → c.thread j = some (.running other q) →
      (locking hash mask).Carries l q → Contends hash mask call.1 other.1 := by
    intro i j call other a next l q hi hawaits hj hq
    obtain ⟨done, hstage, -⟩ := hx.running i call _ hi
    obtain ⟨done', hstage', -⟩ := hx.running j other q hj
    exact contends_of_waitsOn hx.inv (hstage.waitsOn hawaits) hstage' (hby hj) hq
  rw [or_iff_not_imp_left]
  intro hstuck
  obtain ⟨a, next, l, j, other, q, rfl, hawaits, -, hji, hj, hq⟩ := hmanned.waits hlocks hi hstuck
  refine ⟨j, other, q, hji, hj, hcontends hi hawaits hj hq, ?_⟩
  rw [or_iff_not_imp_left]
  intro hstuck'
  obtain ⟨a', next', l', j', reader, q', rfl, hawaits', -, -, hj', hq'⟩ :=
    hmanned.waits hlocks hj hstuck'
  -- the one that holds a lock and waits is a create, and it waits for a reader
  obtain ⟨user, rfl, rfl⟩ := awaits_readers hq.acquires_eq_none hawaits'
  obtain ⟨hcreate, -⟩ := (hby hj).1
  obtain ⟨done, hstage, -⟩ := hx.running j' reader q' hj'
  obtain ⟨lookup, rfl⟩ := hstage.lookup_of_reading hq'
  refine ⟨hcreate, j', reader, lookup, hj', hcontends hj hawaits' hj' hq', ?_⟩
  by_contra hwaiting
  obtain ⟨act, rest, l, -, -, -, hact, hawaits, -⟩ := hmanned.waits hlocks hj' hwaiting
  cases hact
  cases hawaits

/-- A read waits for a create that waits for an update to look its record up. -/
theorem waits_for_create :
    let env : Env := ⟨0, fun _ => false⟩
    let O := object ℕ 0 fun _ => 0
    let reading : StoreOp × Env := (.get ⟨"u"⟩, env)
    let moves : List (Move ℕ StoreCalls) :=
      [.invoke 0 (.update ⟨"v"⟩ .initial ⟨"2 Oak Ave", "5550101"⟩, env), .act 0,
        .invoke 1 (.create ⟨"w"⟩ ⟨"1 Main St", "5550100"⟩, env), .act 1, .invoke 2 reading]
    ∃ (c : O.Config) (p : MemProg reading.1.Ret), O.machine.run O.initial moves = some c ∧
      c.thread 2 = some (.running reading p) ∧ ¬SharedObject.Enabled c 2 ∧
      ¬SharedObject.Enabled c 1 ∧
      (SharedObject.Enabled c 2 ∨ ∃ j other q, j ≠ 2 ∧ c.thread j = some (.running other q) ∧
        Contends (fun _ => 0) 0 reading.1 other.1 ∧
        (SharedObject.Enabled c j ∨ other.1.isCreate ∧ ∃ j' reader next,
          c.thread j' = some (.running reader (.act (.lookup reader.1.user) next)) ∧
            Contends (fun _ => 0) 0 other.1 reader.1 ∧ SharedObject.Enabled c j')) := by
  intro env O reading moves
  refine ⟨_, _, rfl, rfl, ?_, ?_, waits_for ℕ 0 (fun _ => 0) _ ⟨moves, rfl⟩ 2 reading _ rfl⟩
  · rintro (hact | hret)
    · cases hact
    · cases hret
  · rintro (hact | hret)
    · cases hact
    · cases hret

/-! ### Every call returns -/

omit [DecidableEq ι] in
lemma within_compareAndSwap {nowMs : Fin (2 ^ 64)} {expected v : Version} {input : ProfileInput}
    {slot : ℕ} : (compareAndSwap nowMs user expected input slot v).Within 3 := by
  unfold compareAndSwap
  split
  · exact fun _ => Prog.within_pure
  · split
    · exact fun _ => Prog.within_pure
    · exact fun _ _ _ => Prog.within_pure

/-- No method performs more than seven actions. -/
theorem within_body (env : Env) (op : StoreOp) : (body env op).Within 7 := by
  cases op with
  | create user input =>
    intro _ _ occupied
    cases occupied with
    | true => exact fun _ => Prog.within_pure
    | false => exact fun _ _ => Prog.within_pure
  | get user =>
    intro _ found
    cases found with
    | none => exact Prog.within_pure
    | some slot => exact fun _ => Prog.within_pure
  | update user expected input =>
    intro _ found
    cases found with
    | none => exact Prog.within_pure
    | some slot => exact fun _ current => within_compareAndSwap
  | history user =>
    intro _ found
    cases found with
    | none => exact Prog.within_pure
    | some slot => exact fun _ _ _ => Prog.within_pure

end Waiting

end InMemoryProfiles

namespace Backend

variable {ι : Type} [DecidableEq ι]

/-- Where a call is running, some call can take a step. -/
theorem enabled_of_running (b : Backend) {c : (b.object ι).Config} (hc : (b.object ι).Reachable c)
    {i : ι} {call : StoreOp × Env} {p : Prog (b.object ι).E call.1.Ret}
    (hi : c.thread i = some (.running call p)) : ∃ j, SharedObject.Enabled c j := by
  cases b with
  | memory mask hash =>
    rcases InMemoryProfiles.waits_for ι mask hash c hc i call p hi with
      h | ⟨j, -, -, -, -, -, h | ⟨-, j', -, -, -, -, h⟩⟩
    · exact ⟨i, h⟩
    · exact ⟨j, h⟩
    · exact ⟨j', h⟩
  | sqlite => exact mutexObject_enabled hc hi

lemma within_body (b : Backend) (call : StoreOp × Env) : ((b.object ι).body call).Within 7 := by
  cases b with
  | memory mask hash => exact InMemoryProfiles.within_body call.2 call.1
  | sqlite => exact fun _ _ _ => Prog.within_pure

/-- Under every schedule, every call of either backend returns: while one is running some call can
take a step, after nine steps for each call at most all have returned, and from every point
on they can. -/
theorem calls_return (b : Backend) (ι : Type) [DecidableEq ι]
    (moves rest : List (Move ι StoreCalls))
    (c : (b.object ι).Config)
    (hrun : (b.object ι).machine.run (b.object ι).initial (moves ++ rest) = some c)
    (hrest : ∀ m ∈ rest, m.invoked = none) :
    rest.length ≤ 9 * (moves.filterMap Move.invoked).length ∧
      (SharedObject.Quiescent c ∨ ∃ j, SharedObject.Enabled c j) ∧
      ∃ more d, (∀ m ∈ more, m.invoked = none) ∧ (b.object ι).machine.run c more = some d ∧
        SharedObject.Quiescent d :=
  SharedObject.quiescent_of_enabled b.within_body
    (fun _ hd _ _ _ hi => b.enabled_of_running hd hi) hrun hrest

/-- Two overlapping calls, and the steps that complete them. -/
theorem calls_return_two :
    let env : Env := ⟨0, fun _ => false⟩
    let b := Backend.memory 0 fun _ => 0
    let moves : List (Move ℕ StoreCalls) :=
      [.invoke 0 (.create ⟨"u"⟩ ⟨"1 Main St", "5550100"⟩, env), .invoke 1 (.get ⟨"u"⟩, env)]
    let rest : List (Move ℕ StoreCalls) := [.act 0, .act 0, .act 0, .act 0, .act 0, .act 1, .ret 0]
    ∃ c, (b.object ℕ).machine.run (b.object ℕ).initial (moves ++ rest) = some c ∧
      rest.length ≤ 9 * (moves.filterMap Move.invoked).length ∧
      (SharedObject.Quiescent c ∨ ∃ j, SharedObject.Enabled c j) ∧
      ∃ more d, (∀ m ∈ more, m.invoked = none) ∧ (b.object ℕ).machine.run c more = some d ∧
        SharedObject.Quiescent d := by
  intro env b moves rest
  exact ⟨_, rfl, calls_return b ℕ moves rest _ rfl (by decide)⟩

end Backend

end Knova
