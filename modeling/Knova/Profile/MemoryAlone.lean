import Knova.Profile.MemoryLinearizable

/-!
# The in-memory repository without contention

A call that runs alone never waits for a lock that is free, so it returns, and leaves
every lock it took free again. What it returns is what the plain specification says.
-/

namespace Knova.InMemoryProfiles

open Library

variable {ι : Type} [DecidableEq ι] {mask : ℕ} {hash : UserId → UInt64} {i : ι}
  {s : InMemoryProfiles ι mask} {h : Histories} {user : UserId}

/-- No call holds the revisions mutex of `user` or the write lock of its shard. -/
structure Unlocked (hash : UserId → UInt64) (s : InMemoryProfiles ι mask) (user : UserId) :
    Prop where
  shard : (s.shards (shard hash mask user)).writer = none
  record : ∀ slot record, s.find hash user = some slot → s.heap[slot]? = some record →
    record.holder = none

/-- Looking up a record changes nothing: the shard guard is dropped before `slot` returns. -/
lemma eval_slot {β : Type} (hw : (s.shards (shard hash mask user)).writer = none)
    (f : Option ℕ → MemProg β) :
    ((slot user).bind f).eval (exec hash i) s = (f (s.find hash user)).eval (exec hash i) s := by
  have hread : exec hash i (.readShard user) s = some ((), { s with
      shards := Function.update s.shards (shard hash mask user)
        { s.shards (shard hash mask user) with
          readers := i :: (s.shards (shard hash mask user)).readers } }) := by
    simp [exec, onShard, hw]
  have hlookup : exec hash i (.lookup user) { s with
      shards := Function.update s.shards (shard hash mask user)
        { s.shards (shard hash mask user) with
          readers := i :: (s.shards (shard hash mask user)).readers } } =
      some (s.find hash user, s) := by
    simp [exec, onShard, find]
  exact (Prog.eval_act hread).trans (Prog.eval_act hlookup)

omit [DecidableEq ι] in
/-- An action on a record that an earlier action of the same call has set. -/
lemma onRecord_set {β : Type} {slot : ℕ} (hlt : slot < s.heap.length) (record : Record ι)
    (f : Record ι → Option (β × Record ι)) :
    onRecord slot { s with heap := s.heap.set slot record } f =
      (f record).map fun q => (q.1, { s with heap := s.heap.set slot q.2 }) := by
  unfold onRecord
  simp only [List.getElem?_set_self hlt]
  cases f record with
  | none => rfl
  | some q => simp

section Calls

variable (hinv : Inv hash s h) (hu : Unlocked hash s user)
include hinv hu

/-- A read alone answers the projection of the last revision. -/
lemma alone_get (env : Env) : (object ι mask hash).alone i (.get user, env) s =
    some (.ok ((h user).getLast?.map (project user)), s) := by
  refine (eval_slot hu.shard readAt).trans ?_
  cases hf : s.find hash user with
  | none => simp [readAt, hinv.absent user hf, pure]
  | some slot =>
    obtain ⟨record, last, hr, hlast, hcur, -⟩ := hinv.present user slot hf
    have hload : exec hash i (.loadCurrent slot) s = some (record.current, s) := by
      simp [exec, onRecord, hr, setRecord_self hr]
    refine (Prog.eval_act hload).trans ?_
    simp [hlast, hcur, pure]

/-- The audit alone answers the whole history. -/
lemma alone_history (env : Env) : (object ι mask hash).alone i (.history user, env) s =
    some (.ok (h user), s) := by
  refine (eval_slot hu.shard historyAt).trans ?_
  cases hf : s.find hash user with
  | none => simp [historyAt, hinv.absent user hf, pure]
  | some slot =>
    obtain ⟨record, last, hr, -, -, hrev⟩ := hinv.present user slot hf
    have hfree := hu.record slot record hf hr
    have hlt := (List.getElem?_eq_some_iff.mp hr).1
    have hlock : exec hash i (.lockRevisions slot) s =
        some ((), { s with heap := s.heap.set slot { record with holder := some i } }) := by
      simp [exec, onRecord, hr, hfree]
    have hself : (⟨record.current, h user, none⟩ : Record ι) = record := by
      rw [← hrev hfree, ← hfree]
    refine (Prog.eval_act hlock).trans ?_
    simp [act, bind, pure, Prog.eval, exec, onRecord_set hlt, hrev hfree, hself,
      setRecord_self hr]

end Calls

/-! ### Free stores -/

/-- No call holds any lock. -/
structure Free (s : InMemoryProfiles ι mask) : Prop where
  shards : ∀ k, (s.shards k).writer = none ∧ (s.shards k).readers = []
  records : ∀ record ∈ s.heap, record.holder = none

omit [DecidableEq ι] in
lemma free_empty : Free (empty : InMemoryProfiles ι mask) where
  shards _ := ⟨rfl, rfl⟩
  records := by simp [empty]

omit [DecidableEq ι] in
lemma Free.unlocked (hs : Free s) (hash : UserId → UInt64) (user : UserId) :
    Unlocked hash s user where
  shard := (hs.shards _).1
  record _ record _ hr := hs.records record (List.mem_of_getElem? hr)

omit [DecidableEq ι] in
lemma Free.setRecord (hs : Free s) (slot : ℕ) {record : Record ι} (hr : record.holder = none) :
    Free { s with heap := s.heap.set slot record } where
  shards := hs.shards
  records r hmem := by
    rcases List.mem_or_eq_of_mem_set hmem with hmem | rfl
    · exact hs.records r hmem
    · exact hr

omit [DecidableEq ι] in
lemma Free.inserted (hs : Free s) (hash : UserId → UInt64) (user : UserId) (current : Profile)
    (revisions : List Revision) : Free (inserted hash s user current revisions) where
  shards k := by
    by_cases hk : k = shard hash mask user
    · subst hk
      simpa [InMemoryProfiles.inserted] using hs.shards _
    · simpa [InMemoryProfiles.inserted, hk] using hs.shards k
  records r hmem := by
    rcases List.mem_append.mp hmem with hmem | hmem
    · exact hs.records r hmem
    · rw [List.mem_singleton.mp hmem]

/-- A create alone returns, and leaves every lock free. -/
lemma alone_create (hs : Free s) (env : Env) (user : UserId) (input : ProfileInput) :
    ∃ r s', (object ι mask hash).alone i (.create user input, env) s = some (r, s') ∧
      Free s' := by
  have hself : (⟨(s.shards (shard hash mask user)).profiles, none, []⟩ : Shard ι) =
      s.shards (shard hash mask user) := by
    rw [← (hs.shards (shard hash mask user)).1, ← (hs.shards (shard hash mask user)).2]
  by_cases hocc : (s.find hash user).isSome
  · refine ⟨.ok none, s, ?_, hs⟩
    unfold find at hocc
    simp [SharedObject.alone, object, body, create, act, bind, pure, Prog.eval, exec, onShard,
      hs.shards, hocc, hself]
  · let first := revision env.nowMs .initial input
    refine ⟨.ok (some (project user first)), _, ?_,
      hs.inserted hash user (project user first) [first]⟩
    unfold find at hocc
    simp [SharedObject.alone, object, body, create, act, bind, pure, Prog.eval, exec, onShard,
      hs.shards, hocc, inserted, first]

/-- The critical section of an update, from the moment it holds the revisions mutex. -/
lemma eval_compareAndSwap (hash : UserId → UInt64) (i : ι) {slot : ℕ}
    (hlt : slot < s.heap.length) (record : Record ι) (nowMs : Fin (2 ^ 64)) (user : UserId)
    (expected : Version) (input : ProfileInput) :
    ∃ r record', (compareAndSwap nowMs user expected input slot record.current.version).eval
        (exec hash i) { s with heap := s.heap.set slot record } =
      some (r, { s with heap := s.heap.set slot record' }) ∧ record'.holder = none := by
  unfold compareAndSwap
  split
  · exact ⟨.ok (.stale record.current.version), { record with holder := none },
      by simp [act, bind, pure, Prog.eval, exec, onRecord_set hlt], rfl⟩
  · split
    · exact ⟨.error .versionExhausted, { record with holder := none },
        by simp [act, bind, pure, Prog.eval, exec, onRecord_set hlt], rfl⟩
    · rename_i next _
      let applied := revision nowMs next input
      exact ⟨.ok (.applied (project user applied)),
        ⟨project user applied, record.revisions ++ [applied], none⟩,
        by simp [publish, act, bind, pure, Prog.eval, exec, onRecord_set hlt, applied], rfl⟩

/-- An update alone returns, and leaves every lock free. -/
lemma alone_update (hinv : Inv hash s h) (hs : Free s) (env : Env) (user : UserId)
    (expected : Version) (input : ProfileInput) :
    ∃ r s', (object ι mask hash).alone i (.update user expected input, env) s = some (r, s') ∧
      Free s' := by
  have hslot := eval_slot (i := i) (hs.unlocked hash user).shard
    (updateAt env.nowMs user expected input)
  cases hf : s.find hash user with
  | none => exact ⟨_, s, by rw [hf] at hslot; exact hslot, hs⟩
  | some slot =>
    obtain ⟨record, last, hr, -, -, -⟩ := hinv.present user slot hf
    have hfree := (hs.unlocked hash user).record slot record hf hr
    have hlt := (List.getElem?_eq_some_iff.mp hr).1
    have hlock : exec hash i (.lockRevisions slot) s =
        some ((), { s with heap := s.heap.set slot { record with holder := some i } }) := by
      simp [exec, onRecord, hr, hfree]
    rw [hf] at hslot
    obtain ⟨r, record', hcas, hnone⟩ := eval_compareAndSwap hash i hlt
      { record with holder := some i } env.nowMs user expected input
    refine ⟨r, _, (hslot.trans (Prog.eval_act hlock)).trans ?_, hs.setRecord slot hnone⟩
    refine Eq.trans ?_ hcas
    simp [act, bind, Prog.eval, exec, onRecord_set hlt]

/-- Any call alone on a free store returns, and leaves the store free. -/
theorem alone_returns (hinv : Inv hash s h) (hs : Free s) (call : StoreOp × Env) :
    ∃ r s', (object ι mask hash).alone i call s = some (r, s') ∧ Free s' := by
  obtain ⟨op, env⟩ := call
  cases op with
  | create user input => exact alone_create hs env user input
  | get user => exact ⟨_, s, alone_get hinv (hs.unlocked hash user) env, hs⟩
  | update user expected input => exact alone_update hinv hs env user expected input
  | history user => exact ⟨_, s, alone_history hinv (hs.unlocked hash user) env, hs⟩

end Knova.InMemoryProfiles
