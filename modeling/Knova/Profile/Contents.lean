import Knova.Profile.Backend

/-!
# What the backends hold

Whatever stands in a store, committed or not, was asked of it by a create or an update.
-/

namespace Knova

open Library

variable {ι : Type} [DecidableEq ι] {Fine : ProfileInput → Prop}

/-! ### The in-memory store -/

namespace InMemoryProfiles

variable {mask : ℕ} {hash : UserId → UInt64} {s s' : InMemoryProfiles ι mask}

omit [DecidableEq ι] in
/-- The store holds `content`, in a projection or in a revision. -/
def Contains (s : InMemoryProfiles ι mask) (content : ProfileInput) : Prop :=
  ∃ record ∈ s.heap, record.current.content = content ∨
    ∃ rev ∈ record.revisions, rev.content = content

/-- An action that writes nothing but `Fine` content. -/
def Puts (Fine : ProfileInput → Prop) : MemAct → Prop
  | .insert _ current revisions => Fine current.content ∧ ∀ rev ∈ revisions, Fine rev.content
  | .pushRevision _ applied => Fine applied.content
  | .storeCurrent _ current => Fine current.content
  | _ => True

omit [DecidableEq ι] in
/-- A record that is set holds what it held, or `Fine` content. -/
lemma contains_set {slot : ℕ} {record record' : Record ι} {content : ProfileInput}
    (hr : s.heap[slot]? = some record) (hs : ∀ content, s.Contains content → Fine content)
    (hcurrent : record'.current = record.current ∨ Fine record'.current.content)
    (hrevisions : ∀ rev ∈ record'.revisions, rev ∈ record.revisions ∨ Fine rev.content)
    (h : Contains { s with heap := s.heap.set slot record' } content) : Fine content := by
  have hmem : record ∈ s.heap := List.mem_of_getElem? hr
  obtain ⟨other, hother, hcontent⟩ := h
  rcases List.mem_or_eq_of_mem_set hother with hother | rfl
  · exact hs content ⟨other, hother, hcontent⟩
  · rcases hcontent with rfl | ⟨rev, hrev, rfl⟩
    · rcases hcurrent with heq | hfine
      · exact hs _ ⟨record, hmem, .inl (congrArg Profile.content heq.symm)⟩
      · exact hfine
    · rcases hrevisions rev hrev with hrev | hfine
      · exact hs _ ⟨record, hmem, .inr ⟨rev, hrev, rfl⟩⟩
      · exact hfine

/-- Actions that write `Fine` content only leave nothing else. -/
lemma exec_contains {i : ι} {a : MemAct} {r : a.Ans} (ha : Puts Fine a)
    (hs : ∀ content, s.Contains content → Fine content)
    (h : exec hash i a s = some (r, s')) : ∀ content, s'.Contains content → Fine content := by
  intro content hcontent
  have hshard : ∀ {user : UserId} {f : Shard ι → Option (a.Ans × Shard ι)},
      onShard hash user s f = some (r, s') → Fine content := by
    intro user f hf
    obtain ⟨sh, -, rfl⟩ := onShard_eq_some hf
    exact hs content hcontent
  have hrecord : ∀ {slot : ℕ} {f : Record ι → Option (a.Ans × Record ι)},
      (∀ record record', f record = some (r, record') →
        (record'.current = record.current ∨ Fine record'.current.content) ∧
        ∀ rev ∈ record'.revisions, rev ∈ record.revisions ∨ Fine rev.content) →
      onRecord slot s f = some (r, s') → Fine content := by
    intro slot f hf h
    obtain ⟨record, record', hr, hg, rfl⟩ := onRecord_eq_some h
    obtain ⟨hcurrent, hrevisions⟩ := hf record record' hg
    exact contains_set hr hs hcurrent hrevisions hcontent
  cases a with
  | readShard user | lookup user | writeShard user | awaitReaders user | entry user
  | unlockShard user =>
    simp only [exec] at h
    exact hshard h
  | insert user current revisions =>
    simp only [exec] at h
    obtain ⟨sh, -, rfl⟩ := onShard_eq_some h
    obtain ⟨record, hmem, hheld⟩ := hcontent
    rcases List.mem_append.mp hmem with hmem | hmem
    · exact hs content ⟨record, hmem, hheld⟩
    · rw [List.mem_singleton.mp hmem] at hheld
      rcases hheld with rfl | ⟨rev, hrev, rfl⟩
      · exact ha.1
      · exact ha.2 rev hrev
  | lockRevisions slot =>
    simp only [exec] at h
    refine hrecord (fun record record' hf => ?_) h
    split at hf <;> cases hf
    exact ⟨.inl rfl, fun rev hrev => .inl hrev⟩
  | loadCurrent slot | cloneRevisions slot | unlockRevisions slot =>
    simp only [exec] at h
    refine hrecord (fun record record' hf => ?_) h
    cases hf
    exact ⟨.inl rfl, fun rev hrev => .inl hrev⟩
  | pushRevision slot applied =>
    simp only [exec] at h
    refine hrecord (fun record record' hf => ?_) h
    cases hf
    refine ⟨.inl rfl, fun rev hrev => (List.mem_append.mp hrev).imp id fun hrev => ?_⟩
    rw [List.mem_singleton.mp hrev]
    exact ha
  | storeCurrent slot current =>
    simp only [exec] at h
    refine hrecord (fun record record' hf => ?_) h
    cases hf
    exact ⟨.inr ha, fun rev hrev => .inl hrev⟩

lemma all_act {a : MemAct} (ha : Puts Fine a) : (act a).All (Puts Fine) := ⟨ha, fun _ => trivial⟩

/-- A method writes what it was given. -/
lemma body_puts (env : Env) (op : StoreOp) (h : ∀ input ∈ op.input, Fine input) :
    (body env op).All (Puts Fine) := by
  have hslot : ∀ user, (slot user).All (Puts Fine) :=
    fun user => Prog.All.bind (all_act trivial) fun _ => all_act trivial
  cases op with
  | create user input =>
    have hinput : Fine input := h input rfl
    refine Prog.All.bind (all_act trivial) fun _ => ?_
    refine Prog.All.bind (all_act trivial) fun _ => ?_
    refine Prog.All.bind (all_act trivial) fun occupied => ?_
    split
    · exact Prog.All.bind (all_act trivial) fun _ => trivial
    · refine Prog.All.bind (all_act ⟨hinput, fun rev hrev => ?_⟩) fun _ =>
        Prog.All.bind (all_act trivial) fun _ => trivial
      rw [List.mem_singleton.mp hrev]
      exact hinput
  | get user =>
    refine Prog.All.bind (hslot user) fun found => ?_
    cases found with
    | none => trivial
    | some slot => exact Prog.All.bind (all_act trivial) fun _ => trivial
  | update user expected input =>
    have hinput : Fine input := h input rfl
    refine Prog.All.bind (hslot user) fun found => ?_
    cases found with
    | none => trivial
    | some slot =>
      refine Prog.All.bind (all_act trivial) fun _ => ?_
      refine Prog.All.bind (all_act trivial) fun current => ?_
      unfold compareAndSwap
      split
      · exact Prog.All.bind (all_act trivial) fun _ => trivial
      · split
        · exact Prog.All.bind (all_act trivial) fun _ => trivial
        · exact Prog.All.bind (all_act hinput) fun _ => Prog.All.bind (all_act hinput) fun _ =>
            Prog.All.bind (all_act trivial) fun _ => trivial
  | history user =>
    refine Prog.All.bind (hslot user) fun found => ?_
    cases found with
    | none => trivial
    | some slot =>
      exact Prog.All.bind (all_act trivial) fun _ => Prog.All.bind (all_act trivial) fun _ =>
        Prog.All.bind (all_act trivial) fun _ => trivial

end InMemoryProfiles

/-! ### The SQLite store -/

def ProfileRow.content (row : ProfileRow) : ProfileInput := ⟨row.address, row.phoneNumber⟩

def RevisionRow.content (row : RevisionRow) : ProfileInput := ⟨row.address, row.phoneNumber⟩

namespace SqliteProfiles

variable {db db' : Db} {c : Connection} {content : ProfileInput}

/-- Some row of the tables holds `content`. -/
def InTables (db : Db) (content : ProfileInput) : Prop :=
  (∃ user, ∃ row ∈ db.profiles.lookup user, row.content = content) ∨
    ∃ key, ∃ row ∈ db.profileRevisions.lookup key, row.content = content

/-- The store holds `content`, committed or in the open transaction. -/
def Contains (c : Connection) (content : ProfileInput) : Prop :=
  InTables c.committed content ∨ ∃ db ∈ c.working, InTables db content

/-- A statement that writes nothing but `Fine` content. -/
def Puts (Fine : ProfileInput → Prop) : SqlAct → Prop
  | .insertProfile _ address phone _ => Fine ⟨address, phone⟩
  | .insertRevision _ _ address phone _ => Fine ⟨address, phone⟩
  | .updateProfile address phone _ _ _ => Fine ⟨address, phone⟩
  | _ => True

lemma contains_of_view (h : InTables (view c) content) : Contains c content := by
  unfold view at h
  cases hw : c.working with
  | none =>
    rw [hw] at h
    exact .inl h
  | some db =>
    rw [hw] at h
    exact .inr ⟨db, hw, h⟩

lemma contains_write (h : Contains (write c db) content) :
    Contains c content ∨ InTables db content := by
  unfold write at h
  split at h
  · rcases h with h | ⟨db', hdb', -⟩
    · exact .inr h
    · cases hdb'
  · rcases h with h | ⟨db', hdb', h⟩
    · exact .inl (.inl h)
    · obtain rfl := Option.some.inj hdb'
      exact .inr h

lemma inTables_insertProfile {user : UserId} {row : ProfileRow}
    (h : InTables { db with profiles := db.profiles.insert user row } content) :
    InTables db content ∨ row.content = content := by
  rcases h with ⟨owner, found, hfound, rfl⟩ | h
  · by_cases howner : owner = user
    · rw [howner, AList.lookup_insert] at hfound
      obtain rfl := Option.some.inj hfound
      exact .inr rfl
    · rw [AList.lookup_insert_ne howner] at hfound
      exact .inl (.inl ⟨owner, found, hfound, rfl⟩)
  · exact .inl (.inr h)

lemma inTables_insertRevision {key : UserId × I64} {row : RevisionRow}
    (h : InTables { db with profileRevisions := db.profileRevisions.insert key row } content) :
    InTables db content ∨ row.content = content := by
  rcases h with h | ⟨other, found, hfound, rfl⟩
  · exact .inl (.inl h)
  · by_cases hother : other = key
    · rw [hother, AList.lookup_insert] at hfound
      obtain rfl := Option.some.inj hfound
      exact .inr rfl
    · rw [AList.lookup_insert_ne hother] at hfound
      exact .inl (.inr ⟨other, found, hfound, rfl⟩)

/-- Statements that write `Fine` content only leave nothing else. -/
lemma exec_contains {env : Env} {a : SqlAct} (ha : Puts Fine a)
    (hs : ∀ content, Contains c content → Fine content) :
    ∀ content, Contains (exec env a c).2 content → Fine content := by
  intro content h
  have hview : InTables (view c) content → Fine content := fun h => hs content (contains_of_view h)
  unfold exec at h
  split at h
  · exact hs content h
  · cases a with
    | begin =>
      simp only [perform] at h
      split at h
      · rcases h with h | ⟨db, hdb, h⟩
        · exact hs content (.inl h)
        · obtain rfl := Option.some.inj hdb
          exact hs content (.inl h)
      · exact hs content h
    | insertProfile user address phone version =>
      simp only [perform] at h
      split at h
      · exact hs content h
      · rcases contains_write h with h | h
        · exact hs content h
        · rcases inTables_insertProfile h with h | rfl
          · exact hview h
          · exact ha
    | insertRevision user version address phone recordedAtMs =>
      simp only [perform] at h
      split at h
      · exact hs content h
      · split at h
        · exact hs content h
        · rcases contains_write h with h | h
          · exact hs content h
          · rcases inTables_insertRevision h with h | rfl
            · exact hview h
            · exact ha
    | updateProfile address phone next user expected =>
      simp only [perform] at h
      split at h
      · exact hs content h
      · split at h
        · rcases contains_write h with h | h
          · exact hs content h
          · rcases inTables_insertProfile h with h | rfl
            · exact hview h
            · exact ha
        · exact hs content h
    | selectVersion user | selectProfile user | selectRevisions user => exact hs content h
    | commit =>
      simp only [perform] at h
      split at h
      · exact hs content h
      · rename_i db hdb
        rcases h with h | ⟨db', hdb', -⟩
        · exact hs content (.inr ⟨db, hdb, h⟩)
        · cases hdb'
    | drop =>
      rcases h with h | ⟨db, hdb, -⟩
      · exact hs content (.inl h)
      · cases hdb

lemma all_attempt {α : Type} {a : SqlAct} {k : a.Val → SqlProg (Except StoreError α)}
    (ha : Puts Fine a) (hk : ∀ x, (k x).All (Puts Fine)) : (attempt a k).All (Puts Fine) := by
  refine ⟨ha, fun r => ?_⟩
  cases r with
  | none => trivial
  | some x => exact hk x

lemma all_transaction {α : Type} {behavior : TransactionBehavior}
    {p : SqlProg (Except StoreError α)} (hp : p.All (Puts Fine)) :
    (transaction behavior p).All (Puts Fine) :=
  all_attempt trivial fun _ => Prog.All.bind hp fun _ => ⟨trivial, fun _ => trivial⟩

/-- A method writes what it was given. -/
lemma body_puts (env : Env) (op : StoreOp) (h : ∀ input ∈ op.input, Fine input) :
    (body env op).All (Puts Fine) := by
  cases op with
  | create user input =>
    have hinput : Fine input := h input rfl
    refine all_transaction ?_
    split
    · trivial
    · refine all_attempt hinput fun inserted => ?_
      split
      · trivial
      · exact all_attempt hinput fun _ => all_attempt trivial fun _ => trivial
  | get user => exact all_attempt trivial fun _ => trivial
  | update user expected input =>
    have hinput : Fine input := h input rfl
    refine all_transaction ?_
    split
    · trivial
    · split
      · trivial
      · split
        · trivial
        · refine all_attempt hinput fun changed => ?_
          split
          · exact all_attempt trivial fun _ => trivial
          · exact all_attempt hinput fun _ => all_attempt trivial fun _ => trivial
  | history user => exact all_attempt trivial fun _ => trivial

end SqliteProfiles

/-! ### Either store -/

namespace Backend

variable {b : Backend}

/-- The store holds `content`. -/
def Contains : (b : Backend) → (b.object ι).State → ProfileInput → Prop
  | .memory _ _, s => InMemoryProfiles.Contains s
  | .sqlite, s => SqliteProfiles.Contains s.value

def Puts (Fine : ProfileInput → Prop) : (b : Backend) → (b.object ι).E.Act → Prop
  | .memory _ _, a => InMemoryProfiles.Puts Fine a
  | .sqlite, a =>
    match a with
    | .work call => ∀ input ∈ call.1.input, Fine input
    | _ => True

/-- All the store holds is `Fine`, and so is all that running calls may add. -/
def OnlyFine (Fine : ProfileInput → Prop) (b : Backend) : (b.object ι).Config → Prop :=
  SharedObject.Confined (b.object ι) (b.Puts Fine) fun s => ∀ content, b.Contains s content →
    Fine content

lemma onlyFine_initial : b.OnlyFine Fine (b.object ι).initial := by
  refine ⟨fun content h => ?_, fun i op p h => by cases h⟩
  cases b with
  | memory mask hash =>
    obtain ⟨record, hmem, -⟩ := h
    cases hmem
  | sqlite =>
    rcases h with (⟨user, row, hrow, -⟩ | ⟨key, row, hrow, -⟩) | ⟨db, hdb, -⟩
    · cases hrow
    · cases hrow
    · cases hdb

/-- A store that is asked to store `Fine` content only holds nothing else. -/
theorem OnlyFine.step {c c' : (b.object ι).Config} {m : Move ι StoreCalls} (h : b.OnlyFine Fine c)
    (hm : ∀ i call, m = .invoke i call → ∀ input ∈ call.1.input, Fine input)
    (hs : (b.object ι).step c m = some c') : b.OnlyFine Fine c' := by
  cases b with
  | memory mask hash =>
    refine SharedObject.Confined.step (fun i a s r s' ha hj he => ?_) h (fun i call hmi => ?_) hs
    · exact InMemoryProfiles.exec_contains ha hj he
    · exact InMemoryProfiles.body_puts call.2 call.1 (hm i call hmi)
  | sqlite =>
    refine SharedObject.Confined.step (fun i a s r s' ha hj he => ?_) h (fun i call hmi => ?_) hs
    · have hvalue : s'.value = s.value ∨ ∃ call, a = .work call ∧
          s'.value = (SqliteProfiles.work call s.value).2 := by
        cases a <;> simp only [object, SqliteProfiles.object, mutexObject] at he <;>
          split at he <;> cases he
        · exact .inl rfl
        · exact .inr ⟨_, rfl, rfl⟩
        · exact .inl rfl
      intro content hcontent
      change SqliteProfiles.Contains s'.value content at hcontent
      rcases hvalue with hvalue | ⟨call, rfl, hvalue⟩
      · rw [hvalue] at hcontent
        exact hj content hcontent
      · rw [hvalue] at hcontent
        have hkept : ∀ content,
            SqliteProfiles.Contains (SqliteProfiles.work call s.value).2 content → Fine content :=
          Prog.All.run (I := fun c => ∀ content, SqliteProfiles.Contains c content → Fine content)
            (fun a c ha hc => SqliteProfiles.exec_contains ha hc)
            (SqliteProfiles.body_puts call.2 call.1 ha) hj
        exact hkept content hcontent
    · exact ⟨trivial, fun _ => ⟨hm i call hmi, fun _ => ⟨trivial, fun _ => trivial⟩⟩⟩

end Backend

end Knova
