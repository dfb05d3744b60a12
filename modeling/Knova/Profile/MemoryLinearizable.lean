import Knova.Profile.Memory

/-!
# Linearization points of the in-memory repository

A create takes effect where it inserts the record, a read where it loads the projection,
an update where it stores the new one, and the audit read where it clones the revisions.
Between `pushRevision` and `storeCurrent` the two halves of a record disagree, but only
the call that holds the mutex can see the revisions then.
-/

namespace Knova.InMemoryProfiles

open Library

variable {ι : Type} {mask : ℕ} {hash : UserId → UInt64}

/-- The shared state represents `h` outside every critical section. -/
structure Inv (hash : UserId → UInt64) (s : InMemoryProfiles ι mask) (h : Histories) :
    Prop where
  absent : ∀ user, s.find hash user = none → h user = []
  present : ∀ user slot, s.find hash user = some slot → ∃ record last,
    s.heap[slot]? = some record ∧ (h user).getLast? = some last ∧
      record.current = project user last ∧ (record.holder = none → record.revisions = h user)
  distinct : ∀ user user' slot, s.find hash user = some slot → s.find hash user' = some slot →
    user = user'

/-- Call `i` holds the revisions mutex of `user`, having pushed `pushed` so far. -/
def Holds (hash : UserId → UInt64) (i : ι) (s : InMemoryProfiles ι mask) (h : Histories)
    (user : UserId) (slot : ℕ) (pushed : List Revision) : Prop :=
  s.find hash user = some slot ∧ ∃ record, s.heap[slot]? = some record ∧
    record.holder = some i ∧ record.revisions = h user ++ pushed

/-- Call `i` has claimed the write lock of the shard owning `user`. -/
def HoldsShard (hash : UserId → UInt64) (i : ι) (s : InMemoryProfiles ι mask)
    (user : UserId) : Prop :=
  (s.shards (shard hash mask user)).writer = some i

/-- How the methods that look up a record go on, and whose record they look up. -/
inductive AfterSlot (env : Env) : (op : StoreOp) → UserId → (Option ℕ → MemProg op.Ret) → Prop
  | get (user : UserId) : AfterSlot env (.get user) user readAt
  | update (user : UserId) (expected : Version) (input : ProfileInput) :
    AfterSlot env (.update user expected input) user (updateAt env.nowMs user expected input)
  | history (user : UserId) : AfterSlot env (.history user) user historyAt

/-- What call `i` knows at each point of its program. The last argument is its result,
once it has taken effect. -/
inductive Stage (hash : UserId → UInt64) (i : ι) (s : InMemoryProfiles ι mask)
    (h : Histories) : (call : StoreOp × Env) → MemProg call.1.Ret → Option call.1.Ret → Prop
  | entering {op : StoreOp} {env : Env} {user : UserId} {k : Option ℕ → MemProg op.Ret} :
    AfterSlot env op user k → Stage hash i s h (op, env)
      (.act (.readShard user) fun _ => .act (.lookup user) k) none
  | looking {op : StoreOp} {env : Env} {user : UserId} {k : Option ℕ → MemProg op.Ret} :
    AfterSlot env op user k → Stage hash i s h (op, env) (.act (.lookup user) k) none
  | reading {user : UserId} {slot : ℕ} (env : Env) : s.find hash user = some slot →
    Stage hash i s h (.get user, env)
      (.act (.loadCurrent slot) fun current => .pure (.ok (some current))) none
  | updating {user : UserId} {slot : ℕ} (expected : Version) (input : ProfileInput)
    (env : Env) : s.find hash user = some slot →
    Stage hash i s h (.update user expected input, env) (.act (.lockRevisions slot) fun _ =>
      .act (.loadCurrent slot) fun current =>
        compareAndSwap env.nowMs user expected input slot current.version) none
  | comparing {user : UserId} {slot : ℕ} (expected : Version) (input : ProfileInput)
    (env : Env) : Holds hash i s h user slot [] →
    Stage hash i s h (.update user expected input, env) (.act (.loadCurrent slot) fun current =>
      compareAndSwap env.nowMs user expected input slot current.version) none
  | pushing {user : UserId} {slot : ℕ} {last : Revision} {next : Version}
    (input : ProfileInput) (env : Env) : Holds hash i s h user slot [] →
    (h user).getLast? = some last → last.version.checkedNext = some next →
    Stage hash i s h (.update user last.version input, env)
      (.act (.pushRevision slot (revision env.nowMs next input)) fun _ =>
        .act (.storeCurrent slot (project user (revision env.nowMs next input))) fun _ =>
          .act (.unlockRevisions slot) fun _ =>
            .pure (.ok (.applied (project user (revision env.nowMs next input))))) none
  | storing {user : UserId} {slot : ℕ} {last : Revision} {next : Version}
    (input : ProfileInput) (env : Env) :
    Holds hash i s h user slot [revision env.nowMs next input] →
    (h user).getLast? = some last → last.version.checkedNext = some next →
    Stage hash i s h (.update user last.version input, env)
      (.act (.storeCurrent slot (project user (revision env.nowMs next input))) fun _ =>
        .act (.unlockRevisions slot) fun _ =>
          .pure (.ok (.applied (project user (revision env.nowMs next input))))) none
  | auditing {user : UserId} {slot : ℕ} (env : Env) : s.find hash user = some slot →
    Stage hash i s h (.history user, env) (.act (.lockRevisions slot) fun _ =>
      .act (.cloneRevisions slot) fun revisions => .act (.unlockRevisions slot) fun _ =>
        .pure (.ok revisions)) none
  | cloning {user : UserId} {slot : ℕ} (env : Env) : Holds hash i s h user slot [] →
    Stage hash i s h (.history user, env) (.act (.cloneRevisions slot) fun revisions =>
      .act (.unlockRevisions slot) fun _ => .pure (.ok revisions)) none
  | releasing (op : StoreOp) {slot : ℕ} (env : Env) (r : op.Ret) :
    Holds hash i s h op.user slot [] → Stage hash i s h (op, env)
      (.act (.unlockRevisions slot) fun _ => .pure r) (some r)
  | creating (user : UserId) (input : ProfileInput) (env : Env) :
    Stage hash i s h (.create user input, env) (.act (.writeShard user) fun _ =>
      .act (.awaitReaders user) fun _ => .act (.entry user) fun occupied =>
        if occupied then .act (.unlockShard user) fun _ => .pure (.ok none)
        else
          .act (.insert user (project user (revision env.nowMs .initial input))
            [revision env.nowMs .initial input]) fun _ => .act (.unlockShard user) fun _ =>
              .pure (.ok (some (project user (revision env.nowMs .initial input))))) none
  | claimed {user : UserId} (input : ProfileInput) (env : Env) : HoldsShard hash i s user →
    Stage hash i s h (.create user input, env) (.act (.awaitReaders user) fun _ =>
      .act (.entry user) fun occupied =>
        if occupied then .act (.unlockShard user) fun _ => .pure (.ok none)
        else
          .act (.insert user (project user (revision env.nowMs .initial input))
            [revision env.nowMs .initial input]) fun _ => .act (.unlockShard user) fun _ =>
              .pure (.ok (some (project user (revision env.nowMs .initial input))))) none
  | entry {user : UserId} (input : ProfileInput) (env : Env) : HoldsShard hash i s user →
    Stage hash i s h (.create user input, env) (.act (.entry user) fun occupied =>
      if occupied then .act (.unlockShard user) fun _ => .pure (.ok none)
      else
        .act (.insert user (project user (revision env.nowMs .initial input))
          [revision env.nowMs .initial input]) fun _ => .act (.unlockShard user) fun _ =>
            .pure (.ok (some (project user (revision env.nowMs .initial input))))) none
  | inserting {user : UserId} (input : ProfileInput) (env : Env) : HoldsShard hash i s user →
    s.find hash user = none → Stage hash i s h (.create user input, env)
      (.act (.insert user (project user (revision env.nowMs .initial input))
          [revision env.nowMs .initial input]) fun _ => .act (.unlockShard user) fun _ =>
            .pure (.ok (some (project user (revision env.nowMs .initial input))))) none
  | leaving (op : StoreOp) (env : Env) (r : op.Ret) :
    HoldsShard hash i s op.user → Stage hash i s h (op, env)
      (.act (.unlockShard op.user) fun _ => .pure r) (some r)
  | finished {op : StoreOp} (env : Env) (r : op.Ret) :
    Stage hash i s h (op, env) (.pure r) (some r)

/-- What a step of another call leaves as it is, seen from call `i`. -/
structure Undisturbed (hash : UserId → UInt64) (i : ι) (s : InMemoryProfiles ι mask)
    (h : Histories) (s' : InMemoryProfiles ι mask) (h' : Histories) : Prop where
  found : ∀ user slot, s.find hash user = some slot → s'.find hash user = some slot
  held : ∀ user slot record, s.find hash user = some slot → s.heap[slot]? = some record →
    record.holder = some i → s'.heap[slot]? = some record ∧ h' user = h user
  locked : ∀ user, HoldsShard hash i s user →
    HoldsShard hash i s' user ∧ s'.find hash user = s.find hash user

lemma Holds.mono {i : ι} {s s' : InMemoryProfiles ι mask} {h h' : Histories} {user : UserId}
    {slot : ℕ} {pushed : List Revision} (hh : Holds hash i s h user slot pushed)
    (hu : Undisturbed hash i s h s' h') :
    Holds hash i s' h' user slot pushed ∧ h' user = h user := by
  obtain ⟨hf, record, hr, hi, hrev⟩ := hh
  obtain ⟨hr', hh'⟩ := hu.held user slot record hf hr hi
  exact ⟨⟨hu.found user slot hf, record, hr', hi, by rw [hrev, hh']⟩, hh'⟩

/-- What a call knows survives the steps of other calls. -/
lemma Stage.mono {i : ι} {s s' : InMemoryProfiles ι mask} {h h' : Histories}
    {call : StoreOp × Env} {p : MemProg call.1.Ret} {done : Option call.1.Ret}
    (hs : Stage hash i s h call p done) (hu : Undisturbed hash i s h s' h') :
    Stage hash i s' h' call p done := by
  cases hs with
  | entering hk => exact .entering hk
  | looking hk => exact .looking hk
  | reading env hf => exact .reading env (hu.found _ _ hf)
  | updating expected input env hf => exact .updating expected input env (hu.found _ _ hf)
  | comparing expected input env hh => exact .comparing expected input env (hh.mono hu).1
  | pushing input env hh hl hn =>
    obtain ⟨hh', heq⟩ := hh.mono hu
    exact .pushing input env hh' (by rw [heq]; exact hl) hn
  | storing input env hh hl hn =>
    obtain ⟨hh', heq⟩ := hh.mono hu
    exact .storing input env hh' (by rw [heq]; exact hl) hn
  | auditing env hf => exact .auditing env (hu.found _ _ hf)
  | cloning env hh => exact .cloning env (hh.mono hu).1
  | releasing op env r hh => exact .releasing op env r (hh.mono hu).1
  | creating user input env => exact .creating user input env
  | claimed input env hw => exact .claimed input env (hu.locked _ hw).1
  | entry input env hw => exact .entry input env (hu.locked _ hw).1
  | inserting input env hw hf =>
    obtain ⟨hw', heq⟩ := hu.locked _ hw
    exact .inserting input env hw' (by rw [heq]; exact hf)
  | leaving op env r hw => exact .leaving op env r (hu.locked _ hw).1
  | finished env r => exact .finished env r

/-! ### What one action changes -/

lemma onRecord_eq_some {β : Type} {slot : ℕ} {s s' : InMemoryProfiles ι mask}
    {f : Record ι → Option (β × Record ι)} {b : β} (h : onRecord slot s f = some (b, s')) :
    ∃ record record', s.heap[slot]? = some record ∧ f record = some (b, record') ∧
      s' = { s with heap := s.heap.set slot record' } := by
  unfold onRecord at h
  split at h
  · cases h
  · rename_i record hr
    split at h
    · cases h
    · rename_i b' record' hf
      cases h
      exact ⟨record, record', hr, hf, rfl⟩

lemma onShard_eq_some {β : Type} {user : UserId} {s s' : InMemoryProfiles ι mask}
    {f : Shard ι → Option (β × Shard ι)} {b : β} (h : onShard hash user s f = some (b, s')) :
    ∃ sh', f (s.shards (shard hash mask user)) = some (b, sh') ∧
      s' = { s with shards := Function.update s.shards (shard hash mask user) sh' } := by
  unfold onShard at h
  split at h
  · cases h
  · rename_i b' sh' hf
    cases h
    exact ⟨sh', hf, rfl⟩

lemma Undisturbed.refl (j : ι) (s : InMemoryProfiles ι mask) (h : Histories) :
    Undisturbed hash j s h s h :=
  ⟨fun _ _ hf => hf, fun _ _ _ _ hr _ => ⟨hr, rfl⟩, fun _ hw => ⟨hw, rfl⟩⟩

section Record

variable {s : InMemoryProfiles ι mask} {h h' : Histories} {user : UserId} {slot : ℕ}
  {record record' : Record ι}

lemma Inv.setRecord (hs : Inv hash s h) (hf : s.find hash user = some slot)
    (hr : s.heap[slot]? = some record) (hh : ∀ u, u ≠ user → h' u = h u) {last : Revision}
    (hlast : (h' user).getLast? = some last) (hcur : record'.current = project user last)
    (hrev : record'.holder = none → record'.revisions = h' user) :
    Inv hash { s with heap := s.heap.set slot record' } h' where
  absent u hu := by
    have hne : u ≠ user := by
      rintro rfl
      have := hf.symm.trans hu
      cases this
    rw [hh u hne]
    exact hs.absent u hu
  present u slot' hu := by
    by_cases hne : u = user
    · subst hne
      obtain rfl : slot = slot' := Option.some.inj (hf.symm.trans hu)
      refine ⟨record', last, ?_, hlast, hcur, hrev⟩
      have hlt := (List.getElem?_eq_some_iff.mp hr).1
      simp [hlt]
    · have hslot : slot ≠ slot' := by
        rintro rfl
        exact hne (hs.distinct u user slot hu hf)
      rw [hh u hne]
      simpa [List.getElem?_set, hslot] using hs.present u slot' hu
  distinct := hs.distinct

lemma undisturbed_setRecord {i j : ι} (hij : j ≠ i) (hf : s.find hash user = some slot)
    (hr : s.heap[slot]? = some record) (hi : record.holder = none ∨ record.holder = some i)
    (hh : ∀ u, u ≠ user → h' u = h u) :
    Undisturbed hash j s h { s with heap := s.heap.set slot record' } h' where
  found _ _ hu := hu
  held u slot' r hu hr' hj := by
    have hslot : slot ≠ slot' := by
      rintro rfl
      rw [hr] at hr'
      cases hr'
      rcases hi with hi | hi
      · rw [hi] at hj
        cases hj
      · rw [hi] at hj
        exact hij (Option.some.inj hj).symm
    refine ⟨by simpa [List.getElem?_set, hslot] using hr', hh u ?_⟩
    rintro rfl
    exact hslot (Option.some.inj (hf.symm.trans hu))
  locked _ hw := ⟨hw, rfl⟩

lemma holds_setRecord {i : ι} {pushed : List Revision} (hf : s.find hash user = some slot)
    (hr : s.heap[slot]? = some record) (hi : record'.holder = some i)
    (hrev : record'.revisions = h' user ++ pushed) :
    Holds hash i { s with heap := s.heap.set slot record' } h' user slot pushed := by
  have hlt := (List.getElem?_eq_some_iff.mp hr).1
  exact ⟨hf, record', by simp [hlt], hi, hrev⟩

/-- Putting a record back unchanged changes nothing. -/
lemma setRecord_self (hr : s.heap[slot]? = some record) :
    { s with heap := s.heap.set slot record } = s := by
  obtain ⟨hlt, rfl⟩ := List.getElem?_eq_some_iff.mp hr
  simp

end Record

section Shard

variable {s : InMemoryProfiles ι mask} {h : Histories} {user : UserId} {sh' : Shard ι}

lemma find_setShard (hp : sh'.profiles = (s.shards (shard hash mask user)).profiles)
    (u : UserId) :
    find hash { s with shards := Function.update s.shards (shard hash mask user) sh' } u =
      s.find hash u := by
  unfold find
  by_cases hu : shard hash mask u = shard hash mask user
  · simp [hu, hp]
  · simp [hu]

lemma Inv.setShard (hs : Inv hash s h)
    (hp : sh'.profiles = (s.shards (shard hash mask user)).profiles) :
    Inv hash { s with shards := Function.update s.shards (shard hash mask user) sh' } h where
  absent u hu := hs.absent u (by rwa [find_setShard hp] at hu)
  present u slot hu := hs.present u slot (by rwa [find_setShard hp] at hu)
  distinct u u' slot hu hu' :=
    hs.distinct u u' slot (by rwa [find_setShard hp] at hu) (by rwa [find_setShard hp] at hu')

lemma undisturbed_setShard {j : ι}
    (hp : sh'.profiles = (s.shards (shard hash mask user)).profiles)
    (hw : (s.shards (shard hash mask user)).writer = some j → sh'.writer = some j) :
    Undisturbed hash j s h
      { s with shards := Function.update s.shards (shard hash mask user) sh' } h where
  found u slot hu := by rwa [find_setShard hp]
  held _ _ _ _ hr _ := ⟨hr, rfl⟩
  locked u hu := by
    refine ⟨?_, find_setShard hp u⟩
    unfold HoldsShard at *
    by_cases heq : shard hash mask u = shard hash mask user
    · rw [heq] at hu ⊢
      simpa using hw hu
    · simpa [heq] using hu

end Shard

section Insert

variable {s : InMemoryProfiles ι mask} {h : Histories} {user : UserId} {first : Revision}

/-- The state after `insert` put a new record at the end of the heap. -/
def inserted (hash : UserId → UInt64) (s : InMemoryProfiles ι mask) (user : UserId)
    (current : Profile) (revisions : List Revision) : InMemoryProfiles ι mask :=
  { shards := Function.update s.shards (shard hash mask user)
      { s.shards (shard hash mask user) with
        profiles := (s.shards (shard hash mask user)).profiles.insert user s.heap.length }
    heap := s.heap ++ [⟨current, revisions, none⟩] }

lemma find_inserted (current : Profile) (revisions : List Revision) (u : UserId) :
    find hash (inserted hash s user current revisions) u =
      if u = user then some s.heap.length else s.find hash u := by
  unfold find inserted
  by_cases hu : u = user
  · subst hu
    simp
  · by_cases hsh : shard hash mask u = shard hash mask user
    · simp [hsh, hu, AList.lookup_insert_ne]
    · simp [hsh, hu]

lemma Inv.inserted (hs : Inv hash s h) (hf : s.find hash user = none) :
    Inv hash (inserted hash s user (project user first) [first])
      (Function.update h user [first]) where
  absent u hu := by
    rw [find_inserted] at hu
    split at hu
    · cases hu
    · rename_i hne
      rw [Function.update_of_ne hne]
      exact hs.absent u hu
  present u slot hu := by
    rw [find_inserted] at hu
    split at hu
    · rename_i heq
      subst heq
      cases hu
      exact ⟨⟨project u first, [first], none⟩, first, by simp [InMemoryProfiles.inserted],
        by simp, rfl, by simp⟩
    · rename_i hne
      obtain ⟨r, last, hr, hrest⟩ := hs.present u slot hu
      rw [Function.update_of_ne hne]
      refine ⟨r, last, ?_, hrest⟩
      have hlt := (List.getElem?_eq_some_iff.mp hr).1
      simpa [InMemoryProfiles.inserted, List.getElem?_append_left hlt] using hr
  distinct u u' slot hu hu' := by
    -- the new address is past the end of the heap, so no other user has it
    have hbound : ∀ v, s.find hash v = some slot → slot < s.heap.length := by
      intro v hv
      obtain ⟨r, -, hr, -⟩ := hs.present v slot hv
      exact (List.getElem?_eq_some_iff.mp hr).1
    rw [find_inserted] at hu hu'
    split at hu <;> split at hu'
    · simp [*]
    · have := hbound u' hu'
      cases hu
      omega
    · have := hbound u hu
      cases hu'
      omega
    · exact hs.distinct u u' slot hu hu'

lemma undisturbed_inserted {i j : ι} (hij : j ≠ i) (hf : s.find hash user = none)
    (hi : HoldsShard hash i s user) :
    Undisturbed hash j s h (inserted hash s user (project user first) [first])
      (Function.update h user [first]) where
  found u slot hu := by
    rw [find_inserted]
    split
    · rename_i heq
      subst heq
      rw [hf] at hu
      cases hu
    · exact hu
  held u slot r hu hr hj := by
    have hne : u ≠ user := by
      rintro rfl
      rw [hf] at hu
      cases hu
    have hlt := (List.getElem?_eq_some_iff.mp hr).1
    exact ⟨by simpa [inserted, List.getElem?_append_left hlt] using hr,
      Function.update_of_ne hne _ _⟩
  locked u hu := by
    unfold HoldsShard at *
    have hsh : shard hash mask u ≠ shard hash mask user := by
      intro heq
      rw [heq, hi] at hu
      exact hij (Option.some.inj hu).symm
    have hne : u ≠ user := by
      rintro rfl
      exact hsh rfl
    refine ⟨by simpa [inserted, hsh] using hu, ?_⟩
    rw [find_inserted, if_neg hne]

end Insert

/-! ### What each action does -/

/-- An action of the call `i` that keeps the invariant and disturbs no other call. -/
structure Respects (hash : UserId → UInt64) (i : ι) (s : InMemoryProfiles ι mask) (h : Histories)
    (s' : InMemoryProfiles ι mask) (h' : Histories) : Prop where
  inv : Inv hash s' h'
  undisturbed : ∀ j, j ≠ i → Undisturbed hash j s h s' h'

section Actions

variable [DecidableEq ι] {i : ι} {s s' : InMemoryProfiles ι mask} {h : Histories} {user : UserId}
  {slot : ℕ}

omit [DecidableEq ι] in
lemma Respects.refl (hs : Inv hash s h) : Respects hash i s h s h :=
  ⟨hs, fun j _ => Undisturbed.refl j s h⟩

omit [DecidableEq ι] in
/-- The record of a user carries the projection of its last revision. -/
lemma Inv.record (hs : Inv hash s h) (hf : s.find hash user = some slot) {record : Record ι}
    (hr : s.heap[slot]? = some record) : ∃ last, (h user).getLast? = some last ∧
      record.current = project user last ∧ (record.holder = none → record.revisions = h user) := by
  obtain ⟨record', last, hr', hrest⟩ := hs.present user slot hf
  obtain rfl : record = record' := Option.some.inj (hr.symm.trans hr')
  exact ⟨last, hrest⟩

omit [DecidableEq ι] in
lemma Holds.record {pushed : List Revision} (hh : Holds hash i s h user slot pushed)
    {record : Record ι} (hr : s.heap[slot]? = some record) :
    record.holder = some i ∧ record.revisions = h user ++ pushed := by
  obtain ⟨-, record', hr', hrest⟩ := hh
  obtain rfl : record = record' := Option.some.inj (hr.symm.trans hr')
  exact hrest

lemma exec_readShard (hs : Inv hash s h) {r : Unit}
    (he : exec hash i (.readShard user) s = some (r, s')) : Respects hash i s h s' h := by
  simp only [exec] at he
  obtain ⟨sh', hf, rfl⟩ := onShard_eq_some he
  split at hf
  · cases hf
    exact ⟨hs.setShard rfl, fun j _ => undisturbed_setShard rfl id⟩
  · cases hf

lemma exec_lookup (hs : Inv hash s h) {found : Option ℕ}
    (he : exec hash i (.lookup user) s = some (found, s')) :
    Respects hash i s h s' h ∧ s.find hash user = found ∧ s'.find hash user = found := by
  simp only [exec] at he
  obtain ⟨sh', hf, rfl⟩ := onShard_eq_some he
  obtain ⟨rfl, hsh⟩ := Prod.mk.inj (Option.some.inj hf)
  have hp : sh'.profiles = (s.shards (shard hash mask user)).profiles := by rw [← hsh]
  have hw : sh'.writer = (s.shards (shard hash mask user)).writer := by rw [← hsh]
  exact ⟨⟨hs.setShard hp, fun j _ => undisturbed_setShard hp fun hj => hw.trans hj⟩, rfl,
    find_setShard hp user⟩

lemma exec_loadCurrent (hs : Inv hash s h) (hf : s.find hash user = some slot)
    {current : Profile} (he : exec hash i (.loadCurrent slot) s = some (current, s')) :
    s' = s ∧ ∃ last, (h user).getLast? = some last ∧ current = project user last := by
  simp only [exec] at he
  obtain ⟨record, record', hr, hg, rfl⟩ := onRecord_eq_some he
  cases hg
  obtain ⟨last, hlast, hcur, -⟩ := hs.record hf hr
  exact ⟨setRecord_self hr, last, hlast, hcur⟩

/-- Taking the mutex of a record, which is free. -/
lemma exec_lockRevisions (hs : Inv hash s h) (hf : s.find hash user = some slot) {r : Unit}
    (he : exec hash i (.lockRevisions slot) s = some (r, s')) :
    Respects hash i s h s' h ∧ Holds hash i s' h user slot [] := by
  simp only [exec] at he
  obtain ⟨record, record', hr, hg, rfl⟩ := onRecord_eq_some he
  split at hg
  · rename_i hfree
    cases hg
    obtain ⟨last, hlast, hcur, hrev⟩ := hs.record hf hr
    exact ⟨⟨hs.setRecord hf hr (fun _ _ => rfl) hlast hcur (by simp),
      fun j hj => undisturbed_setRecord hj hf hr (.inl hfree) fun _ _ => rfl⟩,
      holds_setRecord hf hr rfl (by simp [hrev hfree])⟩
  · cases hg

/-- Releasing the mutex of a record whose two halves agree. -/
lemma exec_unlockRevisions (hs : Inv hash s h) (hh : Holds hash i s h user slot []) {r : Unit}
    (he : exec hash i (.unlockRevisions slot) s = some (r, s')) : Respects hash i s h s' h := by
  simp only [exec] at he
  obtain ⟨record, record', hr, hg, rfl⟩ := onRecord_eq_some he
  cases hg
  obtain ⟨hi, hrev⟩ := hh.record hr
  obtain ⟨last, hlast, hcur, -⟩ := hs.record hh.1 hr
  exact ⟨hs.setRecord hh.1 hr (fun _ _ => rfl) hlast hcur (by simp [hrev]),
    fun j hj => undisturbed_setRecord hj hh.1 hr (.inr hi) fun _ _ => rfl⟩

lemma exec_cloneRevisions (hh : Holds hash i s h user slot []) {revisions : List Revision}
    (he : exec hash i (.cloneRevisions slot) s = some (revisions, s')) :
    s' = s ∧ revisions = h user := by
  simp only [exec] at he
  obtain ⟨record, record', hr, hg, rfl⟩ := onRecord_eq_some he
  cases hg
  exact ⟨setRecord_self hr, by simpa using (hh.record hr).2⟩

/-- Pushing a revision, which nobody else sees while the mutex is held. -/
lemma exec_pushRevision (hs : Inv hash s h) (hh : Holds hash i s h user slot [])
    {applied : Revision} {r : Unit}
    (he : exec hash i (.pushRevision slot applied) s = some (r, s')) :
    Respects hash i s h s' h ∧ Holds hash i s' h user slot [applied] := by
  simp only [exec] at he
  obtain ⟨record, record', hr, hg, rfl⟩ := onRecord_eq_some he
  cases hg
  obtain ⟨hi, hrev⟩ := hh.record hr
  obtain ⟨last, hlast, hcur, -⟩ := hs.record hh.1 hr
  exact ⟨⟨hs.setRecord hh.1 hr (fun _ _ => rfl) hlast hcur (by simp [hi]),
    fun j hj => undisturbed_setRecord hj hh.1 hr (.inr hi) fun _ _ => rfl⟩,
    holds_setRecord hh.1 hr hi (by simp [hrev])⟩

/-- Storing the projection of the revision that was pushed, which publishes it. -/
lemma exec_storeCurrent (hs : Inv hash s h) {applied : Revision}
    (hh : Holds hash i s h user slot [applied]) {r : Unit}
    (he : exec hash i (.storeCurrent slot (project user applied)) s = some (r, s')) :
    Respects hash i s h s' (Function.update h user (h user ++ [applied])) ∧
      Holds hash i s' (Function.update h user (h user ++ [applied])) user slot [] := by
  simp only [exec] at he
  obtain ⟨record, record', hr, hg, rfl⟩ := onRecord_eq_some he
  cases hg
  obtain ⟨hi, hrev⟩ := hh.record hr
  have hoff : ∀ u, u ≠ user → Function.update h user (h user ++ [applied]) u = h u :=
    fun u hu => Function.update_of_ne hu _ _
  have hlast : (Function.update h user (h user ++ [applied]) user).getLast? = some applied := by
    simp
  exact ⟨⟨hs.setRecord hh.1 hr hoff hlast rfl (by simp [hi]),
    fun j hj => undisturbed_setRecord hj hh.1 hr (.inr hi) hoff⟩,
    holds_setRecord hh.1 hr hi (by simp [hrev])⟩

lemma exec_writeShard (hs : Inv hash s h) {r : Unit}
    (he : exec hash i (.writeShard user) s = some (r, s')) :
    Respects hash i s h s' h ∧ HoldsShard hash i s' user := by
  simp only [exec] at he
  obtain ⟨sh', hf, rfl⟩ := onShard_eq_some he
  split at hf
  · rename_i hfree
    cases hf
    exact ⟨⟨hs.setShard rfl, fun j _ => undisturbed_setShard rfl (by simp [hfree])⟩,
      by simp [HoldsShard]⟩
  · cases hf

lemma exec_awaitReaders {r : Unit}
    (he : exec hash i (.awaitReaders user) s = some (r, s')) : s' = s := by
  simp only [exec] at he
  obtain ⟨sh', hf, rfl⟩ := onShard_eq_some he
  split at hf
  · cases hf
    rw [Function.update_eq_self]
  · cases hf

lemma exec_entry {occupied : Bool} (he : exec hash i (.entry user) s = some (occupied, s')) :
    s' = s ∧ occupied = (s.find hash user).isSome := by
  simp only [exec] at he
  obtain ⟨sh', hf, rfl⟩ := onShard_eq_some he
  cases hf
  exact ⟨by rw [Function.update_eq_self], rfl⟩

lemma exec_insert (hs : Inv hash s h) (hw : HoldsShard hash i s user)
    (hfind : s.find hash user = none) {first : Revision} {r : Unit}
    (he : exec hash i (.insert user (project user first) [first]) s = some (r, s')) :
    Respects hash i s h s' (Function.update h user [first]) ∧ HoldsShard hash i s' user := by
  simp only [exec] at he
  obtain ⟨sh', hf, rfl⟩ := onShard_eq_some he
  cases hf
  exact ⟨⟨hs.inserted hfind, fun j hj => undisturbed_inserted hj hfind hw⟩,
    by simpa [HoldsShard] using hw⟩

lemma exec_unlockShard (hs : Inv hash s h) (hw : HoldsShard hash i s user) {r : Unit}
    (he : exec hash i (.unlockShard user) s = some (r, s')) : Respects hash i s h s' h := by
  simp only [exec] at he
  obtain ⟨sh', hf, rfl⟩ := onShard_eq_some he
  cases hf
  refine ⟨hs.setShard rfl, fun j hj => undisturbed_setShard rfl fun hj' => ?_⟩
  rw [hw] at hj'
  exact absurd (Option.some.inj hj').symm hj

end Actions

/-! ### The linearization points -/

variable [DecidableEq ι]

/-- What is left of a call after one of its actions: nothing changed abstractly, or the call
took effect as the plain specification says. -/
def Advances (hash : UserId → UInt64) (i : ι) (s : InMemoryProfiles ι mask) (h : Histories)
    (call : StoreOp × Env) (done : Option call.1.Ret) (s' : InMemoryProfiles ι mask)
    (p : MemProg call.1.Ret) : Prop :=
  ∃ h' done', (h' = h ∧ done' = done ∨
      done = none ∧ ∃ q, done' = some q ∧ Histories.plain h call q h') ∧
    Stage hash i s' h' call p done' ∧ Respects hash i s h s' h'

section Advances

variable {i : ι} {s s' : InMemoryProfiles ι mask} {h h' : Histories} {op : StoreOp} {env : Env}
  {user : UserId} {p : MemProg op.Ret} {done : Option op.Ret}

omit [DecidableEq ι] in
/-- Nothing changes abstractly. -/
lemma Advances.silent (hstage : Stage hash i s' h (op, env) p done)
    (hs : Respects hash i s h s' h) : Advances hash i s h (op, env) done s' p :=
  ⟨h, done, .inl ⟨rfl, rfl⟩, hstage, hs⟩

omit [DecidableEq ι] in
/-- The call takes effect. -/
lemma Advances.effect {q : op.Ret} (hq : (q, h') = Histories.apply env op h)
    (hstage : Stage hash i s' h' (op, env) p (some q)) (hs : Respects hash i s h s' h') :
    Advances hash i s h (op, env) none s' p :=
  ⟨h', some q, .inr ⟨rfl, q, rfl, hq⟩, hstage, hs⟩

/-- After the lookup, a call on a user without a record takes effect. -/
lemma advances_lookup {k : Option ℕ → MemProg op.Ret} (hk : AfterSlot env op user k)
    (hs : Inv hash s h) {found : Option ℕ}
    (he : exec hash i (.lookup user) s = some (found, s')) :
    Advances hash i s h (op, env) none s' (k found) := by
  obtain ⟨hrespects, hfind, hfind'⟩ := exec_lookup hs he
  cases found with
  | none =>
    have habs := hs.absent user hfind
    cases hk with
    | get => exact .effect (by simp [Histories.apply_get, habs]) (.finished env _) hrespects
    | update _ expected input =>
      exact .effect (by simp [Histories.apply_update, habs]) (.finished env _) hrespects
    | history => exact .effect (by simp [Histories.apply, habs]) (.finished env _) hrespects
  | some slot =>
    refine .silent ?_ hrespects
    cases hk with
    | get => exact .reading env hfind'
    | update _ expected input => exact .updating expected input env hfind'
    | history => exact .auditing env hfind'

/-- Comparing the version, while the mutex is held: an update that is refused takes effect. -/
lemma advances_compare {slot : ℕ} {expected : Version} {input : ProfileInput}
    (hs : Inv hash s h) (hh : Holds hash i s h user slot []) {current : Profile}
    (he : exec hash i (.loadCurrent slot) s = some (current, s')) :
    Advances hash i s h (.update user expected input, env) none s'
      (compareAndSwap env.nowMs user expected input slot current.version) := by
  obtain ⟨rfl, last, hlast, rfl⟩ := exec_loadCurrent hs hh.1 he
  dsimp only [compareAndSwap, project]
  split
  · rename_i hne
    exact .effect (by simp [Histories.apply_update, hlast, hne]) (.releasing _ env _ hh) (.refl hs)
  · rename_i heq
    rw [ne_eq, not_not] at heq
    subst heq
    split
    · rename_i hnext
      exact .effect (by simp [Histories.apply_update, hlast, hnext]) (.releasing _ env _ hh)
        (.refl hs)
    · rename_i next hnext
      exact .silent (.pushing input env hh hlast hnext) (.refl hs)

/-- The entry of the shard's map: a create that finds a profile takes effect. -/
lemma advances_entry {input : ProfileInput} (hs : Inv hash s h) (hw : HoldsShard hash i s user)
    {occupied : Bool} (he : exec hash i (.entry user) s = some (occupied, s')) :
    Advances hash i s h (.create user input, env) none s'
      (if occupied then .act (.unlockShard user) fun _ => .pure (.ok none)
      else
        .act (.insert user (project user (revision env.nowMs .initial input))
          [revision env.nowMs .initial input]) fun _ => .act (.unlockShard user) fun _ =>
            .pure (.ok (some (project user (revision env.nowMs .initial input))))) := by
  obtain ⟨rfl, rfl⟩ := exec_entry he
  cases hfind : s'.find hash user with
  | none => exact .silent (.inserting input env hw hfind) (.refl hs)
  | some slot =>
    obtain ⟨record, last, -, hlast, -⟩ := hs.present user slot hfind
    refine .effect ?_ (.leaving (.create user input) env (.ok none) hw) (.refl hs)
    cases hu : h user with
    | nil => simp [hu] at hlast
    | cons x l => simp [Histories.apply_create, hu]

end Advances

/-- One action of a call. -/
theorem stage_act {i : ι} {s s' : InMemoryProfiles ι mask} {h : Histories}
    {call : StoreOp × Env} {x : MemAct} {k : x.Ans → MemProg call.1.Ret}
    {done : Option call.1.Ret} {r : x.Ans} (hinv : Inv hash s h)
    (hstage : Stage hash i s h call (.act x k) done) (hexec : exec hash i x s = some (r, s')) :
    Advances hash i s h call done s' (k r) := by
  cases hstage with
  | entering hk => exact .silent (.looking hk) (exec_readShard hinv hexec)
  | looking hk => exact advances_lookup hk hinv hexec
  | reading env hf =>
    obtain ⟨rfl, last, hlast, rfl⟩ := exec_loadCurrent hinv hf hexec
    exact .effect (by simp [Histories.apply_get, hlast]) (.finished env _) (.refl hinv)
  | updating expected input env hf =>
    obtain ⟨hrespects, hh⟩ := exec_lockRevisions hinv hf hexec
    exact .silent (.comparing expected input env hh) hrespects
  | comparing expected input env hh => exact advances_compare hinv hh hexec
  | pushing input env hh hlast hnext =>
    obtain ⟨hrespects, hh'⟩ := exec_pushRevision hinv hh hexec
    exact .silent (.storing input env hh' hlast hnext) hrespects
  | storing input env hh hlast hnext =>
    obtain ⟨hrespects, hh'⟩ := exec_storeCurrent hinv hh hexec
    exact .effect (by simp [Histories.apply_update, hlast, hnext]) (.releasing _ env _ hh')
      hrespects
  | auditing env hf =>
    obtain ⟨hrespects, hh⟩ := exec_lockRevisions hinv hf hexec
    exact .silent (.cloning env hh) hrespects
  | cloning env hh =>
    obtain ⟨rfl, rfl⟩ := exec_cloneRevisions hh hexec
    exact .effect rfl (.releasing _ env _ hh) (.refl hinv)
  | releasing op env q hh =>
    exact .silent (.finished env q) (exec_unlockRevisions hinv hh hexec)
  | creating user input env =>
    obtain ⟨hrespects, hw⟩ := exec_writeShard hinv hexec
    exact .silent (.claimed input env hw) hrespects
  | claimed input env hw =>
    obtain rfl := exec_awaitReaders hexec
    exact .silent (.entry input env hw) (.refl hinv)
  | entry input env hw => exact advances_entry hinv hw hexec
  | inserting input env hw hfind =>
    obtain ⟨hrespects, hw'⟩ := exec_insert hinv hw hfind hexec
    exact .effect (by simp [Histories.apply_create, hinv.absent _ hfind]) (.leaving _ env _ hw')
      hrespects
  | leaving op env q hw => exact .silent (.finished env q) (exec_unlockShard hinv hw hexec)

/-- The linearization points of the in-memory store. -/
def linearizationPoints (ι : Type) [DecidableEq ι] (mask : ℕ) (hash : UserId → UInt64) :
    LinearizationPoints (object ι mask hash) Histories.plain Histories.empty where
  inv := Inv hash
  stage i s h op p done := Stage hash i s h op p done
  init := {
    absent := fun _ _ => rfl
    present := by simp [object, empty, find]
    distinct := by simp [object, empty, find] }
  start i s h call _ := by
    obtain ⟨op, env⟩ := call
    cases op with
    | create user input => exact .creating user input env
    | get user => exact .entering (.get user)
    | update user expected input => exact .entering (.update user expected input)
    | history user => exact .entering (.history user)
  act i s h op x k done r s' hinv hstage hexec := by
    obtain ⟨h', done', heff, hself, hrespects⟩ := stage_act hinv hstage hexec
    exact ⟨h', done', heff, hrespects.inv, hself,
      fun j hj opj p d hd => hd.mono (hrespects.undisturbed j hj)⟩
  finish i s h op r done hstage := by
    cases hstage
    rfl

/-- For every number of shards, every hash function and every interleaving of the atomic
actions of any number of callers, the results are those of a sequential order of the
calls that respects real time. -/
theorem reachable_linearizable (ι : Type) [DecidableEq ι] (shards : ℕ)
    (hash : UserId → UInt64) : ∀ mask ∈ withShards shards, ∀ c,
      (object ι mask hash).Reachable c → Linearizable Histories.plain Histories.empty c.history :=
  fun mask _ _ hc => (linearizationPoints ι mask hash).linearizable hc

/-- An update, a read and an audit of one profile overlap: the read sees the old version,
the audit the new one. -/
theorem reachable_linearizable_overlap :
    let env : Env := ⟨0, fun _ => false⟩
    let a : ProfileInput := ⟨"1 Main St", "5550100"⟩
    let b : ProfileInput := ⟨"2 Oak Ave", "5550101"⟩
    let first := revision 0 .initial a
    let second := revision 0 ⟨2, by decide⟩ b
    Linearizable (ι := ℕ) Histories.plain Histories.empty
      [.invoke 0 (.create ⟨"u"⟩ a, env),
        .ret 0 (.create ⟨"u"⟩ a, env) (.ok (some (project ⟨"u"⟩ first))),
        .invoke 1 (.update ⟨"u"⟩ .initial b, env), .invoke 2 (.get ⟨"u"⟩, env),
        .invoke 3 (.history ⟨"u"⟩, env),
        .ret 2 (.get ⟨"u"⟩, env) (.ok (some (project ⟨"u"⟩ first))),
        .ret 3 (.history ⟨"u"⟩, env) (.ok [first, second]),
        .ret 1 (.update ⟨"u"⟩ .initial b, env)
          (.ok (Update.applied (project ⟨"u"⟩ second)))] := by
  intro env a b first second
  have hmask : 3 ∈ withShards 4 := by decide
  refine reachable_linearizable ℕ 4 (fun _ => 0) 3 hmask _
    ⟨[.invoke 0 (.create ⟨"u"⟩ a, env), .act 0, .act 0, .act 0, .act 0, .act 0, .ret 0,
      .invoke 1 (.update ⟨"u"⟩ .initial b, env), .invoke 2 (.get ⟨"u"⟩, env),
      .invoke 3 (.history ⟨"u"⟩, env), .act 2, .act 1, .act 2, .act 1, .act 3, .act 1, .act 1,
      .act 1, .act 3, .act 2, .ret 2, .act 1, .act 1, .act 3, .act 3, .act 3, .ret 3, .ret 1],
      rfl⟩

end Knova.InMemoryProfiles
