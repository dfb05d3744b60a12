import Knova.Profile.ServiceInvariant

/-!
# What one action of a call changes

An action of a call leaves every profile and every history as they are, or it changes those of
the call's own user, and then the call can only be accepted.
-/

namespace Knova

open Library

variable {ι : Type} [DecidableEq ι]

/-- The call wrote a revision. -/
def StoreOp.Accepts : (op : StoreOp) → op.Ret → Prop
  | .create _ _, r => ∃ p, r = .ok (some p)
  | .update _ _ _, r => ∃ p, r = .ok (.applied p)
  | _, _ => False

/-- A call that changes the histories is accepted, and changes those of its user only. -/
lemma Histories.apply_cases {env : Env} {op : StoreOp} {h h' : Histories} {r : op.Ret}
    (hp : (r, h') = apply env op h) :
    h' = h ∨ op.Accepts r ∧ ∀ user, user ≠ op.user → h' user = h user := by
  cases op with
  | create user input =>
    simp only [apply] at hp
    split at hp
    · obtain ⟨rfl, rfl⟩ := Prod.mk.inj hp
      exact .inr ⟨⟨_, rfl⟩, fun u hu => Function.update_of_ne hu _ _⟩
    · exact .inl (Prod.mk.inj hp).2
  | get user => exact .inl (Prod.mk.inj hp).2
  | update user expected input =>
    simp only [apply] at hp
    split at hp
    · exact .inl (Prod.mk.inj hp).2
    · split at hp
      · exact .inl (Prod.mk.inj hp).2
      · split at hp
        · exact .inl (Prod.mk.inj hp).2
        · obtain ⟨rfl, rfl⟩ := Prod.mk.inj hp
          exact .inr ⟨⟨_, rfl⟩, fun u hu => Function.update_of_ne hu _ _⟩
  | history user => exact .inl (Prod.mk.inj hp).2

/-! ### The in-memory store -/

namespace InMemoryProfiles

variable {mask : ℕ} {hash : UserId → UInt64} {s s' : InMemoryProfiles ι mask} {h : Histories}
  {user : UserId} {slot : ℕ} {record record' : Record ι}

omit [DecidableEq ι] in
/-- The profile and the history of a user. -/
def held (hash : UserId → UInt64) (s : InMemoryProfiles ι mask) (user : UserId) :
    Option Profile × List Revision := (projection hash s user, revisions hash s user)

/-- An action that writes a record. -/
def Writes : MemAct → Prop
  | .insert .. | .pushRevision .. | .storeCurrent .. => True
  | _ => False

omit [DecidableEq ι] in
/-- What is held about a user is read off their record. -/
lemma held_congr (hfind : s'.find hash user = s.find hash user)
    (hheap : ∀ slot, s.find hash user = some slot →
      s'.heap[slot]?.map (fun r => (r.current, r.revisions)) =
        s.heap[slot]?.map fun r => (r.current, r.revisions)) :
    held hash s' user = held hash s user := by
  unfold held projection revisions
  rw [hfind]
  cases hf : s.find hash user with
  | none => rfl
  | some slot =>
    have heq := hheap slot hf
    have hcurrent := congrArg (Option.map Prod.fst) heq
    have hrevisions := congrArg (Option.map Prod.snd) heq
    simp only [Option.map_map, Function.comp_def] at hcurrent hrevisions
    simp only [hcurrent, hrevisions]

omit [DecidableEq ι] in
lemma held_setRecord (hr : s.heap[slot]? = some record)
    (hcurrent : record'.current = record.current)
    (hrevisions : record'.revisions = record.revisions) :
    held hash { s with heap := s.heap.set slot record' } = held hash s := by
  funext user
  refine held_congr rfl fun slot' _ => ?_
  by_cases hslot : slot = slot'
  · subst hslot
    have hlt := (List.getElem?_eq_some_iff.mp hr).1
    rw [List.getElem?_set_self hlt, hr, Option.map_some, Option.map_some, hcurrent, hrevisions]
  · rw [List.getElem?_set_ne hslot]

omit [DecidableEq ι] in
lemma held_setShard {sh' : Shard ι}
    (hp : sh'.profiles = (s.shards (shard hash mask user)).profiles) :
    held hash { s with shards := Function.update s.shards (shard hash mask user) sh' } =
      held hash s := by
  funext u
  exact held_congr (find_setShard hp u) fun _ _ => rfl

/-- Only `insert`, `pushRevision` and `storeCurrent` change what is held. -/
lemma exec_held {i : ι} {a : MemAct} {r : a.Ans} (ha : ¬Writes a)
    (h : exec hash i a s = some (r, s')) : held hash s' = held hash s := by
  have hshard : ∀ {user : UserId} {f : Shard ι → Option (a.Ans × Shard ι)},
      (∀ sh sh', f sh = some (r, sh') → sh'.profiles = sh.profiles) →
      onShard hash user s f = some (r, s') → held hash s' = held hash s := by
    intro user f hf h
    obtain ⟨sh', hsh, rfl⟩ := onShard_eq_some h
    exact held_setShard (hf _ _ hsh)
  have hrecord : ∀ {slot : ℕ} {f : Record ι → Option (a.Ans × Record ι)},
      (∀ record record', f record = some (r, record') →
        record'.current = record.current ∧ record'.revisions = record.revisions) →
      onRecord slot s f = some (r, s') → held hash s' = held hash s := by
    intro slot f hf h
    obtain ⟨record, record', hr, hg, rfl⟩ := onRecord_eq_some h
    obtain ⟨hcurrent, hrevisions⟩ := hf record record' hg
    exact held_setRecord hr hcurrent hrevisions
  cases a with
  | insert | pushRevision | storeCurrent => exact absurd trivial ha
  | readShard user | writeShard user | awaitReaders user =>
    simp only [exec] at h
    refine hshard (fun sh sh' hf => ?_) h
    split at hf <;> cases hf
    rfl
  | lookup user | entry user | unlockShard user =>
    simp only [exec] at h
    refine hshard (fun sh sh' hf => ?_) h
    cases hf
    rfl
  | lockRevisions slot =>
    simp only [exec] at h
    refine hrecord (fun record record' hf => ?_) h
    split at hf <;> cases hf
    exact ⟨rfl, rfl⟩
  | loadCurrent slot | cloneRevisions slot | unlockRevisions slot =>
    simp only [exec] at h
    refine hrecord (fun record record' hf => ?_) h
    cases hf
    exact ⟨rfl, rfl⟩

omit [DecidableEq ι] in
/-- A record that is set is that of one user. -/
lemma held_setRecord_of_ne (hs : Inv hash s h) (hf : s.find hash user = some slot) {u : UserId}
    (hu : u ≠ user) : held hash { s with heap := s.heap.set slot record' } u = held hash s u := by
  refine held_congr rfl fun slot' hf' => ?_
  have hslot : slot ≠ slot' := by
    rintro rfl
    exact hu (hs.distinct u user slot hf' hf)
  rw [List.getElem?_set_ne hslot]

omit [DecidableEq ι] in
lemma held_inserted (hs : Inv hash s h) (current : Profile) (revs : List Revision) {u : UserId}
    (hu : u ≠ user) : held hash (inserted hash s user current revs) u = held hash s u := by
  refine held_congr ((find_inserted current revs u).trans (if_neg hu)) fun slot hf => ?_
  obtain ⟨record, last, hr, -⟩ := hs.present u slot hf
  rw [inserted, List.getElem?_append_left (List.getElem?_eq_some_iff.mp hr).1]

/-- One action of a call that has come as far as `hstage` says. -/
theorem held_of_stage {i : ι} {call : StoreOp × Env} {x : MemAct}
    {k : x.Ans → MemProg call.1.Ret} {done : Option call.1.Ret} {r : x.Ans} (hinv : Inv hash s h)
    (hstage : Stage hash i s h call (.act x k) done) (hexec : exec hash i x s = some (r, s')) :
    held hash s' = held hash s ∨ (k r).Returns call.1.Accepts ∧
      ∀ user, user ≠ call.1.user → held hash s' user = held hash s user := by
  cases hstage with
  | @pushing user slot last next input env hh hlast hnext =>
    simp only [exec] at hexec
    obtain ⟨record, record', hr, hg, rfl⟩ := onRecord_eq_some hexec
    cases hg
    exact .inr ⟨fun _ _ => ⟨_, rfl⟩, fun u hu => held_setRecord_of_ne hinv hh.1 hu⟩
  | @storing user slot last next input env hh hlast hnext =>
    simp only [exec] at hexec
    obtain ⟨record, record', hr, hg, rfl⟩ := onRecord_eq_some hexec
    cases hg
    exact .inr ⟨fun _ => ⟨_, rfl⟩, fun u hu => held_setRecord_of_ne hinv hh.1 hu⟩
  | @inserting user input env hw hfind =>
    simp only [exec] at hexec
    obtain ⟨sh', hf, rfl⟩ := onShard_eq_some hexec
    cases hf
    exact .inr ⟨fun _ => ⟨_, rfl⟩, fun u hu => held_inserted hinv _ _ hu⟩
  | entering | looking | reading | updating | comparing | auditing | cloning | releasing
  | creating | claimed | entry | leaving => exact .inl (exec_held id hexec)

end InMemoryProfiles

/-! ### The SQLite store -/

namespace SqliteProfiles

/-- The stored revisions of a user. -/
def revisions (c : Connection) (user : UserId) : List Revision :=
  ((revisionsOf c.committed user).mapM readRevision).getD []

/-- The profile and the history of a user. -/
def held (c : Connection) (user : UserId) : Option Profile × List Revision :=
  ((c.committed.profiles.lookup user).map fun row =>
    ⟨user, row.address, row.phoneNumber, fromSql row.version⟩, revisions c user)

lemma held_of_represents {c : Connection} {h : Histories} (hr : Represents c h) :
    held c = fun user => ((h user).getLast?.map (project user), h user) := by
  funext user
  rw [held, revisions, hr.stored.mapM_readRevision]
  have hprofile := Backend.sqlite.projection_eq (ι := Unit) (s := ⟨c, none⟩) hr user
  exact congrArg (·, h user) hprofile

/-- A method run on the connection. -/
lemma held_of_work {c : Connection} {h : Histories} (hc : Represents c h) (call : StoreOp × Env) :
    held (work call c).2 = held c ∨ call.1.Accepts (work call c).1 ∧
      ∀ user, user ≠ call.1.user → held (work call c).2 user = held c user := by
  unfold work
  rcases run_body call.2 hc call.1 with ⟨h', hplain, hr⟩ | ⟨-, hr, -⟩
  · rw [held_of_represents hc, held_of_represents hr]
    rcases Histories.apply_cases hplain with rfl | ⟨hacc, hother⟩
    · exact .inl rfl
    · refine .inr ⟨hacc, fun user hu => ?_⟩
      simp only [hother user hu]
  · rw [held_of_represents hc, held_of_represents hr]
    exact .inl rfl

/-- One action of a call that has come as far as `hstage` says. -/
theorem held_of_stage {i : ι} {s s' : Guarded ι Connection} {h : Histories}
    {call : StoreCalls.Act} {x : (object ι).E.Act}
    {k : (object ι).E.Ans x → Prog (object ι).E (StoreCalls.Ans call)}
    {done : Option (StoreCalls.Ans call)} {r : (object ι).E.Ans x} (hinv : Represents s.value h)
    (hstage : @Mutex.Stage ι Connection _ StoreCalls empty work i s call (.act x k) done)
    (hexec : (object ι).exec i x s = some (r, s')) :
    held s'.value = held s.value ∨ (k r).Returns call.1.Accepts ∧
      ∀ user, user ≠ call.1.user → held s'.value user = held s.value user := by
  cases hstage with
  | waiting =>
    simp only [object, mutexObject] at hexec
    split at hexec <;> cases hexec
    exact .inl rfl
  | locked hi =>
    simp only [object, mutexObject, hi, if_true] at hexec
    cases hexec
    exact (held_of_work hinv call).imp id fun ⟨hacc, hother⟩ => ⟨fun _ => hacc, hother⟩
  | worked q hi =>
    simp only [object, mutexObject, hi, if_true] at hexec
    cases hexec
    exact .inl rfl

end SqliteProfiles

/-! ### Both backends -/

namespace Backend

variable {b : Backend}

/-- The profile and the history of a user, as the store has them. -/
def held : (b : Backend) → (b.object ι).State → UserId → Option Profile × List Revision
  | .memory _ hash, s => InMemoryProfiles.held hash s
  | .sqlite, s => SqliteProfiles.held s.value

/-- One action of a call: every profile and every history stay as they are, or those of other
users do, and the call can only be accepted. -/
theorem held_of_act {c c' : (b.object ι).Config} {order : List (Library.Entry ι StoreCalls)}
    {h : Histories} (hx : (b.points ι).Explains c order h) {i : ι}
    (hs : (b.object ι).step c (.act i) = some c') :
    b.held c'.shared = b.held c.shared ∨ ∃ call p p', c.thread i = some (.running call p) ∧
      c'.thread i = some (.running call p') ∧ p'.Returns call.1.Accepts ∧
      ∀ user, user ≠ call.1.user → b.held c'.shared user = b.held c.shared user := by
  obtain ⟨j, op, hm, -⟩ | ⟨j, call, a, k, r, s, hm, hi, hexec, rfl⟩ | ⟨j, op, r, hm, -⟩ :=
    SharedObject.step_cases hs
  · cases hm
  · obtain rfl := Move.act.inj hm
    obtain ⟨done, hstage, -⟩ := hx.running i call _ hi
    dsimp only
    rw [Function.update_self]
    suffices heff : b.held s = b.held c.shared ∨ (k r).Returns call.1.Accepts ∧
        ∀ user, user ≠ call.1.user → b.held s user = b.held c.shared user by
      exact heff.imp id fun hacc => ⟨call, _, k r, hi, rfl, hacc⟩
    cases b with
    | memory mask hash => exact InMemoryProfiles.held_of_stage hx.inv hstage hexec
    | sqlite => exact SqliteProfiles.held_of_stage hx.inv hstage hexec
  · cases hm

/-- A call that starts, or returns, changes nothing. -/
lemma held_of_step {c c' : (b.object ι).Config} {m : Move ι StoreCalls}
    (hs : (b.object ι).step c m = some c') (hm : ∀ i, m ≠ .act i) :
    b.held c'.shared = b.held c.shared := by
  obtain ⟨j, op, -, -, rfl⟩ | ⟨j, call, a, k, r, s, rfl, -⟩ | ⟨j, op, r, -, -, rfl⟩ :=
    SharedObject.step_cases hs
  · rfl
  · exact absurd rfl (hm j)
  · rfl

end Backend

/-! ### Steps of the service -/

namespace Service

variable {b : Backend} {cfg : Settings} {s s' : Service ι b} {i : ι}

/-- What one step changes of the profiles and histories: nothing, or those of the user of a call
that can only be accepted from here on. -/
theorem Inv.held_of_step (h : Inv cfg s) {e : Event ι} (hs : Service.step cfg s e = some s') :
    b.held s'.profiles.shared = b.held s.profiles.shared ∨ ∃ j call, e = .act j ∧
      (∃ p, s.profiles.thread j = some (.running call p)) ∧
      (b.object ι).Bound s'.profiles j call call.1.Accepts ∧
      ∀ user, user ≠ call.1.user →
        b.held s'.profiles.shared user = b.held s.profiles.shared user := by
  obtain ⟨order, hist, hx⟩ := h.explained
  rcases step_profiles hs with hp | ⟨m, hm, he⟩
  · rw [hp]
    exact .inl rfl
  · by_cases hact : ∃ j, m = .act j
    · obtain ⟨j, rfl⟩ := hact
      rcases Backend.held_of_act hx hm with hsame | ⟨call, p, p', hj, hj', hp', hother⟩
      · exact .inl hsame
      · exact .inr ⟨j, call, he j rfl, ⟨p, hj⟩, .inl ⟨p', hj', hp'⟩, hother⟩
    · exact .inl (Backend.held_of_step hm fun j hj => hact ⟨j, hj⟩)

lemma bound_of_step {call : StoreOp × Env} {Q : call.1.Ret → Prop}
    (h : (b.object ι).Bound s.profiles i call Q) {e : Event ι}
    (hs : Service.step cfg s e = some s') : (b.object ι).Bound s'.profiles i call Q := by
  rcases step_profiles hs with hp | ⟨m, hm, -⟩
  · rwa [hp]
  · exact h.step hm

end Service

end Knova
