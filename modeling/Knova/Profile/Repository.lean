import Knova.Common.Dto
import Knova.Library.Linearizability

/-!
# The profile repository

The interface both storage backends implement, and the plain specification of what it is
for: every user has a list of revisions, created once and extended one version at a time
by writers that name the version they replace.
-/

namespace Knova

open Library

/-- A clock reading may be `0`. -/
instance clock_neZero : NeZero (2 ^ 64) := ⟨by decide⟩

/-- One accepted write, retained permanently. -/
structure Revision where
  version : Version
  address : String
  phoneNumber : String
  recordedAtMs : Fin (2 ^ 64)
  deriving DecidableEq

/-- Result of an attempted update. -/
inductive Update
  | applied (profile : Profile)
  | stale (currentVersion : Version)
  | missing
  deriving DecidableEq

/-- Why a storage operation could not complete. -/
inductive StoreError
  | versionExhausted
  | backend
  deriving DecidableEq

/-- Builds the projection a client sees from a revision. -/
def project (userId : UserId) (revision : Revision) : Profile :=
  ⟨userId, revision.address, revision.phoneNumber, revision.version⟩

/-- Builds the revision an accepted write produces, at the clock reading `nowMs`. -/
def revision (nowMs : Fin (2 ^ 64)) (version : Version) (input : ProfileInput) : Revision :=
  ⟨version, input.address, input.phoneNumber, nowMs⟩

/-- What the client wrote. -/
def Revision.content (rev : Revision) : ProfileInput := ⟨rev.address, rev.phoneNumber⟩

/-- What a client reads. -/
def Profile.content (p : Profile) : ProfileInput := ⟨p.address, p.phoneNumber⟩

/-- The methods of `ProfileRepository`. -/
inductive StoreOp
  | create (userId : UserId) (input : ProfileInput)
  | get (userId : UserId)
  | update (userId : UserId) (expectedVersion : Version) (input : ProfileInput)
  | history (userId : UserId)
  deriving DecidableEq

@[reducible] def StoreOp.Value : StoreOp → Type
  | .create _ _ => Option Profile
  | .get _ => Option Profile
  | .update _ _ _ => Update
  | .history _ => List Revision

@[reducible] def StoreOp.Ret (op : StoreOp) : Type := Except StoreError op.Value

/-- Whose profile a call is about. -/
def StoreOp.user : StoreOp → UserId
  | .create user _ => user
  | .get user => user
  | .update user _ _ => user
  | .history user => user

/-- What a call asks to store. -/
def StoreOp.input : StoreOp → Option ProfileInput
  | .create _ input => some input
  | .update _ _ input => some input
  | _ => none

/-- Whether a call is a create. -/
def StoreOp.isCreate : StoreOp → Prop
  | .create _ _ => True
  | _ => False

/-- The SQL statements of the SQLite backend, as places where its driver can fail. -/
inductive Statement
  | begin
  | insertProfile
  | insertRevision
  | updateProfile
  | selectVersion
  | selectProfile
  | selectRevisions
  | commit
  deriving DecidableEq

/-- What one call meets outside its arguments: the wall clock its `now_ms` reads, and the
statements the driver fails. -/
structure Env where
  nowMs : Fin (2 ^ 64)
  fails : Statement → Bool

/-- The interface of a repository: each method, called in some environment. -/
abbrev StoreCalls : Signature := ⟨StoreOp × Env, fun call => call.1.Ret⟩

/-- The plain specification's state: the accepted writes of every user, oldest first. -/
abbrev Histories := UserId → List Revision

namespace Histories

/-- The plain specification of one call. -/
def apply (env : Env) : (op : StoreOp) → Histories → op.Ret × Histories
  | .create user input, h =>
    match h user with
    | [] => (.ok (some ⟨user, input.address, input.phoneNumber, .initial⟩), Function.update h user
        [⟨.initial, input.address, input.phoneNumber, env.nowMs⟩])
    | _ :: _ => (.ok none, h)
  | .get user, h =>
    (.ok ((h user).getLast?.map fun last => ⟨user, last.address, last.phoneNumber, last.version⟩),
      h)
  | .update user expected input, h =>
    match (h user).getLast? with
    | none => (.ok .missing, h)
    | some last =>
      if last.version ≠ expected then (.ok (.stale last.version), h)
      else
        match last.version.checkedNext with
        | none => (.error .versionExhausted, h)
        | some next => (.ok (.applied ⟨user, input.address, input.phoneNumber, next⟩),
            Function.update h user
              (h user ++ [⟨next, input.address, input.phoneNumber, env.nowMs⟩]))
  | .history user, h => (.ok (h user), h)

section Apply

variable {env : Env} {user : UserId} {input : ProfileInput} {expected : Version} {h : Histories}

/-- What is specified of a create is the first revision and its projection. -/
lemma apply_create : apply env (.create user input) h =
    match h user with
    | [] => (.ok (some (project user (revision env.nowMs .initial input))),
        Function.update h user [revision env.nowMs .initial input])
    | _ :: _ => (.ok none, h) := rfl

lemma apply_get : apply env (.get user) h = (.ok ((h user).getLast?.map (project user)), h) := rfl

/-- What is specified of an accepted update is the next revision and its projection. -/
lemma apply_update : apply env (.update user expected input) h =
    match (h user).getLast? with
    | none => (.ok .missing, h)
    | some last =>
      if last.version ≠ expected then (.ok (.stale last.version), h)
      else
        match last.version.checkedNext with
        | none => (.error .versionExhausted, h)
        | some next => (.ok (.applied (project user (revision env.nowMs next input))),
            Function.update h user (h user ++ [revision env.nowMs next input])) := rfl

end Apply

/-- No user has a profile. -/
def empty : Histories := fun _ => []

/-- The plain specification as a relation. -/
def plain : Spec StoreCalls Histories :=
  fun h call r h' => (r, h') = apply call.2 call.1 h

/-- The contract both backends keep: a call behaves as the plain specification says, or
reports an error and changes nothing. -/
def contract : Spec StoreCalls Histories :=
  fun h call r h' => (r, h') = apply call.2 call.1 h ∨ (∃ e, r = .error e) ∧ h' = h

lemma contract_of_plain {h h' : Histories} {call : StoreOp × Env} {r : call.1.Ret}
    (hp : plain h call r h') : contract h call r h' := .inl hp

/-- The versions of a revision list are `1, 2, …, n` in this order. -/
def Contiguous (l : List Revision) : Prop :=
  l.map (fun rev => rev.version.get) = List.range' 1 l.length

lemma Contiguous.nil : Contiguous [] := rfl

lemma Contiguous.snoc {l : List Revision} {rev : Revision} (h : Contiguous l)
    (hv : rev.version.get = l.length + 1) : Contiguous (l ++ [rev]) := by
  unfold Contiguous at *
  simp [h, hv, List.range'_concat, Nat.add_comm]

lemma Contiguous.getElem_version {l : List Revision} (h : Contiguous l) {k : ℕ}
    (hk : k < l.length) : l[k].version.get = k + 1 := by
  have := congrArg (fun m => m[k]?) h
  simp only [List.getElem?_map, List.getElem?_eq_getElem hk, Option.map_some,
    List.getElem?_range' hk, Option.some.injEq] at this
  omega

lemma Contiguous.pairwise {l : List Revision} (h : Contiguous l) :
    l.Pairwise fun a b => a.version.get < b.version.get := by
  have hlt : (l.map fun rev => rev.version.get).Pairwise (· < ·) := by
    rw [h]
    exact List.pairwise_lt_range'
  exact List.pairwise_map.mp hlt

lemma Contiguous.eq_of_version_eq {l : List Revision} (h : Contiguous l) {x y : Revision}
    (hx : x ∈ l) (hy : y ∈ l) (hv : x.version = y.version) : x = y := by
  obtain ⟨i, hi, rfl⟩ := List.mem_iff_getElem.mp hx
  obtain ⟨j, hj, rfl⟩ := List.mem_iff_getElem.mp hy
  have hi' := h.getElem_version hi
  have hj' := h.getElem_version hj
  rw [hv] at hi'
  obtain rfl : i = j := by omega
  rfl

/-- The first revision is the one at the initial version. -/
lemma Contiguous.head?_of_initial {l : List Revision} (h : Contiguous l) {rev : Revision}
    (hrev : rev ∈ l) (hv : rev.version = .initial) : l.head? = some rev := by
  obtain ⟨k, hk, rfl⟩ := List.mem_iff_getElem.mp hrev
  have := h.getElem_version hk
  rw [hv, Version.initial_get] at this
  obtain rfl : k = 0 := by omega
  exact List.head?_eq_getElem? ▸ List.getElem?_eq_getElem hk

lemma Contiguous.getLast?_version {l : List Revision} (h : Contiguous l) {last : Revision}
    (hl : l.getLast? = some last) : last.version.get = l.length := by
  rw [List.getLast?_eq_getElem?] at hl
  obtain ⟨hk, rfl⟩ := List.getElem?_eq_some_iff.mp hl
  rw [h.getElem_version hk]
  omega

/-! ### What an execution of the contract accepted -/

section Executions

variable {ι : Type}

/-- The revision a call wrote, if it was accepted. -/
def written : Entry ι StoreCalls → Option (UserId × Revision)
  | ⟨_, (.create user input, env), .ok (some p)⟩ => some (user, revision env.nowMs p.version input)
  | ⟨_, (.update user _ input, env), .ok (.applied p)⟩ =>
    some (user, revision env.nowMs p.version input)
  | _ => none

/-- The revision a call wrote for `user`, if it was accepted. -/
def writtenFor (user : UserId) (e : Entry ι StoreCalls) : Option Revision :=
  match written e with
  | some (owner, rev) => if owner = user then some rev else none
  | none => none

lemma writtenFor_eq_some {user : UserId} {e : Entry ι StoreCalls} {rev : Revision} :
    writtenFor user e = some rev ↔ written e = some (user, rev) := by
  unfold writtenFor
  cases written e with
  | none => simp
  | some q =>
    obtain ⟨owner, rev'⟩ := q
    by_cases ho : owner = user
    · simp [ho]
    · simp [ho]

lemma writtenFor_create (i : ι) (user : UserId) (input : ProfileInput) (env : Env) (p : Profile) :
    writtenFor user (⟨i, (.create user input, env), .ok (some p)⟩ : Entry ι StoreCalls) =
      some (revision env.nowMs p.version input) := by
  simp [writtenFor, written]

lemma writtenFor_update (i : ι) (user : UserId) (expected : Version) (input : ProfileInput)
    (env : Env) (p : Profile) :
    writtenFor user (⟨i, (.update user expected input, env), .ok (.applied p)⟩ :
      Entry ι StoreCalls) = some (revision env.nowMs p.version input) := by
  simp [writtenFor, written]

/-- One call of the contract: what it wrote is appended to its user's revisions, at the
next version, and nothing else changes. -/
theorem contract_step {h h' : Histories} {e : Entry ι StoreCalls}
    (hs : contract h e.op e.ret h') (user : UserId) :
    h' user = h user ++ (writtenFor user e).toList ∧
      ∀ rev, writtenFor user e = some rev → Contiguous (h user) →
        rev.version.get = (h user).length + 1 := by
  obtain ⟨id, ⟨op, env⟩, r⟩ := e
  dsimp only at hs
  rcases hs with hs | ⟨⟨err, rfl⟩, rfl⟩
  · cases op with
    | create owner input =>
      simp only [apply_create] at hs
      split at hs
      · rename_i hnil
        obtain ⟨rfl, rfl⟩ := Prod.mk.inj hs
        by_cases ho : owner = user
        · subst ho
          simp [writtenFor, written, hnil, project, revision]
        · simp [writtenFor, written, ho, Function.update_of_ne (Ne.symm ho)]
      · obtain ⟨rfl, rfl⟩ := Prod.mk.inj hs
        simp [writtenFor, written]
    | get owner =>
      obtain ⟨rfl, rfl⟩ := Prod.mk.inj hs
      simp [writtenFor, written]
    | update owner expected input =>
      simp only [apply_update] at hs
      split at hs
      · obtain ⟨rfl, rfl⟩ := Prod.mk.inj hs
        simp [writtenFor, written]
      · rename_i last hlast
        split at hs
        · obtain ⟨rfl, rfl⟩ := Prod.mk.inj hs
          simp [writtenFor, written]
        · split at hs
          · obtain ⟨rfl, rfl⟩ := Prod.mk.inj hs
            simp [writtenFor, written]
          · rename_i next hnext
            obtain ⟨rfl, rfl⟩ := Prod.mk.inj hs
            by_cases ho : owner = user
            · subst ho
              simp only [writtenFor, written, project, revision, if_true, Function.update_self,
                Option.toList_some, true_and, Option.some.injEq]
              rintro rev rfl hc
              rw [Version.checkedNext_eq_some.mp hnext, hc.getLast?_version hlast]
            · simp [writtenFor, written, ho, Function.update_of_ne (Ne.symm ho)]
    | history owner =>
      obtain ⟨rfl, rfl⟩ := Prod.mk.inj hs
      simp [writtenFor, written]
  · cases op <;> simp [writtenFor, written]

/-- After any execution of the contract from the empty state, a user's revisions are
exactly what accepted calls wrote, in the order in which they took effect, and their
versions count up from `1`. -/
theorem legal_history {order : List (Entry ι StoreCalls)} {h : Histories}
    (hl : Legal contract empty order h) (user : UserId) :
    h user = order.filterMap (writtenFor user) ∧ Contiguous (h user) := by
  induction hl with
  | nil => exact ⟨rfl, .nil⟩
  | snoc e _ hs ih =>
    obtain ⟨hstep, hver⟩ := contract_step hs user
    refine ⟨?_, ?_⟩
    · rw [hstep, ih.1, List.filterMap_append]
      cases hw : writtenFor user e <;> simp [hw]
    · rw [hstep]
      cases hw : writtenFor user e with
      | none => simpa using ih.2
      | some rev => exact ih.2.snoc (hver rev hw ih.2)

/-- What an accepted create returned. -/
lemma contract_create {h h' : Histories} {user : UserId} {input : ProfileInput} {env : Env}
    {p : Profile} (hs : contract h (.create user input, env) (.ok (some p)) h') :
    h user = [] ∧ p = project user (revision env.nowMs .initial input) := by
  rcases hs with hs | ⟨⟨e, he⟩, -⟩
  · simp only [apply_create] at hs
    split at hs
    · rename_i hnil
      simp only [Prod.mk.injEq, Except.ok.injEq, Option.some.injEq] at hs
      exact ⟨hnil, hs.1⟩
    · simp at hs
  · cases he

/-- What an accepted update returned, and which revision it replaced. -/
lemma contract_update {h h' : Histories} {user : UserId} {expected : Version}
    {input : ProfileInput} {env : Env} {p : Profile}
    (hs : contract h (.update user expected input, env) (.ok (.applied p)) h') :
    (∃ last, (h user).getLast? = some last ∧ last.version = expected) ∧
      p.version.get = expected.get + 1 ∧
      p = project user (revision env.nowMs p.version input) := by
  rcases hs with hs | ⟨⟨e, he⟩, -⟩
  · simp only [apply_update] at hs
    split at hs
    · simp at hs
    · rename_i last hlast
      split at hs
      · simp at hs
      · rename_i hver
        rw [ne_eq, not_not] at hver
        split at hs
        · simp at hs
        · rename_i next hnext
          simp only [Prod.mk.injEq, Except.ok.injEq, Update.applied.injEq] at hs
          obtain ⟨rfl, -⟩ := hs
          rw [← hver]
          exact ⟨⟨last, hlast, rfl⟩, Version.checkedNext_eq_some.mp hnext, rfl⟩
  · cases he

/-- The version a refused update reports is the last one. -/
lemma contract_stale {h h' : Histories} {user : UserId} {expected v : Version}
    {input : ProfileInput} {env : Env}
    (hs : contract h (.update user expected input, env) (.ok (.stale v)) h') :
    ∃ last, (h user).getLast? = some last ∧ last.version = v := by
  rcases hs with hs | ⟨⟨e, he⟩, -⟩
  · simp only [apply_update] at hs
    split at hs
    · simp at hs
    · rename_i last hlast
      split at hs
      · simp only [Prod.mk.injEq, Except.ok.injEq, Update.stale.injEq] at hs
        exact ⟨last, hlast, hs.1.symm⟩
      · split at hs
        · simp at hs
        · simp at hs
  · cases he

/-- An update is told that there is no profile only where there is no revision. -/
lemma contract_missing {h h' : Histories} {user : UserId} {expected : Version}
    {input : ProfileInput} {env : Env}
    (hs : contract h (.update user expected input, env) (.ok .missing) h') :
    (h user).getLast? = none := by
  rcases hs with hs | ⟨⟨e, he⟩, -⟩
  · simp only [apply_update] at hs
    split at hs
    · assumption
    · split at hs
      · simp at hs
      · split at hs
        · simp at hs
        · simp at hs
  · cases he

/-- What precedes an execution leaves a prefix of every user's revisions. -/
lemma prefix_of_legal {pre post : List (Entry ι StoreCalls)} {b h : Histories}
    (hpre : Legal contract empty pre b) (hl : Legal contract empty (pre ++ post) h)
    (user : UserId) : b user <+: h user := by
  rw [(legal_history hpre user).1, (legal_history hl user).1, List.filterMap_append]
  exact List.prefix_append _ _

/-- A read that found a profile found the projection of one of the revisions. -/
lemma mem_of_get {order : List (Entry ι StoreCalls)} {h : Histories}
    (hl : Legal contract empty order h) {i : ι} {user : UserId} {env : Env} {p : Profile}
    (he : ⟨i, (.get user, env), .ok (some p)⟩ ∈ order) : ∃ rev ∈ h user, p = project user rev := by
  obtain ⟨pre, post, b, c, rfl, hpre, hs⟩ := hl.split he
  rcases hs with hs | ⟨⟨e, hr⟩, -⟩
  · obtain ⟨hr, -⟩ := Prod.mk.inj hs
    obtain ⟨rev, hlast, rfl⟩ := Option.map_eq_some_iff.mp (Except.ok.inj hr).symm
    exact ⟨rev, (prefix_of_legal hpre hl user).subset (List.mem_of_getLast? hlast), rfl⟩
  · cases hr

/-- An audit read answered the revisions up to some point. -/
lemma prefix_of_history {order : List (Entry ι StoreCalls)} {h : Histories}
    (hl : Legal contract empty order h) {i : ι} {user : UserId} {env : Env}
    {revisions : List Revision} (he : ⟨i, (.history user, env), .ok revisions⟩ ∈ order) :
    revisions <+: h user := by
  obtain ⟨pre, post, b, c, rfl, hpre, hs⟩ := hl.split he
  rcases hs with hs | ⟨⟨e, hr⟩, -⟩
  · obtain ⟨hr, -⟩ := Prod.mk.inj hs
    rw [Except.ok.inj hr]
    exact prefix_of_legal hpre hl user
  · cases hr

/-- The revision an accepted entry wrote carries the version it returned. -/
lemma mem_of_writtenFor {order : List (Entry ι StoreCalls)} {h : Histories}
    (hl : Legal contract empty order h) {user : UserId} {rev : Revision} :
    rev ∈ h user ↔ ∃ e ∈ order, writtenFor user e = some rev := by
  rw [(legal_history hl user).1, List.mem_filterMap]

/-- Two entries of an execution never write the same version for one user. -/
theorem writtenFor_unique {order : List (Entry ι StoreCalls)} {h : Histories}
    (hl : Legal contract empty order h) {user : UserId} {e e' : Entry ι StoreCalls}
    (he : e ∈ order) (he' : e' ∈ order) {rev rev' : Revision}
    (hw : writtenFor user e = some rev) (hw' : writtenFor user e' = some rev')
    (hv : rev.version = rev'.version) : e = e' := by
  induction hl generalizing e e' rev rev' with
  | nil => cases he
  | @snoc order a b d hpre hs ih =>
    -- an entry before the last one wrote a version that is already in the history
    have hbound : ∀ x ∈ order, ∀ r, writtenFor user x = some r →
        r.version.get ≤ (a user).length := by
      intro x hx r hr
      have hmem := (mem_of_writtenFor hpre).mpr ⟨x, hx, hr⟩
      obtain ⟨k, hk, rfl⟩ := List.mem_iff_getElem.mp hmem
      rw [(legal_history hpre user).2.getElem_version hk]
      omega
    have hlast : ∀ r, writtenFor user d = some r → r.version.get = (a user).length + 1 :=
      fun r hr => (contract_step hs user).2 r hr (legal_history hpre user).2
    have hv' : rev.version.get = rev'.version.get := congrArg Version.get hv
    rcases List.mem_append.mp he with hm | hm <;> rcases List.mem_append.mp he' with hm' | hm'
    · exact ih hm hm' hw hw' hv
    · obtain rfl := List.mem_singleton.mp hm'
      have := hbound e hm rev hw
      have := hlast rev' hw'
      omega
    · obtain rfl := List.mem_singleton.mp hm
      have := hbound e' hm' rev' hw'
      have := hlast rev hw
      omega
    · rw [List.mem_singleton.mp hm, List.mem_singleton.mp hm']

/-- Only one create of a user answers a profile. -/
lemma create_unique {order : List (Entry ι StoreCalls)} {h : Histories}
    (hl : Legal contract empty order h) {i j : ι} {user : UserId} {input input' : ProfileInput}
    {env env' : Env} {p p' : Profile}
    (he : ⟨i, (.create user input, env), .ok (some p)⟩ ∈ order)
    (he' : ⟨j, (.create user input', env'), .ok (some p')⟩ ∈ order) : i = j := by
  obtain ⟨-, -, b, c, -, -, hs⟩ := hl.split he
  obtain ⟨-, -, b', c', -, -, hs'⟩ := hl.split he'
  have hp : p.version = .initial := by rw [(contract_create hs).2, project, revision]
  have hp' : p'.version = .initial := by rw [(contract_create hs').2, project, revision]
  have heq := writtenFor_unique hl he he' (writtenFor_create ..) (writtenFor_create ..)
    (hp.trans hp'.symm)
  exact congrArg Entry.id heq

/-- Only one update of a user that expects a version is applied. -/
lemma update_unique {order : List (Entry ι StoreCalls)} {h : Histories}
    (hl : Legal contract empty order h) {i j : ι} {user : UserId} {expected : Version}
    {input input' : ProfileInput} {env env' : Env} {p p' : Profile}
    (he : ⟨i, (.update user expected input, env), .ok (.applied p)⟩ ∈ order)
    (he' : ⟨j, (.update user expected input', env'), .ok (.applied p')⟩ ∈ order) : i = j := by
  obtain ⟨-, -, b, c, -, -, hs⟩ := hl.split he
  obtain ⟨-, -, b', c', -, -, hs'⟩ := hl.split he'
  have hv : p.version = p'.version :=
    Version.ext ((contract_update hs).2.1.trans (contract_update hs').2.1.symm)
  have heq := writtenFor_unique hl he he' (writtenFor_update ..) (writtenFor_update ..) hv
  exact congrArg Entry.id heq

lemma user_of_writtenFor {e : Entry ι StoreCalls} {user : UserId} {rev : Revision}
    (h : writtenFor user e = some rev) : e.op.1.user = user := by
  rw [writtenFor_eq_some] at h
  unfold written at h
  split at h
  · obtain ⟨rfl, -⟩ := Prod.mk.inj (Option.some.inj h)
    rfl
  · obtain ⟨rfl, -⟩ := Prod.mk.inj (Option.some.inj h)
    rfl
  · cases h

/-- An entry that wrote a revision is a create that found no profile, or an update that
found one. -/
lemma writtenFor_cases {e : Entry ι StoreCalls} {user : UserId} {rev : Revision}
    (h : writtenFor user e = some rev) {a b : Histories} :
    e.op.1.isCreate ∧ (contract a e.op e.ret b → a user = []) ∨
      ¬e.op.1.isCreate ∧ (contract a e.op e.ret b → a user ≠ []) := by
  rw [writtenFor_eq_some] at h
  unfold written at h
  split at h
  · obtain ⟨rfl, -⟩ := Prod.mk.inj (Option.some.inj h)
    exact .inl ⟨trivial, fun hs => (contract_create hs).1⟩
  · obtain ⟨rfl, -⟩ := Prod.mk.inj (Option.some.inj h)
    refine .inr ⟨fun hcreate => hcreate, fun hs hnil => ?_⟩
    obtain ⟨⟨last, hlast, -⟩, -⟩ := contract_update hs
    rw [hnil] at hlast
    cases hlast
  · cases h

/-- The entries that wrote a revision for `user`. -/
def writers (user : UserId) (order : List (Entry ι StoreCalls)) : List (Entry ι StoreCalls) :=
  order.filter fun e => (writtenFor user e).isSome

lemma map_writers (user : UserId) (order : List (Entry ι StoreCalls)) :
    (writers user order).map (writtenFor user) = (order.filterMap (writtenFor user)).map some := by
  induction order with
  | nil => rfl
  | cons e order ih =>
    cases hw : writtenFor user e with
    | none => simpa [writers, hw] using ih
    | some rev => simpa [writers, hw] using ih

/-- The first revision of a user was written by a create, all others by updates. -/
theorem writers_create_first {order : List (Entry ι StoreCalls)} {h : Histories}
    (hl : Legal contract empty order h) (user : UserId) :
    writers user order = [] ∨ ∃ first rest, writers user order = first :: rest ∧
      first.op.1.isCreate ∧ ∀ e ∈ rest, ¬e.op.1.isCreate := by
  induction hl with
  | nil => exact .inl rfl
  | @snoc order a b e hpre hs ih =>
    have hmap := map_writers user order
    rw [← (legal_history hpre user).1] at hmap
    cases hw : writtenFor user e with
    | none => simpa [writers, hw] using ih
    | some rev =>
      have happend : writers user (order ++ [e]) = writers user order ++ [e] := by
        simp [writers, hw]
      rw [happend]
      rcases writtenFor_cases hw with ⟨hcreate, hnil⟩ | ⟨hupdate, hne⟩
      · have hwriters : writers user order = [] := by
          rw [hnil hs] at hmap
          simpa using hmap
        exact .inr ⟨e, [], by simp [hwriters], hcreate, by simp⟩
      · rcases ih with hwriters | ⟨first, rest, hwriters, hfirst, hrest⟩
        · rw [hwriters] at hmap
          exact absurd (by simpa using hmap.symm) (hne hs)
        · refine .inr ⟨first, rest ++ [e], by simp [hwriters], hfirst, ?_⟩
          intro d hd
          rcases List.mem_append.mp hd with hd | hd
          · exact hrest d hd
          · rwa [List.mem_singleton.mp hd]

/-- The revision an accepted entry wrote, by the call that wrote it. -/
lemma writtenFor_eq_some_cases {e : Entry ι StoreCalls} {user : UserId} {rev : Revision}
    (h : writtenFor user e = some rev) :
    (∃ i input env p, e = ⟨i, (.create user input, env), .ok (some p)⟩ ∧
      rev = revision env.nowMs p.version input) ∨
    ∃ i expected input env p, e = ⟨i, (.update user expected input, env), .ok (.applied p)⟩ ∧
      rev = revision env.nowMs p.version input := by
  rw [writtenFor_eq_some] at h
  unfold written at h
  split at h
  · obtain ⟨rfl, rfl⟩ := Prod.mk.inj (Option.some.inj h)
    exact .inl ⟨_, _, _, _, rfl, rfl⟩
  · obtain ⟨rfl, rfl⟩ := Prod.mk.inj (Option.some.inj h)
    exact .inr ⟨_, _, _, _, _, rfl, rfl⟩
  · cases h

/-- If every accepted update wrote a change of the content it replaced, the last content is
the first one with all these changes applied, in the order in which they took effect. -/
theorem foldl_writers {order : List (Entry ι StoreCalls)} {h : Histories}
    (hl : Legal contract empty order h) (user : UserId)
    (change : ι → ProfileInput → ProfileInput)
    (hchange : ∀ pre i expected input env p b last,
      pre ++ [⟨i, (.update user expected input, env), .ok (.applied p)⟩] <+: order →
      Legal contract empty pre b → (b user).getLast? = some last → last.version = expected →
      input = change i last.content) :
    h user = [] ∧ writers user order = [] ∨ ∃ first rest rev last,
      writers user order = first :: rest ∧ (h user).head? = some rev ∧
      (h user).getLast? = some last ∧
      last.content = rest.foldl (fun c e => change e.id c) rev.content := by
  induction hl with
  | nil => exact .inl ⟨rfl, rfl⟩
  | @snoc order a b e hpre hs ih =>
    have hrec := ih fun pre i expected input env p b last hp =>
      hchange pre i expected input env p b last (hp.trans (List.prefix_append _ _))
    have hstep := (contract_step hs user).1
    cases hw : writtenFor user e with
    | none =>
      have hwriters : writers user (order ++ [e]) = writers user order := by
        simp [writers, hw]
      rw [hw, Option.toList_none, List.append_nil] at hstep
      rw [hstep, hwriters]
      exact hrec
    | some rev =>
      have hwriters : writers user (order ++ [e]) = writers user order ++ [e] := by
        simp [writers, hw]
      rw [hw, Option.toList_some] at hstep
      right
      rcases writtenFor_eq_some_cases hw with ⟨i, input, env, p, rfl, hrev⟩ |
        ⟨i, expected, input, env, p, rfl, hrev⟩
      · -- a create found no revision
        have hnil := (contract_create hs).1
        rcases hrec with ⟨-, hempty⟩ | ⟨first, rest, rev', last, -, hhead, -⟩
        · exact ⟨_, [], rev, rev, by rw [hwriters, hempty]; rfl, by rw [hstep, hnil]; rfl,
            by rw [hstep, hnil]; rfl, rfl⟩
        · rw [hnil] at hhead
          cases hhead
      · obtain ⟨⟨last, hlast, hver⟩, -⟩ := contract_update hs
        rcases hrec with ⟨hnil, -⟩ | ⟨first, rest, rev', last', hcons, hhead, hlast', hfold⟩
        · rw [hnil] at hlast
          cases hlast
        · rw [hlast] at hlast'
          obtain rfl := Option.some.inj hlast'
          refine ⟨first, rest ++ [_], rev', rev, by rw [hwriters, hcons]; rfl, ?_, ?_, ?_⟩
          · rw [hstep, List.head?_append, hhead]
            rfl
          · rw [hstep, List.getLast?_concat]
          · rw [List.foldl_append, ← hfold, hrev]
            exact hchange order i expected input env p a last (List.prefix_refl _) hpre hlast hver

end Executions

end Histories

end Knova
