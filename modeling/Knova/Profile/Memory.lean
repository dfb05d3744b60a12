import Knova.Library.HashMap
import Knova.Profile.Repository
import Mathlib.Data.Nat.Bitwise
import Mathlib.Data.Nat.Log

/-!
# The in-memory repository

Profiles are spread over shards, each one map behind a reader-writer lock. A profile's
record keeps the current projection, read without any lock, beside the revisions, which
writers and the audit read guard by a mutex. Every method is a program of the atomic
actions on this state, with the guards taken and dropped where the code does.
-/

namespace Knova

open Library

variable {ι : Type}

/-- A profile's revisions behind their mutex, plus the projection readers are handed. -/
structure Record (ι : Type) where
  current : Profile
  revisions : List Revision
  holder : Option ι

/-- One map of the store behind its reader-writer lock. A profile is the index of its
record in the heap, as an `Arc<Record>` is its address. As in `parking_lot`, a writer first
claims the lock, which keeps new readers out, and then waits for those inside to leave. -/
structure Shard (ι : Type) where
  profiles : HashMap UserId ℕ
  writer : Option ι
  readers : List ι

/-- The store: `mask + 1` shards and the records allocated so far. -/
structure InMemoryProfiles (ι : Type) (mask : ℕ) where
  shards : Fin (mask + 1) → Shard ι
  heap : List (Record ι)

/-- The atomic actions of the methods. -/
inductive MemAct
  | readShard (userId : UserId)
  | lookup (userId : UserId)
  | writeShard (userId : UserId)
  | awaitReaders (userId : UserId)
  | entry (userId : UserId)
  | insert (userId : UserId) (current : Profile) (revisions : List Revision)
  | unlockShard (userId : UserId)
  | lockRevisions (slot : ℕ)
  | loadCurrent (slot : ℕ)
  | pushRevision (slot : ℕ) (applied : Revision)
  | storeCurrent (slot : ℕ) (current : Profile)
  | cloneRevisions (slot : ℕ)
  | unlockRevisions (slot : ℕ)

@[reducible] def MemAct.Ans : MemAct → Type
  | .lookup _ => Option ℕ
  | .entry _ => Bool
  | .loadCurrent _ => Profile
  | .cloneRevisions _ => List Revision
  | _ => Unit

abbrev MemProg := Prog ⟨MemAct, MemAct.Ans⟩

namespace InMemoryProfiles

variable {mask : ℕ}

/-- The mask of a store created with `shards` rounded up to a power of two, or `none`
where the rounding does not fit `usize`. -/
def withShards (shards : ℕ) : Option ℕ :=
  let count := 2 ^ Nat.clog 2 (max shards 1)
  if count < 2 ^ 64 then some (count - 1) else none

def empty : InMemoryProfiles ι mask :=
  ⟨fun _ => ⟨∅, none, []⟩, []⟩

/-- The shard owning `userId`: the high bits of its hash, masked. -/
def shard (hash : UserId → UInt64) (mask : ℕ) (userId : UserId) : Fin (mask + 1) :=
  ⟨(hash userId >>> 32).toNat &&& mask, Nat.lt_succ_of_le Nat.and_le_right⟩

/-! ### Methods -/

def act (a : MemAct) : MemProg (MemAct.Ans a) := .act a .pure

/-- Looks up one profile's record, releasing the shard guard before returning. -/
def slot (userId : UserId) : MemProg (Option ℕ) := do
  act (.readShard userId)
  act (.lookup userId)

def create (nowMs : Fin (2 ^ 64)) (userId : UserId) (input : ProfileInput) :
    MemProg (Except StoreError (Option Profile)) := do
  act (.writeShard userId)
  act (.awaitReaders userId)
  let occupied ← act (.entry userId)
  if occupied then do
    act (.unlockShard userId)
    pure (.ok none)
  else do
    let first := revision nowMs .initial input
    let current := project userId first
    act (.insert userId current [first])
    act (.unlockShard userId)
    pure (.ok (some current))

def readAt : Option ℕ → MemProg (Except StoreError (Option Profile))
  | none => pure (.ok none)
  | some slot => do
    let current ← act (.loadCurrent slot)
    pure (.ok (some current))

def get (userId : UserId) : MemProg (Except StoreError (Option Profile)) :=
  slot userId >>= readAt

/-- Publishes an accepted write: the revision first, then the projection. -/
def publish (nowMs : Fin (2 ^ 64)) (userId : UserId) (input : ProfileInput) (slot : ℕ)
    (next : Version) : MemProg (Except StoreError Update) := do
  let applied := revision nowMs next input
  let current := project userId applied
  act (.pushRevision slot applied)
  act (.storeCurrent slot current)
  act (.unlockRevisions slot)
  pure (.ok (.applied current))

/-- The version test of an update, under the revisions mutex. -/
def compareAndSwap (nowMs : Fin (2 ^ 64)) (userId : UserId) (expected : Version)
    (input : ProfileInput) (slot : ℕ) (currentVersion : Version) :
    MemProg (Except StoreError Update) :=
  if currentVersion ≠ expected then do
    act (.unlockRevisions slot)
    pure (.ok (.stale currentVersion))
  else
    match currentVersion.checkedNext with
    | none => do
      act (.unlockRevisions slot)
      pure (.error .versionExhausted)
    | some next => publish nowMs userId input slot next

def updateAt (nowMs : Fin (2 ^ 64)) (userId : UserId) (expected : Version)
    (input : ProfileInput) : Option ℕ → MemProg (Except StoreError Update)
  | none => pure (.ok .missing)
  | some slot => do
    act (.lockRevisions slot)
    let current ← act (.loadCurrent slot)
    compareAndSwap nowMs userId expected input slot current.version

def update (nowMs : Fin (2 ^ 64)) (userId : UserId) (expected : Version)
    (input : ProfileInput) : MemProg (Except StoreError Update) :=
  slot userId >>= updateAt nowMs userId expected input

def historyAt : Option ℕ → MemProg (Except StoreError (List Revision))
  | none => pure (.ok [])
  | some slot => do
    act (.lockRevisions slot)
    let revisions ← act (.cloneRevisions slot)
    act (.unlockRevisions slot)
    pure (.ok revisions)

def history (userId : UserId) : MemProg (Except StoreError (List Revision)) :=
  slot userId >>= historyAt

def body (env : Env) : (op : StoreOp) → MemProg op.Ret
  | .create user input => create env.nowMs user input
  | .get user => get user
  | .update user expected input => update env.nowMs user expected input
  | .history user => history user

/-! ### The atomic actions -/

/-- Runs `f` on the shard owning `userId`. -/
def onShard {β : Type} (hash : UserId → UInt64) (userId : UserId) (s : InMemoryProfiles ι mask)
    (f : Shard ι → Option (β × Shard ι)) : Option (β × InMemoryProfiles ι mask) :=
  match f (s.shards (shard hash mask userId)) with
  | none => none
  | some (b, sh) =>
    some (b, { s with shards := Function.update s.shards (shard hash mask userId) sh })

/-- Runs `f` on an allocated record. -/
def onRecord {β : Type} (slot : ℕ) (s : InMemoryProfiles ι mask)
    (f : Record ι → Option (β × Record ι)) : Option (β × InMemoryProfiles ι mask) :=
  match s.heap[slot]? with
  | none => none
  | some record =>
    match f record with
    | none => none
    | some (b, record') => some (b, { s with heap := s.heap.set slot record' })

/-- One atomic action of the call `i`; `none` where it has to wait for a lock. -/
def exec [DecidableEq ι] (hash : UserId → UInt64) (i : ι) :
    (a : MemAct) → InMemoryProfiles ι mask → Option (a.Ans × InMemoryProfiles ι mask)
  | .readShard user, s => onShard hash user s fun sh =>
    if sh.writer = none then some ((), { sh with readers := i :: sh.readers }) else none
  | .lookup user, s => onShard hash user s fun sh =>
    some (sh.profiles.lookup user, { sh with readers := sh.readers.erase i })
  | .writeShard user, s => onShard hash user s fun sh =>
    if sh.writer = none then some ((), { sh with writer := some i }) else none
  | .awaitReaders user, s => onShard hash user s fun sh =>
    if sh.readers = [] then some ((), sh) else none
  | .entry user, s => onShard hash user s fun sh =>
    some ((sh.profiles.lookup user).isSome, sh)
  | .insert user current revisions, s =>
    onShard hash user { s with heap := s.heap ++ [⟨current, revisions, none⟩] } fun sh =>
      some ((), { sh with profiles := sh.profiles.insert user s.heap.length })
  | .unlockShard user, s => onShard hash user s fun sh => some ((), { sh with writer := none })
  | .lockRevisions slot, s => onRecord slot s fun record =>
    if record.holder = none then some ((), { record with holder := some i }) else none
  | .loadCurrent slot, s => onRecord slot s fun record => some (record.current, record)
  | .pushRevision slot applied, s => onRecord slot s fun record =>
    some ((), { record with revisions := record.revisions ++ [applied] })
  | .storeCurrent slot current, s => onRecord slot s fun record =>
    some ((), { record with current := current })
  | .cloneRevisions slot, s => onRecord slot s fun record => some (record.revisions, record)
  | .unlockRevisions slot, s => onRecord slot s fun record =>
    some ((), { record with holder := none })

/-- The in-memory store as a shared object. -/
def object (ι : Type) [DecidableEq ι] (mask : ℕ) (hash : UserId → UInt64) :
    SharedObject ι StoreCalls where
  E := ⟨MemAct, MemAct.Ans⟩
  State := InMemoryProfiles ι mask
  init := empty
  body call := body call.2 call.1
  exec := exec hash

/-! ### What the store holds -/

/-- The record of a user, as the shard maps have it. -/
def find (hash : UserId → UInt64) (s : InMemoryProfiles ι mask) (user : UserId) : Option ℕ :=
  (s.shards (shard hash mask user)).profiles.lookup user

/-- The stored projection of a user. -/
def projection (hash : UserId → UInt64) (s : InMemoryProfiles ι mask) (user : UserId) :
    Option Profile :=
  match s.find hash user with
  | none => none
  | some slot => s.heap[slot]?.map Record.current

/-- The stored revisions of a user. -/
def revisions (hash : UserId → UInt64) (s : InMemoryProfiles ι mask) (user : UserId) :
    List Revision :=
  match s.find hash user with
  | none => []
  | some slot => (s.heap[slot]?.map Record.revisions).getD []

end InMemoryProfiles

end Knova
