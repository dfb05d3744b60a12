import Knova.Library.HashMap
import Knova.Library.Mutex
import Knova.Profile.Repository
import Mathlib.Data.List.Sort

/-!
# The SQLite repository

Each method is a program of SQL statements on one connection, run on the blocking pool
with exclusive use of the connection. A statement sees the database through the open
transaction, if there is one; leaving a transaction without committing rolls it back.
-/

namespace Knova

open Library

/-- SQLite's INTEGER. -/
structure I64 where
  val : ℤ
  lo : -2 ^ 63 ≤ val
  hi : val < 2 ^ 63
  deriving DecidableEq

@[ext] lemma I64.ext {a b : I64} (h : a.val = b.val) : a = b := by
  cases a
  cases b
  simpa using h

/-- A row of `profiles`, less its primary key. -/
structure ProfileRow where
  address : String
  phoneNumber : String
  version : I64
  deriving DecidableEq

/-- A row of `profile_revisions`, less its primary key. -/
structure RevisionRow where
  address : String
  phoneNumber : String
  recordedAtMs : I64
  deriving DecidableEq

/-- The two tables, by primary key. -/
structure Db where
  profiles : HashMap UserId ProfileRow
  profileRevisions : HashMap (UserId × I64) RevisionRow

/-- The connection: what is committed, and the view of the open transaction. -/
structure Connection where
  committed : Db
  working : Option Db

/-- When a transaction takes the write lock: for its first write, or as it begins. -/
inductive TransactionBehavior
  | deferred
  | immediate

/-- The statements of the methods. `drop` is what leaving a transaction's scope does. -/
inductive SqlAct
  | begin (behavior : TransactionBehavior)
  | insertProfile (userId : UserId) (address phoneNumber : String) (version : I64)
  | insertRevision (userId : UserId) (version : I64) (address phoneNumber : String)
    (recordedAtMs : Fin (2 ^ 64))
  | updateProfile (address phoneNumber : String) (next : I64) (userId : UserId)
    (expected : I64)
  | selectVersion (userId : UserId)
  | selectProfile (userId : UserId)
  | selectRevisions (userId : UserId)
  | commit
  | drop

/-- What a statement that succeeds answers: a row count, or the selected rows. -/
@[reducible] def SqlAct.Val : SqlAct → Type
  | .insertProfile .. => ℕ
  | .insertRevision .. => ℕ
  | .updateProfile .. => ℕ
  | .selectVersion _ => Option I64
  | .selectProfile _ => Option ProfileRow
  | .selectRevisions _ => List (I64 × RevisionRow)
  | _ => Unit

/-- The statement the driver may fail; dropping a transaction cannot fail. -/
def SqlAct.statement : SqlAct → Option Statement
  | .begin _ => some .begin
  | .insertProfile .. => some .insertProfile
  | .insertRevision .. => some .insertRevision
  | .updateProfile .. => some .updateProfile
  | .selectVersion _ => some .selectVersion
  | .selectProfile _ => some .selectProfile
  | .selectRevisions _ => some .selectRevisions
  | .commit => some .commit
  | .drop => none

abbrev SqlProg := Prog ⟨SqlAct, fun a => Option a.Val⟩

/-- Versions are stored as `i64`; one that does not fit counts as exhaustion. -/
def toSql (version : Version) : Except StoreError I64 :=
  if h : version.get < 2 ^ 63 then .ok ⟨version.get, by omega, by omega⟩
  else .error .versionExhausted

/-- Rebuilds a version from a stored counter, clamping a negative value to zero. -/
def fromSql (raw : I64) : Version :=
  ⟨raw.val.toNat, by have := raw.hi; omega⟩

/-- `ToSql for u64`, which refuses what does not fit. -/
def u64ToSql (n : Fin (2 ^ 64)) : Option I64 :=
  if h : n.val < 2 ^ 63 then some ⟨n.val, by omega, by omega⟩ else none

/-- `FromSql for u64`, which refuses a negative value. -/
def u64FromSql (raw : I64) : Option (Fin (2 ^ 64)) :=
  if 0 ≤ raw.val then some ⟨raw.val.toNat, by have := raw.hi; omega⟩ else none

namespace SqliteProfiles

/-! ### Methods -/

/-- A statement followed by `map_err(backend)?`. -/
def attempt {α : Type} (a : SqlAct) (k : a.Val → SqlProg (Except StoreError α)) :
    SqlProg (Except StoreError α) :=
  .act a fun
    | none => .pure (.error .backend)
    | some x => k x

/-- Opens a transaction for `work`. However `work` ends, the transaction is dropped. -/
def transaction {α : Type} (behavior : TransactionBehavior)
    (work : SqlProg (Except StoreError α)) : SqlProg (Except StoreError α) :=
  attempt (.begin behavior) fun _ => work.bind fun r => .act .drop fun _ => .pure r

def create (nowMs : Fin (2 ^ 64)) (owner : UserId) (input : ProfileInput) :
    SqlProg (Except StoreError (Option Profile)) :=
  transaction .deferred <|
    match toSql .initial with
    | .error e => .pure (.error e)
    | .ok version =>
      attempt (.insertProfile owner input.address input.phoneNumber version) fun inserted =>
        if inserted = 0 then .pure (.ok none)
        else
          attempt (.insertRevision owner version input.address input.phoneNumber nowMs) fun _ =>
            attempt .commit fun _ =>
              .pure (.ok (some ⟨owner, input.address, input.phoneNumber, .initial⟩))

def get (owner : UserId) : SqlProg (Except StoreError (Option Profile)) :=
  attempt (.selectProfile owner) fun found =>
    .pure (.ok (found.map fun row =>
      ⟨owner, row.address, row.phoneNumber, fromSql row.version⟩))

def staleOrMissing : Option I64 → Update
  | some raw => .stale (fromSql raw)
  | none => .missing

/-- What zero changed rows mean, read inside the same transaction. -/
def unchanged (owner : UserId) : SqlProg (Except StoreError Update) :=
  attempt (.selectVersion owner) fun current => .pure (.ok (staleOrMissing current))

def update (nowMs : Fin (2 ^ 64)) (owner : UserId) (expectedVersion : Version)
    (input : ProfileInput) : SqlProg (Except StoreError Update) :=
  transaction .immediate <|
    match expectedVersion.checkedNext with
    | none => .pure (.error .versionExhausted)
    | some next =>
      match toSql next with
      | .error e => .pure (.error e)
      | .ok sqlNext =>
        match toSql expectedVersion with
        | .error e => .pure (.error e)
        | .ok expected =>
          attempt (.updateProfile input.address input.phoneNumber sqlNext owner expected)
            fun changed =>
              if changed = 0 then unchanged owner
              else
                attempt
                  (.insertRevision owner sqlNext input.address input.phoneNumber nowMs)
                  fun _ => attempt .commit fun _ =>
                    .pure (.ok (.applied ⟨owner, input.address, input.phoneNumber, next⟩))

/-- One row of the history query, as the row closure reads it. -/
def readRevision (row : I64 × RevisionRow) : Option Revision :=
  (u64FromSql row.2.recordedAtMs).map fun recordedAtMs =>
    ⟨fromSql row.1, row.2.address, row.2.phoneNumber, recordedAtMs⟩

def history (owner : UserId) : SqlProg (Except StoreError (List Revision)) :=
  attempt (.selectRevisions owner) fun rows =>
    .pure (match rows.mapM readRevision with
      | some revisions => .ok revisions
      | none => .error .backend)

def body (env : Env) : (op : StoreOp) → SqlProg op.Ret
  | .create user input => create env.nowMs user input
  | .get user => get user
  | .update user expected input => update env.nowMs user expected input
  | .history user => history user

/-! ### Statements -/

/-- The database the next statement sees. -/
def view (c : Connection) : Db := c.working.getD c.committed

/-- The connection after a statement changed what it sees to `db`. -/
def write (c : Connection) (db : Db) : Connection :=
  match c.working with
  | none => ⟨db, none⟩
  | some _ => ⟨c.committed, some db⟩

/-- The rows of a user, `ORDER BY version ASC`. -/
def revisionsOf (db : Db) (user : UserId) : List (I64 × RevisionRow) :=
  ((db.profileRevisions.entries.filter fun e => e.1.1 = user).map
    fun e => (e.1.2, e.2)).mergeSort fun a b => a.1.val ≤ b.1.val

/-- A statement the driver does not fail. -/
def perform : (a : SqlAct) → Connection → Option a.Val × Connection
  | .begin _, c =>
    match c.working with
    | none => (some (), ⟨c.committed, some c.committed⟩)
    | some _ => (none, c)
  | .insertProfile user address phone version, c =>
    let db := view c
    match db.profiles.lookup user with
    | some _ => (some 0, c)
    | none => (some 1, write c { db with
        profiles := db.profiles.insert user ⟨address, phone, version⟩ })
  | .insertRevision user version address phone recordedAtMs, c =>
    let db := view c
    match u64ToSql recordedAtMs with
    | none => (none, c)
    | some stored =>
      match db.profileRevisions.lookup (user, version) with
      | some _ => (none, c)
      | none => (some 1, write c { db with
          profileRevisions := db.profileRevisions.insert (user, version) ⟨address, phone, stored⟩ })
  | .updateProfile address phone next user expected, c =>
    let db := view c
    match db.profiles.lookup user with
    | none => (some 0, c)
    | some row =>
      if row.version = expected then
        (some 1, write c { db with profiles := db.profiles.insert user ⟨address, phone, next⟩ })
      else (some 0, c)
  | .selectVersion user, c => (some (((view c).profiles.lookup user).map ProfileRow.version), c)
  | .selectProfile user, c => (some ((view c).profiles.lookup user), c)
  | .selectRevisions user, c => (some (revisionsOf (view c) user), c)
  | .commit, c =>
    match c.working with
    | none => (none, c)
    | some db => (some (), ⟨db, none⟩)
  | .drop, c => (some (), ⟨c.committed, none⟩)

/-- One statement: the driver fails it, or it does what SQL says. -/
def exec (env : Env) (a : SqlAct) (c : Connection) : Option a.Val × Connection :=
  if a.statement.any env.fails then (none, c) else perform a c

/-- An empty database. -/
def empty : Connection := ⟨⟨∅, ∅⟩, none⟩

/-- What a method does with the connection to itself. -/
def work (call : StoreCalls.Act) (c : Connection) : StoreCalls.Ans call × Connection :=
  (body call.2 call.1).run (exec call.2) c

/-- The repository: every method runs on the blocking pool, holding the mutex of the
connection. -/
def object (ι : Type) [DecidableEq ι] : SharedObject ι StoreCalls :=
  mutexObject ι StoreCalls empty work

end SqliteProfiles

end Knova
