import Knova.Profile.SqliteRefinement

/-!
# SQLite replicas

Any number of stores opened on one database file, each with a connection of its own. Their
statements interleave as SQLite lets them: at most one connection is writing, a transaction
sees what is committed and its own writes, and a busy database fails the statement.
-/

namespace Knova.SqliteProfiles

open Library

/-- The transaction that a connection has open. -/
inductive Transaction
  /-- No statement has run in it yet. -/
  | begun
  /-- It reads what was committed when it first read, after that many changes. -/
  | reading (snapshot : Db) (changes : ℕ)
  /-- It holds the write lock, and sees its own writes. -/
  | writing (working : Db)

/-- A database file and its connections, each behind the mutex of its store. -/
structure Replicas (ι κ : Type) where
  committed : Db
  /-- How many transactions have changed what is committed. -/
  changes : ℕ
  writer : Option κ
  transaction : κ → Option Transaction
  holder : κ → Option ι

namespace Replicas

variable {ι κ : Type} [DecidableEq ι] [DecidableEq κ]

/-! ### Statements -/

def setTransaction (s : Replicas ι κ) (k : κ) (t : Option Transaction) : Replicas ι κ :=
  { s with transaction := Function.update s.transaction k t }

/-- A connection, as a statement on it reads the database. -/
def connection (s : Replicas ι κ) (k : κ) : Connection where
  committed := s.committed
  working :=
    match s.transaction k with
    | some (.reading snapshot _) => some snapshot
    | some (.writing working) => some working
    | _ => none

/-- A statement that reads. The first one of a transaction takes its snapshot. -/
def read (s : Replicas ι κ) (k : κ) (a : SqlAct) : Option a.Val × Replicas ι κ :=
  ((SqliteProfiles.perform a (s.connection k)).1,
    match s.transaction k with
    | some .begun => s.setTransaction k (some (.reading s.committed s.changes))
    | _ => s)

/-- What a statement that writes finds, if it may write: no other connection does, and nothing
was committed since the snapshot it reads. -/
def reserve (s : Replicas ι κ) (k : κ) : Option Db :=
  match s.transaction k with
  | some (.writing working) => some working
  | some (.reading snapshot changes) =>
    if s.writer.isNone ∧ changes = s.changes then some snapshot else none
  | _ => if s.writer.isNone then some s.committed else none

/-- `k` has the write lock, and its transaction sees `db`. -/
def working (s : Replicas ι κ) (k : κ) (db : Db) : Replicas ι κ :=
  { s.setTransaction k (some (.writing db)) with writer := some k }

/-- The replicas once a statement on `k` wrote `db`; outside a transaction it commits at once. -/
def store (s : Replicas ι κ) (k : κ) (db : Db) : Replicas ι κ :=
  match s.transaction k with
  | none => { s with committed := db, changes := s.changes + 1 }
  | some _ => s.working k db

/-- A statement that writes. -/
def write (s : Replicas ι κ) (k : κ) (a : SqlAct) : Option a.Val × Replicas ι κ :=
  match s.reserve k with
  | none => (none, s)
  | some db =>
    let (r, c) := SqliteProfiles.perform a ⟨s.committed, some db⟩
    (r, s.store k (view c))

def begin (s : Replicas ι κ) (k : κ) : TransactionBehavior → Option Unit × Replicas ι κ
  | .deferred =>
    match s.transaction k with
    | none => (some (), s.setTransaction k (some .begun))
    | some _ => (none, s)
  | .immediate =>
    match s.transaction k with
    | none =>
      if s.writer.isNone then (some (), s.working k s.committed) else (none, s)
    | some _ => (none, s)

def commit (s : Replicas ι κ) (k : κ) : Option Unit × Replicas ι κ :=
  match s.transaction k with
  | none => (none, s)
  | some (.writing working) => (some (), { s.setTransaction k none with
      committed := working
      changes := s.changes + 1
      writer := none })
  | some _ => (some (), s.setTransaction k none)

def rollback (s : Replicas ι κ) (k : κ) : Replicas ι κ :=
  match s.transaction k with
  | some (.writing _) => { s.setTransaction k none with writer := none }
  | _ => s.setTransaction k none

/-- A statement on the connection `k` that the driver does not fail. -/
def perform (k : κ) : (a : SqlAct) → Replicas ι κ → Option a.Val × Replicas ι κ
  | .begin behavior, s => s.begin k behavior
  | .insertProfile user address phone version, s =>
    s.write k (.insertProfile user address phone version)
  | .insertRevision user version address phone at', s =>
    s.write k (.insertRevision user version address phone at')
  | .updateProfile address phone next user expected, s =>
    s.write k (.updateProfile address phone next user expected)
  | .selectVersion user, s => s.read k (.selectVersion user)
  | .selectProfile user, s => s.read k (.selectProfile user)
  | .selectRevisions user, s => s.read k (.selectRevisions user)
  | .commit, s => s.commit k
  | .drop, s => (some (), s.rollback k)

/-- One statement: the driver fails it, or it does what SQL says. -/
def execute (env : Env) (k : κ) (a : SqlAct) (s : Replicas ι κ) : Option a.Val × Replicas ι κ :=
  if a.statement.any env.fails then (none, s) else perform k a s

/-! ### Calls -/

/-- The actions of a call: the mutex of its store, and statements. -/
inductive Act
  | lock
  | statement (env : Env) (a : SqlAct)
  | unlock

@[reducible] def Act.Ans : Act → Type
  | .lock => Unit
  | .statement _ a => Option a.Val
  | .unlock => Unit

abbrev E : Signature := ⟨Act, Act.Ans⟩

/-- The statements of `work`, and then the mutex released. -/
def statements {α : Type} (env : Env) : SqlProg α → Prog E α
  | .pure r => .act .unlock fun _ => .pure r
  | .act a k => .act (.statement env a) fun r => statements env (k r)

/-- Runs `work` with exclusive use of the connection. -/
def withConnection {α : Type} (env : Env) (work : SqlProg α) : Prog E α :=
  .act .lock fun _ => statements env work

def exec (on : ι → κ) (i : ι) : (a : Act) → Replicas ι κ → Option (a.Ans × Replicas ι κ)
  | .lock, s =>
    if (s.holder (on i)).isNone then
      some ((), { s with holder := Function.update s.holder (on i) (some i) })
    else none
  | .statement env a, s =>
    if s.holder (on i) = some i then some (execute env (on i) a s) else none
  | .unlock, s =>
    if s.holder (on i) = some i then
      some ((), { s with holder := Function.update s.holder (on i) none })
    else none

/-- A database file without rows, and idle connections. -/
def opened (ι κ : Type) : Replicas ι κ :=
  ⟨SqliteProfiles.empty.committed, 0, none, fun _ => none, fun _ => none⟩

/-- The repositories of one file; the call `i` is made on the store `on i`. -/
def object (on : ι → κ) : SharedObject ι StoreCalls where
  E := E
  State := Replicas ι κ
  init := opened ι κ
  body call := withConnection call.2 (SqliteProfiles.body call.2 call.1)
  exec := exec on

end Replicas

end Knova.SqliteProfiles
