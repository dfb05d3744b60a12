import Knova.Common.Dto
import Knova.Library.HashMap

/-!
# Passwords and the user directory

Argon2 is a parameter: what its functions answer, and how much work a verification is.
-/

namespace Knova

open Library

/-- The functions of `argon2` and `password_hash` the service calls. -/
structure Argon2 where
  PasswordHash : Type
  /-- `PasswordHash::new`: reads a PHC string. -/
  parse : String → Option PasswordHash
  verifyPassword : String → PasswordHash → Bool
  /-- The work of verifying any password against a hash, which its parameters fix. -/
  work : PasswordHash → ℕ

/-- Checks `password` against the PHC string `phc`, and how much work that was. -/
def Argon2.verify (A : Argon2) (password phc : String) : Bool × ℕ :=
  match A.parse phc with
  | none => (false, 0)
  | some expected => (A.verifyPassword password expected, A.work expected)

/-- A PHC string with the default parameters: verifying against it is one unit of work. -/
def Argon2.WellFormed (A : Argon2) (phc : String) : Prop :=
  ∃ expected, A.parse phc = some expected ∧ A.work expected = 1

lemma Argon2.WellFormed.verify_work {A : Argon2} {phc : String} (h : A.WellFormed phc)
    (password : String) : (A.verify password phc).2 = 1 := by
  obtain ⟨expected, hparse, hwork⟩ := h
  simp [Argon2.verify, hparse, hwork]

/-- A stored account. -/
structure UserRecord where
  id : UserId
  username : String
  passwordHash : String
  deriving DecidableEq

/-- Outcome of a credential check. -/
inductive Authentication
  | authenticated (user : UserRecord)
  | rejected
  deriving DecidableEq

/-- Accounts held in memory, immutable after construction. -/
structure UserDirectory where
  byUsername : HashMap String UserRecord

namespace UserDirectory

/-- Verifies `password` against the account named `username`, or against the decoy, and how
much work that was. -/
def authenticate (A : Argon2) (decoyHash : String) (users : UserDirectory)
    (username password : String) : Authentication × ℕ :=
  let user := users.byUsername.lookup username
  let phc :=
    match user with
    | some user => user.passwordHash
    | none => decoyHash
  let (matched, work) := A.verify password phc
  (match user, matched with
    | some user, true => .authenticated user
    | _, _ => .rejected, work)

/-- Every hash a login may be checked against is well formed. -/
structure WellFormed (A : Argon2) (decoyHash : String) (users : UserDirectory) : Prop where
  stored : ∀ username user, users.byUsername.lookup username = some user →
    A.WellFormed user.passwordHash
  decoy : A.WellFormed decoyHash

/-- Whoever is asked for, one verification is performed. -/
theorem WellFormed.authenticate_work {A : Argon2} {decoyHash : String} {users : UserDirectory}
    (h : users.WellFormed A decoyHash) (username password : String) :
    (users.authenticate A decoyHash username password).2 = 1 := by
  unfold authenticate
  cases hu : users.byUsername.lookup username with
  | none => exact h.decoy.verify_work password
  | some user => exact (h.stored username user hu).verify_work password

end UserDirectory

end Knova
