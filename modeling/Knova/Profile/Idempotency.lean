import Knova.Library.HashMap
import Mathlib.Algebra.Order.Ring.Int

/-!
# Idempotency keys for `POST /profile`

The first request under a key reserves it, its outcome is recorded against the key, and
every retry is answered from the record. Entries carry no owner: whoever calls `finish`
or `abandon` changes whatever entry stands under the key. Instants and durations are
counted in nanoseconds.
-/

namespace Knova

open Library

/-- A recorded response, replayed for any retry of the same key. -/
structure Recorded where
  status : ℕ
  body : String
  etag : Option String
  deriving DecidableEq

/-- What the store says about a key. -/
inductive Lookup
  | reserved
  | replay (recorded : Recorded)
  | inFlight
  | bodyMismatch
  deriving DecidableEq

namespace Idempotency

inductive Entry
  | inFlight (fingerprint : UInt64) (since : ℕ)
  | complete (fingerprint : UInt64) (recordedAt : ℕ) (recorded : Recorded)
  deriving DecidableEq

def Entry.fingerprint : Entry → UInt64
  | .inFlight fingerprint _ => fingerprint
  | .complete fingerprint _ _ => fingerprint

/-- What an entry tells a request whose body has the given fingerprint. -/
def Entry.answer (fingerprint : UInt64) : Entry → Lookup
  | .inFlight fp _ => if fp ≠ fingerprint then .bodyMismatch else .inFlight
  | .complete fp _ recorded => if fp ≠ fingerprint then .bodyMismatch else .replay recorded

lemma Entry.answer_of_ne {fingerprint : UInt64} {entry : Entry}
    (h : entry.fingerprint ≠ fingerprint) : entry.answer fingerprint = .bodyMismatch := by
  cases entry <;> exact if_pos h

def Entry.isComplete : Entry → Bool
  | .inFlight _ _ => false
  | .complete _ _ _ => true

/-- A user and a key of theirs. -/
abbrev Slot := String × String

/-- Records the outcome of keyed requests for a bounded window. -/
structure IdempotencyStore where
  entries : HashMap Slot Entry
  retention : ℕ
  reservationTimeout : ℕ

namespace IdempotencyStore

def defaultRetention : ℕ := 86400 * 10 ^ 9

def defaultReservationTimeout : ℕ := 60 * 10 ^ 9

/-- Builds a store with the given windows. -/
def new (retention reservationTimeout : ℕ) : IdempotencyStore := ⟨∅, retention, reservationTimeout⟩

/-- Whether `expire` keeps an entry at the instant `now`. -/
def live (s : IdempotencyStore) (now : ℕ) : Entry → Bool
  | .inFlight _ since => now - since < s.reservationTimeout
  | .complete _ recordedAt _ => now - recordedAt < s.retention

def expire (now : ℕ) (s : IdempotencyStore) : IdempotencyStore :=
  { s with entries := s.entries.retain fun _ entry => s.live now entry }

/-- Reserves `key` for `user`, or reports what is already known about it. -/
def begin (hash : String → UInt64) (now : ℕ) (user key body : String) (s : IdempotencyStore) :
    Lookup × IdempotencyStore :=
  let fingerprint := hash body
  let s := s.expire now
  match s.entries.lookup (user, key) with
  | some entry => (entry.answer fingerprint, s)
  | none =>
    (.reserved, { s with entries := s.entries.insert (user, key) (.inFlight fingerprint now) })

/-- Records the outcome of a reserved key. -/
def finish (hash : String → UInt64) (now : ℕ) (user key body : String) (recorded : Recorded)
    (s : IdempotencyStore) : IdempotencyStore :=
  { s with entries := s.entries.insert (user, key) (.complete (hash body) now recorded) }

/-- Releases a reservation whose request failed, so a retry may proceed. -/
def abandon (user key : String) (s : IdempotencyStore) : IdempotencyStore :=
  match s.entries.lookup (user, key) with
  | some (.inFlight _ _) => { s with entries := s.entries.erase (user, key) }
  | _ => s

/-! ### What each operation does to one slot -/

/-- The entry under a slot. -/
def find (s : IdempotencyStore) (slot : Slot) : Option Entry := s.entries.lookup slot

variable {s : IdempotencyStore} {hash : String → UInt64} {now : ℕ} {user key body : String}
  {slot : Slot} {recorded : Recorded}

lemma find_expire : (s.expire now).find slot = (s.find slot).filter (s.live now) :=
  HashMap.lookup_retain _ _ _

lemma find_expire_eq_some {entry : Entry} :
    (s.expire now).find slot = some entry ↔ s.find slot = some entry ∧ s.live now entry := by
  rw [find_expire, Option.filter_eq_some_iff]

lemma begin_of_none (h : (s.expire now).find (user, key) = none) :
    (s.begin hash now user key body).1 = .reserved ∧
      ∀ slot, (s.begin hash now user key body).2.find slot =
        if slot = (user, key) then some (.inFlight (hash body) now)
        else (s.expire now).find slot := by
  unfold find at h
  simp only [begin, h, find, true_and]
  intro slot
  split
  · rename_i heq
    rw [heq, AList.lookup_insert]
  · rename_i hne
    rw [AList.lookup_insert_ne hne]

lemma begin_of_some {entry : Entry} (h : (s.expire now).find (user, key) = some entry) :
    s.begin hash now user key body = (entry.answer (hash body), s.expire now) := by
  unfold find at h
  simp only [begin, h]

lemma answer_ne_reserved (fingerprint : UInt64) (entry : Entry) :
    entry.answer fingerprint ≠ .reserved := by
  cases entry <;> simp only [Entry.answer] <;> split <;> simp

/-- `begin` answers `Reserved` exactly when nothing live stands under the slot. -/
lemma begin_reserved_iff :
    (s.begin hash now user key body).1 = .reserved ↔ (s.expire now).find (user, key) = none := by
  cases h : (s.expire now).find (user, key) with
  | none => simp [(begin_of_none h).1]
  | some entry => simp [begin_of_some h, answer_ne_reserved]

/-- Everything `begin` can do: reserve a free slot, or report the live entry under it. -/
theorem begin_cases {found : Lookup} {s' : IdempotencyStore}
    (h : s.begin hash now user key body = (found, s')) :
    (found = .reserved ∧ (s.expire now).find (user, key) = none ∧ ∀ slot, s'.find slot =
        if slot = (user, key) then some (.inFlight (hash body) now)
        else (s.expire now).find slot) ∨
      ∃ entry, s.find (user, key) = some entry ∧ s.live now entry ∧
        found = entry.answer (hash body) ∧ s' = s.expire now := by
  cases hf : (s.expire now).find (user, key) with
  | none =>
    obtain ⟨hreserved, hfind⟩ := @begin_of_none s hash now user key body hf
    rw [h] at hreserved hfind
    exact .inl ⟨hreserved, rfl, hfind⟩
  | some entry =>
    rw [begin_of_some hf] at h
    obtain ⟨rfl, rfl⟩ := Prod.mk.inj h
    obtain ⟨hfind, hlive⟩ := find_expire_eq_some.mp hf
    exact .inr ⟨entry, hfind, hlive, rfl, rfl⟩

lemma find_finish : (s.finish hash now user key body recorded).find slot =
    if slot = (user, key) then some (.complete (hash body) now recorded) else s.find slot := by
  unfold find finish
  split
  · rename_i heq
    rw [heq, AList.lookup_insert]
  · rename_i hne
    rw [AList.lookup_insert_ne hne]

/-- `abandon` removes an in-flight entry, whoever made it, and nothing else. -/
lemma find_abandon : (s.abandon user key).find slot =
    if slot = (user, key) then (s.find slot).filter Entry.isComplete else s.find slot := by
  unfold abandon find
  by_cases hslot : slot = (user, key)
  · subst hslot
    simp only [if_true]
    split
    · rename_i h
      rw [h, AList.lookup_erase]
      rfl
    · rename_i h
      cases hf : s.entries.lookup (user, key) with
      | none => rfl
      | some entry =>
        cases entry with
        | inFlight fp since => exact absurd hf (h fp since)
        | complete fp recordedAt recorded => rfl
  · simp only [hslot, if_false]
    split
    · exact AList.lookup_erase_ne hslot
    · rfl

/-- No operation changes the windows. -/
lemma begin_windows : (s.begin hash now user key body).2.retention = s.retention ∧
    (s.begin hash now user key body).2.reservationTimeout = s.reservationTimeout := by
  unfold begin
  dsimp only
  split <;> exact ⟨rfl, rfl⟩

lemma abandon_windows : (s.abandon user key).retention = s.retention ∧
    (s.abandon user key).reservationTimeout = s.reservationTimeout := by
  unfold abandon
  split <;> exact ⟨rfl, rfl⟩

end IdempotencyStore

end Idempotency

end Knova
