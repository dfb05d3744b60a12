import Knova.Library.HashMap

/-!
# Login throttling

Failures are counted for each account and for each source address within a window. Instants
and windows are nanoseconds; a count is a `u32`.
-/

namespace Knova

open Library

inductive IpAddr
  | v4 (bits : BitVec 32)
  | v6 (bits : BitVec 128)
  deriving DecidableEq

/-- What the throttle permits for one attempt. -/
inductive Verdict
  | allowed
  | addressThrottled
  | accountThrottled
  deriving DecidableEq

/-- Failure counting for one key within a rolling window. -/
structure Failures where
  count : ℕ
  windowStarted : ℕ
  deriving DecidableEq

section Counters

variable {K : Type} [DecidableEq K]

/-- Whether `key` is over `limit` within the current window, expiring a stale one. -/
def «over» (now : ℕ) (counters : HashMap K Failures) (key : K) (limit window : ℕ) :
    Bool × HashMap K Failures :=
  match counters.lookup key with
  | some failures =>
    if now - failures.windowStarted < window then (decide (failures.count ≥ limit), counters)
    else (false, counters.erase key)
  | none => (false, counters)

/-- Adds one failure to `key`, starting a fresh window if the last has lapsed. -/
def bump (now : ℕ) (counters : HashMap K Failures) (key : K) (window : ℕ) :
    HashMap K Failures :=
  let entry := (counters.lookup key).getD ⟨0, now⟩
  let entry := if now - entry.windowStarted ≥ window then ⟨0, now⟩ else entry
  counters.insert key { entry with count := (entry.count + 1) % 2 ^ 32 }

/-! ### What `over` and `bump` do to one counter -/

/-- Whether the window of a counter has not lapsed. -/
def Failures.live (window now : ℕ) (failures : Failures) : Bool :=
  now - failures.windowStarted < window

variable {now limit window : ℕ} {counters : HashMap K Failures} {key key' : K}

lemma over_eq : («over» now counters key limit window).1 =
    ((counters.lookup key).filter (Failures.live window now)).any fun f => limit ≤ f.count := by
  unfold «over»
  cases counters.lookup key with
  | none => rfl
  | some f =>
    by_cases h : now - f.windowStarted < window
    · simp [h, Failures.live]
    · simp [h, Failures.live]

lemma Failures.live_iff {f : Failures} :
    f.live window now = true ↔ now - f.windowStarted < window := by
  simp [Failures.live]

lemma lookup_over : («over» now counters key limit window).2.lookup key' =
    if key' = key then (counters.lookup key).filter (Failures.live window now)
    else counters.lookup key' := by
  unfold «over»
  split
  · rename_i f hf
    by_cases h : now - f.windowStarted < window
    · rw [if_pos h, hf, Option.filter_some_pos (Failures.live_iff.mpr h)]
      split
      · rename_i heq
        rw [heq, hf]
      · rfl
    · have hlapsed : f.live window now = false := by simpa [Failures.live] using h
      rw [if_neg h, hf, Option.filter_some_neg hlapsed]
      split
      · rename_i heq
        rw [heq, AList.lookup_erase]
      · rename_i hne
        exact AList.lookup_erase_ne hne
  · rename_i hf
    split
    · rename_i heq
      rw [heq, hf]
      rfl
    · rfl

/-- The counter under a key after a failure is recorded. -/
def Failures.bumped (window now : ℕ) (failures : Option Failures) : Failures :=
  match failures.filter (Failures.live window now) with
  | some f => ⟨(f.count + 1) % 2 ^ 32, f.windowStarted⟩
  | none => ⟨1, now⟩

lemma Failures.bumped_of_live {failures : Option Failures} {f : Failures}
    (h : failures.filter (Failures.live window now) = some f) :
    Failures.bumped window now failures = ⟨(f.count + 1) % 2 ^ 32, f.windowStarted⟩ := by
  simp only [Failures.bumped, h]

lemma Failures.bumped_of_lapsed {failures : Option Failures}
    (h : failures.filter (Failures.live window now) = none) :
    Failures.bumped window now failures = ⟨1, now⟩ := by
  simp only [Failures.bumped, h]

lemma lookup_bump : (bump now counters key window).lookup key' =
    if key' = key then some (Failures.bumped window now (counters.lookup key))
    else counters.lookup key' := by
  unfold bump
  split
  · rename_i heq
    rw [heq, AList.lookup_insert, Option.some.injEq]
    cases hf : counters.lookup key with
    | none => simp [Failures.bumped_of_lapsed]
    | some f =>
      by_cases h : now - f.windowStarted < window
      · rw [Failures.bumped_of_live (Option.filter_some_pos (by simpa [Failures.live] using h))]
        simp [Nat.not_le.mpr h]
      · rw [Failures.bumped_of_lapsed (Option.filter_some_neg (by simpa [Failures.live] using h))]
        simp [Nat.not_lt.mp h]
  · rename_i hne
    exact AList.lookup_insert_ne hne

end Counters

/-- Counts recent login failures per account and per source address. -/
structure LoginThrottle where
  byAccount : HashMap String Failures
  byAddress : HashMap IpAddr Failures
  accountLimit : ℕ
  addressLimit : ℕ
  window : ℕ

namespace LoginThrottle

def defaultAccountLimit : ℕ := 5

def defaultAddressLimit : ℕ := 20

def defaultWindow : ℕ := 300 * 10 ^ 9

def new (accountLimit addressLimit window : ℕ) : LoginThrottle :=
  ⟨∅, ∅, accountLimit, addressLimit, window⟩

def default : LoginThrottle := new defaultAccountLimit defaultAddressLimit defaultWindow

/-! The methods take their locks one at a time; each of these is what is done under one. -/

def overAddress (t : LoginThrottle) (now : ℕ) (address : IpAddr) : Bool × LoginThrottle :=
  let (throttled, byAddress) := «over» now t.byAddress address t.addressLimit t.window
  (throttled, { t with byAddress })

def overAccount (t : LoginThrottle) (now : ℕ) (username : String) : Bool × LoginThrottle :=
  let (throttled, byAccount) := «over» now t.byAccount username t.accountLimit t.window
  (throttled, { t with byAccount })

def bumpAccount (t : LoginThrottle) (now : ℕ) (username : String) : LoginThrottle :=
  { t with byAccount := bump now t.byAccount username t.window }

def bumpAddress (t : LoginThrottle) (now : ℕ) (address : IpAddr) : LoginThrottle :=
  { t with byAddress := bump now t.byAddress address t.window }

/-- Checks both limits for an attempt, the address limit first. -/
def check (t : LoginThrottle) (now : ℕ) (username : String) (address : Option IpAddr) :
    Verdict × LoginThrottle :=
  let (throttled, t) :=
    match address with
    | some address => t.overAddress now address
    | none => (false, t)
  if throttled then (.addressThrottled, t)
  else
    let (throttled, t) := t.overAccount now username
    (if throttled then .accountThrottled else .allowed, t)

/-- Records a failed attempt against both keys. -/
def recordFailure (t : LoginThrottle) (now : ℕ) (username : String) (address : Option IpAddr) :
    LoginThrottle :=
  let t := t.bumpAccount now username
  match address with
  | some address => t.bumpAddress now address
  | none => t

/-- Clears the account's counter after a successful login. -/
def recordSuccess (t : LoginThrottle) (username : String) : LoginThrottle :=
  { t with byAccount := t.byAccount.erase username }

/-! ### What each call does to the two maps -/

variable {t : LoginThrottle} {now : ℕ} {username name : String} {address : Option IpAddr}
  {source : IpAddr}

/-- Whether the address an attempt comes from is over its limit. -/
def addressOver (t : LoginThrottle) (now : ℕ) (address : Option IpAddr) : Bool :=
  address.any fun a => («over» now t.byAddress a t.addressLimit t.window).1

/-- Whether an account is over its limit. -/
def accountOver (t : LoginThrottle) (now : ℕ) (username : String) : Bool :=
  («over» now t.byAccount username t.accountLimit t.window).1

/-- The address counters after an attempt from `address` was checked. -/
def addressesChecked (t : LoginThrottle) (now : ℕ) : Option IpAddr → HashMap IpAddr Failures
  | some a => («over» now t.byAddress a t.addressLimit t.window).2
  | none => t.byAddress

lemma check_of_addressOver (h : t.addressOver now address = true) :
    t.check now username address =
      (.addressThrottled, { t with byAddress := t.addressesChecked now address }) := by
  cases address with
  | none => cases h
  | some a =>
    simp only [addressOver, Option.any_some] at h
    simp [check, overAddress, addressesChecked, h]

lemma check_of_not_addressOver (h : t.addressOver now address = false) :
    t.check now username address =
      (if t.accountOver now username then .accountThrottled else .allowed, { t with
        byAccount := («over» now t.byAccount username t.accountLimit t.window).2
        byAddress := t.addressesChecked now address }) := by
  cases address with
  | none => rfl
  | some a =>
    simp only [addressOver, Option.any_some] at h
    simp [check, overAddress, overAccount, addressesChecked, accountOver, h]
    rfl

lemma check_fst : (t.check now username address).1 =
    if t.addressOver now address then .addressThrottled
    else if t.accountOver now username then .accountThrottled else .allowed := by
  cases h : t.addressOver now address with
  | true => rw [check_of_addressOver h, if_pos rfl]
  | false => rw [check_of_not_addressOver h, if_neg Bool.false_ne_true]

lemma lookup_check_byAddress : (t.check now username address).2.byAddress.lookup source =
    if address = some source then
      (t.byAddress.lookup source).filter (Failures.live t.window now)
    else t.byAddress.lookup source := by
  have hchecked : (t.check now username address).2.byAddress =
      t.addressesChecked now address := by
    cases h : t.addressOver now address with
    | true => rw [check_of_addressOver h]
    | false => rw [check_of_not_addressOver h]
  rw [hchecked]
  cases address with
  | none => rfl
  | some a =>
    rw [addressesChecked, lookup_over]
    by_cases h : source = a
    · rw [if_pos h, if_pos (congrArg some h.symm), h]
    · rw [if_neg h, if_neg fun ha => h (Option.some.inj ha).symm]

lemma lookup_check_byAccount : (t.check now username address).2.byAccount.lookup name =
    if t.addressOver now address = false ∧ name = username then
      (t.byAccount.lookup name).filter (Failures.live t.window now)
    else t.byAccount.lookup name := by
  cases h : t.addressOver now address with
  | true =>
    rw [check_of_addressOver h]
    simp
  | false =>
    rw [check_of_not_addressOver h, lookup_over]
    by_cases hname : name = username
    · subst hname
      simp
    · simp [hname]

lemma lookup_recordFailure_byAccount :
    (t.recordFailure now username address).byAccount.lookup name =
      if name = username then some (Failures.bumped t.window now (t.byAccount.lookup name))
      else t.byAccount.lookup name := by
  have hbump : (t.recordFailure now username address).byAccount =
      bump now t.byAccount username t.window := by
    cases address <;> rfl
  rw [hbump, lookup_bump]
  by_cases h : name = username
  · rw [if_pos h, if_pos h, h]
  · rw [if_neg h, if_neg h]

lemma lookup_recordFailure_byAddress :
    (t.recordFailure now username address).byAddress.lookup source =
      if address = some source then
        some (Failures.bumped t.window now (t.byAddress.lookup source))
      else t.byAddress.lookup source := by
  cases address with
  | none => rfl
  | some a =>
    change (bump now t.byAddress a t.window).lookup source = _
    rw [lookup_bump]
    by_cases h : source = a
    · rw [if_pos h, if_pos (congrArg some h.symm), h]
    · rw [if_neg h, if_neg fun ha => h (Option.some.inj ha).symm]

lemma lookup_recordSuccess_byAccount : (t.recordSuccess username).byAccount.lookup name =
    if name = username then none else t.byAccount.lookup name := by
  simp only [recordSuccess]
  split
  · rename_i heq
    rw [heq, AList.lookup_erase]
  · rename_i hne
    exact AList.lookup_erase_ne hne

/-- No call changes the policy. -/
lemma check_policy : (t.check now username address).2.accountLimit = t.accountLimit ∧
    (t.check now username address).2.addressLimit = t.addressLimit ∧
    (t.check now username address).2.window = t.window := by
  cases h : t.addressOver now address with
  | true => rw [check_of_addressOver h]; exact ⟨rfl, rfl, rfl⟩
  | false => rw [check_of_not_addressOver h]; exact ⟨rfl, rfl, rfl⟩

lemma recordFailure_policy :
    (t.recordFailure now username address).accountLimit = t.accountLimit ∧
    (t.recordFailure now username address).addressLimit = t.addressLimit ∧
    (t.recordFailure now username address).window = t.window := by
  cases address <;> exact ⟨rfl, rfl, rfl⟩

end LoginThrottle

end Knova
