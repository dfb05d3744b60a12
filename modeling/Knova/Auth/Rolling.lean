import Knova.Auth.Throttle
import Knova.Library.Machine
import Mathlib.Data.List.Count
import Mathlib.Data.List.Induction

/-!
# The failure limit over a rolling window

Login attempts made one after another, each checked and its outcome recorded before the next
one starts. A counter starts afresh when its window lapses, and what it forgets then may be
younger than a window; where it never does, no stretch of the length of a window lets through
more attempts than the limit.
-/

namespace Knova

open Library

/-- A login attempt, from its check to the record of its outcome. -/
structure SequentialAttempt where
  username : String
  address : Option IpAddr
  checkedAt : ℕ
  recordedAt : ℕ
  succeeds : Bool
  deriving DecidableEq

/-- What an attempt does to the throttle: nothing is recorded when its address is refused. -/
def LoginThrottle.attempt (t : LoginThrottle) (x : SequentialAttempt) : Verdict × LoginThrottle :=
  let (verdict, t) := t.check x.checkedAt x.username x.address
  match verdict with
  | .addressThrottled => (verdict, t)
  | _ => (verdict,
      if x.succeeds then t.recordSuccess x.username
      else t.recordFailure x.recordedAt x.username x.address)

/-- Attempts made one after another, each with the verdict it met. -/
structure Attempts where
  throttle : LoginThrottle
  now : ℕ
  past : List (SequentialAttempt × Verdict)

namespace Attempts

def start (accountLimit addressLimit window : ℕ) : Attempts :=
  ⟨.new accountLimit addressLimit window, 0, []⟩

def step (s : Attempts) (x : SequentialAttempt) : Option Attempts :=
  if s.now ≤ x.checkedAt ∧ x.checkedAt ≤ x.recordedAt then
    let (verdict, throttle) := s.throttle.attempt x
    some ⟨throttle, x.recordedAt, s.past ++ [(x, verdict)]⟩
  else none

abbrev machine : Machine where
  State := Attempts
  Event := SequentialAttempt
  step := step

/-- When the attempts of one kind that were allowed were checked. -/
def allowed (mine : SequentialAttempt → Bool) (s : Attempts) : List ℕ :=
  (s.past.filter fun p => mine p.1 && p.2 == .allowed).map fun p => p.1.checkedAt

def on (username : String) (x : SequentialAttempt) : Bool := x.username == username

def source (address : IpAddr) (x : SequentialAttempt) : Bool := x.address == some address

end Attempts

/-- Every stretch of the length of a window holds at most `limit` of the instants. -/
def RollingLimit (limit window : ℕ) (times : List ℕ) : Prop :=
  ∀ first, (times.filter fun t => first ≤ t && t < first + window).length ≤ limit

/-- The window of a counter has lapsed, and an attempt was allowed less than a window ago. -/
def Forgets (window now : ℕ) (failures : Option Failures) (allowed : List ℕ) : Prop :=
  failures.any (fun f => !f.live window now) ∧ ∃ c ∈ allowed, now < c + window

/-- A counter forgets no recent attempt when the next one is checked or recorded, and does
not overflow. -/
structure Keeps (window : ℕ) (failures : Option Failures) (allowed : List ℕ)
    (x : SequentialAttempt) : Prop where
  check : ¬Forgets window x.checkedAt failures allowed
  record : ¬Forgets window x.recordedAt failures allowed
  count : ∀ f ∈ failures, f.live window x.recordedAt → f.count + 1 < 2 ^ 32

instance (window now : ℕ) (failures : Option Failures) (allowed : List ℕ) :
    Decidable (Forgets window now failures allowed) :=
  inferInstanceAs (Decidable (_ ∧ _))

instance (window : ℕ) (failures : Option Failures) (allowed : List ℕ) (x : SequentialAttempt) :
    Decidable (Keeps window failures allowed x) :=
  decidable_of_iff (¬Forgets window x.checkedAt failures allowed ∧
      ¬Forgets window x.recordedAt failures allowed ∧
      ∀ f ∈ failures, f.live window x.recordedAt → f.count + 1 < 2 ^ 32)
    ⟨fun h => ⟨h.1, h.2.1, h.2.2⟩, fun h => ⟨h.check, h.record, h.count⟩⟩

/-! ### One counter -/

/-- How many attempts were allowed less than a window ago. -/
def young (window now : ℕ) (allowed : List ℕ) : ℕ := allowed.countP fun c => now < c + window

section Counter

variable {window now later limit c : ℕ} {failures : Option Failures} {allowed : List ℕ}
  {x : SequentialAttempt}

lemma young_of_le (hle : now ≤ later) : young window later allowed ≤ young window now allowed := by
  refine List.countP_mono_left fun t _ ht => ?_
  simp only [decide_eq_true_eq] at *
  omega

lemma young_concat_le : young window now (allowed ++ [c]) ≤ young window now allowed + 1 := by
  rw [young, List.countP_append]
  exact Nat.add_le_add_left List.countP_le_length _

lemma young_eq_zero (h : ¬Forgets window now failures allowed)
    (hlapsed : failures.any fun f => !f.live window now) : young window now allowed = 0 := by
  refine List.countP_eq_zero.mpr fun t ht hyoung => h ⟨hlapsed, t, ht, ?_⟩
  simpa using hyoung

/-- What a counter shows: nothing before the first failure. -/
def shown (failures : Option Failures) : ℕ := failures.elim 0 Failures.count

/-- An attempt that a counter does not stop leaves the attempts of the last window, itself
included, within the limit. -/
lemma young_lt_of_not_over (hcovers : young window now allowed ≤ shown failures)
    (hnow : now ≤ x.checkedAt) (hkeeps : Keeps window failures allowed x) (hlimit : 1 ≤ limit)
    (hover : ((failures.filter (Failures.live window x.checkedAt)).any
      fun f => limit ≤ f.count) = false) : young window x.checkedAt allowed < limit := by
  have hle := @young_of_le window now x.checkedAt allowed hnow
  cases failures with
  | none =>
    have hzero : young window now allowed ≤ 0 := hcovers
    omega
  | some f =>
    by_cases hlive : f.live window x.checkedAt = true
    · rw [Option.filter_some_pos hlive] at hover
      have hcount : f.count < limit := by simpa using hover
      have hshown : young window now allowed ≤ f.count := hcovers
      omega
    · have hzero := young_eq_zero hkeeps.check (by simpa using hlive)
      omega

/-- After an attempt is recorded the counter still covers the attempts of the last window. -/
lemma young_le_bumped (hcovers : young window now allowed ≤ shown failures)
    (hnow : now ≤ x.checkedAt) (hx : x.checkedAt ≤ x.recordedAt)
    (hkeeps : Keeps window failures allowed x) :
    young window x.recordedAt allowed + 1 ≤ (Failures.bumped window x.recordedAt
      (failures.filter (Failures.live window x.checkedAt))).count := by
  have hle := @young_of_le window now x.checkedAt allowed hnow
  have hle' := @young_of_le window x.checkedAt x.recordedAt allowed hx
  cases failures with
  | none =>
    have hzero : young window now allowed ≤ 0 := hcovers
    rw [Failures.bumped_of_lapsed (by rfl)]
    dsimp only
    omega
  | some f =>
    by_cases hlive : f.live window x.recordedAt = true
    · have hlive' : f.live window x.checkedAt = true := by
        rw [Failures.live_iff] at hlive ⊢
        omega
      have hcount := hkeeps.count f rfl hlive
      have hshown : young window now allowed ≤ f.count := hcovers
      rw [Option.filter_some_pos hlive',
        Failures.bumped_of_live (Option.filter_some_pos hlive), Nat.mod_eq_of_lt hcount]
      dsimp only
      omega
    · have hzero := young_eq_zero hkeeps.record (by simpa using hlive)
      have hlapsed : ((some f).filter (Failures.live window x.checkedAt)).filter
          (Failures.live window x.recordedAt) = none := by
        simp [Option.filter_filter, hlive]
      rw [Failures.bumped_of_lapsed hlapsed]
      dsimp only
      omega

/-- One more instant keeps the limit when the window that ends with it does. -/
lemma RollingLimit.concat (h : RollingLimit limit window allowed)
    (hyoung : young window c allowed < limit) : RollingLimit limit window (allowed ++ [c]) := by
  intro first
  rw [List.filter_append, List.length_append]
  by_cases hc : first ≤ c ∧ c < first + window
  · -- what else lies in the stretch was allowed less than a window before `c`
    have hwindow : (allowed.filter fun t => first ≤ t && t < first + window).length ≤
        young window c allowed := by
      rw [← List.countP_eq_length_filter]
      refine List.countP_mono_left fun t _ ht => ?_
      simp only [Bool.and_eq_true, decide_eq_true_eq] at *
      omega
    have hone : ([c].filter fun t => first ≤ t && t < first + window).length ≤ 1 :=
      List.length_filter_le _ _
    omega
  · have hnone : [c].filter (fun t => first ≤ t && t < first + window) = [] := by
      simpa using hc
    rw [hnone, List.length_nil, Nat.add_zero]
    exact h first

end Counter

/-! ### One attempt -/

namespace LoginThrottle

variable {t : LoginThrottle} {x : SequentialAttempt} {name : String} {a : IpAddr}

lemma attempt_fst : (t.attempt x).1 = (t.check x.checkedAt x.username x.address).1 := by
  unfold attempt
  dsimp only
  split <;> simp_all

/-- An attempt whose address is refused leaves the account's counters. -/
lemma attempt_of_addressOver (h : t.addressOver x.checkedAt x.address = true) :
    t.attempt x = t.check x.checkedAt x.username x.address := by
  have hverdict : (t.check x.checkedAt x.username x.address).1 = .addressThrottled := by
    rw [check_fst, if_pos h]
  unfold attempt
  dsimp only
  rw [hverdict]
  exact Prod.ext hverdict.symm rfl

lemma attempt_of_not_addressOver (h : t.addressOver x.checkedAt x.address = false) :
    (t.attempt x).2 = if x.succeeds then
        (t.check x.checkedAt x.username x.address).2.recordSuccess x.username
      else (t.check x.checkedAt x.username x.address).2.recordFailure x.recordedAt x.username
        x.address := by
  have hverdict : (t.check x.checkedAt x.username x.address).1 ≠ .addressThrottled := by
    rw [check_fst, if_neg (by simp [h])]
    split <;> simp
  unfold attempt
  dsimp only
  split
  · contradiction
  · rfl

lemma attempt_policy : (t.attempt x).2.accountLimit = t.accountLimit ∧
    (t.attempt x).2.addressLimit = t.addressLimit ∧ (t.attempt x).2.window = t.window := by
  cases h : t.addressOver x.checkedAt x.address with
  | true =>
    rw [attempt_of_addressOver h]
    exact check_policy
  | false =>
    rw [attempt_of_not_addressOver h]
    split
    · exact check_policy
    · obtain ⟨haccount, haddress, hwindow⟩ := @recordFailure_policy
        (t.check x.checkedAt x.username x.address).2 x.recordedAt x.username x.address
      obtain ⟨haccount', haddress', hwindow'⟩ := @check_policy t x.checkedAt x.username x.address
      exact ⟨haccount.trans haccount', haddress.trans haddress', hwindow.trans hwindow'⟩

/-- The counter of an account after an attempt that fails. -/
lemma lookup_attempt_byAccount (hfails : x.username = name → x.succeeds = false) :
    (t.attempt x).2.byAccount.lookup name =
      if t.addressOver x.checkedAt x.address = false ∧ name = x.username then
        some (Failures.bumped t.window x.recordedAt
          ((t.byAccount.lookup name).filter (Failures.live t.window x.checkedAt)))
      else t.byAccount.lookup name := by
  cases h : t.addressOver x.checkedAt x.address with
  | true =>
    rw [attempt_of_addressOver h, lookup_check_byAccount]
    simp [h]
  | false =>
    rw [attempt_of_not_addressOver h]
    by_cases hname : name = x.username
    · rw [if_neg (by simp [hfails hname.symm]), lookup_recordFailure_byAccount, if_pos hname,
        lookup_check_byAccount, if_pos ⟨h, hname⟩, if_pos ⟨rfl, hname⟩, check_policy.2.2]
    · have hnot : ¬(false = false ∧ name = x.username) := fun hc => hname hc.2
      rw [if_neg hnot]
      have hcheck : (t.check x.checkedAt x.username x.address).2.byAccount.lookup name =
          t.byAccount.lookup name := by
        rw [lookup_check_byAccount, if_neg fun hc => hname hc.2]
      split
      · rw [lookup_recordSuccess_byAccount, if_neg hname, hcheck]
      · rw [lookup_recordFailure_byAccount, if_neg hname, hcheck]

/-- The counter of an address after an attempt that fails. -/
lemma lookup_attempt_byAddress (hfails : x.address = some a → x.succeeds = false) :
    (t.attempt x).2.byAddress.lookup a =
      if x.address = some a then
        if t.addressOver x.checkedAt x.address then
          (t.byAddress.lookup a).filter (Failures.live t.window x.checkedAt)
        else some (Failures.bumped t.window x.recordedAt
          ((t.byAddress.lookup a).filter (Failures.live t.window x.checkedAt)))
      else t.byAddress.lookup a := by
  cases h : t.addressOver x.checkedAt x.address with
  | true => rw [attempt_of_addressOver h, lookup_check_byAddress, if_pos rfl]
  | false =>
    rw [attempt_of_not_addressOver h]
    by_cases hsource : x.address = some a
    · rw [if_neg (by simp [hfails hsource]), lookup_recordFailure_byAddress, if_pos hsource,
        lookup_check_byAddress, if_pos hsource, if_pos hsource, if_neg Bool.false_ne_true,
        check_policy.2.2]
    · rw [if_neg hsource]
      have hcheck : (t.check x.checkedAt x.username x.address).2.byAddress.lookup a =
          t.byAddress.lookup a := by
        rw [lookup_check_byAddress, if_neg hsource]
      split
      · exact hcheck
      · rw [lookup_recordFailure_byAddress, if_neg hsource, hcheck]

end LoginThrottle

namespace Attempts

lemma step_eq_some {s s' : Attempts} {x : SequentialAttempt} (h : s.step x = some s') :
    s.now ≤ x.checkedAt ∧ x.checkedAt ≤ x.recordedAt ∧
      s' = ⟨(s.throttle.attempt x).2, x.recordedAt,
        s.past ++ [(x, (s.throttle.attempt x).1)]⟩ := by
  unfold step at h
  split at h
  · rename_i htimes
    exact ⟨htimes.1, htimes.2, (Option.some.inj h).symm⟩
  · cases h

/-- In every attempt on an account that reaches its counter, the counter keeps what it should. -/
def AccountKept (username : String) (s : Attempts) (x : SequentialAttempt) : Prop :=
  x.username = username → s.throttle.addressOver x.checkedAt x.address = false →
    Keeps s.throttle.window (s.throttle.byAccount.lookup username) (s.allowed (on username)) x

/-- In every attempt from an address that is not refused, the counter keeps what it should. -/
def AddressKept (address : IpAddr) (s : Attempts) (x : SequentialAttempt) : Prop :=
  x.address = some address → s.throttle.addressOver x.checkedAt x.address = false →
    Keeps s.throttle.window (s.throttle.byAddress.lookup address) (s.allowed (source address)) x

instance (username : String) (s : Attempts) (x : SequentialAttempt) :
    Decidable (AccountKept username s x) :=
  inferInstanceAs (Decidable (_ → _ → _))

instance (address : IpAddr) (s : Attempts) (x : SequentialAttempt) :
    Decidable (AddressKept address s x) :=
  inferInstanceAs (Decidable (_ → _ → _))

/-- What holds of a counter between attempts. -/
structure Covered (limit window : ℕ) (mine : SequentialAttempt → Bool)
    (failures : Option Failures) (s : Attempts) : Prop where
  covers : young window s.now (s.allowed mine) ≤ shown failures
  rolling : RollingLimit limit window (s.allowed mine)

variable {mine : SequentialAttempt → Bool} {s s' : Attempts} {x : SequentialAttempt}
  {limit window : ℕ} {failures failures' : Option Failures}

lemma allowed_concat {throttle : LoginThrottle} {now : ℕ} {verdict : Verdict} :
    allowed mine ⟨throttle, now, s.past ++ [(x, verdict)]⟩ =
      s.allowed mine ++ if mine x && verdict == .allowed then [x.checkedAt] else [] := by
  simp only [allowed, List.filter_append, List.map_append]
  cases h : mine x && verdict == .allowed <;> simp [h]

/-- An attempt of another kind leaves a counter covered. -/
lemma Covered.frame (h : Covered limit window mine failures s) {throttle : LoginThrottle}
    {now : ℕ} {verdict : Verdict} (hnow : s.now ≤ now)
    (hmine : (mine x && verdict == .allowed) = false) :
    Covered limit window mine failures ⟨throttle, now, s.past ++ [(x, verdict)]⟩ := by
  constructor
  · rw [allowed_concat, hmine, if_neg Bool.false_ne_true, List.append_nil]
    exact Nat.le_trans (young_of_le hnow) h.covers
  · rw [allowed_concat, hmine, if_neg Bool.false_ne_true, List.append_nil]
    exact h.rolling

/-- An attempt that fails and is recorded leaves its counter covered. -/
lemma Covered.record (h : Covered limit window mine failures s) {throttle : LoginThrottle}
    {verdict : Verdict} (hnow : s.now ≤ x.checkedAt) (hx : x.checkedAt ≤ x.recordedAt)
    (hlimit : 1 ≤ limit) (hkeeps : Keeps window failures (s.allowed mine) x)
    (hover : verdict = .allowed → ((failures.filter (Failures.live window x.checkedAt)).any
      fun f => limit ≤ f.count) = false) :
    Covered limit window mine (some (Failures.bumped window x.recordedAt
      (failures.filter (Failures.live window x.checkedAt))))
      ⟨throttle, x.recordedAt, s.past ++ [(x, verdict)]⟩ := by
  have hbumped := young_le_bumped h.covers hnow hx hkeeps
  by_cases hmine : (mine x && verdict == .allowed) = true
  · have hallowed : verdict = .allowed := by
      simpa using (Bool.and_eq_true_iff.mp hmine).2
    have hlt := young_lt_of_not_over h.covers hnow hkeeps hlimit (hover hallowed)
    constructor
    · rw [allowed_concat, if_pos hmine]
      exact Nat.le_trans young_concat_le hbumped
    · rw [allowed_concat, if_pos hmine]
      exact h.rolling.concat hlt
  · rw [Bool.not_eq_true] at hmine
    constructor
    · rw [allowed_concat, hmine, if_neg Bool.false_ne_true, List.append_nil]
      exact Nat.le_trans (Nat.le_succ _) hbumped
    · rw [allowed_concat, hmine, if_neg Bool.false_ne_true, List.append_nil]
      exact h.rolling

/-- The policy of the throttle, and what holds of the counter of one account. -/
structure AccountInv (accountLimit window : ℕ) (username : String) (s : Attempts) : Prop where
  accountLimit_eq : s.throttle.accountLimit = accountLimit
  window_eq : s.throttle.window = window
  covered : Covered accountLimit window (on username) (s.throttle.byAccount.lookup username) s

structure AddressInv (addressLimit window : ℕ) (address : IpAddr) (s : Attempts) : Prop where
  addressLimit_eq : s.throttle.addressLimit = addressLimit
  window_eq : s.throttle.window = window
  covered : Covered addressLimit window (source address) (s.throttle.byAddress.lookup address) s

lemma AccountInv.step {accountLimit : ℕ} {username : String} (hlimit : 1 ≤ accountLimit)
    (h : AccountInv accountLimit window username s) (hkept : AccountKept username s x)
    (hfails : x.username = username → x.succeeds = false) (hs : s.step x = some s') :
    AccountInv accountLimit window username s' := by
  obtain ⟨hnow, hx, rfl⟩ := step_eq_some hs
  obtain ⟨haccount, -, hwindow⟩ := @LoginThrottle.attempt_policy s.throttle x
  refine ⟨haccount.trans h.accountLimit_eq, hwindow.trans h.window_eq, ?_⟩
  dsimp only
  rw [LoginThrottle.lookup_attempt_byAccount hfails]
  split
  · rename_i hreached
    obtain ⟨haddress, rfl⟩ := hreached
    have hkeeps := hkept rfl haddress
    rw [h.window_eq] at hkeeps ⊢
    refine h.covered.record hnow hx hlimit hkeeps fun hallowed => ?_
    rw [LoginThrottle.attempt_fst, LoginThrottle.check_fst, haddress,
      if_neg Bool.false_ne_true] at hallowed
    have hover : s.throttle.accountOver x.checkedAt x.username = false := by
      split at hallowed
      · cases hallowed
      · simp_all
    rwa [LoginThrottle.accountOver, over_eq, h.window_eq, h.accountLimit_eq] at hover
  · rename_i hreached
    refine h.covered.frame (Nat.le_trans hnow hx) ?_
    by_cases hu : username = x.username
    · have haddress : s.throttle.addressOver x.checkedAt x.address = true := by
        simpa [hu] using hreached
      rw [LoginThrottle.attempt_fst, LoginThrottle.check_fst, if_pos haddress]
      simp
    · simp [on, Ne.symm hu]

lemma AddressInv.step {addressLimit : ℕ} {address : IpAddr} (hlimit : 1 ≤ addressLimit)
    (h : AddressInv addressLimit window address s) (hkept : AddressKept address s x)
    (hfails : x.address = some address → x.succeeds = false) (hs : s.step x = some s') :
    AddressInv addressLimit window address s' := by
  obtain ⟨hnow, hx, rfl⟩ := step_eq_some hs
  obtain ⟨-, haddress, hwindow⟩ := @LoginThrottle.attempt_policy s.throttle x
  refine ⟨haddress.trans h.addressLimit_eq, hwindow.trans h.window_eq, ?_⟩
  dsimp only
  rw [LoginThrottle.lookup_attempt_byAddress hfails]
  by_cases hsource : x.address = some address
  · rw [if_pos hsource]
    cases hover : s.throttle.addressOver x.checkedAt x.address with
    | true =>
      -- the window is open, or the address would not be refused
      rw [if_pos rfl, LoginThrottle.attempt_fst, LoginThrottle.check_fst, if_pos hover]
      rw [LoginThrottle.addressOver, hsource, Option.any_some, over_eq] at hover
      have hlive : (s.throttle.byAddress.lookup address).filter
          (Failures.live s.throttle.window x.checkedAt) = s.throttle.byAddress.lookup address := by
        cases hf : s.throttle.byAddress.lookup address with
        | none => rfl
        | some f =>
          rw [hf, Option.filter_some] at hover
          split at hover
          · rename_i hlive
            exact Option.filter_some_pos hlive
          · cases hover
      rw [hlive]
      exact h.covered.frame (Nat.le_trans hnow hx) (by simp)
    | false =>
      rw [if_neg Bool.false_ne_true]
      have hkeeps := hkept hsource hover
      rw [h.window_eq] at hkeeps ⊢
      refine h.covered.record hnow hx hlimit hkeeps fun _ => ?_
      rwa [LoginThrottle.addressOver, hsource, Option.any_some, over_eq, h.window_eq,
        h.addressLimit_eq] at hover
  · rw [if_neg hsource]
    exact h.covered.frame (Nat.le_trans hnow hx) (by simp [source, hsource])

/-- In every run of attempts made one after another: if none on an account succeeds and its
counter forgets no recent attempt, no stretch of the length of a window lets through more of
them than the account limit; and the same for an address and the address limit. -/
theorem rolling_limit (accountLimit addressLimit window : ℕ) (es : List SequentialAttempt)
    (s : Attempts) (hrun : machine.run (start accountLimit addressLimit window) es = some s) :
    (∀ username, 1 ≤ accountLimit → (∀ x ∈ es, x.username = username → x.succeeds = false) →
      machine.EveryStep (AccountKept username) (start accountLimit addressLimit window) es →
      RollingLimit accountLimit window (s.allowed (on username))) ∧
    ∀ address, 1 ≤ addressLimit → (∀ x ∈ es, x.address = some address → x.succeeds = false) →
      machine.EveryStep (AddressKept address) (start accountLimit addressLimit window) es →
      RollingLimit addressLimit window (s.allowed (source address)) := by
  constructor
  · intro username hlimit hfails hkept
    have hinv := Machine.run_invariant_of_everyStep (AccountInv accountLimit window username)
      (fun s x s' h hP hs => h.step hlimit hP.1 hP.2 hs) ⟨rfl, rfl, by
        exact ⟨Nat.le_refl 0, fun _ => Nat.zero_le _⟩⟩
      (hkept.and (Machine.everyStep_of_mem hfails)) hrun
    exact hinv.covered.rolling
  · intro address hlimit hfails hkept
    have hinv := Machine.run_invariant_of_everyStep (AddressInv addressLimit window address)
      (fun s x s' h hP hs => h.step hlimit hP.1 hP.2 hs) ⟨rfl, rfl, by
        exact ⟨Nat.le_refl 0, fun _ => Nat.zero_le _⟩⟩
      (hkept.and (Machine.everyStep_of_mem hfails)) hrun
    exact hinv.covered.rolling

/-- Failed attempts on `alice` from one address, each recorded a second after its check. -/
def failed (seconds : List ℕ) : List SequentialAttempt :=
  seconds.map fun t => ⟨"alice", some (.v4 7), t * 10 ^ 9, (t + 1) * 10 ^ 9, false⟩

/-- Six attempts within a window, the last one throttled, under the default policy. -/
theorem rolling_limit_six : ∃ s,
    machine.run (start 5 20 (300 * 10 ^ 9)) (failed [0, 10, 20, 30, 40, 50]) = some s ∧
    (s.allowed (on "alice")).length = 5 ∧
    RollingLimit 5 (300 * 10 ^ 9) (s.allowed (on "alice")) ∧
    RollingLimit 20 (300 * 10 ^ 9) (s.allowed (source (.v4 7))) := by
  have hlimit := rolling_limit 5 20 (300 * 10 ^ 9) (failed [0, 10, 20, 30, 40, 50]) _ rfl
  exact ⟨_, rfl, rfl, hlimit.1 "alice" (by decide) (by simp [failed]) (by decide),
    hlimit.2 (.v4 7) (by decide) (by simp [failed]) (by decide)⟩

/-- Under the default policy nine attempts within a window are let through: the window of the
first failure lapses while four later ones are seconds old. -/
theorem rolling_limit_fails : ∃ s,
    machine.run (start 5 20 (300 * 10 ^ 9))
      (failed [0, 296, 297, 298, 299, 301, 302, 303, 304, 305]) = some s ∧
    ¬RollingLimit 5 (300 * 10 ^ 9) (s.allowed (on "alice")) := by
  refine ⟨_, rfl, fun h => ?_⟩
  have := h (296 * 10 ^ 9)
  revert this
  decide

end Attempts

end Knova
