import Knova.Auth.ThrottleTrace

/-!
# How long an account stays throttled

A failure counter is a `u32` that keeps counting while its key is throttled. A lockout lasts to
the end of its window exactly while the failures recorded in the window do not pass a multiple
of `2 ^ 32`: there the counter starts again from zero and the account is let through.
-/

namespace Knova

open Library

namespace ThrottleTrace

def isFailure (username : String) : ℕ × ThrottleCall → Bool
  | (_, .recordFailure name _) => name == username
  | _ => false

/-- How many failures were recorded against an account. -/
def failures (username : String) (trace : ThrottleTrace) : ℕ := trace.countP (isFailure username)

variable {trace more : ThrottleTrace} {username : String}

/-- Failures are recorded one at a time. -/
lemma exists_prefix_failures {n : ℕ} (h : n ≤ failures username more) :
    ∃ done, done <+: more ∧ failures username done = n := by
  induction more using List.reverseRecOn with
  | nil => exact ⟨[], List.prefix_refl _, (Nat.le_zero.mp h).symm⟩
  | append_singleton more call ih =>
    by_cases hle : n ≤ failures username more
    · obtain ⟨done, hdone, hn⟩ := ih hle
      exact ⟨done, hdone.trans (List.prefix_append _ _), hn⟩
    · refine ⟨more ++ [call], List.prefix_refl _, ?_⟩
      have hone : failures username (more ++ [call]) ≤ failures username more + 1 := by
        rw [failures, List.countP_append]
        exact Nat.add_le_add_left List.countP_le_length _
      omega

lemma failures_le_of_prefix {done : ThrottleTrace} (h : done <+: more) :
    failures username done ≤ failures username more := h.sublist.countP_le

/-- Without a success, an account's marks are its failures. -/
lemma length_accountMarks (h : ∀ call ∈ more, call.2 ≠ .recordSuccess username) :
    (accountMarks username more).length = failures username more := by
  rw [accountMarks, List.length_filterMap_eq_countP, failures]
  refine List.countP_congr fun call hcall => ?_
  obtain ⟨instant, call⟩ := call
  cases call with
  | check name source => simp [accountMark, isFailure]
  | recordFailure name source => simp [accountMark, isFailure]
  | recordSuccess name =>
    have hne : name ≠ username := fun heq => h _ hcall (congrArg _ heq)
    simp [accountMark, isFailure, hne]

/-- The calls of a window that is open, without a success. -/
def Within (username : String) (start ends : ℕ) (more : ThrottleTrace) : Prop :=
  ∀ call ∈ more, start ≤ call.1 ∧ call.1 < ends ∧ call.2 ≠ .recordSuccess username

end ThrottleTrace

namespace LoginThrottle

open ThrottleTrace

/-- At every point of `more`, whatever the address, as long as it is not throttled itself, a
check before `ends` finds the account throttled. -/
def StaysThrottled (accountLimit addressLimit window : ℕ) (trace more : ThrottleTrace)
    (ends : ℕ) (username : String) : Prop :=
  ∀ done, done <+: more → ∀ later source, Until (trace ++ done) later → later < ends →
    ((new accountLimit addressLimit window).replay (trace ++ done)).addressOver later source =
      false →
    answer accountLimit addressLimit window (trace ++ done) later username source =
      .accountThrottled

variable {accountLimit addressLimit window now later : ℕ} {trace more : ThrottleTrace}
  {username : String} {source : Option IpAddr} {w : Window}

lemma answer_eq_accountThrottled_iff
    (h : ((new accountLimit addressLimit window).replay trace).addressOver now source = false) :
    answer accountLimit addressLimit window trace now username source = .accountThrottled ↔
      ((new accountLimit addressLimit window).replay trace).accountOver now username = true := by
  rw [answer, check_fst, if_neg (by rw [h]; exact Bool.false_ne_true)]
  split <;> simp [*]

lemma account_agrees (hordered : Ordered trace) (huntil : Until trace now) : Agrees window now
    (((new accountLimit addressLimit window).replay trace).byAccount.lookup username)
    (Window.last window (accountMarks username trace)) := by
  have hwindow : ((new accountLimit addressLimit window).replay trace).window = window :=
    replay_policy.2.2
  have hagrees := (tracks_replay accountLimit addressLimit window hordered huntil).account username
  rwa [hwindow] at hagrees

lemma accountOver_eq_any :
    ((new accountLimit addressLimit window).replay trace).accountOver now username =
      ((((new accountLimit addressLimit window).replay trace).byAccount.lookup username).filter
        (Failures.live window now)).any fun f => accountLimit ≤ f.count := by
  have hpolicy := @replay_policy (new accountLimit addressLimit window) trace
  rw [accountOver, over_eq, hpolicy.1, hpolicy.2.2]
  rfl

/-- A throttled account has a window that is open. -/
lemma exists_window (hordered : Ordered trace) (huntil : Until trace now)
    (hover : ((new accountLimit addressLimit window).replay trace).accountOver now username =
      true) :
    ∃ w, Window.last window (accountMarks username trace) = some w ∧ 0 < window ∧
      now < w.opened + window := by
  have hagrees :=
    @account_agrees accountLimit addressLimit window now trace username hordered huntil
  rw [accountOver_eq_any, hagrees] at hover
  cases hw : (Window.last window (accountMarks username trace)).filter
      (Window.isOpen window now) with
  | none =>
    rw [hw] at hover
    cases hover
  | some w =>
    obtain ⟨hlast, hopen⟩ := Option.filter_eq_some_iff.mp hw
    simp only [Window.isOpen, decide_eq_true_eq] at hopen
    exact ⟨w, hlast, by omega, by omega⟩

/-- While a window is open, its counter is the number of failures in it, as a `u32`. -/
lemma accountOver_append (hordered : Ordered (trace ++ more)) (huntil : Until (trace ++ more) later)
    (hw : Window.last window (accountMarks username trace) = some w)
    (hmore : ∀ call ∈ more, call.1 < w.opened + window ∧ call.2 ≠ .recordSuccess username)
    (hlater : later < w.opened + window) (hwindow : 0 < window) :
    ((new accountLimit addressLimit window).replay (trace ++ more)).accountOver later username =
      decide (accountLimit ≤ (w.hits + failures username more) % 2 ^ 32) := by
  have hhits : ∀ m ∈ accountMarks username more, ∃ time, m = .hit time ∧ w.isOpen window time := by
    intro m hm
    obtain ⟨time, rfl, htime⟩ := exists_hit_of_accountMarks hmore m hm
    refine ⟨time, rfl, ?_⟩
    simp only [Window.isOpen, decide_eq_true_eq]
    omega
  have hlast := Window.last_append_hits hw hhits
  rw [← accountMarks_append, length_accountMarks fun call hcall => (hmore call hcall).2] at hlast
  have hopen : Window.isOpen window later
      ⟨w.opened, w.hits + failures username more⟩ = true := by
    simp only [Window.isOpen, decide_eq_true_eq]
    omega
  have hagrees :=
    @account_agrees accountLimit addressLimit window later (trace ++ more) username hordered huntil
  rw [Agrees, hlast, Option.filter_some_pos hopen] at hagrees
  rw [accountOver_eq_any, hagrees]
  rfl

/-- A throttled account stays throttled to the end of its window exactly where the failures in
the window do not pass a multiple of `2 ^ 32` meanwhile. -/
theorem stays_throttled_iff (accountLimit addressLimit window : ℕ) (hlimit : 1 ≤ accountLimit)
    (trace : ThrottleTrace) (hordered : Ordered trace) (now : ℕ) (huntil : Until trace now)
    (username : String) (address : Option IpAddr)
    (hthrottled : answer accountLimit addressLimit window trace now username address =
      .accountThrottled) :
    ∃ w, Window.last window (accountMarks username trace) = some w ∧
      now < w.opened + window ∧ ∀ more, Ordered (trace ++ more) →
      Within username now (w.opened + window) more →
      (StaysThrottled accountLimit addressLimit window trace more (w.opened + window) username ↔
        (w.hits + failures username more) / 2 ^ 32 = w.hits / 2 ^ 32) := by
  have hover := accountOver_of_answer hthrottled
  obtain ⟨w, hw, hwindow, hnow⟩ := exists_window hordered huntil hover
  refine ⟨w, hw, hnow, fun more hmore hwithin => ?_⟩
  have hcount : accountLimit ≤ w.hits % 2 ^ 32 := by
    have hnone := @accountOver_append accountLimit addressLimit window now trace [] username w
      (by simpa using hordered) (by simpa using huntil) hw (by simp) hnow hwindow
    rw [List.append_nil, hover] at hnone
    exact of_decide_eq_true hnone.symm
  have hchecked : ∀ done, done <+: more → ∀ later source, Until (trace ++ done) later →
      later < w.opened + window →
      ((new accountLimit addressLimit window).replay (trace ++ done)).addressOver later source =
        false →
      (answer accountLimit addressLimit window (trace ++ done) later username source =
        .accountThrottled ↔ accountLimit ≤ (w.hits + failures username done) % 2 ^ 32) := by
    intro done hdone later source hlate hlater hsource
    have hordered' : Ordered (trace ++ done) := by
      refine List.Pairwise.sublist ?_ hmore
      exact ((List.append_sublist_append_left trace).mpr hdone.sublist).map _
    rw [answer_eq_accountThrottled_iff hsource, accountOver_append hordered' hlate hw
      (fun call hcall => (hwithin call (hdone.subset hcall)).2) hlater hwindow,
      decide_eq_true_eq]
  constructor
  · intro hstays
    by_contra hcross
    -- the failure that brings the counter back to zero
    obtain ⟨done, hdone, hzero⟩ : ∃ done, done <+: more ∧
        failures username done = 2 ^ 32 - w.hits % 2 ^ 32 :=
      exists_prefix_failures (by omega)
    have huntil' : Until (trace ++ done) (w.opened + window - 1) := by
      intro call hcall
      rcases List.mem_append.mp hcall with hcall | hcall
      · have := huntil call hcall
        omega
      · have := (hwithin call (hdone.subset hcall)).2.1
        omega
    have hend : w.opened + window - 1 < w.opened + window := by omega
    have hover' := (hchecked done hdone _ none huntil' hend rfl).mp
      (hstays done hdone _ none huntil' hend rfl)
    omega
  · intro hsame done hdone later source hlate hlater hsource
    have hle : failures username done ≤ failures username more := failures_le_of_prefix hdone
    exact (hchecked done hdone later source hlate hlater hsource).mpr (by omega)

/-- Two failures meet a limit of two, and a third leaves the account throttled. -/
theorem stays_throttled_two : StaysThrottled 2 20 60
    [(0, .recordFailure "alice" none), (9, .recordFailure "alice" none)]
    [(20, .recordFailure "alice" none)] 60 "alice" := by
  obtain ⟨w, hw, -, hstays⟩ := stays_throttled_iff 2 20 60 (by decide)
    [(0, .recordFailure "alice" none), (9, .recordFailure "alice" none)] (by simp [Ordered]) 10
    (by simp [Until]) "alice" none (by decide)
  obtain rfl : w = ⟨0, 2⟩ := (Option.some.inj hw).symm
  exact (hstays [(20, .recordFailure "alice" none)] (by simp [Ordered])
    (by simp [Within])).mpr (by decide)

/-! ### A window of a hundred days -/

/-- A failure every millisecond. -/
def hammer (n : ℕ) : ThrottleTrace :=
  (List.range n).map fun i => (i * 1000000, .recordFailure "alice" none)

lemma hammer_ordered (n : ℕ) : Ordered (hammer n) := by
  rw [Ordered, hammer, List.map_map, List.pairwise_map]
  exact List.pairwise_lt_range.imp fun h => Nat.mul_le_mul_right _ (Nat.le_of_lt h)

lemma accountMarks_hammer (n : ℕ) :
    accountMarks "alice" (hammer n) = (List.range n).map fun i => .hit (i * 1000000) := by
  rw [accountMarks, hammer, List.filterMap_map, ← List.filterMap_eq_map]
  rfl

lemma last_hammer {n : ℕ} (hn : n * 1000000 < window) :
    Window.last window (accountMarks "alice" (hammer (n + 1))) = some ⟨0, n + 1⟩ := by
  have hfirst : Window.last window [.hit 0] = some ⟨0, 1⟩ := rfl
  rw [accountMarks_hammer, List.range_succ_eq_map, List.map_cons, List.map_map, Nat.zero_mul,
    ← List.singleton_append, Window.last_append_hits hfirst]
  · simp [Nat.add_comm]
  · intro m hm
    obtain ⟨i, hi, rfl⟩ := List.mem_map.mp hm
    have htime : (i + 1) * 1000000 < window :=
      Nat.lt_of_le_of_lt (Nat.mul_le_mul_right _ (List.mem_range.mp hi)) hn
    refine ⟨(i + 1) * 1000000, by simp, by simpa [Window.isOpen] using htime⟩

/-- The account is let through when its counter comes round to less than the limit. -/
lemma answer_hammer {n : ℕ} (hn : n * 1000000 < window) :
    answer accountLimit addressLimit window (hammer (n + 1)) (n * 1000000) "alice" none =
      if accountLimit ≤ (n + 1) % 2 ^ 32 then .accountThrottled else .allowed := by
  have huntil : Until (hammer (n + 1)) (n * 1000000) := by
    intro call hcall
    obtain ⟨i, hi, rfl⟩ := List.mem_map.mp hcall
    exact Nat.mul_le_mul_right _ (Nat.le_of_lt_succ (List.mem_range.mp hi))
  have hover := @accountOver_append accountLimit addressLimit window _ _ [] "alice" ⟨0, n + 1⟩
    (by simpa using hammer_ordered (n + 1)) (by simpa using huntil) (last_hammer hn) (by simp)
    (by simpa using hn) (by omega)
  rw [List.append_nil] at hover
  rw [answer, check_fst, if_neg (by simp [addressOver]), hover]
  exact if_congr decide_eq_true_iff rfl rfl

/-- The fifth failure locks the account, and within the same window, with failures all along,
the `2 ^ 32`nd unlocks it. -/
theorem stays_throttled_fails :
    answer 5 20 10000000000000000 (hammer 5) 4000000 "alice" none = .accountThrottled ∧
    answer 5 20 10000000000000000 (hammer 4294967296) 4294967295000000 "alice" none = .allowed ∧
    Window.last 10000000000000000 (accountMarks "alice" (hammer 5)) = some ⟨0, 5⟩ :=
  ⟨@answer_hammer 5 20 10000000000000000 4 (by decide),
    @answer_hammer 5 20 10000000000000000 4294967295 (by decide),
    @last_hammer 10000000000000000 4 (by decide)⟩

end LoginThrottle

end Knova
