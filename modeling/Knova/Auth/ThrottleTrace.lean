import Knova.Auth.Throttle
import Knova.Library.FixedWindow

/-!
# The throttle's verdict is its failure trace

The calls made on a throttle, with their instants, say which window of each account and of
each address is open and how many failures it holds. The maps agree with that, whatever
`check` deletes and `record_failure` resets, so the verdict is the one the trace gives.
-/

namespace Knova

open Library

/-- A call on the throttle. -/
inductive ThrottleCall
  | check (username : String) (address : Option IpAddr)
  | recordFailure (username : String) (address : Option IpAddr)
  | recordSuccess (username : String)
  deriving DecidableEq

/-- The calls made, each with its instant. -/
abbrev ThrottleTrace := List (ℕ × ThrottleCall)

namespace LoginThrottle

def perform (t : LoginThrottle) : ℕ × ThrottleCall → LoginThrottle
  | (now, .check username address) => (t.check now username address).2
  | (now, .recordFailure username address) => t.recordFailure now username address
  | (_, .recordSuccess username) => t.recordSuccess username

/-- The throttle after the calls of a trace. -/
def replay (t : LoginThrottle) (trace : ThrottleTrace) : LoginThrottle := trace.foldl perform t

end LoginThrottle

namespace ThrottleTrace

/-- What a call means to the counter of an account. -/
def accountMark (username : String) : ℕ × ThrottleCall → Option Mark
  | (_, .check _ _) => none
  | (now, .recordFailure name _) => if name = username then some (.hit now) else none
  | (_, .recordSuccess name) => if name = username then some .reset else none

/-- What a call means to the counter of an address. -/
def addressMark (address : IpAddr) : ℕ × ThrottleCall → Option Mark
  | (now, .recordFailure _ (some source)) => if source = address then some (.hit now) else none
  | _ => none

def accountMarks (username : String) (trace : ThrottleTrace) : List Mark :=
  trace.filterMap (accountMark username)

def addressMarks (address : IpAddr) (trace : ThrottleTrace) : List Mark :=
  trace.filterMap (addressMark address)

/-- The verdict on an attempt at `now`, by the failures in the open windows. -/
def verdict (accountLimit addressLimit window : ℕ) (trace : ThrottleTrace) (now : ℕ)
    (username : String) (address : Option IpAddr) : Verdict :=
  if address.any fun a => addressLimit ≤ Window.openHits window now (addressMarks a trace) then
    .addressThrottled
  else if accountLimit ≤ Window.openHits window now (accountMarks username trace) then
    .accountThrottled
  else .allowed

/-- The clock does not go back. -/
def Ordered (trace : ThrottleTrace) : Prop := (trace.map Prod.fst).Pairwise (· ≤ ·)

/-- Every call was made by `now`. -/
def Until (trace : ThrottleTrace) (now : ℕ) : Prop := ∀ call ∈ trace, call.1 ≤ now

/-- At no time does a window of a key hold `2 ^ 32` failures or more. -/
def Few (window : ℕ) (marks : List Mark) : Prop :=
  ∀ before, before <+: marks → ∀ w ∈ Window.last window before, w.hits < 2 ^ 32

/-- Fewer than `2 ^ 32` failures per key and window. -/
def FewFailures (window : ℕ) (trace : ThrottleTrace) : Prop :=
  (∀ username, Few window (accountMarks username trace)) ∧
    ∀ address, Few window (addressMarks address trace)

def isCheck : ℕ × ThrottleCall → Bool
  | (_, .check _ _) => true
  | _ => false

def isSuccess : ℕ × ThrottleCall → Bool
  | (_, .recordSuccess _) => true
  | _ => false

/-- Whether a call is about an account, or comes from an address. -/
def concerns (username : String) (address : Option IpAddr) : ℕ × ThrottleCall → Bool
  | (_, .check name source) => name == username || (source.isSome && source == address)
  | (_, .recordFailure name source) => name == username || (source.isSome && source == address)
  | (_, .recordSuccess name) => name == username

end ThrottleTrace

/-! ### One counter and its window -/

/-- A counter that has not lapsed counts the failures of the open window, as a `u32`. -/
def Agrees (window now : ℕ) (failures : Option Failures) (w : Option Window) : Prop :=
  failures.filter (Failures.live window now) =
    (w.filter (Window.isOpen window now)).map fun w => ⟨w.hits % 2 ^ 32, w.opened⟩

namespace Agrees

variable {window now later : ℕ} {failures : Option Failures} {w : Option Window}

lemma unused : Agrees window now none none := rfl

lemma filter_live_of_le (hle : now ≤ later) :
    (failures.filter (Failures.live window now)).filter (Failures.live window later) =
      failures.filter (Failures.live window later) := by
  rw [Option.filter_filter]
  refine congrArg failures.filter (funext fun f => ?_)
  by_cases h : f.live window later
  · have hnow : f.live window now = true := by
      rw [Failures.live_iff] at h ⊢
      omega
    simp [h, hnow]
  · simp [h]

/-- Both lapse at the same instant. -/
lemma mono (h : Agrees window now failures w) (hle : now ≤ later) :
    Agrees window later failures w := by
  unfold Agrees
  rw [← filter_live_of_le hle, h, ← Window.filter_isOpen_of_le hle]
  rw [Option.filter_map]
  rfl

/-- Deleting a lapsed counter changes nothing. -/
lemma expire (h : Agrees window now failures w) :
    Agrees window now (failures.filter (Failures.live window now)) w := by
  unfold Agrees
  rw [filter_live_of_le le_rfl, h]

lemma bumped (h : Agrees window now failures w) :
    Agrees window now (some (Failures.bumped window now failures))
      (some (Window.hit window now w)) := by
  suffices heq : Failures.bumped window now failures =
      ⟨(Window.hit window now w).hits % 2 ^ 32, (Window.hit window now w).opened⟩ by
    unfold Agrees
    rw [heq]
    by_cases hopen : now - (Window.hit window now w).opened < window
    · rw [Option.filter_some_pos (Failures.live_iff.mpr hopen),
        Option.filter_some_pos (by simpa [Window.isOpen] using hopen)]
      rfl
    · rw [Option.filter_some_neg (by simpa [Failures.live] using hopen),
        Option.filter_some_neg (by simpa [Window.isOpen] using hopen)]
      rfl
  cases hw : w.filter (Window.isOpen window now) with
  | none =>
    have hlapsed : failures.filter (Failures.live window now) = none := by rw [h, hw]; rfl
    rw [Failures.bumped_of_lapsed hlapsed, Window.hit_of_lapsed hw]
    rfl
  | some v =>
    have hlive : failures.filter (Failures.live window now) =
        some ⟨v.hits % 2 ^ 32, v.opened⟩ := by rw [h, hw]; rfl
    rw [Failures.bumped_of_live hlive, Window.hit_of_open hw]
    simp

end Agrees

/-! ### The throttle and its trace -/

namespace LoginThrottle

open ThrottleTrace

/-- Both maps agree with the trace at `now`. -/
structure Tracks (t : LoginThrottle) (trace : ThrottleTrace) (now : ℕ) : Prop where
  account : ∀ username, Agrees t.window now (t.byAccount.lookup username)
    (Window.last t.window (accountMarks username trace))
  address : ∀ address, Agrees t.window now (t.byAddress.lookup address)
    (Window.last t.window (addressMarks address trace))

lemma tracks_new {accountLimit addressLimit window now : ℕ} :
    (new accountLimit addressLimit window).Tracks [] now := ⟨fun _ => .unused, fun _ => .unused⟩

variable {t : LoginThrottle} {trace : ThrottleTrace} {now later : ℕ} {call : ℕ × ThrottleCall}
  {username : String} {address : Option IpAddr}

lemma Tracks.mono (h : t.Tracks trace now) (hle : now ≤ later) : t.Tracks trace later :=
  ⟨fun u => (h.account u).mono hle, fun a => (h.address a).mono hle⟩

lemma last_accountMarks_concat {window : ℕ} : Window.last window
    (accountMarks username (trace ++ [call])) = (accountMark username call).elim
      (Window.last window (accountMarks username trace))
      (Window.next window (Window.last window (accountMarks username trace))) := by
  cases h : accountMark username call with
  | none => simp [accountMarks, h]
  | some m => simp [accountMarks, h, Window.last_concat]

lemma last_addressMarks_concat {window : ℕ} {a : IpAddr} : Window.last window
    (addressMarks a (trace ++ [call])) = (addressMark a call).elim
      (Window.last window (addressMarks a trace))
      (Window.next window (Window.last window (addressMarks a trace))) := by
  cases h : addressMark a call with
  | none => simp [addressMarks, h]
  | some m => simp [addressMarks, h, Window.last_concat]

lemma perform_policy : (t.perform call).accountLimit = t.accountLimit ∧
    (t.perform call).addressLimit = t.addressLimit ∧ (t.perform call).window = t.window := by
  obtain ⟨now, call⟩ := call
  cases call with
  | check username address => exact check_policy
  | recordFailure username address => exact recordFailure_policy
  | recordSuccess username => exact ⟨rfl, rfl, rfl⟩

/-- Every call keeps the maps in agreement with the trace. -/
lemma Tracks.perform (h : t.Tracks trace call.1) :
    (t.perform call).Tracks (trace ++ [call]) call.1 := by
  obtain ⟨now, call⟩ := call
  have hwindow := (@perform_policy t (now, call)).2.2
  constructor
  · intro u
    rw [hwindow, last_accountMarks_concat]
    cases call with
    | check username address =>
      simp only [LoginThrottle.perform, lookup_check_byAccount, accountMark, Option.elim_none]
      split
      · exact (h.account u).expire
      · exact h.account u
    | recordFailure username address =>
      simp only [LoginThrottle.perform, lookup_recordFailure_byAccount, accountMark]
      by_cases hu : username = u
      · rw [if_pos hu.symm, if_pos hu]
        exact (h.account u).bumped
      · rw [if_neg (Ne.symm hu), if_neg hu]
        exact h.account u
    | recordSuccess username =>
      simp only [LoginThrottle.perform, lookup_recordSuccess_byAccount, accountMark]
      by_cases hu : username = u
      · rw [if_pos hu.symm, if_pos hu]
        exact .unused
      · rw [if_neg (Ne.symm hu), if_neg hu]
        exact h.account u
  · intro a
    rw [hwindow, last_addressMarks_concat]
    cases call with
    | check username address =>
      simp only [LoginThrottle.perform, lookup_check_byAddress, addressMark, Option.elim_none]
      split
      · exact (h.address a).expire
      · exact h.address a
    | recordFailure username address =>
      simp only [LoginThrottle.perform, lookup_recordFailure_byAddress]
      cases address with
      | none => exact h.address a
      | some source =>
        simp only [addressMark, Option.some.injEq]
        by_cases ha : source = a
        · rw [if_pos ha, if_pos ha]
          exact (h.address a).bumped
        · rw [if_neg ha, if_neg ha]
          exact h.address a
    | recordSuccess username => exact h.address a

lemma replay_concat : t.replay (trace ++ [call]) = (t.replay trace).perform call := by
  simp [replay]

lemma replay_policy : (t.replay trace).accountLimit = t.accountLimit ∧
    (t.replay trace).addressLimit = t.addressLimit ∧ (t.replay trace).window = t.window := by
  induction trace using List.reverseRecOn with
  | nil => exact ⟨rfl, rfl, rfl⟩
  | append_singleton trace call ih =>
    rw [replay_concat]
    obtain ⟨haccount, haddress, hwindow⟩ := @perform_policy (t.replay trace) call
    exact ⟨haccount.trans ih.1, haddress.trans ih.2.1, hwindow.trans ih.2.2⟩

end LoginThrottle

lemma ThrottleTrace.Ordered.concat {trace : ThrottleTrace} {call : ℕ × ThrottleCall}
    (h : Ordered (trace ++ [call])) : Ordered trace ∧ Until trace call.1 := by
  simp only [Ordered, List.map_append, List.map_cons, List.map_nil, List.pairwise_append] at h
  refine ⟨h.1, fun c hc => h.2.2 c.1 (List.mem_map_of_mem hc) call.1 (by simp)⟩

namespace LoginThrottle

open ThrottleTrace

/-- After any calls, in the order of their instants, the maps agree with the trace. -/
theorem tracks_replay (accountLimit addressLimit window : ℕ) {trace : ThrottleTrace} {now : ℕ}
    (hordered : Ordered trace) (huntil : Until trace now) :
    ((new accountLimit addressLimit window).replay trace).Tracks trace now := by
  induction trace using List.reverseRecOn generalizing now with
  | nil => exact tracks_new
  | append_singleton trace call ih =>
    obtain ⟨hordered, hcall⟩ := hordered.concat
    rw [replay_concat]
    exact (ih hordered hcall).perform.mono (huntil call (by simp))

/-- The answer of `check` after the calls of a trace. -/
def answer (accountLimit addressLimit window : ℕ) (trace : ThrottleTrace) (now : ℕ)
    (username : String) (address : Option IpAddr) : Verdict :=
  (((new accountLimit addressLimit window).replay trace).check now username address).1

end LoginThrottle

section

variable {K : Type} [DecidableEq K] {window now limit : ℕ} {counters : HashMap K Failures}
  {key : K}

/-- Where no window overflowed, a counter is over its limit as the open window says. -/
lemma Agrees.over_limit {marks : List Mark}
    (h : Agrees window now (counters.lookup key) (Window.last window marks))
    (hfew : ThrottleTrace.Few window marks) (hlimit : 1 ≤ limit) :
    («over» now counters key limit window).1 =
      decide (limit ≤ Window.openHits window now marks) := by
  rw [over_eq, h, Window.openHits]
  cases hw : (Window.last window marks).filter (Window.isOpen window now) with
  | none => simpa using Nat.one_le_iff_ne_zero.mp hlimit
  | some w =>
    have hlast := (Option.filter_eq_some_iff.mp hw).1
    have hhits : w.hits < 2 ^ 32 := hfew marks (List.prefix_refl _) w hlast
    simp only [Option.map_some, Option.any_some, Option.getD_some, Nat.mod_eq_of_lt hhits]

/-- A counter whose window has lapsed is not over its limit. -/
lemma Agrees.not_over_limit {w : Option Window} (h : Agrees window now (counters.lookup key) w)
    (hw : w.filter (Window.isOpen window now) = none) :
    («over» now counters key limit window).1 = false := by
  rw [over_eq, h, hw]
  rfl

end

namespace LoginThrottle

open ThrottleTrace

variable {accountLimit addressLimit window now : ℕ} {trace : ThrottleTrace} {username : String}
  {address : Option IpAddr}

lemma addressOver_eq (hordered : Ordered trace) (huntil : Until trace now)
    (hlimit : 1 ≤ addressLimit) (hfew : ∀ a ∈ address, Few window (addressMarks a trace)) :
    ((new accountLimit addressLimit window).replay trace).addressOver now address =
      address.any fun a => addressLimit ≤ Window.openHits window now (addressMarks a trace) := by
  obtain ⟨-, haddress, hwindow⟩ := @replay_policy (new accountLimit addressLimit window) trace
  cases address with
  | none => rfl
  | some a =>
    have hagrees := (tracks_replay accountLimit addressLimit window hordered huntil).address a
    rw [hwindow] at hagrees
    rw [addressOver, hwindow, haddress]
    exact hagrees.over_limit (hfew a rfl) hlimit

lemma accountOver_eq (hordered : Ordered trace) (huntil : Until trace now)
    (hlimit : 1 ≤ accountLimit) (hfew : Few window (accountMarks username trace)) :
    ((new accountLimit addressLimit window).replay trace).accountOver now username =
      decide (accountLimit ≤ Window.openHits window now (accountMarks username trace)) := by
  obtain ⟨haccount, -, hwindow⟩ := @replay_policy (new accountLimit addressLimit window) trace
  have hagrees := (tracks_replay accountLimit addressLimit window hordered huntil).account username
  rw [hwindow] at hagrees
  rw [accountOver, hwindow, haccount]
  exact hagrees.over_limit hfew hlimit

lemma answer_eq (hordered : Ordered trace) (huntil : Until trace now)
    (haccount : 1 ≤ accountLimit) (haddress : 1 ≤ addressLimit)
    (hfewAccount : Few window (accountMarks username trace))
    (hfewAddress : ∀ a ∈ address, Few window (addressMarks a trace)) :
    answer accountLimit addressLimit window trace now username address =
      verdict accountLimit addressLimit window trace now username address := by
  rw [answer, check_fst, addressOver_eq hordered huntil haddress hfewAddress,
    accountOver_eq hordered huntil haccount hfewAccount, verdict]
  simp only [decide_eq_true_eq]

end LoginThrottle

namespace ThrottleTrace

variable {now : ℕ} {trace : ThrottleTrace} {username : String} {address : Option IpAddr}
  {p : ℕ × ThrottleCall → Bool}

lemma Ordered.filter (h : Ordered trace) : Ordered (trace.filter p) :=
  h.sublist (List.filter_sublist.map _)

lemma Until.filter (h : Until trace now) : Until (trace.filter p) now :=
  fun call hcall => h call (List.mem_filter.mp hcall).1

lemma accountMarks_append {more : ThrottleTrace} : accountMarks username (trace ++ more) =
    accountMarks username trace ++ accountMarks username more :=
  List.filterMap_append

lemma addressMarks_append {a : IpAddr} {more : ThrottleTrace} :
    addressMarks a (trace ++ more) = addressMarks a trace ++ addressMarks a more :=
  List.filterMap_append

/-- Fewer than `2 ^ 32` calls record fewer than `2 ^ 32` failures. -/
lemma fewFailures_of_length {window : ℕ} (h : trace.length < 2 ^ 32) :
    FewFailures window trace := by
  have hfew : ∀ marks : List Mark, marks.length ≤ trace.length → Few window marks := by
    intro marks hmarks before hbefore w hw
    have hhits := Window.hits_le hw
    have hlength := hbefore.length_le
    omega
  exact ⟨fun _ => hfew _ (List.length_filterMap_le _ _),
    fun _ => hfew _ (List.length_filterMap_le _ _)⟩

/-- Leaving out calls that mean nothing to an account leaves its marks. -/
lemma accountMarks_filter (h : ∀ call, p call = false → accountMark username call = none) :
    accountMarks username (trace.filter p) = accountMarks username trace := by
  rw [accountMarks, List.filterMap_filter]
  refine List.filterMap_congr fun call _ => ?_
  cases hp : p call with
  | true => rfl
  | false => exact (h call hp).symm

lemma addressMarks_filter {a : IpAddr}
    (h : ∀ call, p call = false → addressMark a call = none) :
    addressMarks a (trace.filter p) = addressMarks a trace := by
  rw [addressMarks, List.filterMap_filter]
  refine List.filterMap_congr fun call _ => ?_
  cases hp : p call with
  | true => rfl
  | false => exact (h call hp).symm

end ThrottleTrace

namespace LoginThrottle

open ThrottleTrace

/-- What the verdict on an attempt at `now` owes to the calls made before. -/
structure VerdictIsTrace (accountLimit addressLimit window : ℕ) (trace : ThrottleTrace)
    (now : ℕ) (username : String) (address : Option IpAddr) : Prop where
  /-- It is the verdict of the failures in the open windows. -/
  exact : answer accountLimit addressLimit window trace now username address =
    verdict accountLimit addressLimit window trace now username address
  /-- Without the checks before it, it is the same. -/
  checks : answer accountLimit addressLimit window (trace.filter fun call => !isCheck call) now
      username address =
    answer accountLimit addressLimit window trace now username address
  /-- Without the calls about other accounts from other addresses, it is the same. -/
  others : answer accountLimit addressLimit window (trace.filter (concerns username address)) now
      username address =
    answer accountLimit addressLimit window trace now username address
  /-- Without the successes, the address is throttled all the same. -/
  successes : answer accountLimit addressLimit window (trace.filter fun call => !isSuccess call)
      now username address = .addressThrottled ↔
    answer accountLimit addressLimit window trace now username address = .addressThrottled
  /-- An account's lockout ends at an instant that is settled when it is met, whatever
  failures follow. -/
  accountLockout : answer accountLimit addressLimit window trace now username address =
      .accountThrottled → ∃ ends, now < ends ∧ ends ≤ now + window ∧ ∀ more later source,
    Ordered (trace ++ more) → (∀ call ∈ more, call.1 < ends ∧ call.2 ≠ .recordSuccess username) →
    ends ≤ later →
    answer accountLimit addressLimit window (trace ++ more) later username source ≠
      .accountThrottled
  /-- So does an address's lockout. -/
  addressLockout : answer accountLimit addressLimit window trace now username address =
      .addressThrottled → ∃ ends, now < ends ∧ ends ≤ now + window ∧ ∀ more later name,
    Ordered (trace ++ more) → (∀ call ∈ more, call.1 < ends) → ends ≤ later →
    answer accountLimit addressLimit window (trace ++ more) later name address ≠
      .addressThrottled

section Policy

variable {accountLimit addressLimit window now : ℕ} {trace : ThrottleTrace} {username : String}
  {address : Option IpAddr}

/-- The verdict depends on the marks of its two keys alone. -/
lemma verdict_congr {trace' : ThrottleTrace}
    (haccount : accountMarks username trace' = accountMarks username trace)
    (haddress : ∀ a ∈ address, addressMarks a trace' = addressMarks a trace) :
    verdict accountLimit addressLimit window trace' now username address =
      verdict accountLimit addressLimit window trace now username address := by
  cases address with
  | none => simp only [verdict, haccount, Option.any_none]
  | some a => simp only [verdict, haccount, Option.any_some, haddress a rfl]

/-- Leaving out calls that mean nothing to the two keys leaves the answer. -/
lemma answer_filter {p : ℕ × ThrottleCall → Bool} (haccountLimit : 1 ≤ accountLimit)
    (haddressLimit : 1 ≤ addressLimit) (hordered : Ordered trace) (huntil : Until trace now)
    (hfew : FewFailures window trace)
    (haccount : ∀ call, p call = false → accountMark username call = none)
    (haddress : ∀ a ∈ address, ∀ call, p call = false → addressMark a call = none) :
    answer accountLimit addressLimit window (trace.filter p) now username address =
      answer accountLimit addressLimit window trace now username address := by
  have hmarks : accountMarks username (trace.filter p) = accountMarks username trace :=
    accountMarks_filter haccount
  have hmarks' : ∀ a ∈ address, addressMarks a (trace.filter p) = addressMarks a trace :=
    fun a ha => addressMarks_filter (haddress a ha)
  rw [answer_eq hordered.filter huntil.filter haccountLimit haddressLimit
      (hmarks ▸ hfew.1 username) fun a ha => hmarks' a ha ▸ hfew.2 a,
    answer_eq hordered huntil haccountLimit haddressLimit (hfew.1 username) fun a _ => hfew.2 a]
  exact verdict_congr hmarks hmarks'

lemma answer_addressThrottled_iff :
    answer accountLimit addressLimit window trace now username address = .addressThrottled ↔
      ((new accountLimit addressLimit window).replay trace).addressOver now address = true := by
  rw [answer, check_fst]
  cases ((new accountLimit addressLimit window).replay trace).addressOver now address with
  | true => simp
  | false =>
    rw [if_neg Bool.false_ne_true]
    split <;> simp

lemma accountOver_of_answer
    (h : answer accountLimit addressLimit window trace now username address = .accountThrottled) :
    ((new accountLimit addressLimit window).replay trace).accountOver now username = true := by
  rw [answer, check_fst] at h
  split at h
  · cases h
  · split at h
    · assumption
    · cases h

/-- A key over its limit has an open window, which is still to end. -/
lemma window_of_openHits {limit : ℕ} {marks : List Mark} (hlimit : 1 ≤ limit)
    (hover : limit ≤ Window.openHits window now marks)
    (hmarks : ∀ time, .hit time ∈ marks → time ≤ now) :
    ∃ w, Window.last window marks = some w ∧ 0 < window ∧ now < w.opened + window ∧
      w.opened + window ≤ now + window := by
  cases hw : (Window.last window marks).filter (Window.isOpen window now) with
  | none =>
    simp only [Window.openHits, hw, Option.map_none, Option.getD_none] at hover
    omega
  | some w =>
    obtain ⟨hlast, hopen⟩ := Option.filter_eq_some_iff.mp hw
    have hopened := Window.opened_le hmarks hlast
    simp only [Window.isOpen, decide_eq_true_eq] at hopen
    exact ⟨w, hlast, by omega, by omega, by omega⟩

lemma hit_le_of_accountMarks (huntil : Until trace now) (time : ℕ)
    (h : .hit time ∈ accountMarks username trace) : time ≤ now := by
  obtain ⟨⟨instant, call⟩, hcall, hmark⟩ := List.mem_filterMap.mp h
  have hle := huntil _ hcall
  cases call with
  | check name source => cases hmark
  | recordFailure name source =>
    simp only [accountMark, Option.ite_none_right_eq_some, Option.some.injEq, Mark.hit.injEq]
      at hmark
    exact hmark.2 ▸ hle
  | recordSuccess name => simp [accountMark] at hmark

lemma hit_le_of_addressMarks {a : IpAddr} (huntil : Until trace now) (time : ℕ)
    (h : .hit time ∈ addressMarks a trace) : time ≤ now := by
  obtain ⟨⟨instant, call⟩, hcall, hmark⟩ := List.mem_filterMap.mp h
  have hle := huntil _ hcall
  unfold addressMark at hmark
  split at hmark
  · rename_i heq
    obtain ⟨rfl, -⟩ := Prod.mk.inj heq
    simp only [Option.ite_none_right_eq_some, Option.some.injEq, Mark.hit.injEq] at hmark
    exact hmark.2 ▸ hle
  · cases hmark

lemma marks_of_isCheck {call : ℕ × ThrottleCall} (h : isCheck call) :
    (∀ u, accountMark u call = none) ∧ ∀ a, addressMark a call = none := by
  obtain ⟨instant, call⟩ := call
  cases call with
  | check name source => exact ⟨fun _ => rfl, fun _ => rfl⟩
  | recordFailure name source => cases h
  | recordSuccess name => cases h

lemma addressMark_of_isSuccess {call : ℕ × ThrottleCall} (h : isSuccess call) (a : IpAddr) :
    addressMark a call = none := by
  obtain ⟨instant, call⟩ := call
  cases call with
  | check name source => rfl
  | recordFailure name source => cases h
  | recordSuccess name => rfl

lemma marks_of_not_concerns {call : ℕ × ThrottleCall} (h : concerns username address call = false) :
    accountMark username call = none ∧ ∀ a ∈ address, addressMark a call = none := by
  obtain ⟨instant, call⟩ := call
  cases call with
  | check name source => exact ⟨rfl, fun _ _ => rfl⟩
  | recordFailure name source =>
    simp only [concerns, Bool.or_eq_false_iff, beq_eq_false_iff_ne] at h
    refine ⟨if_neg h.1, ?_⟩
    rintro a rfl
    cases source with
    | none => rfl
    | some source =>
      have hne : source ≠ a := by simpa using h.2
      exact if_neg hne
  | recordSuccess name =>
    simp only [concerns, beq_eq_false_iff_ne] at h
    exact ⟨if_neg h, fun _ _ => rfl⟩

lemma exists_hit_of_accountMarks {ends : ℕ}
    (h : ∀ call ∈ trace, call.1 < ends ∧ call.2 ≠ .recordSuccess username) :
    ∀ m ∈ accountMarks username trace, ∃ time, m = .hit time ∧ time < ends := by
  intro m hm
  obtain ⟨⟨instant, call⟩, hcall, hmark⟩ := List.mem_filterMap.mp hm
  obtain ⟨hlt, hne⟩ := h _ hcall
  cases call with
  | check name source => cases hmark
  | recordFailure name source =>
    simp only [accountMark, Option.ite_none_right_eq_some, Option.some.injEq] at hmark
    exact ⟨instant, hmark.2.symm, hlt⟩
  | recordSuccess name =>
    simp only [accountMark, Option.ite_none_right_eq_some] at hmark
    exact absurd (congrArg ThrottleCall.recordSuccess hmark.1) hne

lemma exists_hit_of_addressMarks {a : IpAddr} {ends : ℕ} (h : ∀ call ∈ trace, call.1 < ends) :
    ∀ m ∈ addressMarks a trace, ∃ time, m = .hit time ∧ time < ends := by
  intro m hm
  obtain ⟨⟨instant, call⟩, hcall, hmark⟩ := List.mem_filterMap.mp hm
  have hlt := h _ hcall
  unfold addressMark at hmark
  split at hmark
  · rename_i heq
    obtain ⟨rfl, -⟩ := Prod.mk.inj heq
    simp only [Option.ite_none_right_eq_some, Option.some.injEq] at hmark
    exact ⟨instant, hmark.2.symm, hlt⟩
  · cases hmark

/-- An account's lockout ends with the window it is met in. -/
lemma account_lockout (haccount : 1 ≤ accountLimit) (hordered : Ordered trace)
    (hfew : Few window (accountMarks username trace)) (huntil : Until trace now)
    (h : answer accountLimit addressLimit window trace now username address =
      .accountThrottled) :
    ∃ ends, now < ends ∧ ends ≤ now + window ∧ ∀ more later source, Ordered (trace ++ more) →
      (∀ call ∈ more, call.1 < ends ∧ call.2 ≠ .recordSuccess username) → ends ≤ later →
      answer accountLimit addressLimit window (trace ++ more) later username source ≠
        .accountThrottled := by
  have hover := accountOver_of_answer h
  rw [accountOver_eq hordered huntil haccount hfew, decide_eq_true_eq] at hover
  obtain ⟨w, hlast, hpos, hlt, hle⟩ :=
    window_of_openHits haccount hover (hit_le_of_accountMarks huntil)
  refine ⟨w.opened + window, hlt, hle, fun more later source hall hmore hlater hthrottled => ?_⟩
  have huntil' : Until (trace ++ more) later := by
    intro call hcall
    rcases List.mem_append.mp hcall with hcall | hcall
    · have := huntil call hcall
      omega
    · have := (hmore call hcall).1
      omega
  have hlapses := Window.lapses hlast (exists_hit_of_accountMarks hmore) hlater hpos
  rw [← accountMarks_append] at hlapses
  have hagrees := (tracks_replay accountLimit addressLimit window hall huntil').account username
  have hover' := accountOver_of_answer hthrottled
  obtain ⟨-, -, hwindow⟩ := @replay_policy (new accountLimit addressLimit window) (trace ++ more)
  rw [hwindow] at hagrees
  rw [accountOver, hwindow, hagrees.not_over_limit hlapses] at hover'
  cases hover'

/-- So does an address's lockout. -/
lemma address_lockout (haddress : 1 ≤ addressLimit) (hordered : Ordered trace)
    (hfew : ∀ a, Few window (addressMarks a trace)) (huntil : Until trace now)
    (h : answer accountLimit addressLimit window trace now username address =
      .addressThrottled) :
    ∃ ends, now < ends ∧ ends ≤ now + window ∧ ∀ more later name, Ordered (trace ++ more) →
      (∀ call ∈ more, call.1 < ends) → ends ≤ later →
      answer accountLimit addressLimit window (trace ++ more) later name address ≠
        .addressThrottled := by
  have hover := answer_addressThrottled_iff.mp h
  rw [addressOver_eq hordered huntil haddress fun a _ => hfew a] at hover
  cases address with
  | none => cases hover
  | some a =>
    rw [Option.any_some, decide_eq_true_eq] at hover
    obtain ⟨w, hlast, hpos, hlt, hle⟩ :=
      window_of_openHits haddress hover (hit_le_of_addressMarks huntil)
    refine ⟨w.opened + window, hlt, hle, fun more later name hall hmore hlater hthrottled => ?_⟩
    have huntil' : Until (trace ++ more) later := by
      intro call hcall
      rcases List.mem_append.mp hcall with hcall | hcall
      · have := huntil call hcall
        omega
      · have := hmore call hcall
        omega
    have hlapses := Window.lapses hlast (exists_hit_of_addressMarks (a := a) hmore) hlater hpos
    rw [← addressMarks_append] at hlapses
    have hagrees := (tracks_replay accountLimit addressLimit window hall huntil').address a
    have hover' := answer_addressThrottled_iff.mp hthrottled
    obtain ⟨-, -, hwindow⟩ :=
      @replay_policy (new accountLimit addressLimit window) (trace ++ more)
    rw [hwindow] at hagrees
    rw [addressOver, Option.any_some, hwindow, hagrees.not_over_limit hlapses] at hover'
    cases hover'

/-- For every policy and every sequence of calls in the order of their instants, the verdict
is that of the failure trace. -/
theorem verdict_is_trace (accountLimit addressLimit window : ℕ) (haccount : 1 ≤ accountLimit)
    (haddress : 1 ≤ addressLimit) (trace : ThrottleTrace) (hordered : Ordered trace)
    (hfew : FewFailures window trace) (now : ℕ) (huntil : Until trace now) (username : String)
    (address : Option IpAddr) :
    VerdictIsTrace accountLimit addressLimit window trace now username address where
  exact := answer_eq hordered huntil haccount haddress (hfew.1 username) fun a _ => hfew.2 a
  checks := by
    refine answer_filter haccount haddress hordered huntil hfew (fun call hcall => ?_)
      fun a _ call hcall => ?_
    · exact (marks_of_isCheck (by simpa using hcall)).1 username
    · exact (marks_of_isCheck (by simpa using hcall)).2 a
  others := by
    refine answer_filter haccount haddress hordered huntil hfew (fun call hcall => ?_)
      fun a ha call hcall => ?_
    · exact (marks_of_not_concerns hcall).1
    · exact (marks_of_not_concerns hcall).2 a ha
  successes := by
    have hmarks : ∀ a, addressMarks a (trace.filter fun call => !isSuccess call) =
        addressMarks a trace := fun a => addressMarks_filter fun call hcall =>
      addressMark_of_isSuccess (by simpa using hcall) a
    rw [answer_addressThrottled_iff, answer_addressThrottled_iff,
      addressOver_eq hordered.filter huntil.filter haddress fun a _ => hmarks a ▸ hfew.2 a,
      addressOver_eq hordered huntil haddress fun a _ => hfew.2 a]
    simp only [hmarks]
  accountLockout := account_lockout haccount hordered (hfew.1 username) huntil
  addressLockout := address_lockout haddress hordered hfew.2 huntil

end Policy

/-- Two failures of `alice` meet a limit of two, one by `bob` from the same address does not. -/
theorem verdict_is_trace_two :
    VerdictIsTrace 2 20 60 [(0, .recordFailure "alice" (some (.v4 7))),
      (5, .recordFailure "bob" (some (.v4 7))), (9, .recordFailure "alice" none)] 10 "alice"
      (some (.v4 7)) ∧
    answer 2 20 60 [(0, .recordFailure "alice" (some (.v4 7))),
      (5, .recordFailure "bob" (some (.v4 7))), (9, .recordFailure "alice" none)] 10 "alice"
      (some (.v4 7)) = .accountThrottled :=
  ⟨verdict_is_trace 2 20 60 (by decide) (by decide) _ (by simp [Ordered])
    (fewFailures_of_length (by decide)) 10 (by simp [Until]) "alice" (some (.v4 7)), by decide⟩

end LoginThrottle

end Knova
