import Knova.Auth.Lockout

/-!
# What the throttle remembers

`record_failure` never sweeps: a counter whose window has lapsed goes when its own key is
looked up again, and stays until then. The calls made say which counters that leaves, and so
after which failures the maps hold open windows only.
-/

namespace Knova

open Library

namespace ThrottleTrace

/-- The trace has a call after `w` lapsed that looks its key up, and none that marks the key
after that. -/
def LookedUp (window : ℕ) (mark : ℕ × ThrottleCall → Option Mark)
    (looks : ThrottleTrace → ℕ × ThrottleCall → Prop) (trace : ThrottleTrace) (w : Window) : Prop :=
  ∃ before call after, trace = before ++ call :: after ∧ looks before call ∧
    window ≤ call.1 - w.opened ∧ after.filterMap mark = []

/-- What is left of a key: the counter of its last window, unless that was looked up too late. -/
def Keeps (window : ℕ) (mark : ℕ × ThrottleCall → Option Mark)
    (looks : ThrottleTrace → ℕ × ThrottleCall → Prop) (trace : ThrottleTrace)
    (failures : Option Failures) : Prop :=
  match Window.last window (trace.filterMap mark) with
  | none => failures = none
  | some w => (LookedUp window mark looks trace w ∧ failures = none) ∨
    (¬LookedUp window mark looks trace w ∧ failures = some ⟨w.hits % 2 ^ 32, w.opened⟩)

section

variable {window now : ℕ} {mark : ℕ × ThrottleCall → Option Mark}
  {looks : ThrottleTrace → ℕ × ThrottleCall → Prop} {trace : ThrottleTrace}
  {call : ℕ × ThrottleCall} {failures : Option Failures} {w : Window}

lemma keeps_nil : Keeps window mark looks [] none := rfl

lemma lookedUp_concat : LookedUp window mark looks (trace ++ [call]) w ↔
    (looks trace call ∧ window ≤ call.1 - w.opened) ∨
      (mark call = none ∧ LookedUp window mark looks trace w) := by
  constructor
  · rintro ⟨before, call', after, heq, hlook, hlapsed, hafter⟩
    rcases List.eq_nil_or_concat after with rfl | ⟨after, last, rfl⟩
    · obtain ⟨rfl, hcall⟩ := List.append_inj' heq rfl
      obtain rfl := List.head_eq_of_cons_eq hcall
      exact .inl ⟨hlook, hlapsed⟩
    · rw [List.concat_eq_append, ← List.cons_append, ← List.append_assoc] at heq
      obtain ⟨rfl, hcall⟩ := List.append_inj' heq rfl
      obtain rfl := List.head_eq_of_cons_eq hcall
      rw [List.concat_eq_append, List.filterMap_append, List.append_eq_nil_iff] at hafter
      refine .inr ⟨?_, before, call', after, rfl, hlook, hlapsed, hafter.1⟩
      cases hmark : mark call with
      | none => rfl
      | some m => simp [hmark] at hafter
  · rintro (⟨hlook, hlapsed⟩ | ⟨hmark, before, call', after, rfl, hlook, hlapsed, hafter⟩)
    · exact ⟨trace, call, [], rfl, hlook, hlapsed, rfl⟩
    · exact ⟨before, call', after ++ [call], by simp, hlook, hlapsed, by simp [hafter, hmark]⟩

lemma last_filterMap_concat : Window.last window ((trace ++ [call]).filterMap mark) =
    (mark call).elim (Window.last window (trace.filterMap mark))
      (Window.next window (Window.last window (trace.filterMap mark))) := by
  cases h : mark call with
  | none => simp [h]
  | some m => simp [h, Window.last_concat]

/-- A call about other keys leaves a counter. -/
lemma Keeps.idle (h : Keeps window mark looks trace failures) (hmark : mark call = none)
    (hlooks : ¬looks trace call) : Keeps window mark looks (trace ++ [call]) failures := by
  unfold Keeps at h ⊢
  rw [last_filterMap_concat, hmark, Option.elim_none]
  simp only [lookedUp_concat, hlooks, hmark, false_and, true_and, false_or]
  exact h

/-- Looking a key up deletes its counter if that has lapsed. -/
lemma Keeps.looked (h : Keeps window mark looks trace failures) (hmark : mark call = none)
    (hlooks : looks trace call) : Keeps window mark looks (trace ++ [call])
      (failures.filter (Failures.live window call.1)) := by
  unfold Keeps at h ⊢
  rw [last_filterMap_concat, hmark, Option.elim_none]
  simp only [lookedUp_concat, hlooks, hmark, true_and]
  split at h
  · rw [h]
    rfl
  · rename_i w hw
    rcases h with ⟨hlooked, rfl⟩ | ⟨hlooked, rfl⟩
    · exact .inl ⟨.inr hlooked, rfl⟩
    · by_cases hlapsed : window ≤ call.1 - w.opened
      · refine .inl ⟨.inl hlapsed, Option.filter_some_neg ?_⟩
        simpa [Failures.live] using hlapsed
      · refine .inr ⟨by simp [hlapsed, hlooked], Option.filter_some_pos ?_⟩
        simpa [Failures.live] using hlapsed

/-- A failure is counted in the last window if that is still open. -/
lemma Keeps.hit (h : Keeps window mark looks trace failures)
    (hmark : mark call = some (.hit call.1)) (hlooks : ¬looks trace call)
    (huntil : Until trace call.1) :
    Keeps window mark looks (trace ++ [call]) (some (Failures.bumped window call.1 failures)) := by
  unfold Keeps at h ⊢
  rw [last_filterMap_concat, hmark, Option.elim_some]
  simp only [Window.next, lookedUp_concat, hlooks, hmark, false_and, reduceCtorEq, or_self,
    not_false_eq_true, true_and, false_or, Option.some.injEq]
  split at h
  · rename_i hw
    rw [h, hw]
    rfl
  · rename_i w hw
    rw [hw]
    rcases h with ⟨⟨before, call', after, rfl, -, hlapsed, -⟩, rfl⟩ | ⟨-, rfl⟩
    · have hle := huntil call' (by simp)
      rw [Window.hit_of_lapsed (Option.filter_some_neg (by simp [Window.isOpen]; omega))]
      rfl
    · by_cases hopen : call.1 - w.opened < window
      · rw [Window.hit_of_open (Option.filter_some_pos (by simpa [Window.isOpen] using hopen)),
          Failures.bumped_of_live (Option.filter_some_pos (Failures.live_iff.mpr hopen))]
        simp
      · rw [Window.hit_of_lapsed (Option.filter_some_neg (by simpa [Window.isOpen] using hopen)),
          Failures.bumped_of_lapsed (Option.filter_some_neg (by simpa [Failures.live] using hopen))]
        rfl

lemma keeps_reset (hmark : mark call = some .reset) :
    Keeps window mark looks (trace ++ [call]) none := by
  unfold Keeps
  rw [last_filterMap_concat, hmark, Option.elim_some]
  rfl

/-- What is left of a key is an open window exactly where a lapsed one was looked up. -/
lemma Keeps.live_iff (h : Keeps window mark looks trace failures) :
    (∀ f ∈ failures, f.live window now = true) ↔
      ∀ w ∈ Window.last window (trace.filterMap mark), window ≤ now - w.opened →
        LookedUp window mark looks trace w := by
  unfold Keeps at h
  split at h
  · rename_i hw
    simp [h, hw]
  · rename_i w hw
    simp only [hw, Option.mem_def, Option.some.injEq, forall_eq']
    rcases h with ⟨hlooked, rfl⟩ | ⟨hlooked, rfl⟩
    · simp [hlooked]
    · simp only [Option.some.injEq, forall_eq', Failures.live_iff, hlooked, imp_false, Nat.not_le]

end

end ThrottleTrace

namespace LoginThrottle

open ThrottleTrace

variable {accountLimit addressLimit window now : ℕ} {trace : ThrottleTrace} {username : String}
  {address : Option IpAddr}

/-- A check of an account looks it up unless the address is turned away first. -/
def looksAccountUp (accountLimit addressLimit window : ℕ) (username : String)
    (before : ThrottleTrace) : ℕ × ThrottleCall → Prop
  | (now, .check name address) => name = username ∧
    ((new accountLimit addressLimit window).replay before).addressOver now address = false
  | _ => False

/-- Every check from an address looks it up. -/
def looksAddressUp (address : IpAddr) (_ : ThrottleTrace) : ℕ × ThrottleCall → Prop
  | (_, .check _ source) => source = some address
  | _ => False

/-- What either map holds under any key. -/
lemma keeps_replay (hordered : Ordered trace) :
    (∀ username, Keeps window (accountMark username)
      (looksAccountUp accountLimit addressLimit window username) trace
      (((new accountLimit addressLimit window).replay trace).byAccount.lookup username)) ∧
    ∀ address, Keeps window (addressMark address) (looksAddressUp address) trace
      (((new accountLimit addressLimit window).replay trace).byAddress.lookup address) := by
  induction trace using List.reverseRecOn with
  | nil => exact ⟨fun _ => keeps_nil, fun _ => keeps_nil⟩
  | append_singleton trace call ih =>
    obtain ⟨hordered, huntil⟩ := hordered.concat
    obtain ⟨haccount, haddress⟩ := ih hordered
    have hwindow : ((new accountLimit addressLimit window).replay trace).window = window :=
      replay_policy.2.2
    rw [replay_concat]
    obtain ⟨instant, call⟩ := call
    cases call with
    | check name source =>
      constructor
      · intro u
        simp only [perform, lookup_check_byAccount, hwindow]
        split
        · rename_i h
          exact (haccount u).looked rfl ⟨h.2.symm, h.1⟩
        · rename_i h
          exact (haccount u).idle rfl fun hlooks => h ⟨hlooks.2, hlooks.1.symm⟩
      · intro a
        simp only [perform, lookup_check_byAddress, hwindow]
        split
        · rename_i h
          exact (haddress a).looked rfl h
        · rename_i h
          exact (haddress a).idle rfl h
    | recordFailure name source =>
      constructor
      · intro u
        simp only [perform, lookup_recordFailure_byAccount, hwindow]
        split
        · rename_i h
          exact (haccount u).hit (if_pos h.symm) id huntil
        · rename_i h
          exact (haccount u).idle (if_neg (Ne.symm h)) id
      · intro a
        simp only [perform, lookup_recordFailure_byAddress, hwindow]
        split
        · rename_i h
          subst h
          exact (haddress a).hit (if_pos rfl) id huntil
        · rename_i h
          refine (haddress a).idle ?_ id
          cases source with
          | none => rfl
          | some source => exact if_neg fun heq => h (congrArg some heq)
    | recordSuccess name =>
      constructor
      · intro u
        simp only [perform, lookup_recordSuccess_byAccount]
        split
        · rename_i h
          exact keeps_reset (if_pos h.symm)
        · rename_i h
          exact (haccount u).idle (if_neg (Ne.symm h)) id
      · intro a
        exact (haddress a).idle rfl id

/-- Whether a call records a failure of the last `window`. -/
def recentFailure (window now : ℕ) : ℕ × ThrottleCall → Bool
  | (time, .recordFailure _ _) => now - time < window
  | _ => false

/-- Whatever is retained belongs to a window that is open at `now`, so that there are at most
as many account counters as there were failures lately. -/
structure MemoryBounded (t : LoginThrottle) (trace : ThrottleTrace) (now : ℕ) : Prop where
  accounts : ∀ username, ∀ f ∈ t.byAccount.lookup username, f.live t.window now = true
  addresses : ∀ address, ∀ f ∈ t.byAddress.lookup address, f.live t.window now = true
  count : t.byAccount.keys.length ≤ trace.countP (recentFailure t.window now)

/-- Before a failure of one account from one address, every other key whose last window has
lapsed was looked up since. -/
structure Tidy (accountLimit addressLimit window : ℕ) (trace : ThrottleTrace) (now : ℕ)
    (username : String) (address : Option IpAddr) : Prop where
  opens : 0 < window
  accounts : ∀ u, u ≠ username → ∀ w ∈ Window.last window (accountMarks u trace),
    window ≤ now - w.opened → LookedUp window (accountMark u)
      (looksAccountUp accountLimit addressLimit window u) trace w
  addresses : ∀ a, address ≠ some a → ∀ w ∈ Window.last window (addressMarks a trace),
    window ≤ now - w.opened → LookedUp window (addressMark a) (looksAddressUp a) trace w

lemma live_bumped {failures : Option Failures} :
    (Failures.bumped window now failures).live window now = true ↔ 0 < window := by
  rw [Failures.live_iff]
  cases h : failures.filter (Failures.live window now) with
  | none =>
    rw [Failures.bumped_of_lapsed h, Nat.sub_self]
  | some f =>
    rw [Failures.bumped_of_live h]
    have hlive := Failures.live_iff.mp (Option.filter_eq_some_iff.mp h).2
    exact ⟨fun _ => by omega, fun _ => hlive⟩

lemma exists_failure_of_accountMarks {time : ℕ} (h : .hit time ∈ accountMarks username trace) :
    ∃ source, (time, .recordFailure username source) ∈ trace := by
  obtain ⟨⟨instant, call⟩, hcall, hmark⟩ := List.mem_filterMap.mp h
  cases call with
  | check name source => cases hmark
  | recordFailure name source =>
    simp only [accountMark, Option.ite_none_right_eq_some, Option.some.injEq, Mark.hit.injEq]
      at hmark
    obtain ⟨rfl, rfl⟩ := hmark
    exact ⟨source, hcall⟩
  | recordSuccess name => simp [accountMark] at hmark

/-- The account a call records a failure of. -/
def failedName : ℕ × ThrottleCall → Option String
  | (_, .recordFailure username _) => some username
  | _ => none

/-- Every open window was opened by a failure of its own. -/
lemma length_keys_le (hordered : Ordered trace)
    (hlive : ∀ username, ∀ f ∈
      ((new accountLimit addressLimit window).replay trace).byAccount.lookup username,
      f.live window now = true) :
    ((new accountLimit addressLimit window).replay trace).byAccount.keys.length ≤
      trace.countP (recentFailure window now) := by
  have hsubset : ((new accountLimit addressLimit window).replay trace).byAccount.keys ⊆
      (trace.filter (recentFailure window now)).filterMap failedName := by
    intro u hu
    obtain ⟨f, hf⟩ := Option.isSome_iff_exists.mp (AList.lookup_isSome.mpr hu)
    have hopen := hlive u f hf
    have hkeeps := (@keeps_replay accountLimit addressLimit window trace hordered).1 u
    rw [hf, Keeps] at hkeeps
    split at hkeeps
    · cases hkeeps
    · rename_i w hw
      rcases hkeeps with ⟨-, hnone⟩ | ⟨-, hsome⟩
      · cases hnone
      · obtain rfl := Option.some.inj hsome
        obtain ⟨source, hcall⟩ := exists_failure_of_accountMarks (Window.opened_mem hw)
        exact List.mem_filterMap.mpr ⟨_, List.mem_filter.mpr ⟨hcall, hopen⟩, rfl⟩
  calc ((new accountLimit addressLimit window).replay trace).byAccount.keys.length
      ≤ ((trace.filter (recentFailure window now)).filterMap failedName).length :=
        (List.subperm_of_subset (AList.keys_nodup _) hsubset).length_le
    _ ≤ (trace.filter (recentFailure window now)).length := List.length_filterMap_le _ _
    _ = trace.countP (recentFailure window now) := List.countP_eq_length_filter.symm

/-- After a failure the maps hold open windows only, exactly where every other key whose last
window has lapsed was looked up since. -/
theorem memory_bounded_iff (accountLimit addressLimit window : ℕ) (trace : ThrottleTrace)
    (now : ℕ) (username : String) (address : Option IpAddr)
    (hordered : Ordered (trace ++ [(now, .recordFailure username address)])) :
    MemoryBounded ((new accountLimit addressLimit window).replay
        (trace ++ [(now, .recordFailure username address)]))
        (trace ++ [(now, .recordFailure username address)]) now ↔
      Tidy accountLimit addressLimit window trace now username address := by
  have hwindow : ∀ trace, ((new accountLimit addressLimit window).replay trace).window = window :=
    fun _ => replay_policy.2.2
  obtain ⟨haccount, haddress⟩ :=
    @keeps_replay accountLimit addressLimit window trace hordered.concat.1
  have hafterAccount : ∀ u, ((new accountLimit addressLimit window).replay
      (trace ++ [(now, .recordFailure username address)])).byAccount.lookup u =
      if u = username then some (Failures.bumped window now
        (((new accountLimit addressLimit window).replay trace).byAccount.lookup u))
      else ((new accountLimit addressLimit window).replay trace).byAccount.lookup u := by
    intro u
    rw [replay_concat, perform, lookup_recordFailure_byAccount, hwindow]
  have hafterAddress : ∀ a, ((new accountLimit addressLimit window).replay
      (trace ++ [(now, .recordFailure username address)])).byAddress.lookup a =
      if address = some a then some (Failures.bumped window now
        (((new accountLimit addressLimit window).replay trace).byAddress.lookup a))
      else ((new accountLimit addressLimit window).replay trace).byAddress.lookup a := by
    intro a
    rw [replay_concat, perform, lookup_recordFailure_byAddress, hwindow]
  constructor
  · rintro ⟨haccounts, haddresses, -⟩
    rw [hwindow] at haccounts haddresses
    refine ⟨?_, fun u hu => (haccount u).live_iff.mp ?_, fun a ha => (haddress a).live_iff.mp ?_⟩
    · have hown := haccounts username
      rw [hafterAccount, if_pos rfl] at hown
      exact live_bumped.mp (hown _ rfl)
    · have hother := haccounts u
      rwa [hafterAccount, if_neg hu] at hother
    · have hother := haddresses a
      rwa [hafterAddress, if_neg ha] at hother
  · intro htidy
    have haccounts : ∀ u, ∀ f ∈ ((new accountLimit addressLimit window).replay
        (trace ++ [(now, .recordFailure username address)])).byAccount.lookup u,
        f.live window now = true := by
      intro u
      rw [hafterAccount]
      split
      · intro f hf
        obtain rfl := Option.some.inj hf
        exact live_bumped.mpr htidy.opens
      · rename_i hu
        exact (haccount u).live_iff.mpr (htidy.accounts u hu)
    refine ⟨by rwa [hwindow], fun a => ?_, by rw [hwindow]; exact length_keys_le hordered haccounts⟩
    rw [hafterAddress, hwindow]
    split
    · intro f hf
      obtain rfl := Option.some.inj hf
      exact live_bumped.mpr htidy.opens
    · rename_i ha
      exact (haddress a).live_iff.mpr (htidy.addresses a ha)

/-- One failure of `bob`, whose name is tried again when its window is over. -/
theorem memory_bounded_three : MemoryBounded
    ((new 5 20 60).replay [(0, .recordFailure "bob" none), (70, .check "bob" none),
      (80, .recordFailure "alice" none)])
    [(0, .recordFailure "bob" none), (70, .check "bob" none),
      (80, .recordFailure "alice" none)] 80 := by
  refine (memory_bounded_iff 5 20 60 [(0, .recordFailure "bob" none), (70, .check "bob" none)] 80
    "alice" none (by simp [Ordered])).mpr ⟨by decide, fun u _ w hw hlapsed => ?_, ?_⟩
  · by_cases hu : "bob" = u
    · subst hu
      obtain rfl : w = ⟨0, 1⟩ := (Option.some.inj hw).symm
      exact ⟨[(0, .recordFailure "bob" none)], (70, .check "bob" none), [], rfl, ⟨rfl, rfl⟩,
        by decide, rfl⟩
    · have hmarks : accountMarks u [(0, .recordFailure "bob" none), (70, .check "bob" none)] = [] :=
        List.filterMap_eq_nil_iff.mpr (by simp [accountMark, hu])
      rw [hmarks] at hw
      cases hw
  · intro a _ w hw
    cases hw

/-- A name that is tried once is remembered after its window. -/
theorem memory_bounded_fails : ¬MemoryBounded
    ((new 5 20 60).replay [(0, .recordFailure "bob" none), (60, .recordFailure "alice" none)])
    [(0, .recordFailure "bob" none), (60, .recordFailure "alice" none)] 60 := by
  intro h
  have hlive := h.accounts "bob" ⟨1, 0⟩ (by decide)
  exact absurd hlive (by decide)

end LoginThrottle

end Knova
