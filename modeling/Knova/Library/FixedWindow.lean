import Mathlib.Algebra.Order.Ring.Int
import Mathlib.Data.List.Induction

/-!
# Counting in fixed windows

Hits are counted in windows of one length: a hit opens a window when none is open, a window
opened at `s` is open at `t` exactly while `t - s` is less than the length, and a reset
closes it.
-/

namespace Knova.Library

/-- What happens to one counter. -/
inductive Mark
  | hit (time : ℕ)
  | reset
  deriving DecidableEq

/-- A window and the hits recorded in it. -/
structure Window where
  opened : ℕ
  hits : ℕ
  deriving DecidableEq

namespace Window

def isOpen (length now : ℕ) (w : Window) : Bool := now - w.opened < length

/-- The window a hit at `now` is recorded in, after it. -/
def hit (length now : ℕ) (w : Option Window) : Window :=
  match w.filter (isOpen length now) with
  | some w => ⟨w.opened, w.hits + 1⟩
  | none => ⟨now, 1⟩

def next (length : ℕ) (w : Option Window) : Mark → Option Window
  | .hit time => some (hit length time w)
  | .reset => none

/-- The window opened last, unless a reset closed it. -/
def last (length : ℕ) (marks : List Mark) : Option Window := marks.foldl (next length) none

/-- The hits recorded in the window that is open at `now`, if one is. -/
def openHits (length now : ℕ) (marks : List Mark) : ℕ :=
  (((last length marks).filter (isOpen length now)).map hits).getD 0

variable {length now later : ℕ} {w : Option Window} {marks : List Mark}

@[simp] lemma last_nil : last length [] = none := rfl

lemma last_concat (m : Mark) : last length (marks ++ [m]) = next length (last length marks) m := by
  simp [last]

lemma hit_of_open {v : Window} (h : w.filter (isOpen length now) = some v) :
    hit length now w = ⟨v.opened, v.hits + 1⟩ := by
  simp only [hit, h]

lemma hit_of_lapsed (h : w.filter (isOpen length now) = none) : hit length now w = ⟨now, 1⟩ := by
  simp only [hit, h]

/-- A window that is open was open before. -/
lemma isOpen_of_le (hle : now ≤ later) {v : Window} (h : v.isOpen length later) :
    v.isOpen length now := by
  simp only [isOpen, decide_eq_true_eq] at *
  omega

/-- What is open later is open now. -/
lemma filter_isOpen_of_le (hle : now ≤ later) :
    (w.filter (isOpen length now)).filter (isOpen length later) =
      w.filter (isOpen length later) := by
  rw [Option.filter_filter]
  refine congrArg w.filter (funext fun v => ?_)
  by_cases h : v.isOpen length later
  · simp [h, isOpen_of_le hle h]
  · simp [h]

/-- Hits recorded while a window is open do not move it. -/
lemma last_append_hits {w : Window} {more : List Mark} (h : last length marks = some w)
    (hmore : ∀ m ∈ more, ∃ time, m = .hit time ∧ w.isOpen length time) :
    last length (marks ++ more) = some ⟨w.opened, w.hits + more.length⟩ := by
  induction more using List.reverseRecOn with
  | nil => simpa using h
  | append_singleton more m ih =>
    obtain ⟨time, rfl, hopen⟩ := hmore m (by simp)
    have hlast := ih fun m hm => hmore m (by simp [hm])
    rw [← List.append_assoc, last_concat, hlast]
    have hfilter : (some (⟨w.opened, w.hits + more.length⟩ : Window)).filter
        (isOpen length time) = some ⟨w.opened, w.hits + more.length⟩ :=
      Option.filter_some_pos hopen
    simp only [next, hit_of_open hfilter, List.length_append, List.length_singleton]
    rfl

/-- However many hits are recorded until then, an open window lapses one length after it was
opened. -/
lemma lapses {w : Window} {more : List Mark} (h : last length marks = some w)
    (hmore : ∀ m ∈ more, ∃ time, m = .hit time ∧ time < w.opened + length)
    (hlater : w.opened + length ≤ later) (hlength : 0 < length) :
    (last length (marks ++ more)).filter (isOpen length later) = none := by
  have hhits : ∀ m ∈ more, ∃ time, m = .hit time ∧ w.isOpen length time := by
    intro m hm
    obtain ⟨time, rfl, htime⟩ := hmore m hm
    refine ⟨time, rfl, ?_⟩
    simp only [isOpen, decide_eq_true_eq]
    omega
  rw [last_append_hits h hhits]
  refine Option.filter_some_neg ?_
  simp only [isOpen, decide_eq_false_iff_not]
  omega

/-- A window holds at most the hits there were. -/
lemma hits_le {v : Window} (h : last length marks = some v) : v.hits ≤ marks.length := by
  induction marks using List.reverseRecOn generalizing v with
  | nil => cases h
  | append_singleton marks m ih =>
    rw [last_concat] at h
    rw [List.length_append, List.length_singleton]
    cases m with
    | reset => cases h
    | hit time =>
      obtain rfl := Option.some.inj h
      cases hw : (last length marks).filter (isOpen length time) with
      | none =>
        rw [hit_of_lapsed hw]
        exact Nat.le_add_left 1 _
      | some w =>
        rw [hit_of_open hw]
        exact Nat.succ_le_succ (ih (Option.filter_eq_some_iff.mp hw).1)

/-- No window opens in the future. -/
lemma opened_le (hmarks : ∀ time, .hit time ∈ marks → time ≤ now) {v : Window}
    (h : last length marks = some v) : v.opened ≤ now := by
  induction marks using List.reverseRecOn generalizing v with
  | nil => cases h
  | append_singleton marks m ih =>
    rw [last_concat] at h
    cases m with
    | reset => cases h
    | hit time =>
      obtain rfl := Option.some.inj h
      cases hw : (last length marks).filter (isOpen length time) with
      | none =>
        rw [hit_of_lapsed hw]
        exact hmarks time (by simp)
      | some w =>
        have hlast := (Option.filter_eq_some_iff.mp hw).1
        have hw_le : w.opened ≤ now := ih (fun time h => hmarks time (by simp [h])) hlast
        rw [hit_of_open hw]
        exact hw_le

/-- The last window holds a hit at the instant it was opened. -/
lemma opened_mem {w : Window} (h : last length marks = some w) : .hit w.opened ∈ marks := by
  induction marks using List.reverseRecOn generalizing w with
  | nil => cases h
  | append_singleton marks m ih =>
    rw [last_concat] at h
    cases m with
    | reset => cases h
    | hit time =>
      obtain rfl := Option.some.inj h
      cases hw : (last length marks).filter (isOpen length time) with
      | none =>
        rw [hit_of_lapsed hw]
        simp
      | some v =>
        have hmem : .hit v.opened ∈ marks := ih (Option.filter_eq_some_iff.mp hw).1
        rw [hit_of_open hw]
        exact List.mem_append_left _ hmem

end Window

end Knova.Library
