import Mathlib.Algebra.Order.Ring.Int
import Mathlib.Data.List.DropRight

/-!
# Versions and entity tags

`Version` is a profile's revision counter together with the entity tag that carries it
on the wire. Text is handled as lists of characters, the way the parser walks it.
-/

namespace Knova

/-- `char::is_whitespace`: the Unicode property White_Space. -/
def isWhitespace (c : Char) : Bool :=
  let n := c.toNat
  (9 ≤ n && n ≤ 13) || n == 32 || n == 0x85 || n == 0xA0 || n == 0x1680 ||
    (0x2000 ≤ n && n ≤ 0x200A) || n == 0x2028 || n == 0x2029 || n == 0x202F ||
    n == 0x205F || n == 0x3000

/-- `str::trim_matches`: drops the matching characters from both ends. -/
def trimMatches (p : Char → Bool) (s : List Char) : List Char :=
  (s.dropWhile p).rdropWhile p

/-- `str::trim`. -/
def trim (s : List Char) : List Char :=
  trimMatches isWhitespace s

/-- `str::split_once`: what stands before and after the first `sep`. -/
def splitOnce (sep : Char) : List Char → Option (List Char × List Char)
  | [] => none
  | c :: s =>
    if c = sep then some ([], s)
    else (splitOnce sep s).map fun (before, after) => (c :: before, after)

/-- The value of a non-empty run of ASCII digits. -/
def decimal (s : List Char) : Option ℕ :=
  if s ≠ [] ∧ s.all Char.isDigit then
    some (s.foldl (fun n c => 10 * n + (c.toNat - 48)) 0)
  else none

/-- `str::parse::<u64>`: an optional leading `+`, then decimal digits, within the type. -/
def parseU64 (s : List Char) : Option ℕ :=
  match decimal (match s with | '+' :: rest => rest | _ => s) with
  | some n => if n < 2 ^ 64 then some n else none
  | none => none

/-- Trimming takes matching characters off both ends. -/
lemma exists_trimMatches (p : Char → Bool) (s : List Char) : ∃ before after,
    s = before ++ trimMatches p s ++ after ∧ (∀ c ∈ before, p c = true) ∧
      ∀ c ∈ after, p c = true := by
  refine ⟨s.takeWhile p, (s.dropWhile p).rtakeWhile p, ?_, fun c hc => List.mem_takeWhile_imp hc,
    fun c hc => List.mem_rtakeWhile_imp hc⟩
  rw [trimMatches, List.append_assoc, List.rdropWhile_append_rtakeWhile,
    List.takeWhile_append_dropWhile]

lemma trim_eq_nil_iff {s : List Char} : trim s = [] ↔ ∀ c ∈ s, isWhitespace c = true := by
  obtain ⟨before, after, hs, hbefore, hafter⟩ := exists_trimMatches isWhitespace s
  constructor
  · intro h c hc
    rw [hs, show trimMatches isWhitespace s = [] from h, List.append_nil] at hc
    exact (List.mem_append.mp hc).elim (hbefore c) (hafter c)
  · intro h
    have hdrop : s.dropWhile isWhitespace = [] := List.dropWhile_eq_nil_iff.mpr h
    rw [trim, trimMatches, hdrop, List.rdropWhile_nil]

/-- Trimming finds what stands between matching characters and holds none. -/
lemma trimMatches_append {p : Char → Bool} {before core after : List Char}
    (hbefore : ∀ c ∈ before, p c = true) (hcore : ∀ c ∈ core, ¬p c = true)
    (hafter : ∀ c ∈ after, p c = true) : trimMatches p (before ++ core ++ after) = core := by
  have hstart : (core ++ after).dropWhile p = core ++ after ∨ core = [] := by
    cases core with
    | nil => exact .inr rfl
    | cons c core => exact .inl (List.dropWhile_cons_of_neg (hcore c (by simp)))
  have hend : (core ++ after).rdropWhile p = core := by
    rw [List.rdropWhile, List.reverse_append, List.dropWhile_append_of_pos (by simpa using hafter)]
    exact (List.rdropWhile_eq_self_iff (p := p)).mpr fun hl => hcore _ (List.getLast_mem hl)
  rw [trimMatches, List.append_assoc, List.dropWhile_append_of_pos hbefore]
  rcases hstart with hstart | rfl
  · rw [hstart, hend]
  · rw [List.nil_append, List.dropWhile_eq_nil_iff.mpr hafter, List.rdropWhile_nil]

/-- No digit is whitespace. -/
lemma isWhitespace_of_isDigit {c : Char} (h : c.isDigit = true) : isWhitespace c = false := by
  simp only [Char.isDigit, Bool.and_eq_true, decide_eq_true_eq] at h
  have hlow : 48 ≤ c.toNat := h.1
  have hhigh : c.toNat ≤ 57 := h.2
  simp [isWhitespace]
  omega

/-- A profile's revision counter: a `u64`. -/
structure Version where
  get : ℕ
  lt : get < 2 ^ 64
  deriving DecidableEq

namespace Version

/-- The version a freshly created profile is stored at. -/
def initial : Version := ⟨1, by decide⟩

/-- The version after an accepted write, or `none` if the counter cannot advance. -/
def checkedNext (v : Version) : Option Version :=
  if h : v.get + 1 < 2 ^ 64 then some ⟨v.get + 1, h⟩ else none

/-- Renders as an HTTP entity tag, quotes included. -/
def toString (v : Version) : String :=
  "\"" ++ v.get.repr ++ "\""

/-- Accepts the quoted form an `ETag` round-trips as and the bare form typed by hand. -/
def fromStr (s : String) : Option Version :=
  match parseU64 (trimMatches (· == '"') (trim s.toList)) with
  | some n => if h : n < 2 ^ 64 then some ⟨n, h⟩ else none
  | none => none

@[ext] lemma ext {v w : Version} (h : v.get = w.get) : v = w := by
  cases v
  cases w
  simpa using h

@[simp] lemma initial_get : initial.get = 1 := rfl

lemma checkedNext_eq_some {v w : Version} : v.checkedNext = some w ↔ w.get = v.get + 1 := by
  unfold checkedNext
  split
  · rename_i h
    simp [Version.ext_iff, eq_comm]
  · rename_i h
    have := w.lt
    simp only [reduceCtorEq, false_iff]
    omega

lemma checkedNext_eq_none {v : Version} : v.checkedNext = none ↔ v.get = 2 ^ 64 - 1 := by
  unfold checkedNext
  have := v.lt
  split <;> simp <;> omega

example : fromStr " \"3\"" = some ⟨3, by decide⟩ := by decide

example : fromStr "*" = none := by decide

end Version

end Knova
