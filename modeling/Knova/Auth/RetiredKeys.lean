import Knova.Auth.Config
import Mathlib.Data.Sum.Basic

/-!
# The retired keys

What `JWT_RETIRED_KEYS` is read as: one key for each entry that names one, in the order of the
entries, and nothing for any other, so that a malformed entry costs only itself.
-/

namespace Knova

/-- The text before the first separator holds none. -/
lemma splitOnce_eq_some {sep : Char} {s before after : List Char} :
    splitOnce sep s = some (before, after) ↔ s = before ++ sep :: after ∧ sep ∉ before := by
  induction s generalizing before with
  | nil => simp [splitOnce]
  | cons c s ih =>
    rw [splitOnce]
    split
    · rename_i hc
      subst hc
      cases before with
      | nil => simp
      | cons d before =>
        simp only [Option.some.injEq, Prod.mk.injEq, List.nil_eq, reduceCtorEq, false_and,
          List.cons_append, List.cons.injEq, List.mem_cons, not_or, false_iff]
        rintro ⟨⟨hd, -⟩, hne, -⟩
        exact hne hd
    · rename_i hc
      simp only [Option.map_eq_some_iff, Prod.exists, Prod.mk.injEq]
      constructor
      · rintro ⟨before', after', hsplit, rfl, rfl⟩
        obtain ⟨rfl, hmem⟩ := ih.mp hsplit
        exact ⟨rfl, by simpa [eq_comm, hmem] using hc⟩
      · rintro ⟨heq, hmem⟩
        cases before with
        | nil => exact absurd (List.cons.inj heq).1 hc
        | cons d before =>
          obtain ⟨rfl, rfl⟩ := List.cons.inj heq
          exact ⟨before, after, ih.mpr ⟨rfl, fun h => hmem (by simp [h])⟩, rfl, rfl⟩

/-- A key as it is written in the list. -/
def KeyMaterial.render (key : KeyMaterial) : String := key.kid ++ "=" ++ key.secret

/-- A key whose entry says what it is. -/
structure KeyMaterial.Renderable (key : KeyMaterial) : Prop where
  trimmed : trim key.kid.toList = key.kid.toList
  kid : key.kid ≠ ""
  kid_free : ∀ c ∈ key.kid.toList, c ≠ '=' ∧ c ≠ ';'
  secret : key.secret ≠ ""
  secret_free : ';' ∉ key.secret.toList

namespace AuthService.Config

/-- An entry names a key: something but blanks before its first `=`, and something after. -/
def Names (entry : String) (key : KeyMaterial) : Prop :=
  ∃ before after, entry.toList = before ++ '=' :: after ∧ '=' ∉ before ∧
    (∃ c ∈ before, isWhitespace c = false) ∧ after ≠ [] ∧
    key = ⟨String.ofList (trim before), String.ofList after⟩

/-- One key for each entry that names one, in order, and nothing for the others. -/
inductive Reads : List String → List KeyMaterial → Prop
  | nil : Reads [] []
  | key {entry key entries keys} : Names entry key → Reads entries keys →
      Reads (entry :: entries) (key :: keys)
  | skip {entry entries keys} : (∀ key, ¬Names entry key) → Reads entries keys →
      Reads (entry :: entries) keys

/-- What one entry contributes. -/
def readEntry (entry : List Char) : Option KeyMaterial :=
  ((splitOnce '=' entry).map fun (kid, secret) =>
    ⟨String.ofList (trim kid), String.ofList secret⟩).filter
      fun key => key.kid ≠ "" && key.secret ≠ ""

variable {entry : String} {entries : List String} {key : KeyMaterial}

lemma readEntry_eq_some : readEntry entry.toList = some key ↔ Names entry key := by
  have htext : ∀ s : List Char, String.ofList s = "" ↔ s = [] := fun s => by
    rw [← String.toList_inj, String.toList_ofList]
    rfl
  have hblank : ∀ s : List Char, trim s ≠ [] ↔ ∃ c ∈ s, isWhitespace c = false := by
    intro s
    rw [ne_eq, trim_eq_nil_iff]
    simp
  unfold readEntry Names
  rw [Option.filter_eq_some_iff, Option.map_eq_some_iff]
  simp only [Prod.exists, splitOnce_eq_some, Bool.and_eq_true, decide_eq_true_eq]
  constructor
  · rintro ⟨⟨before, after, ⟨htoList, hfirst⟩, rfl⟩, hkid, hsecret⟩
    rw [ne_eq, htext] at hkid hsecret
    exact ⟨before, after, htoList, hfirst, (hblank before).mp hkid, hsecret, rfl⟩
  · rintro ⟨before, after, htoList, hfirst, hkid, hsecret, rfl⟩
    refine ⟨⟨before, after, ⟨htoList, hfirst⟩, rfl⟩, ?_, ?_⟩
    · rw [ne_eq, htext]
      exact (hblank before).mpr hkid
    · rwa [ne_eq, htext]

lemma parseRetired_eq (raw : String) :
    parseRetired raw = (raw.toList.splitOn ';').filterMap readEntry := by
  unfold parseRetired
  induction raw.toList.splitOn ';' with
  | nil => rfl
  | cons entry entries ih =>
    rw [List.filterMap_cons, List.filterMap_cons, ← ih, readEntry]
    cases splitOnce '=' entry with
    | none => rfl
    | some split =>
      simp only [Option.map_some, List.map_cons, List.filter_cons, Option.filter_some]
      split <;> rfl

lemma parseRetired_intercalate (h : ∀ entry ∈ entries, ';' ∉ entry.toList) :
    parseRetired (";".intercalate entries) = entries.filterMap fun e => readEntry e.toList := by
  rw [parseRetired_eq, String.toList_intercalate]
  cases entries with
  | nil => rfl
  | cons entry entries =>
    rw [show ";".toList = [';'] from rfl, List.splitOn_intercalate ';' _ (by simp),
      List.filterMap_map]
    · rfl
    · intro l hl
      obtain ⟨e, he, rfl⟩ := List.mem_map.mp hl
      exact h e he

lemma reads_filterMap (entries : List String) :
    Reads entries (entries.filterMap fun e => readEntry e.toList) := by
  induction entries with
  | nil => exact .nil
  | cons entry entries ih =>
    cases hread : readEntry entry.toList with
    | none =>
      simp only [List.filterMap_cons, hread]
      refine .skip (fun key hkey => ?_) ih
      rw [readEntry_eq_some.mpr hkey] at hread
      cases hread
    | some key =>
      simp only [List.filterMap_cons, hread]
      exact .key (readEntry_eq_some.mp hread) ih

lemma names_render (h : key.Renderable) : Names key.render key := by
  have hne : ∀ s : String, s ≠ "" → s.toList ≠ [] := fun s hs h =>
    hs (String.toList_eq_nil_iff.mp h)
  refine ⟨key.kid.toList, key.secret.toList, ?_, fun hmem => (h.kid_free _ hmem).1 rfl, ?_,
    hne _ h.secret, ?_⟩
  · simp [KeyMaterial.render, String.toList_append]
  · by_contra hblank
    refine hne _ h.kid (h.trimmed ▸ trim_eq_nil_iff.mpr fun c hc => ?_)
    by_contra hc'
    exact hblank ⟨c, hc, by simpa using hc'⟩
  · rw [h.trimmed, String.ofList_toList, String.ofList_toList]

lemma render_free (h : key.Renderable) : ';' ∉ key.render.toList := by
  intro hmem
  rw [KeyMaterial.render, String.toList_append, String.toList_append] at hmem
  rcases List.mem_append.mp hmem with hmem | hmem
  · rcases List.mem_append.mp hmem with hmem | hmem
    · exact (h.kid_free _ hmem).2 rfl
    · exact absurd hmem (by decide)
  · exact h.secret_free hmem

/-- The list is read entry by entry, and keys written into it are read back, whatever malformed
entries stand between them. -/
theorem retired_round_trip :
    (∀ entries : List String, (∀ entry ∈ entries, ';' ∉ entry.toList) →
      Reads entries (parseRetired (";".intercalate entries))) ∧
    ∀ items : List (KeyMaterial ⊕ String), (∀ key, .inl key ∈ items → key.Renderable) →
      (∀ entry, .inr entry ∈ items → ';' ∉ entry.toList ∧ ∀ key, ¬Names entry key) →
      parseRetired (";".intercalate (items.map (Sum.elim KeyMaterial.render id))) =
        items.filterMap Sum.getLeft? := by
  refine ⟨fun entries h => ?_, fun items hkeys hothers => ?_⟩
  · rw [parseRetired_intercalate h]
    exact reads_filterMap entries
  · rw [parseRetired_intercalate, List.filterMap_map]
    · refine List.filterMap_congr fun item hitem => ?_
      cases item with
      | inl key => exact readEntry_eq_some.mpr (names_render (hkeys key hitem))
      | inr entry =>
        refine Option.eq_none_iff_forall_ne_some.mpr fun key hread => ?_
        exact (hothers entry hitem).2 key (readEntry_eq_some.mp hread)
    · intro entry hentry
      obtain ⟨item, hitem, rfl⟩ := List.mem_map.mp hentry
      cases item with
      | inl key => exact render_free (hkeys key hitem)
      | inr entry => exact (hothers entry hitem).1

/-- A key, a typo, and a key with a `=` in its secret. -/
theorem retired_round_trip_three :
    Reads ["k0=s0", "junk", " k1 =a=b"] (parseRetired "k0=s0;junk; k1 =a=b") ∧
    parseRetired "k0=s0;junk;k1=a=b" = [⟨"k0", "s0"⟩, ⟨"k1", "a=b"⟩] := by
  refine ⟨retired_round_trip.1 ["k0=s0", "junk", " k1 =a=b"] (by simp), ?_⟩
  refine retired_round_trip.2 [.inl ⟨"k0", "s0"⟩, .inr "junk", .inl ⟨"k1", "a=b"⟩] ?_ ?_
  · intro key hkey
    simp only [List.mem_cons, Sum.inl.injEq, reduceCtorEq, List.not_mem_nil, or_false,
      false_or] at hkey
    rcases hkey with rfl | rfl
    · exact ⟨by decide, by decide, by simp, by decide, by simp⟩
    · exact ⟨by decide, by decide, by simp, by decide, by simp⟩
  · intro entry hentry
    obtain rfl : entry = "junk" := by simpa using hentry
    refine ⟨by simp, ?_⟩
    rintro key ⟨before, after, heq, -⟩
    have hmem : '=' ∈ "junk".toList := by simp [heq]
    exact absurd hmem (by simp)

end AuthService.Config

end Knova
