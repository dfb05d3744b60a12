import Knova.Common.Version
import Mathlib.Data.Nat.Digits.Defs

/-!
# What an `If-Match` value may look like

`Version` prints as one pair of quotes around a decimal number. The parser reads that back,
and the bare number, but strips quotes without counting them and leaves a `+` to the integer
parser: exactly these forms are accepted beyond what the documentation names.
-/

namespace Knova

/-- Text between `front` quotes on the left and `back` on the right. -/
def quoted (front : ℕ) (text : List Char) (back : ℕ) : List Char :=
  List.replicate front '"' ++ text ++ List.replicate back '"'

section

variable {text text' : List Char} {front front' back back' : ℕ}

lemma trimMatches_quoted (h : '"' ∉ text) :
    trimMatches (· == '"') (quoted front text back) = text := by
  refine trimMatches_append (fun c hc => ?_) (fun c hc heq => ?_) fun c hc => ?_
  · simpa using List.eq_of_mem_replicate hc
  · rw [beq_iff_eq] at heq
    exact h (heq ▸ hc)
  · simpa using List.eq_of_mem_replicate hc

/-- Quotes can be counted on both sides. -/
lemma quoted_inj (h : '"' ∉ text) (h' : '"' ∉ text') (hne : text ≠ [])
    (heq : quoted front text back = quoted front' text' back') :
    front = front' ∧ text = text' ∧ back = back' := by
  have htext : text = text' := by
    calc text = trimMatches (· == '"') (quoted front text back) := (trimMatches_quoted h).symm
      _ = text' := by rw [heq, trimMatches_quoted h']
  subst htext
  have hfront : ∀ n m, ((quoted n text m).takeWhile (· == '"')).length = n := by
    intro n m
    obtain ⟨c, cs, rfl⟩ := List.exists_cons_of_ne_nil hne
    have hc : c ≠ '"' := fun hc => h (by simp [hc])
    rw [quoted, List.append_assoc, List.takeWhile_append_of_pos (by simp)]
    simp [hc]
  have hfronts : front = front' := by
    rw [← hfront front back, heq, hfront]
  have hlength := congrArg List.length heq
  simp only [quoted, List.length_append, List.length_replicate] at hlength
  exact ⟨hfronts, rfl, by omega⟩

end

/-! ### Decimal numbers -/

lemma decimal_eq_some {s : List Char} {n : ℕ} :
    decimal s = some n ↔ s ≠ [] ∧ (∀ c ∈ s, c.isDigit = true) ∧ Nat.ofDigitChars 10 s 0 = n := by
  unfold decimal
  split
  · rename_i h
    rw [List.all_eq_true] at h
    simp only [Option.some.injEq, h.1, ne_eq, not_false_eq_true, true_and]
    exact ⟨fun heq => ⟨h.2, heq⟩, fun heq => heq.2⟩
  · rename_i h
    rw [List.all_eq_true] at h
    simp only [reduceCtorEq, false_iff]
    exact fun hs => h ⟨hs.1, hs.2.1⟩

lemma decimal_repr (n : ℕ) : decimal n.repr.toList = some n := by
  have hdigits : n.repr.toList = Nat.toDigits 10 n := by
    rw [Nat.repr, String.toList_ofList]
  rw [hdigits, decimal_eq_some]
  refine ⟨Nat.toDigits_ne_nil, fun c hc => Nat.isDigit_of_mem_toDigits (by decide) (by decide) hc,
    Nat.ofDigitChars_ten_toDigits⟩

lemma ofDigitChars_concat (s : List Char) (c : Char) : Nat.ofDigitChars 10 (s ++ [c]) 0 =
    10 * Nat.ofDigitChars 10 s 0 + (c.toNat - 48) := by
  rw [Nat.ofDigitChars_append, Nat.ofDigitChars_cons, Nat.ofDigitChars_nil]
  rfl

/-- A number without a leading zero is written one way. -/
lemma toDigits_ofDigitChars {s : List Char} (hne : s ≠ []) (hdigit : ∀ c ∈ s, c.isDigit = true)
    (hzero : s.head? = some '0' → s = ['0']) : Nat.toDigits 10 (Nat.ofDigitChars 10 s 0) = s := by
  induction s using List.reverseRecOn with
  | nil => exact absurd rfl hne
  | append_singleton s c ih =>
    have hc : 48 ≤ c.toNat ∧ c.toNat ≤ 57 := Char.isDigit_iff_toNat.mp (hdigit c (by simp))
    have hlast : Nat.toDigits 10 (c.toNat - 48) = [c] := by
      rw [Nat.toDigits_of_lt_base (by omega), List.cons.injEq]
      refine ⟨Char.toNat_inj.mp ?_, rfl⟩
      rw [Nat.toNat_digitChar_of_lt_ten (by omega)]
      omega
    rw [ofDigitChars_concat]
    by_cases hs : s = []
    · simpa [hs] using hlast
    · have hhead : s.head? ≠ some '0' := by
        intro h
        have hfull := congrArg List.length (hzero (by rw [List.head?_append, h]; rfl))
        have hlength := List.length_pos_iff.mpr hs
        simp only [List.length_append, List.length_cons, List.length_nil] at hfull
        omega
      have hprefix := ih hs (fun d hd => hdigit d (by simp [hd])) fun h => absurd h hhead
      have hpos : 0 < Nat.ofDigitChars 10 s 0 := by
        refine Nat.pos_of_ne_zero fun h => hhead ?_
        rw [← hprefix, h]
        rfl
      rw [← Nat.toDigits_append_toDigits (by decide) hpos (by omega), hprefix, hlast]

/-- A digit is neither a quote nor a sign. -/
lemma not_mem_of_decimal {s : List Char} {n : ℕ} {c : Char} (h : decimal s = some n)
    (hc : c.isDigit = false) : c ∉ s := by
  intro hmem
  have hdigit := (decimal_eq_some.mp h).2.1 c hmem
  rw [hc] at hdigit
  cases hdigit

lemma parseU64_of_plus (digits : List Char) :
    parseU64 ('+' :: digits) = (decimal digits).filter (· < 2 ^ 64) := by
  unfold parseU64
  cases h : decimal digits with
  | none => simp only [h, Option.filter_none]
  | some n => simp only [h, Option.filter_some, decide_eq_true_eq]

lemma parseU64_of_not_plus {s : List Char} (hs : ∀ digits, s ≠ '+' :: digits) :
    parseU64 s = (decimal s).filter (· < 2 ^ 64) := by
  have hself : parseU64 s = parseU64 ('+' :: s) := by
    unfold parseU64
    cases s with
    | nil => rfl
    | cons c rest => simp
  rw [hself, parseU64_of_plus]

lemma parseU64_eq_some {s : List Char} {n : ℕ} : parseU64 s = some n ↔
    n < 2 ^ 64 ∧ (decimal s = some n ∨ ∃ digits, s = '+' :: digits ∧ decimal digits = some n) := by
  by_cases hs : ∃ digits, s = '+' :: digits
  · obtain ⟨digits, rfl⟩ := hs
    have hsign : decimal ('+' :: digits) ≠ some n := fun h =>
      not_mem_of_decimal h (c := '+') (by decide) (by simp)
    simp [parseU64_of_plus, hsign, Option.filter_eq_some_iff, and_comm]
  · have hplus : ∀ digits, s ≠ '+' :: digits := fun digits heq => hs ⟨digits, heq⟩
    simp [parseU64_of_not_plus hplus, hplus, Option.filter_eq_some_iff, and_comm]

namespace Version

variable {s : String} {v : Version}

/-- What stands for a version once the quotes are off. -/
def Numeral (text : List Char) (v : Version) : Prop :=
  decimal text = some v.get ∨ ∃ digits, text = '+' :: digits ∧ decimal digits = some v.get

lemma Numeral.no_quote {text : List Char} (h : Numeral text v) : '"' ∉ text ∧ text ≠ [] := by
  rcases h with h | ⟨digits, rfl, h⟩
  · exact ⟨not_mem_of_decimal h (by decide), (decimal_eq_some.mp h).1⟩
  · have := not_mem_of_decimal h (c := '"') (by decide)
    exact ⟨by simp [this], by simp⟩

/-- The language of the parser. -/
theorem fromStr_eq_some : fromStr s = some v ↔
    ∃ front text back, trim s.toList = quoted front text back ∧ Numeral text v := by
  have hparse : fromStr s = some v ↔
      parseU64 (trimMatches (· == '"') (trim s.toList)) = some v.get := by
    unfold fromStr
    constructor
    · intro h
      split at h
      · rename_i n hn
        split at h
        · obtain rfl := Option.some.inj h
          exact hn
        · cases h
      · cases h
    · intro h
      simp only [h, dif_pos v.lt]
  rw [hparse, parseU64_eq_some]
  constructor
  · rintro ⟨-, h⟩
    obtain ⟨before, after, heq, hbefore, hafter⟩ :=
      exists_trimMatches (· == '"') (trim s.toList)
    refine ⟨before.length, _, after.length, ?_, h⟩
    have hb : before = List.replicate before.length '"' :=
      List.eq_replicate_of_mem fun c hc => by simpa using hbefore c hc
    have ha : after = List.replicate after.length '"' :=
      List.eq_replicate_of_mem fun c hc => by simpa using hafter c hc
    rw [quoted, ← hb, ← ha, ← heq]
  · rintro ⟨front, text, back, heq, h⟩
    rw [heq, trimMatches_quoted h.no_quote.1]
    exact ⟨v.lt, h⟩

/-- A decimal number within the type, bare or between one pair of quotes. -/
def Accepts (text : List Char) (v : Version) : Prop :=
  ∃ digits, (text = digits ∨ text = quoted 1 digits 1) ∧ decimal digits = some v.get

/-- What the documentation promises of one string. -/
structure Exact (s : String) : Prop where
  /-- Exactly the two forms are accepted. -/
  accepts : ∀ v, fromStr s = some v ↔ Accepts (trim s.toList) v
  /-- Between quotes, without a leading zero, stands what the version prints as. -/
  prints : ∀ v body, fromStr s = some v → trim s.toList = quoted 1 body 1 →
    (body.head? = some '0' → body = ['0']) → trim s.toList = v.toString.toList

/-- A version behind a `+`, behind more quotes than one, or between different numbers of
quotes. -/
def Lax (text : List Char) : Prop :=
  ∃ front numeral back v, text = quoted front numeral back ∧ Numeral numeral v ∧
    (numeral.head? = some '+' ∨ 1 < front ∨ front ≠ back)

lemma toList_toString (v : Version) : v.toString.toList = quoted 1 v.get.repr.toList 1 := by
  simp [Version.toString, quoted, String.toList_append]

lemma trim_toString (v : Version) : trim v.toString.toList = v.toString.toList := by
  have hvisible : ∀ c ∈ v.toString.toList, ¬isWhitespace c = true := by
    intro c hc
    rw [toList_toString, quoted, List.append_assoc] at hc
    simp only [List.mem_append, List.mem_replicate] at hc
    rcases hc with ⟨-, rfl⟩ | hc | ⟨-, rfl⟩
    · decide
    · have hdigit := (decimal_eq_some.mp (decimal_repr v.get)).2.1 c hc
      rw [isWhitespace_of_isDigit hdigit]
      decide
    · decide
  simpa [trim] using @trimMatches_append isWhitespace [] _ [] (by simp) hvisible (by simp)

/-- What is printed is read back. -/
lemma fromStr_toString (v : Version) : fromStr v.toString = some v :=
  fromStr_eq_some.mpr
    ⟨1, v.get.repr.toList, 1, by rw [trim_toString, toList_toString], .inl (decimal_repr v.get)⟩

lemma Accepts.fromStr (h : Accepts (trim s.toList) v) : fromStr s = some v := by
  obtain ⟨digits, htext, hdigits⟩ := h
  refine fromStr_eq_some.mpr ?_
  rcases htext with htext | htext
  · exact ⟨0, digits, 0, by rw [htext]; simp [quoted], .inl hdigits⟩
  · exact ⟨1, digits, 1, htext, .inl hdigits⟩

/-- A text has one reading, so that no lax one is among the documented forms. -/
lemma Lax.not_accepts {text : List Char} (h : Lax text) : ∃ v, ¬Accepts text v ∧
    ∃ front numeral back, text = quoted front numeral back ∧ Numeral numeral v := by
  obtain ⟨front, numeral, back, v, htext, hnumeral, hlax⟩ := h
  refine ⟨v, ?_, front, numeral, back, htext, hnumeral⟩
  rintro ⟨digits, hforms, hdigits⟩
  have hdigit := (decimal_eq_some.mp hdigits).2.1
  obtain ⟨n, hn, heq⟩ : ∃ n ≤ 1, quoted front numeral back = quoted n digits n := by
    rcases hforms with hform | hform
    · exact ⟨0, by omega, by rw [← htext, hform]; simp [quoted]⟩
    · exact ⟨1, le_rfl, by rw [← htext, hform]⟩
  obtain ⟨rfl, rfl, rfl⟩ := quoted_inj hnumeral.no_quote.1
    (not_mem_of_decimal hdigits (by decide)) hnumeral.no_quote.2 heq
  rcases hlax with hsign | hmany | hne
  · have := hdigit '+' (List.mem_of_mem_head? hsign)
    exact absurd this (by decide)
  · omega
  · exact hne rfl

/-- Every other text is read as documented. -/
lemma fromStr_iff_accepts (hlax : ¬Lax (trim s.toList)) :
    fromStr s = some v ↔ Accepts (trim s.toList) v := by
  refine ⟨fun h => ?_, Accepts.fromStr⟩
  obtain ⟨front, text, back, htext, hnumeral⟩ := fromStr_eq_some.mp h
  have hstrict := fun hforms => hlax ⟨front, text, back, v, htext, hnumeral, hforms⟩
  have hdigits : decimal text = some v.get := by
    rcases hnumeral with hdigits | ⟨digits, rfl, -⟩
    · exact hdigits
    · exact absurd (.inl rfl) hstrict
  have hback : front = back := by
    by_contra hne
    exact hstrict (.inr (.inr hne))
  have hfront : front = 0 ∨ front = 1 := by
    by_contra hne
    exact hstrict (.inr (.inl (by omega)))
  subst hback
  refine ⟨text, ?_, hdigits⟩
  rcases hfront with rfl | rfl
  · exact .inl (by rw [htext]; simp [quoted])
  · exact .inr htext

/-- A documented form in quotes is what its version prints as, if it has no leading zero. -/
lemma Accepts.eq_toString {text body : List Char} (h : Accepts text v)
    (hbody : text = quoted 1 body 1) (hzero : body.head? = some '0' → body = ['0']) :
    text = v.toString.toList := by
  obtain ⟨digits, hforms, hdigits⟩ := h
  have hquote := not_mem_of_decimal hdigits (c := '"') (by decide)
  obtain ⟨hne, hdigit, hvalue⟩ := decimal_eq_some.mp hdigits
  have hsame : digits = body := by
    rcases hforms with hform | hform
    · have hmem : '"' ∈ quoted 1 body 1 := by simp [quoted]
      rw [← hbody, hform] at hmem
      exact absurd hmem hquote
    · simpa [quoted] using hform.symm.trans hbody
  subst hsame
  rw [hbody, toList_toString, Nat.repr, String.toList_ofList, ← hvalue,
    toDigits_ofDigitChars hne hdigit hzero]

/-- Printing is undone by parsing, and a string is read as documented exactly where no version
in it carries a `+` or other than no quotes or one pair. -/
theorem exact_iff_not_lax (v : Version) (s : String) :
    fromStr v.toString = some v ∧ (Exact s ↔ ¬Lax (trim s.toList)) := by
  refine ⟨fromStr_toString v, fun hexact hlax => ?_, fun hlax => ?_⟩
  · obtain ⟨v, hnot, hread⟩ := hlax.not_accepts
    exact hnot ((hexact.accepts v).mp (fromStr_eq_some.mpr hread))
  · exact ⟨fun v => fromStr_iff_accepts hlax, fun v body h hbody hzero =>
      ((fromStr_iff_accepts hlax).mp h).eq_toString hbody hzero⟩

/-- A quote that is never closed. -/
theorem exact_fails : ¬Exact "\"3" := by
  intro h
  obtain ⟨digits, hform, hdigits⟩ := (h.accepts ⟨3, by decide⟩).mp (by decide)
  have hquote := not_mem_of_decimal hdigits (c := '"') (by decide)
  rcases hform with hform | hform
  · rw [← hform] at hquote
    exact hquote (by decide)
  · have hlast := congrArg List.getLast? hform
    rw [quoted, List.getLast?_append_of_ne_nil _ (by simp)] at hlast
    exact absurd hlast (by decide)

end Version

end Knova
