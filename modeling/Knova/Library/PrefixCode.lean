import Mathlib.Data.List.Basic

/-!
# Codes that show where their words end

A text that begins with a word of a prefix code determines the word and what follows it,
so words can be written one after another and read back without ambiguity.
-/

namespace Knova.Library

/-- A text begins with at most one word of `code`. -/
def PrefixCode {α σ : Type} (code : α → List σ) : Prop :=
  ∀ x y r r', code x ++ r = code y ++ r' → x = y ∧ r = r'

namespace PrefixCode

variable {α β σ : Type} {f : α → List σ} {g : β → List σ}

lemma injective (hf : PrefixCode f) : Function.Injective f := by
  intro x y h
  exact (hf x y [] [] (by rw [h])).1

lemma comp (hf : PrefixCode f) {e : β → α} (he : Function.Injective e) :
    PrefixCode fun x => f (e x) := by
  intro x y r r' h
  obtain ⟨hxy, hr⟩ := hf (e x) (e y) r r' h
  exact ⟨he hxy, hr⟩

/-- Words after a fixed text. -/
lemma literal (l : List σ) (hf : PrefixCode f) : PrefixCode fun x => l ++ f x := by
  intro x y r r' h
  rw [List.append_assoc, List.append_assoc] at h
  exact hf x y r r' (List.append_cancel_left h)

/-- Any number of words before a symbol no word begins with. -/
lemma terminated (hf : PrefixCode f) {t : σ} (ht : ∀ x r r', f x ++ r ≠ t :: r') :
    PrefixCode fun l : List α => l.flatMap f ++ [t] := by
  intro l
  induction l with
  | nil =>
    intro m r r' h
    cases m with
    | nil => exact ⟨rfl, by simpa using h⟩
    | cons y m => exact absurd (by simpa using h.symm) (ht y _ r)
  | cons x l ih =>
    intro m r r' h
    cases m with
    | nil => exact absurd (by simpa using h) (ht x _ r')
    | cons y m =>
      simp only [List.flatMap_cons, List.append_assoc] at h
      obtain ⟨rfl, h'⟩ := hf x y _ _ h
      obtain ⟨rfl, hr⟩ := ih m r r' (by simpa using h')
      exact ⟨rfl, hr⟩

/-- The first place of a symbol splits a text in one way. -/
lemma eq_of_append_cons {t : σ} {l m r r' : List σ} (hl : t ∉ l) (hm : t ∉ m)
    (h : l ++ t :: r = m ++ t :: r') : l = m ∧ r = r' := by
  induction l generalizing m with
  | nil =>
    cases m with
    | nil => exact ⟨rfl, (List.cons_eq_cons.mp h).2⟩
    | cons b m => exact absurd (List.mem_cons.mpr (.inl (List.cons_eq_cons.mp h).1)) hm
  | cons a l ih =>
    cases m with
    | nil => exact absurd (List.mem_cons.mpr (.inl (List.cons_eq_cons.mp h).1.symm)) hl
    | cons b m =>
      obtain ⟨rfl, h'⟩ := List.cons_eq_cons.mp h
      obtain ⟨rfl, hr⟩ := ih (List.not_mem_of_not_mem_cons hl) (List.not_mem_of_not_mem_cons hm) h'
      exact ⟨rfl, hr⟩

/-- Different texts without a symbol, ended by it. -/
lemma ended (hf : Function.Injective f) {t : σ} (ht : ∀ x, t ∉ f x) :
    PrefixCode fun x => f x ++ [t] := by
  intro x y r r' h
  simp only [List.append_assoc, List.singleton_append] at h
  obtain ⟨hxy, hr⟩ := eq_of_append_cons (ht x) (ht y) h
  exact ⟨hf hxy, hr⟩

end PrefixCode

end Knova.Library
