import Knova.Common.Dto
import Knova.Library.PrefixCode
import Mathlib.Data.Nat.Notation

/-!
# The records as JSON

What `serde_json::to_string` writes for the records of this service. Writing them cannot
fail, and a reader can tell from the text which record was written.
-/

namespace Knova

open Library

namespace Json

/-- The letter of a two-character escape. -/
def short : Char → Option Char
  | '"' => some '"'
  | '\\' => some '\\'
  | '\n' => some 'n'
  | '\r' => some 'r'
  | '\t' => some 't'
  | '\x08' => some 'b'
  | '\x0c' => some 'f'
  | _ => none

/-- One character inside a string. -/
def escape (c : Char) : List Char :=
  match short c with
  | some letter => ['\\', letter]
  | none =>
    if c.toNat < 32 then
      ['\\', 'u', '0', '0', Nat.digitChar (c.toNat / 16), Nat.digitChar (c.toNat % 16)]
    else [c]

def string (s : String) : List Char :=
  '"' :: s.toList.flatMap escape ++ ['"']

def number (n : ℕ) : List Char := Nat.toDigits 10 n

/-- The members of an object, separated by commas. -/
def members : List (String × List Char) → List Char
  | [] => []
  | [(name, value)] => string name ++ ':' :: value
  | (name, value) :: rest => string name ++ ':' :: value ++ ',' :: members rest

def object (fields : List (String × List Char)) : List Char :=
  '{' :: members fields ++ ['}']

def array : List (List Char) → List Char
  | [] => ['[', ']']
  | x :: xs => '[' :: x ++ xs.flatMap (fun y => ',' :: y) ++ [']']

/-! ### What was written can be told from the text -/

lemma eq_of_short {c d letter : Char} (hc : short c = some letter) (hd : short d = some letter) :
    c = d := by
  unfold short at hc hd
  split at hc <;> cases hc <;> split at hd <;> simp_all

lemma short_ne_u {c : Char} : short c ≠ some 'u' := by
  unfold short
  split <;> simp

lemma digitChar_inj : ∀ n < 16, ∀ m < 16, Nat.digitChar n = Nat.digitChar m → n = m := by
  decide

lemma escape_prefixCode : PrefixCode escape := by
  intro c d r r' h
  unfold escape at h
  cases hc : short c with
  | some letter =>
    cases hd : short d with
    | some letter' =>
      simp only [hc, hd, List.cons_append, List.nil_append, List.cons.injEq, true_and] at h
      obtain ⟨rfl, hr⟩ := h
      exact ⟨eq_of_short hc hd, hr⟩
    | none =>
      simp only [hc, hd] at h
      split at h
      · simp only [List.cons_append, List.cons.injEq] at h
        exact absurd (h.2.1 ▸ hc) short_ne_u
      · simp only [List.cons_append, List.cons.injEq] at h
        rw [← h.1] at hd
        cases hd
  | none =>
    cases hd : short d with
    | some letter' =>
      simp only [hc, hd] at h
      split at h
      · simp only [List.cons_append, List.cons.injEq] at h
        exact absurd (h.2.1 ▸ hd) short_ne_u
      · simp only [List.cons_append, List.cons.injEq] at h
        rw [h.1] at hc
        cases hc
    | none =>
      simp only [hc, hd] at h
      split at h <;> split at h
      · rename_i hc' hd'
        simp only [List.cons_append, List.nil_append, List.cons.injEq, true_and] at h
        obtain ⟨hdiv, hmod, hr⟩ := h
        have hdiv' := digitChar_inj _ (by omega) _ (by omega) hdiv
        have hmod' := digitChar_inj _ (by omega) _ (by omega) hmod
        refine ⟨Char.toNat_inj.mp ?_, hr⟩
        omega
      · simp only [List.cons_append, List.cons.injEq] at h
        rw [← h.1] at hd
        cases hd
      · simp only [List.cons_append, List.cons.injEq] at h
        rw [h.1] at hc
        cases hc
      · simpa using h

lemma string_prefixCode : PrefixCode string := by
  have hquote : ∀ c r r', escape c ++ r ≠ '"' :: r' := by
    intro c r r' h
    unfold escape at h
    split at h
    · simp at h
    · rename_i hc
      split at h
      · simp at h
      · simp only [List.cons_append, List.cons.injEq] at h
        rw [h.1] at hc
        cases hc
  exact ((escape_prefixCode.terminated hquote).comp fun s t => String.toList_inj.mp).literal ['"']

/-- A number before a character that is not a digit. -/
lemma number_prefixCode {t : Char} (ht : t.isDigit = false) :
    PrefixCode fun n => number n ++ [t] := by
  refine PrefixCode.ended (fun n m h => ?_) fun n hmem => ?_
  · have hn := Nat.ofDigitChars_ten_toDigits (n := n)
    rw [show Nat.toDigits 10 n = Nat.toDigits 10 m from h, Nat.ofDigitChars_ten_toDigits] at hn
    exact hn.symm
  · have := Nat.isDigit_of_mem_toDigits (by decide) (by decide) hmem
    rw [ht] at this
    cases this

/-- A text member and what follows it. -/
lemma text_member {name s s' : String} {r r' : List Char}
    (h : string name ++ ':' :: (string s ++ r) = string name ++ ':' :: (string s' ++ r')) :
    s = s' ∧ r = r' :=
  string_prefixCode _ _ _ _ (List.cons.inj (List.append_cancel_left h)).2

/-- A numeric member, the character that ends it, and what follows. -/
lemma number_member {name : String} {n n' : ℕ} {t : Char} {r r' : List Char}
    (ht : t.isDigit = false) (h : string name ++ ':' :: (number n ++ t :: r) =
      string name ++ ':' :: (number n' ++ t :: r')) :
    n = n' ∧ r = r' :=
  number_prefixCode ht _ _ _ _ (by simpa using (List.cons.inj (List.append_cancel_left h)).2)

/-- Arrays of objects. -/
lemma array_prefixCode {α : Type} {code : α → List Char} (hcode : PrefixCode code)
    (hopen : ∀ x r r', code x ++ r ≠ ']' :: r') :
    PrefixCode fun l : List α => array (l.map code) := by
  have hrest := (hcode.literal [',']).terminated (t := ']') (by simp)
  intro l m r r' h
  cases l with
  | nil =>
    cases m with
    | nil => exact ⟨rfl, by simpa [array] using h⟩
    | cons y m => exact absurd (by simpa [array] using h.symm) (hopen y _ r)
  | cons x l =>
    cases m with
    | nil => exact absurd (by simpa [array] using h) (hopen x _ r')
    | cons y m =>
      simp only [array, List.map_cons, List.cons_append, List.append_assoc, List.cons.injEq,
        true_and] at h
      obtain ⟨rfl, h'⟩ := hcode x y _ _ h
      obtain ⟨rfl, hr⟩ := hrest l m r r' (by simpa [List.flatMap_map] using h')
      exact ⟨rfl, hr⟩

end Json

/-- A profile as its fields stand on the wire. -/
def Profile.json (p : Profile) : List Char :=
  Json.object [("user_id", Json.string p.userId.asStr), ("address", Json.string p.address),
    ("phone_number", Json.string p.phoneNumber), ("version", Json.number p.version.get)]

def Profile.toJson (p : Profile) : String := String.ofList p.json

def ErrorResponse.toJson (e : ErrorResponse) : String :=
  String.ofList (Json.object [("error", Json.string e.error), ("message", Json.string e.message)])

def LoginResponse.toJson (r : LoginResponse) : String :=
  String.ofList (Json.object [("access_token", Json.string r.accessToken),
    ("token_type", Json.string r.tokenType), ("expires_in", Json.number r.expiresIn)])

lemma Profile.json_prefixCode : PrefixCode Profile.json := by
  intro p q r r' h
  simp only [Profile.json, Json.object, Json.members, List.cons_append, List.append_assoc,
    List.cons.injEq, true_and, List.nil_append] at h
  obtain ⟨huser, h⟩ := Json.text_member h
  obtain ⟨haddress, h⟩ := Json.text_member (List.cons.inj h).2
  obtain ⟨hphone, h⟩ := Json.text_member (List.cons.inj h).2
  obtain ⟨hversion, hr⟩ := Json.number_member (by decide) (List.cons.inj h).2
  obtain ⟨⟨user⟩, address, phone, version⟩ := p
  obtain ⟨⟨user'⟩, address', phone', version'⟩ := q
  dsimp only at huser haddress hphone hversion
  obtain rfl := Version.ext hversion
  subst huser haddress hphone
  exact ⟨rfl, hr⟩

/-- The text of a profile determines it. -/
theorem Profile.toJson_injective : Function.Injective Profile.toJson :=
  fun _ _ h => Profile.json_prefixCode.injective (String.ofList_injective h)

example : Profile.toJson ⟨⟨"u"⟩, "1 \"Main\" St", "5550100", .initial⟩ =
    "\x7b\"user_id\":\"u\",\"address\":\"1 \\\"Main\\\" St\"," ++
      "\"phone_number\":\"5550100\",\"version\":1\x7d" := by
  decide

end Knova
