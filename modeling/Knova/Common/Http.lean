import Mathlib.Data.List.DropRight

/-!
# Requests and responses on the wire

The parts of HTTP the handlers read and write: header values are bytes, header names are
lower case, and a lookup answers the first value under a name.
-/

namespace Knova

/-- The bytes of one header. -/
abbrev HeaderValue := List UInt8

/-- `HeaderValue::to_str`: the text, if every byte is visible ASCII or a tab. -/
def HeaderValue.toStr (value : HeaderValue) : Option String :=
  if value.all fun b => (32 ≤ b && b < 127) || b == 9 then
    some (String.ofList (value.map fun b => Char.ofNat b.toNat))
  else none

/-- The bytes of a text. -/
def HeaderValue.ofText (text : String) : HeaderValue :=
  text.toList.flatMap String.utf8EncodeChar

/-- Headers in the order in which they arrived. -/
abbrev HeaderMap := List (String × HeaderValue)

/-- `HeaderMap::get`: the first value under a name. -/
def HeaderMap.get (headers : HeaderMap) (name : String) : Option HeaderValue :=
  headers.lookup name

lemma HeaderMap.get_eq_none_iff {headers : HeaderMap} {name : String} :
    headers.get name = none ↔ ∀ value, (name, value) ∉ headers := by
  rw [get, List.lookup_eq_none_iff]
  constructor
  · intro h value hmem
    have := h _ hmem
    simp at this
  · rintro h ⟨name', value⟩ hmem
    simp only [bne_iff_ne]
    rintro rfl
    exact h value hmem

/-- `HeaderMap::insert`: the only value under a name from here on. -/
def HeaderMap.insert (headers : HeaderMap) (name : String) (value : HeaderValue) : HeaderMap :=
  (name, value) :: headers.filter fun header => header.1 ≠ name

/-- Whether a byte is a space or a tab. -/
def isBlank (b : UInt8) : Bool := b == 32 || b == 9

/-- What a server reads of headers on the wire: names in lower case, values without the
blanks around them. -/
def HeaderMap.ofWire (sent : List (String × HeaderValue)) : HeaderMap :=
  sent.map fun (name, value) => (String.ofList (name.toList.map Char.toLower),
    (value.dropWhile isBlank).rdropWhile isBlank)

/-- Whether a text may be sent as a header value. -/
def validHeaderText (text : String) : Bool :=
  text.toList.all fun c => (32 ≤ c.toNat && c.toNat != 127) || c == '\t'

/-- `HeaderValue::from_str`. -/
def HeaderValue.fromStr (text : String) : Option HeaderValue :=
  if validHeaderText text then some (ofText text) else none

namespace Headers

/-- Shared secret proving a request originated from the gateway. -/
def internalToken : String := "x-internal-token"

/-- The authenticated user, established by the gateway from a verified token. -/
def userId : String := "x-user-id"

/-- Correlates what both services log for one client request. -/
def requestId : String := "x-request-id"

end Headers

inductive Method
  | get
  | head
  | post
  | put
  | other (name : String)
  deriving DecidableEq

structure HttpRequest where
  method : Method
  path : String
  headers : HeaderMap
  body : List UInt8
  deriving DecidableEq

/-- `StatusCode::from_u16` accepts three-digit codes. -/
def validStatus (status : ℕ) : Bool := 100 ≤ status && status < 1000

structure Response where
  status : ℕ
  headers : List (String × String)
  body : String
  deriving DecidableEq

namespace Response

/-- What `StatusCode::into_response` renders. -/
def empty (status : ℕ) : Response := ⟨status, [], ""⟩

/-- `(status, headers, Json(value))`, given the text of `value`. -/
def json (status : ℕ) (headers : List (String × String)) (text : String) : Response :=
  ⟨status, ("content-type", "application/json") :: headers, text⟩

/-- What a method router answers to a method without a handler. -/
def methodNotAllowed (allow : String) : Response := ⟨405, [("allow", allow)], ""⟩

end Response

/-! ### Text as header values -/

lemma forall_mem_append {p : Char → Prop} {s t : String} (hs : ∀ c ∈ s.toList, p c)
    (ht : ∀ c ∈ t.toList, p c) : ∀ c ∈ (s ++ t).toList, p c := by
  intro c hc
  rcases List.mem_append.mp (String.toList_append ▸ hc) with hc | hc
  · exact hs c hc
  · exact ht c hc

lemma forall_mem_ofList {p : Char → Prop} [DecidablePred p] {l : List Char}
    (h : l.all (fun c => p c) = true) : ∀ c ∈ (String.ofList l).toList, p c := by
  rw [String.toList_ofList]
  exact fun c hc => of_decide_eq_true (List.all_eq_true.mp h c hc)

namespace HeaderValue

lemma utf8EncodeChar_of_lt {c : Char} (h : c.toNat < 128) :
    String.utf8EncodeChar c = [UInt8.ofNat c.toNat] := by
  have hsize : c.utf8Size = 1 := Char.utf8Size_eq_one_iff.mpr (Nat.le_of_lt_succ h)
  rw [String.utf8EncodeChar_eq_singleton hsize]
  rfl

lemma ofText_eq_map {text : String} (h : ∀ c ∈ text.toList, c.toNat < 128) :
    ofText text = text.toList.map fun c => UInt8.ofNat c.toNat := by
  unfold ofText
  rw [List.map_eq_flatMap]
  exact List.flatMap_congr fun c hc => utf8EncodeChar_of_lt (h c hc)

lemma toNat_ofNat {c : Char} (h : c.toNat < 128) : (UInt8.ofNat c.toNat).toNat = c.toNat := by
  rw [UInt8.toNat_ofNat', Nat.mod_eq_of_lt (by omega)]

/-- Text of visible characters and spaces is read back as it was sent. -/
lemma toStr_ofText {text : String} (h : ∀ c ∈ text.toList, 32 ≤ c.toNat ∧ c.toNat < 127) :
    (ofText text).toStr = some text := by
  have hascii : ∀ c ∈ text.toList, c.toNat < 128 := fun c hc => by have := h c hc; omega
  have hvisible : (ofText text).all (fun b => (32 ≤ b && b < 127) || b == 9) = true := by
    rw [ofText_eq_map hascii, List.all_map, List.all_eq_true]
    intro c hc
    have := h c hc
    have hnat := toNat_ofNat (hascii c hc)
    simp only [Function.comp_apply, Bool.or_eq_true, Bool.and_eq_true, decide_eq_true_eq,
      UInt8.le_iff_toNat_le, UInt8.lt_iff_toNat_lt, hnat]
    exact .inl this
  rw [toStr, if_pos hvisible, ofText_eq_map hascii, List.map_map]
  have hmap : text.toList.map ((fun b : UInt8 => Char.ofNat b.toNat) ∘
      fun c => UInt8.ofNat c.toNat) = text.toList := by
    conv_rhs => rw [← List.map_id text.toList]
    refine List.map_congr_left fun c hc => ?_
    rw [Function.comp_apply, toNat_ofNat (hascii c hc), Char.ofNat_toNat, id]
  rw [hmap, String.ofList_toList]

lemma ofText_append (s t : String) : ofText (s ++ t) = ofText s ++ ofText t := by
  rw [ofText, String.toList_append, List.flatMap_append]
  rfl

lemma ofText_eq_nil {text : String} : ofText text = [] ↔ text = "" := by
  rw [ofText, List.flatMap_eq_nil_iff, ← String.toList_eq_nil_iff]
  constructor
  · intro h
    rw [List.eq_nil_iff_forall_not_mem]
    intro c hc
    have hlen := congrArg List.length (h c hc)
    rw [String.length_utf8EncodeChar, List.length_nil] at hlen
    exact absurd hlen (Nat.ne_of_gt c.utf8Size_pos)
  · intro h c hc
    rw [h] at hc
    cases hc

/-- Visible characters are no blanks. -/
lemma not_isBlank_of_mem {text : String} (h : ∀ c ∈ text.toList, 32 < c.toNat ∧ c.toNat < 127)
    {b : UInt8} (hb : b ∈ ofText text) : ¬isBlank b = true := by
  have hascii : ∀ c ∈ text.toList, c.toNat < 128 := fun c hc => by have := h c hc; omega
  rw [ofText_eq_map hascii] at hb
  obtain ⟨c, hc, rfl⟩ := List.mem_map.mp hb
  have := h c hc
  have hnat := toNat_ofNat (hascii c hc)
  simp only [isBlank, Bool.or_eq_true, beq_iff_eq, ← UInt8.toNat_inj, hnat]
  rintro (heq | heq)
  · exact absurd heq (Nat.ne_of_gt this.1)
  · have h9 : c.toNat = 9 := heq
    omega

/-- A text of visible characters loses none of them on the wire. -/
lemma trim_ofText {text : String} (h : ∀ c ∈ text.toList, 32 < c.toNat ∧ c.toNat < 127) :
    ((ofText text).dropWhile isBlank).rdropWhile isBlank = ofText text := by
  have hdrop : (ofText text).dropWhile isBlank = ofText text :=
    List.dropWhile_eq_self_iff.mpr fun hl => not_isBlank_of_mem h (List.getElem_mem hl)
  rw [hdrop]
  exact List.rdropWhile_eq_self_iff.mpr fun hl => not_isBlank_of_mem h (List.getLast_mem hl)

/-- The blanks within a value stay. -/
lemma trim_append {first last : String} {b : UInt8} {bs : List UInt8}
    (hfirst : ofText first = b :: bs) (hb : ¬isBlank b = true) (hne : last ≠ "")
    (hlast : ∀ c ∈ last.toList, 32 < c.toNat ∧ c.toNat < 127) :
    ((ofText (first ++ last)).dropWhile isBlank).rdropWhile isBlank = ofText (first ++ last) := by
  have hne : ofText last ≠ [] := fun h => hne (ofText_eq_nil.mp h)
  rw [ofText_append, hfirst, List.cons_append, List.dropWhile_cons_of_neg hb, ← List.cons_append,
    List.rdropWhile_eq_self_iff]
  intro hl
  rw [List.getLast_append_of_ne_nil hl hne]
  exact not_isBlank_of_mem hlast (List.getLast_mem hne)

end HeaderValue

lemma HeaderValue.fromStr_eq_some {text : String} {value : HeaderValue}
    (h : fromStr text = some value) : value = ofText text := by
  unfold fromStr at h
  split at h
  · exact (Option.some.inj h).symm
  · cases h

example : HeaderValue.toStr [34, 51, 34] = some "\"3\"" := by decide

end Knova
