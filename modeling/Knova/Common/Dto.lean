import Knova.Common.Version

/-!
# Request and response bodies

The records both services put on the wire, and the invariants a profile payload must
satisfy before it is stored.
-/

namespace Knova

/-- Opaque identifier for a user account. -/
structure UserId where
  asStr : String
  deriving DecidableEq

lemma UserId.asStr_injective : Function.Injective UserId.asStr :=
  fun ⟨_⟩ ⟨_⟩ h => congrArg UserId.mk h

/-- The form of the identifiers `UserId::random` generates: groups of 8, 4, 4, 4 and 12
hexadecimal digits in lower case. -/
def UserId.IsUuid (id : UserId) : Prop :=
  (id.asStr.toList.splitOn '-').map List.length = [8, 4, 4, 4, 12] ∧
    ∀ group ∈ id.asStr.toList.splitOn '-', ∀ c ∈ group, c.isDigit ∨ ('a' ≤ c ∧ c ≤ 'f')

instance : DecidablePred UserId.IsUuid := fun id =>
  decidable_of_iff ((id.asStr.toList.splitOn '-').map List.length = [8, 4, 4, 4, 12] ∧
    (id.asStr.toList.splitOn '-').all (fun group =>
      group.all fun c => c.isDigit || ('a' ≤ c && c ≤ 'f')) = true) (by simp [UserId.IsUuid])

lemma UserId.IsUuid.ne_empty {id : UserId} (h : id.IsUuid) : id.asStr ≠ "" := by
  intro hempty
  have hlength := h.1
  rw [hempty] at hlength
  revert hlength
  decide

/-- Whatever is no separator stands between two of them. -/
lemma mem_splitOn {sep c : Char} {s : List Char} (hc : c ∈ s) :
    c = sep ∨ ∃ group ∈ s.splitOn sep, c ∈ group := by
  induction s with
  | nil => cases hc
  | cons x s ih =>
    rw [List.splitOn_cons_eq_if_modifyHead]
    obtain ⟨head, tail, hsplit⟩ := List.exists_cons_of_ne_nil (List.splitOn_ne_nil sep s)
    rw [hsplit] at ih ⊢
    by_cases hx : x = sep
    · rw [if_pos (by simpa using hx)]
      rcases List.mem_cons.mp hc with rfl | hc
      · exact .inl hx
      · exact (ih hc).imp id fun ⟨group, hmem, hgroup⟩ => ⟨group, .tail _ hmem, hgroup⟩
    · rw [if_neg (by simpa using hx), List.modifyHead_cons]
      rcases List.mem_cons.mp hc with rfl | hc
      · exact .inr ⟨c :: head, .head _, .head _⟩
      · refine (ih hc).imp id fun ⟨group, hmem, hgroup⟩ => ?_
        rcases List.mem_cons.mp hmem with rfl | hmem
        · exact ⟨x :: group, .head _, .tail _ hgroup⟩
        · exact ⟨group, .tail _ hmem, hgroup⟩

/-- Such an identifier consists of visible characters. -/
lemma UserId.IsUuid.visible {id : UserId} (h : id.IsUuid) :
    ∀ c ∈ id.asStr.toList, 32 < c.toNat ∧ c.toNat < 127 := by
  intro c hc
  have hsplit : c = '-' ∨ ∃ group ∈ id.asStr.toList.splitOn '-', c ∈ group := mem_splitOn hc
  rcases hsplit with rfl | ⟨group, hmem, hc⟩
  · decide
  · rcases h.2 group hmem c hc with hdigit | ⟨hlow, hhigh⟩
    · have := Char.isDigit_iff_toNat.mp hdigit
      exact ⟨Nat.lt_of_lt_of_le (by decide) this.1, Nat.lt_of_le_of_lt this.2 (by decide)⟩
    · have hlow : 97 ≤ c.toNat := hlow
      have hhigh : c.toNat ≤ 102 := hhigh
      omega

/-- Body of `POST /login`. -/
structure LoginRequest where
  username : String
  password : String
  deriving DecidableEq

/-- Successful response to `POST /login`. -/
structure LoginResponse where
  accessToken : String
  tokenType : String
  expiresIn : ℕ
  deriving DecidableEq

/-- Why a profile payload was rejected. -/
inductive InvalidProfile
  | emptyAddress
  | addressTooLong
  | emptyPhone
  | phoneTooLong
  | phoneCharacters
  | phoneDigitCount
  deriving DecidableEq

/-- Body of `POST /profile` and `PUT /profile`. -/
structure ProfileInput where
  address : String
  phoneNumber : String
  deriving DecidableEq

namespace ProfileInput

def maxAddressBytes : ℕ := 512

def maxPhoneBytes : ℕ := 32

def minPhoneDigits : ℕ := 7

def maxPhoneDigits : ℕ := 15

/-- The characters a trimmed phone number may contain. -/
def isPhoneChar (c : Char) : Bool :=
  c.isDigit || c == '+' || c == '-' || c == '(' || c == ')' || c == ' '

/-- Checks the payload against the stored-field invariants, reporting the first one it
violates. -/
def validate (input : ProfileInput) : Except InvalidProfile Unit :=
  if input.address.utf8ByteSize > maxAddressBytes then .error .addressTooLong
  else if trim input.address.toList = [] then .error .emptyAddress
  else if input.phoneNumber.utf8ByteSize > maxPhoneBytes then .error .phoneTooLong
  else
    let phone := trim input.phoneNumber.toList
    if phone = [] then .error .emptyPhone
    else if !phone.all isPhoneChar then .error .phoneCharacters
    else
      let digits := (phone.filter Char.isDigit).length
      if minPhoneDigits ≤ digits ∧ digits ≤ maxPhoneDigits then .ok ()
      else .error .phoneDigitCount

end ProfileInput

/-- The text of a rejected payload, as the client reads it. -/
def InvalidProfile.toString : InvalidProfile → String
  | .emptyAddress => "address must not be empty"
  | .addressTooLong => "address must be at most " ++ ProfileInput.maxAddressBytes.repr ++ " bytes"
  | .emptyPhone => "phone number must not be empty"
  | .phoneTooLong =>
    "phone number must be at most " ++ ProfileInput.maxPhoneBytes.repr ++ " bytes"
  | .phoneCharacters =>
    "phone number may contain only digits and the characters + - ( ) and space"
  | .phoneDigitCount => "phone number must contain between " ++
      ProfileInput.minPhoneDigits.repr ++ " and " ++ ProfileInput.maxPhoneDigits.repr ++
      " digits"

/-- A stored profile as returned to the client. -/
structure Profile where
  userId : UserId
  address : String
  phoneNumber : String
  version : Version
  deriving DecidableEq

/-- Uniform error envelope. -/
structure ErrorResponse where
  error : String
  message : String
  deriving DecidableEq

example : ProfileInput.validate ⟨"1 Main St", "+1 (555) 010-0123"⟩ = .ok () := by decide

example : ProfileInput.validate ⟨"1 Main St", "555-0100 ext. 12"⟩ = .error .phoneCharacters := by
  decide

end Knova
