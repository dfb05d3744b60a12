import Knova.Profile.Contents
import Knova.Profile.ServiceInvariant

/-!
# The stored-field invariants

Validation measures the phone number without the whitespace around it, the handlers store it
with that. Whatever the service holds was validated, and satisfies the stored-field invariants
exactly where all whitespace in its phone number is spaces.
-/

namespace Knova

open Library

/-- What a stored profile promises. -/
structure StoredFields (content : ProfileInput) : Prop where
  addressBytes : content.address.utf8ByteSize ≤ 512
  addressText : ∃ c ∈ content.address.toList, isWhitespace c = false
  phoneBytes : content.phoneNumber.utf8ByteSize ≤ 32
  phoneCharacters : ∀ c ∈ content.phoneNumber.toList,
    c.isDigit ∨ c = '+' ∨ c = '-' ∨ c = '(' ∨ c = ')' ∨ c = ' '
  phoneDigits : 7 ≤ (content.phoneNumber.toList.filter Char.isDigit).length ∧
    (content.phoneNumber.toList.filter Char.isDigit).length ≤ 15

/-- All whitespace in the phone number is spaces. -/
def SpacesOnly (content : ProfileInput) : Prop :=
  ∀ c ∈ content.phoneNumber.toList, isWhitespace c = true → c = ' '

/-! ### Validation -/

lemma isPhoneChar_iff {c : Char} : ProfileInput.isPhoneChar c = true ↔
    c.isDigit ∨ c = '+' ∨ c = '-' ∨ c = '(' ∨ c = ')' ∨ c = ' ' := by
  simp [ProfileInput.isPhoneChar, or_assoc]

lemma eq_space {c : Char} (h : ProfileInput.isPhoneChar c = true) (hw : isWhitespace c = true) :
    c = ' ' := by
  rcases isPhoneChar_iff.mp h with h | rfl | rfl | rfl | rfl | rfl
  · rw [isWhitespace_of_isDigit h] at hw
    cases hw
  · revert hw
    decide
  · revert hw
    decide
  · revert hw
    decide
  · revert hw
    decide
  · rfl

/-- What validation establishes. -/
lemma validate_eq_ok {input : ProfileInput} (h : input.validate = .ok ()) :
    input.address.utf8ByteSize ≤ 512 ∧ trim input.address.toList ≠ [] ∧
    input.phoneNumber.utf8ByteSize ≤ 32 ∧
    (trim input.phoneNumber.toList).all ProfileInput.isPhoneChar = true ∧
    7 ≤ ((trim input.phoneNumber.toList).filter Char.isDigit).length ∧
    ((trim input.phoneNumber.toList).filter Char.isDigit).length ≤ 15 := by
  unfold ProfileInput.validate at h
  dsimp only at h
  split at h
  · cases h
  · split at h
    · cases h
    · split at h
      · cases h
      · split at h
        · cases h
        · split at h
          · cases h
          · split at h
            · rename_i haddress htext hphone hempty hchars hdigits
              exact ⟨Nat.not_lt.mp haddress, htext, Nat.not_lt.mp hphone, by simpa using hchars,
                hdigits⟩
            · cases h

/-- What validation accepts satisfies the stored-field invariants exactly where all whitespace
in its phone number is spaces. -/
theorem storedFields_iff {input : ProfileInput} (h : input.validate = .ok ()) :
    StoredFields input ↔ SpacesOnly input := by
  obtain ⟨haddress, htext, hphone, hchars, hmin, hmax⟩ := validate_eq_ok h
  obtain ⟨before, after, hs, hbefore, hafter⟩ :=
    exists_trimMatches isWhitespace input.phoneNumber.toList
  change _ = before ++ trim input.phoneNumber.toList ++ after at hs
  have hnone : ∀ s : List Char, (∀ c ∈ s, isWhitespace c = true) → s.filter Char.isDigit = [] := by
    intro s hs
    refine List.filter_eq_nil_iff.mpr fun c hc hdigit => ?_
    have hw := hs c hc
    rw [isWhitespace_of_isDigit hdigit] at hw
    cases hw
  have hdigits : input.phoneNumber.toList.filter Char.isDigit =
      (trim input.phoneNumber.toList).filter Char.isDigit := by
    conv_lhs => rw [hs]
    rw [List.filter_append, List.filter_append, hnone before hbefore, hnone after hafter,
      List.nil_append, List.append_nil]
  constructor
  · intro hstored c hc hw
    exact eq_space (isPhoneChar_iff.mpr (hstored.phoneCharacters c hc)) hw
  · intro hspaces
    refine ⟨haddress, ?_, hphone, fun c hc => ?_, ?_⟩
    · by_contra hall
      refine htext (trim_eq_nil_iff.mpr fun c hc => ?_)
      by_contra hw
      exact hall ⟨c, hc, by simpa using hw⟩
    · rw [← isPhoneChar_iff]
      by_cases hw : isWhitespace c = true
      · rw [hspaces c hc hw]
        decide
      · rw [hs] at hc
        rcases List.mem_append.mp hc with hc | hc
        · rcases List.mem_append.mp hc with hc | hc
          · exact absurd (hbefore c hc) hw
          · exact List.all_eq_true.mp hchars c hc
        · exact absurd (hafter c hc) hw
    · rw [hdigits]
      exact ⟨hmin, hmax⟩

/-! ### What handlers ask the repository to store -/

/-- What a request carries to be stored. -/
def Request.input (parse : String → Option ProfileInput) : Request → Option ProfileInput
  | .create _ _ body => parse body
  | .update _ _ input => some input
  | _ => none

/-- A call on the repository asks to store what the request carries, validated. -/
def Request.Stores (parse : String → Option ProfileInput) (request : Request) :
    HandlerAct → Prop
  | .store op => ∀ input ∈ op.input, request.input parse = some input ∧ input.validate = .ok ()
  | _ => True

namespace Routes

variable {parse : String → Option ProfileInput} {user : UserId} {headers : HeaderMap}
  {body : String} {request : Request}

lemma all_createOnce {k : Except ProfileError Recorded → HandlerProg Answer}
    (hk : ∀ outcome, (k outcome).All ((Request.create user headers body).Stores parse)) :
    (createOnce parse user body k).All ((Request.create user headers body).Stores parse) := by
  unfold createOnce
  split
  · exact hk _
  · rename_i input hparse
    split
    · exact hk _
    · rename_i hvalid
      refine ⟨fun input' hinput' => ?_, fun outcome => hk _⟩
      obtain rfl := Option.some.inj hinput'
      exact ⟨hparse, hvalid⟩

lemma all_settle {key : String} (outcome : Except ProfileError Recorded) :
    (settle user key body outcome).All (request.Stores parse) := by
  cases outcome <;> exact ⟨trivial, fun _ => trivial⟩

/-- Handlers store what their requests carry. -/
lemma all_handler : (request.handler parse).All (request.Stores parse) := by
  cases request with
  | create user headers body =>
    change (create parse user headers body).All _
    unfold create
    split
    · exact all_createOnce fun _ => trivial
    · refine ⟨trivial, fun found => ?_⟩
      cases found with
      | reserved => exact all_createOnce fun outcome => all_settle outcome
      | inFlight | bodyMismatch | replay recorded => trivial
  | read user =>
    refine ⟨fun input hinput => (by cases hinput), fun r => ?_⟩
    match r with
    | .error e | .ok none | .ok (some profile) => trivial
  | update user headers input =>
    change (update user headers input).All _
    unfold update
    split
    · trivial
    · rename_i hvalid
      split
      · trivial
      · refine ⟨fun input' hinput' => ?_, fun outcome => trivial⟩
        obtain rfl := Option.some.inj hinput'
        exact ⟨rfl, hvalid⟩
  | history user =>
    refine ⟨fun input hinput => (by cases hinput), fun r => ?_⟩
    match r with
    | .error e | .ok [] | .ok (first :: rest) => trivial

end Routes

/-! ### Whole runs -/

namespace Service

variable {ι : Type} [DecidableEq ι] {b : Backend} {cfg : Settings} {s s' : Service ι b}
  {P : ProfileInput → Prop}

/-- The content of every valid write that arrives satisfies `P`. -/
def Arrives (cfg : Settings) (P : ProfileInput → Prop) : Event ι → Prop
  | .arrive _ request => ∀ input ∈ request.input cfg.parse, input.validate = .ok () → P input
  | _ => True

/-- All the service holds was validated and satisfies `P`. -/
structure Validated (cfg : Settings) (P : ProfileInput → Prop) (s : Service ι b) : Prop where
  tracks : Tracks cfg s
  carried : ∀ i request, s.Sent i request → ∀ input ∈ request.input cfg.parse,
    input.validate = .ok () → P input
  held : b.OnlyFine (fun content => content.validate = .ok () ∧ P content) s.profiles

theorem Validated.step (h : Validated cfg P s) {e : Event ι} (he : Arrives cfg P e)
    (hs : Service.step cfg s e = some s') : Validated cfg P s' := by
  refine ⟨h.tracks.step hs, fun i request hi input hinput hvalid => ?_, ?_⟩
  · have hone : (machine ι b cfg).run s [e] = some s' :=
      Machine.run_cons_eq_some.mpr ⟨s', hs, rfl⟩
    rcases arrive_of_sent hone hi with hi | hi
    · exact h.carried i request hi input hinput hvalid
    · rw [← List.mem_singleton.mp hi] at he
      exact he input hinput hvalid
  · obtain ⟨i, request, -, -, rfl⟩ | ⟨i, x, a, k, r, store, -, -, -, -, -, rfl⟩ |
      ⟨m, profiles, hm, hcall, rfl⟩ | ⟨i, x, op, k, env, r, -, -, -, -, -, rfl⟩ |
      ⟨i, x, -, -, -, -, rfl⟩ | ⟨d, -, rfl⟩ := step_cases hs
    case inr.inr.inl =>
      refine h.held.step (fun i call hmi input hinput => ?_) hm
      rcases hcall with ⟨j, x, op, k, env, -, hinvoke, hx, -, hrest⟩ | ⟨j, ⟨-, hact⟩ | ⟨-, hret⟩⟩
      · rw [hmi] at hinvoke
        obtain ⟨rfl, rfl⟩ := Move.invoke.inj hinvoke
        have hall := (Routes.all_handler.follows (h.tracks.follows i x hx)).2
        rw [hrest] at hall
        obtain ⟨hcarries, hvalid⟩ := hall.1 input hinput
        exact ⟨hvalid, h.carried i x.request ⟨x, hx, rfl⟩ input hcarries hvalid⟩
      · rw [hmi] at hact
        cases hact
      · rw [hmi] at hret
        cases hret
    all_goals exact h.held

lemma validated_of_run {es : List (Event ι)} (hP : ∀ e ∈ es, Arrives cfg P e)
    (hrun : (machine ι b cfg).run (init ι b cfg) es = some s) : Validated cfg P s :=
  Machine.run_invariant_of_everyStep (M := machine ι b cfg) (Validated cfg P)
    (fun _ _ _ h he hs => h.step he hs)
    ⟨tracks_init, (by rintro i request ⟨x, hx, -⟩; cases hx), Backend.onlyFine_initial⟩
    (Machine.everyStep_of_mem hP) hrun

/-- In every run: where all whitespace in the phone numbers of valid writes is spaces,
whatever is held satisfies the stored-field invariants; and what is held satisfies them only
where all whitespace in its phone number is spaces. -/
theorem stored_fields (b : Backend) (ι : Type) [DecidableEq ι] (cfg : Settings)
    (es : List (Event ι)) (s : Service ι b)
    (hrun : (machine ι b cfg).run (init ι b cfg) es = some s) :
    ((∀ e ∈ es, Arrives cfg SpacesOnly e) →
      ∀ content, b.Contains s.profiles.shared content → StoredFields content) ∧
    ∀ content, b.Contains s.profiles.shared content →
      (StoredFields content ↔ SpacesOnly content) := by
  constructor
  · intro hspaces content hcontent
    obtain ⟨hvalid, hcontent⟩ := (validated_of_run hspaces hrun).held.shared content hcontent
    exact (storedFields_iff hvalid).mpr hcontent
  · intro content hcontent
    have htrue : ∀ e ∈ es, Arrives cfg (fun _ => True) e := by
      intro e _
      cases e <;> simp [Arrives]
    exact storedFields_iff ((validated_of_run htrue hrun).held.shared content hcontent).1

/-- A service to which every body reads as `content`. -/
def Sample.reading (content : ProfileInput) : Settings :=
  .default (fun _ => some content) fun _ => 0

/-- The steps of a create. -/
def Sample.creating : List (Event ℕ) := [.arrive 0 (.create ⟨"u"⟩ [] ""),
  .call 0 ⟨0, fun _ => false⟩, .act 0, .act 0, .act 0, .ret 0, .resume 0]

open Sample in
/-- A profile is created, with a phone number of digits, signs and spaces. -/
theorem stored_fields_create : ∃ s : Service ℕ .sqlite,
    (machine ℕ .sqlite (reading ⟨"1 Main St", " +1 (555) 010-0123 "⟩)).run (init ℕ .sqlite
      (reading ⟨"1 Main St", " +1 (555) 010-0123 "⟩)) creating = some s ∧
    Backend.sqlite.Contains s.profiles.shared ⟨"1 Main St", " +1 (555) 010-0123 "⟩ ∧
    ∀ content, Backend.sqlite.Contains s.profiles.shared content → StoredFields content := by
  refine ⟨_, rfl, ?_, ?_⟩
  · exact .inl (.inl ⟨⟨"u"⟩, ⟨"1 Main St", " +1 (555) 010-0123 ", ⟨1, by decide, by decide⟩⟩, rfl,
      rfl⟩)
  · refine (stored_fields .sqlite ℕ (reading ⟨"1 Main St", " +1 (555) 010-0123 "⟩) creating _
      rfl).1 fun e he => ?_
    simp only [creating, List.mem_cons, List.not_mem_nil, or_false] at he
    rcases he with rfl | rfl | rfl | rfl | rfl | rfl | rfl
    case inl =>
      intro input hinput _
      obtain rfl := Option.some.inj hinput
      exact forall_mem_ofList (by decide)
    all_goals trivial

open Sample in
/-- A phone number that starts with a no-break space is validated without it, and stored
with it. -/
theorem stored_fields_fails : ∃ s : Service ℕ .sqlite,
    (machine ℕ .sqlite (reading ⟨"1 Main St", "\u00a0555-0100"⟩)).run (init ℕ .sqlite
      (reading ⟨"1 Main St", "\u00a0555-0100"⟩)) creating = some s ∧
    Backend.sqlite.Contains s.profiles.shared ⟨"1 Main St", "\u00a0555-0100"⟩ ∧
    ¬StoredFields ⟨"1 Main St", "\u00a0555-0100"⟩ := by
  refine ⟨_, rfl, ?_, fun h => ?_⟩
  · exact .inl (.inl ⟨⟨"u"⟩, ⟨"1 Main St", "\u00a0555-0100", ⟨1, by decide, by decide⟩⟩, rfl, rfl⟩)
  · have hspace := h.phoneCharacters '\u00a0' (by decide)
    revert hspace
    decide

end Service

end Knova
