import Knova.Auth.Gateway
import Mathlib

/-!
# One correlation id for each request

`propagate` is the outermost layer: whatever answers a request, the id it settled on is the one
on the response, and the one the gateway sends upstream.
-/

namespace Knova

/-- A response as it stands on the wire. -/
structure HttpResponse where
  status : ℕ
  headers : HeaderMap
  body : String
  deriving DecidableEq

/-- ASCII text has as many bytes as characters. -/
lemma utf8ByteSize_of_ascii {text : String} (h : ∀ c ∈ text.toList, c.toNat < 128) :
    text.utf8ByteSize = text.length := by
  have hlist : ∀ l : List Char, (∀ c ∈ l, c.toNat < 128) →
      (String.ofList l).utf8ByteSize = l.length := by
    intro l hl
    induction l with
    | nil => rfl
    | cons c l ih =>
      have hsize : c.utf8Size = 1 :=
        Char.utf8Size_eq_one_iff.mpr (Nat.le_of_lt_succ (hl c List.mem_cons_self))
      rw [← List.singleton_append, String.ofList_append, ← String.singleton_eq_ofList,
        String.utf8ByteSize_append, String.utf8ByteSize_singleton, hsize,
        ih fun d hd => hl d (List.mem_cons_of_mem c hd), List.singleton_append, List.length_cons,
        Nat.add_comm]
  have htext := hlist text.toList h
  rwa [String.ofList_toList, String.length_toList] at htext

namespace HeaderMap

variable {headers : HeaderMap} {name : String} {value : HeaderValue}

lemma get_insert : (headers.insert name value).get name = some value := by
  simp [get, insert]

lemma filter_insert :
    (headers.insert name value).filter (fun header => header.1 = name) = [(name, value)] := by
  rw [insert, List.filter_cons_of_pos (by simp), List.filter_filter,
    List.filter_eq_nil_iff.mpr (by simp)]

end HeaderMap

namespace AuthService

/-- The layer `propagate` around the rest of the service. -/
def correlated (uuid : String) (request : HttpRequest) (next : HttpRequest → HttpResponse) :
    HttpResponse :=
  match propagate uuid request with
  | (request, some value) =>
    let response := next request
    { response with headers := response.headers.insert Headers.requestId value }
  | (request, none) => next request

/-- Letters, digits and two marks. -/
def IsIdChar (c : Char) : Prop := c.isAlpha ∨ c.isDigit ∨ c = '-' ∨ c = '_'

instance : DecidablePred IsIdChar := fun c =>
  inferInstanceAs (Decidable (c.isAlpha ∨ c.isDigit ∨ c = '-' ∨ c = '_'))

/-- The form of an id. -/
structure CleanId (id : String) : Prop where
  length : 1 ≤ id.length ∧ id.length ≤ 64
  characters : ∀ c ∈ id.toList, IsIdChar c

variable {id uuid : String} {request : HttpRequest}

lemma IsIdChar.visible {c : Char} (h : IsIdChar c) : 32 < c.toNat ∧ c.toNat < 127 := by
  rcases h with h | h | rfl | rfl
  · simp only [Char.isAlpha, Char.isUpper, Char.isLower, Bool.or_eq_true, Bool.and_eq_true,
      decide_eq_true_eq] at h
    rcases h with ⟨hlow, hhigh⟩ | ⟨hlow, hhigh⟩
    · have hlow : 65 ≤ c.toNat := hlow
      have hhigh : c.toNat ≤ 90 := hhigh
      omega
    · have hlow : 97 ≤ c.toNat := hlow
      have hhigh : c.toNat ≤ 122 := hhigh
      omega
  · have : 48 ≤ c.toNat ∧ c.toNat ≤ 57 := Char.isDigit_iff_toNat.mp h
    omega
  · decide
  · decide

lemma isAcceptable_iff : isAcceptable id = true ↔ CleanId id := by
  have hne : id ≠ "" ↔ 1 ≤ id.length := by
    rw [Nat.one_le_iff_ne_zero, ne_eq, ne_eq, ← String.length_toList, List.length_eq_zero_iff,
      String.toList_eq_nil_iff]
  have hbytes : (∀ c ∈ id.toList, IsIdChar c) → id.utf8ByteSize = id.length := fun h =>
    utf8ByteSize_of_ascii fun c hc => by have := (h c hc).visible; omega
  have hcharacters : (id.toList.all fun c => c.isAlphanum || c == '-' || c == '_') = true ↔
      ∀ c ∈ id.toList, IsIdChar c := by
    simp [List.all_eq_true, Char.isAlphanum, IsIdChar, or_assoc]
  rw [isAcceptable, Bool.and_eq_true, Bool.and_eq_true, decide_eq_true_iff, decide_eq_true_iff,
    hcharacters, hne, maxLen]
  constructor
  · rintro ⟨⟨hlow, hhigh⟩, h⟩
    exact ⟨⟨hlow, hbytes h ▸ hhigh⟩, h⟩
  · rintro ⟨⟨hlow, hhigh⟩, h⟩
    exact ⟨⟨hlow, (hbytes h).symm ▸ hhigh⟩, h⟩

lemma CleanId.toStr (h : CleanId id) : (HeaderValue.ofText id).toStr = some id :=
  HeaderValue.toStr_ofText fun c hc => ⟨(h.characters c hc).visible.1.le,
    (h.characters c hc).visible.2⟩

lemma CleanId.fromStr (h : CleanId id) : HeaderValue.fromStr id = some (.ofText id) := by
  refine if_pos (List.all_eq_true.mpr fun c hc => ?_)
  have hvisible := (h.characters c hc).visible
  simp only [Bool.or_eq_true, Bool.and_eq_true, decide_eq_true_eq, bne_iff_ne]
  exact .inl ⟨hvisible.1.le, hvisible.2.ne⟩

/-- The id a request is handled under. -/
def settledId (uuid : String) (request : HttpRequest) : String :=
  (((request.headers.get Headers.requestId).bind HeaderValue.toStr).filter
    fun id => isAcceptable id).getD uuid

lemma settledId_clean (huuid : CleanId uuid) : CleanId (settledId uuid request) := by
  unfold settledId
  cases h : ((request.headers.get Headers.requestId).bind HeaderValue.toStr).filter
      fun id => isAcceptable id with
  | none => exact huuid
  | some id => exact isAcceptable_iff.mp (Option.filter_eq_some_iff.mp h).2

/-- The request always goes on with an id. -/
lemma propagate_eq (huuid : CleanId uuid) :
    let value := HeaderValue.ofText (settledId uuid request)
    propagate uuid request =
      ({ request with headers := request.headers.insert Headers.requestId value }, some value) := by
  have hvalue := (@settledId_clean uuid request huuid).fromStr
  unfold propagate
  rw [settledId] at hvalue ⊢
  simp only [hvalue]

/-- The one id of a request. -/
structure OneId (uuid : String) (request : HttpRequest) (id : String) : Prop where
  clean : CleanId id
  /-- The branch without an id is not taken. -/
  settled : (propagate uuid request).2 = some (.ofText id)
  /-- Whatever answers the request, the response carries the id once. -/
  response : ∀ next, (correlated uuid request next).headers.filter
    (fun header => header.1 = Headers.requestId) = [(Headers.requestId, .ofText id)]
  /-- What the gateway sends upstream carries the id once. -/
  upstream : ∀ (g : Gateway) tokens now claims upstream,
    router g tokens now (propagate uuid request).1 = some (.ok (claims, upstream)) →
    upstream.headers.filter (fun header => header.1 = Headers.requestId) =
      [(Headers.requestId, .ofText id)]
  /-- The id is the client's, if that has the form. -/
  client : ∀ first, CleanId first →
    request.headers.get Headers.requestId = some (.ofText first) → id = first

lemma Upstream.headers_requestId {up : Upstream} {sub : UserId} {client sent : HeaderMap}
    {value : HeaderValue} (h : up.headers sub client = some sent)
    (hvalue : client.get Headers.requestId = some value) :
    sent.filter (fun header => header.1 = Headers.requestId) = [(Headers.requestId, value)] := by
  unfold Upstream.headers at h
  split at h
  · obtain rfl := Option.some.inj h
    rw [List.filter_append, List.filter_append, filter_copied (by decide), copied,
      List.filterMap_cons, hvalue]
    simp [Headers.userId, Headers.internalToken, Headers.requestId]
  · cases h

/-- Whatever headers a request has and whatever becomes of it, it has one clean id. -/
theorem one_clean_id (uuid : String) (huuid : CleanId uuid) (request : HttpRequest) :
    ∃ id, OneId uuid request id := by
  have hpropagate := @propagate_eq uuid request huuid
  refine ⟨settledId uuid request, settledId_clean huuid, by rw [hpropagate], fun next => ?_,
    fun g tokens now claims upstream hrouter => ?_, fun first hfirst hget => ?_⟩
  · rw [correlated, hpropagate]
    exact HeaderMap.filter_insert
  · rw [hpropagate] at hrouter
    obtain ⟨-, -, hheaders, -⟩ := proxy_eq_ok.mp (router_eq_ok hrouter)
    exact Upstream.headers_requestId hheaders HeaderMap.get_insert
  · rw [settledId, hget, Option.bind_some, hfirst.toStr,
      Option.filter_some_pos (isAcceptable_iff.mpr hfirst), Option.getD_some]

/-- Two ids, the first of them too long. -/
theorem one_clean_id_minted : ∃ id, OneId "6f1e2d3c-0000-4000-8000-00000000002a"
    ⟨.get, "/profile", [("x-request-id", List.replicate 65 97), ("x-request-id", [97])], []⟩ id :=
  one_clean_id _ ⟨by decide, forall_mem_ofList (by decide)⟩ _

end AuthService

end Knova
