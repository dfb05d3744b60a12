import Knova.Library.Program
import Knova.Profile.Error
import Knova.Profile.Idempotency

/-!
# Handlers for `/profile`

A handler is a program over the calls it makes on the state shared by all handlers: the
idempotency store and the profile repository. Extractors have already run: a handler is
given the caller, the headers, and the body as far as its signature takes it.
-/

namespace Knova

open Library

/-- The calls a handler makes. -/
inductive HandlerAct
  | begin (user key body : String)
  | finish (user key body : String) (recorded : Recorded)
  | abandon (user key : String)
  | store (op : StoreOp)

@[reducible] def HandlerAct.Ans : HandlerAct → Type
  | .begin _ _ _ => Lookup
  | .finish _ _ _ _ => Unit
  | .abandon _ _ => Unit
  | .store op => op.Ret

abbrev HandlerE : Signature := ⟨HandlerAct, HandlerAct.Ans⟩

abbrev HandlerProg := Prog HandlerE

/-- What a handler returns, before `into_response`. -/
abbrev Answer := Except ProfileError Response

/-- A revision as its fields stand on the wire. -/
def Revision.json (rev : Revision) : List Char :=
  Json.object [("version", Json.number rev.version.get), ("address", Json.string rev.address),
    ("phone_number", Json.string rev.phoneNumber),
    ("recorded_at_ms", Json.number rev.recordedAtMs.val)]

def historyToJson (revisions : List Revision) : String :=
  String.ofList (Json.array (revisions.map Revision.json))

lemma Revision.json_prefixCode : PrefixCode Revision.json := by
  intro a b r r' h
  simp only [Revision.json, Json.object, Json.members, List.cons_append, List.append_assoc,
    List.cons.injEq, true_and, List.nil_append] at h
  obtain ⟨hversion, h⟩ := Json.number_member (by decide) h
  obtain ⟨haddress, h⟩ := Json.text_member h
  obtain ⟨hphone, h⟩ := Json.text_member (List.cons.inj h).2
  obtain ⟨hrecorded, hr⟩ := Json.number_member (by decide) (List.cons.inj h).2
  obtain ⟨version, address, phone, recorded⟩ := a
  obtain ⟨version', address', phone', recorded'⟩ := b
  dsimp only at hversion haddress hphone hrecorded
  obtain rfl := Version.ext hversion
  obtain rfl := Fin.ext hrecorded
  subst haddress hphone
  exact ⟨rfl, hr⟩

/-- The text of a history determines it. -/
theorem historyToJson_injective : Function.Injective historyToJson := by
  have hcode := Json.array_prefixCode Revision.json_prefixCode
    (by simp [Revision.json, Json.object])
  exact fun _ _ h => hcode.injective (String.ofList_injective h)

namespace Routes

/-- Renders a recorded outcome, for the first time or as a replay. -/
def replay (recorded : Recorded) : Response :=
  let status := if validStatus recorded.status then recorded.status else 201
  match recorded.etag with
  | none => ⟨status, [("content-type", "application/json")], recorded.body⟩
  | some etag =>
    if validHeaderText etag then
      ⟨status, [("content-type", "application/json"), ("etag", etag)], recorded.body⟩
    else .empty 500

/-- Attaches the profile's version as an `ETag`. -/
def withEtag (status : ℕ) (profile : Profile) : Response :=
  .json status [("etag", profile.version.toString)] profile.toJson

/-- A successful create, in replayable form. Writing the profile as JSON cannot fail. -/
def recorded (profile : Profile) : Recorded :=
  ⟨201, profile.toJson, some profile.version.toString⟩

/-- The outcome of a create. -/
def created : Except StoreError (Option Profile) → Except ProfileError Recorded
  | .error e => .error (.store e)
  | .ok none => .error .alreadyExists
  | .ok (some profile) => .ok (recorded profile)

/-- Performs one create, and goes on with its outcome. `parse` is `serde_json` reading the
body of a create. -/
def createOnce (parse : String → Option ProfileInput) (userId : UserId) (body : String)
    (k : Except ProfileError Recorded → HandlerProg Answer) : HandlerProg Answer :=
  match parse body with
  | none => k (.error .malformedBody)
  | some input =>
    match input.validate with
    | .error reason => k (.error (.invalid reason))
    | .ok () => .act (.store (.create userId input)) fun outcome => k (created outcome)

/-- The client-chosen key of a create: present, readable and not empty. -/
def idempotencyKey (headers : HeaderMap) : Option String :=
  ((headers.get "idempotency-key").bind HeaderValue.toStr).filter (· ≠ "")

/-- Records a terminal outcome under its key, or releases the key. -/
def settle (userId : UserId) (key body : String) :
    Except ProfileError Recorded → HandlerProg Answer
  | .ok recorded => .act (.finish userId.asStr key body recorded) fun _ =>
    .pure (.ok (replay recorded))
  | .error e => .act (.abandon userId.asStr key) fun _ => .pure (.error e)

/-- `POST /profile`. -/
def create (parse : String → Option ProfileInput) (userId : UserId) (headers : HeaderMap)
    (body : String) : HandlerProg Answer :=
  match idempotencyKey headers with
  | none => createOnce parse userId body fun outcome => .pure (outcome.map replay)
  | some key => .act (.begin userId.asStr key body) fun
    | .reserved => createOnce parse userId body (settle userId key body)
    | .inFlight => .pure (.error .idempotencyInFlight)
    | .bodyMismatch => .pure (.error .idempotencyReused)
    | .replay recorded => .pure (.ok (replay recorded))

/-- `GET /profile`. -/
def read (userId : UserId) : HandlerProg Answer :=
  .act (.store (.get userId)) fun
    | .error e => .pure (.error (.store e))
    | .ok none => .pure (.error .notFound)
    | .ok (some profile) => .pure (.ok (withEtag 200 profile))

/-- Reads the version out of an `If-Match` header. -/
def parseIfMatch (headers : HeaderMap) : Except ProfileError Version :=
  match headers.get "if-match" with
  | none => .error .preconditionRequired
  | some value =>
    match value.toStr.bind Version.fromStr with
    | none => .error .malformedPrecondition
    | some version => .ok version

/-- The answer to an attempted update. -/
def updated : Except StoreError Update → Answer
  | .error e => .error (.store e)
  | .ok (.applied profile) => .ok (withEtag 200 profile)
  | .ok (.stale currentVersion) => .error (.preconditionFailed currentVersion)
  | .ok .missing => .error .notFound

/-- `PUT /profile`. -/
def update (userId : UserId) (headers : HeaderMap) (input : ProfileInput) :
    HandlerProg Answer :=
  match input.validate with
  | .error reason => .pure (.error (.invalid reason))
  | .ok () =>
    match parseIfMatch headers with
    | .error e => .pure (.error e)
    | .ok expected => .act (.store (.update userId expected input)) fun outcome =>
      .pure (updated outcome)

/-- `GET /profile/history`. -/
def history (userId : UserId) : HandlerProg Answer :=
  .act (.store (.history userId)) fun
    | .error e => .pure (.error (.store e))
    | .ok [] => .pure (.error .notFound)
    | .ok (first :: rest) => .pure (.ok (.json 200 [] (historyToJson (first :: rest))))

end Routes

/-- A request to the profile service, as its handler sees it. -/
inductive Request
  | create (userId : UserId) (headers : HeaderMap) (body : String)
  | read (userId : UserId)
  | update (userId : UserId) (headers : HeaderMap) (input : ProfileInput)
  | history (userId : UserId)
  deriving DecidableEq

/-- The handler of a request. -/
def Request.handler (parse : String → Option ProfileInput) : Request → HandlerProg Answer
  | .create userId headers body => Routes.create parse userId headers body
  | .read userId => Routes.read userId
  | .update userId headers input => Routes.update userId headers input
  | .history userId => Routes.history userId

/-- The response a client receives. -/
def Answer.render : Answer → Response
  | .ok response => response
  | .error e => e.intoResponse

end Knova
