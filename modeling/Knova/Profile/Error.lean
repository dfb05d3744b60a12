import Knova.Common.Http
import Knova.Common.Json
import Knova.Profile.Repository

/-!
# The profile service's errors and their HTTP mapping
-/

namespace Knova

/-- Anything a handler can fail with. -/
inductive ProfileError
  | notInternal
  | missingCaller
  | notFound
  | alreadyExists
  | preconditionRequired
  | preconditionFailed (currentVersion : Version)
  | malformedPrecondition
  | malformedBody
  | idempotencyInFlight
  | idempotencyReused
  | invalid (reason : InvalidProfile)
  | store (error : StoreError)
  deriving DecidableEq

namespace ProfileError

/-- The status, the machine-readable code and the client-safe message of an error. -/
def parts : ProfileError → ℕ × String × String
  | notInternal => (403, "forbidden", "This service is not directly reachable.")
  | notFound => (404, "not_found", "No profile exists for this user.")
  | alreadyExists => (409, "already_exists", "A profile already exists; use PUT to update it.")
  | preconditionRequired => (428, "precondition_required",
      "If-Match is required. Read the profile and retry with its ETag.")
  | preconditionFailed _ => (412, "precondition_failed",
      "The profile changed since you read it. Re-read and retry.")
  | malformedPrecondition => (400, "malformed_precondition",
      "If-Match must be an ETag such as \"3\".")
  | malformedBody => (400, "malformed_body", "The request body must be a JSON profile.")
  | idempotencyInFlight => (409, "idempotency_in_flight",
      "An earlier request with this Idempotency-Key is still running. Retry shortly.")
  | idempotencyReused => (422, "idempotency_key_reused",
      "This Idempotency-Key was already used with a different request body.")
  | invalid reason => (422, "invalid_profile", reason.toString)
  | missingCaller => (500, "internal_error", "An unexpected error occurred.")
  | store _ => (500, "internal_error", "An unexpected error occurred.")

/-- The headers an error adds: a `412` carries the current `ETag`. -/
def headers : ProfileError → List (String × String)
  | preconditionFailed currentVersion => [("etag", currentVersion.toString)]
  | _ => []

def intoResponse (e : ProfileError) : Response :=
  let (status, error, message) := e.parts
  .json status e.headers (ErrorResponse.toJson ⟨error, message⟩)

/-- No error is reported as a success. -/
lemma intoResponse_status (e : ProfileError) : 400 ≤ e.intoResponse.status := by
  cases e <;> simp [intoResponse, Response.json, parts]

end ProfileError

end Knova
