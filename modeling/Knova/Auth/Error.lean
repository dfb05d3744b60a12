import Knova.Common.Http
import Knova.Common.Json

/-!
# The authorization service's errors and their HTTP mapping
-/

namespace Knova

/-- Anything a handler of the authorization service can fail with. What the errors carry for
the log only is left out. -/
inductive AppError
  | invalidCredentials
  | missingBearer
  | invalidToken
  | tokenSigning
  | blockingTask
  | upstream
  | overloaded
  | addressThrottled
  deriving DecidableEq

namespace AppError

/-- The status, the machine-readable code and the client-safe message of an error. -/
def parts : AppError → ℕ × String × String
  | invalidCredentials => (401, "invalid_credentials", "Invalid username or password.")
  | missingBearer => (401, "unauthorized", "A valid bearer token is required.")
  | invalidToken => (401, "unauthorized", "A valid bearer token is required.")
  | addressThrottled => (429, "too_many_requests",
      "Too many failed attempts from this address. Retry later.")
  | overloaded => (503, "overloaded", "The service is at capacity. Retry shortly.")
  | upstream => (502, "upstream_unavailable", "The profile service is unavailable.")
  | tokenSigning => (500, "internal_error", "An unexpected error occurred.")
  | blockingTask => (500, "internal_error", "An unexpected error occurred.")

/-- Retryable failures say when. -/
def retryAfter : AppError → Option String
  | overloaded => some "1"
  | addressThrottled => some "300"
  | _ => none

def intoResponse (e : AppError) : Response :=
  let (status, error, message) := e.parts
  .json status (e.retryAfter.toList.map fun seconds => ("retry-after", seconds))
    (ErrorResponse.toJson ⟨error, message⟩)

end AppError

end Knova
