import Knova.Auth.Token
import Knova.Common.Version

/-!
# The authorization service's configuration

Values read from the environment at startup. The environment is a function: `none` for a
variable that is not set, or not Unicode.
-/

namespace Knova.AuthService

inductive ConfigError
  | invalidDuration (key : String)
  deriving DecidableEq

structure Config where
  bindAddr : String
  activeKey : KeyMaterial
  /-- Keys no longer used for signing but still accepted for verification. -/
  retiredKeys : List KeyMaterial
  /-- How long an issued token remains valid, in seconds. -/
  tokenTtl : ℕ
  seedUsername : String
  seedPassword : String
  profileServiceUrl : String
  /-- Shared secret presented on the internal hop. -/
  internalToken : String
  deriving DecidableEq

namespace Config

def var (env : String → Option String) (key default : String) : String := (env key).getD default

/-- Parses `kid=secret;kid=secret` into retired verification keys; malformed entries are
skipped. -/
def parseRetired (raw : String) : List KeyMaterial :=
  (((raw.toList.splitOn ';').filterMap (splitOnce '=')).map fun (kid, secret) =>
    ⟨String.ofList (trim kid), String.ofList secret⟩).filter
      fun key => key.kid ≠ "" && key.secret ≠ ""

def ttlKey : String := "TOKEN_TTL_SECS"

/-- Reads configuration from the environment, falling back to development defaults. -/
def fromEnv (env : String → Option String) : Except ConfigError Config :=
  match parseU64 (var env ttlKey "900").toList with
  | none => .error (.invalidDuration ttlKey)
  | some tokenTtl => .ok {
      bindAddr := var env "AUTH_BIND_ADDR" "127.0.0.1:8080"
      activeKey := ⟨var env "JWT_ACTIVE_KID" "k1",
        var env "JWT_SECRET" "dev-only-insecure-jwt-secret-change-me"⟩
      retiredKeys := parseRetired (var env "JWT_RETIRED_KEYS" "")
      tokenTtl
      seedUsername := var env "SEED_USERNAME" "alice"
      seedPassword := var env "SEED_PASSWORD" "correct-horse-battery-staple"
      profileServiceUrl := var env "PROFILE_SERVICE_URL" "http://127.0.0.1:8081"
      internalToken := var env "INTERNAL_TOKEN" "dev-only-internal-token-change-me" }

/-- The token service `main` builds. -/
def tokens (config : Config) : TokenService :=
  .new config.activeKey config.retiredKeys config.tokenTtl

variable {env : String → Option String} {config : Config}

lemma fromEnv_eq_ok (h : fromEnv env = .ok config) :
    parseU64 (var env ttlKey "900").toList = some config.tokenTtl := by
  unfold fromEnv at h
  split at h
  · cases h
  · rename_i ttl httl
    obtain rfl := Except.ok.inj h
    exact httl

example : parseRetired "k0=s0; k1 =a=b;=x;k2=;junk" = [⟨"k0", "s0"⟩, ⟨"k1", "a=b"⟩] := by decide

end Config

end Knova.AuthService
