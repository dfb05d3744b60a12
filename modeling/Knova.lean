import Knova.Library.Machine
import Knova.Library.Program
import Knova.Library.SharedObject
import Knova.Library.Linearizability
import Knova.Library.Mutex
import Knova.Library.Completion
import Knova.Library.Locks
import Knova.Library.Crash
import Knova.Library.FixedWindow
import Knova.Library.HashMap
import Knova.Library.PrefixCode
import Knova.Common.Version
import Knova.Common.EntityTag
import Knova.Common.Dto
import Knova.Common.Http
import Knova.Common.Json
import Knova.Profile.Repository
import Knova.Profile.Memory
import Knova.Profile.MemoryLinearizable
import Knova.Profile.MemoryAlone
import Knova.Profile.Sqlite
import Knova.Profile.SqliteRefinement
import Knova.Profile.Replicas
import Knova.Profile.ReplicaTurns
import Knova.Profile.SharedHistory
import Knova.Profile.Restarts
import Knova.Profile.ForeignRows
import Knova.Profile.Conformance
import Knova.Profile.Backend
import Knova.Profile.Waiting
import Knova.Profile.Contents
import Knova.Profile.Idempotency
import Knova.Profile.KeyIndependence
import Knova.Profile.Reservations
import Knova.Profile.Error
import Knova.Profile.Routes
import Knova.Profile.Progress
import Knova.Profile.Service
import Knova.Profile.ServiceInvariant
import Knova.Profile.Answered
import Knova.Profile.StoredFields
import Knova.Profile.Guard
import Knova.Profile.Effects
import Knova.Profile.Refused
import Knova.Profile.Replay
import Knova.Profile.Retry
import Knova.Profile.Responses
import Knova.Profile.RequestHistory
import Knova.Profile.Rivals
import Knova.Profile.RequestsLinearizable
import Knova.Profile.Sessions
import Knova.Profile.Preconditions
import Knova.Profile.Envelope
import Knova.Profile.LostUpdate
import Knova.Profile.Ownership
import Knova.Auth.Error
import Knova.Auth.Token
import Knova.Auth.Revocation
import Knova.Auth.Rotation
import Knova.Auth.RevocationList
import Knova.Auth.Config
import Knova.Auth.RetiredKeys
import Knova.Auth.Throttle
import Knova.Auth.ThrottleTrace
import Knova.Auth.Lockout
import Knova.Auth.Retention
import Knova.Auth.Rolling
import Knova.Auth.Users
import Knova.Auth.Login
import Knova.Auth.Lifetime
import Knova.Auth.LoginProgress
import Knova.Auth.Enumeration
import Knova.Auth.Permits
import Knova.Auth.Guessing
import Knova.Auth.Authenticated
import Knova.Auth.Outcomes
import Knova.Auth.Completed
import Knova.Auth.Gateway
import Knova.Auth.Envelope
import Knova.Auth.Correlation
import Knova.System.Composed
import Knova.System.Identity
import Knova.System.EntityTags
import Knova.System.Envelope
import Knova.System.Clients
import Knova.System.Platform
import Knova.System.Access
import Knova.System.Completed
import Knova.System.Logout
import Knova.Profile.Causes
