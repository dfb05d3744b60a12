import Knova.Auth.Throttle
import Knova.Auth.Token
import Knova.Auth.Users
import Knova.Library.Machine
import Knova.Library.Program

/-!
# `POST /login`

The handler is a program over the calls it makes on the state shared by all requests, one
for each lock it takes. Any number of logins run at once: a verification is a task of its
own, which goes on when the handler that waits for it is dropped, and any time may pass
between two steps.
-/

namespace Knova

open Library

/-- What `login` reads and never changes. -/
structure LoginSettings where
  argon2 : Argon2
  jwt : Jwt
  users : UserDirectory
  decoyHash : String

/-- What logins change, and the tokens they issue. -/
structure AppState where
  throttle : LoginThrottle
  hashPermits : ℕ
  tokens : TokenService

/-- The calls `login` makes. -/
inductive LoginAct
  | acquire
  | release
  | overAddress (address : IpAddr)
  | overAccount (username : String)
  /-- The verification, run as a blocking task; `none` when the task panicked. -/
  | authenticate (username offered : String)
  | bumpAccount (username : String)
  | bumpAddress (address : IpAddr)
  | recordSuccess (username : String)
  | issue (userId : UserId) (username : String)
  deriving DecidableEq

@[reducible] def LoginAct.Ans : LoginAct → Type
  | .acquire => Bool
  | .release => Unit
  | .overAddress _ => Bool
  | .overAccount _ => Bool
  | .authenticate _ _ => Option Authentication
  | .bumpAccount _ => Unit
  | .bumpAddress _ => Unit
  | .recordSuccess _ => Unit
  | .issue _ _ => Except AppError String × ℕ

abbrev LoginE : Signature := ⟨LoginAct, LoginAct.Ans⟩

abbrev LoginProg := Prog LoginE

/-- What the handler returns, before `into_response`. -/
abbrev LoginAnswer := Except AppError LoginResponse

namespace Login

/-- `LoginThrottle::check`, one lock at a time. -/
def check (username : String) (address : Option IpAddr)
    (k : Verdict → LoginProg LoginAnswer) : LoginProg LoginAnswer :=
  let account := .act (.overAccount username) fun throttled =>
    k (if throttled then .accountThrottled else .allowed)
  match address with
  | some address => .act (.overAddress address) fun throttled =>
    if throttled then k .addressThrottled else account
  | none => account

/-- `LoginThrottle::record_failure`, one lock at a time. -/
def recordFailure (username : String) (address : Option IpAddr)
    (k : LoginProg LoginAnswer) : LoginProg LoginAnswer :=
  .act (.bumpAccount username) fun _ =>
    match address with
    | some address => .act (.bumpAddress address) fun _ => k
    | none => k

/-- Password used to force a rejection that costs exactly what a real one costs. -/
def unmatchable : String := "\x00throttled\x00"

/-- What follows the verification. A panic of the blocking task is reported as such. -/
def conclude (username : String) (address : Option IpAddr) :
    Option Authentication → LoginProg LoginAnswer
  | none => .pure (.error .blockingTask)
  | some .rejected => recordFailure username address (.pure (.error .invalidCredentials))
  | some (.authenticated user) => .act (.recordSuccess username) fun _ =>
    .act (.issue user.id user.username) fun
      | (.error e, _) => .pure (.error e)
      | (.ok accessToken, ttlSecs) => .pure (.ok ⟨accessToken, "Bearer", ttlSecs⟩)

/-- Exchanges a username and password for a bearer token. -/
def login (request : LoginRequest) (address : Option IpAddr) : LoginProg LoginAnswer :=
  .act .acquire fun
    | false => .pure (.error .overloaded)
    | true => check request.username address fun
      -- the permit is a local of the handler until the blocking task owns it
      | .addressThrottled => .act .release fun _ => .pure (.error .addressThrottled)
      | .accountThrottled => .act (.authenticate request.username unmatchable)
          (conclude request.username address)
      | .allowed => .act (.authenticate request.username request.password)
          (conclude request.username address)

/-- The response a client receives. -/
def render : LoginAnswer → Response
  | .ok response => .json 200 [] response.toJson
  | .error e => e.intoResponse

/-- What a step of a handler meets outside the shared state: the wall clock in seconds, and
the identifier `Uuid::new_v4` draws. -/
structure Draw where
  unixNow : ℕ
  jti : String

/-- One call on the shared state. -/
def exec (J : Jwt) (now : ℕ) (draw : Draw) : (a : LoginAct) → AppState →
    Option (a.Ans × AppState)
  | .acquire, s =>
    if 0 < s.hashPermits then some (true, { s with hashPermits := s.hashPermits - 1 })
    else some (false, s)
  | .release, s => some ((), { s with hashPermits := s.hashPermits + 1 })
  | .overAddress address, s =>
    let (throttled, throttle) := s.throttle.overAddress now address
    some (throttled, { s with throttle })
  | .overAccount username, s =>
    let (throttled, throttle) := s.throttle.overAccount now username
    some (throttled, { s with throttle })
  | .authenticate _ _, _ => none
  | .bumpAccount username, s =>
    some ((), { s with throttle := s.throttle.bumpAccount now username })
  | .bumpAddress address, s =>
    some ((), { s with throttle := s.throttle.bumpAddress now address })
  | .recordSuccess username, s =>
    some ((), { s with throttle := s.throttle.recordSuccess username })
  | .issue userId username, s =>
    some ((s.tokens.issue J draw.unixNow draw.jti userId username, s.tokens.ttlSecs), s)

/-- Performed at one instant, `check` is that of the throttle. -/
theorem eval_check (J : Jwt) (now : ℕ) (draw : Draw) (username : String)
    (address : Option IpAddr) (k : Verdict → LoginProg LoginAnswer) (s : AppState) :
    (check username address k).eval (exec J now draw) s =
      (k (s.throttle.check now username address).1).eval (exec J now draw)
        { s with throttle := (s.throttle.check now username address).2 } := by
  cases address with
  | none => rfl
  | some address =>
    simp only [check, LoginThrottle.check, Prog.eval, exec]
    cases (s.throttle.overAddress now address).1 <;> rfl

/-- Performed at one instant, `recordFailure` is that of the throttle. -/
theorem eval_recordFailure (J : Jwt) (now : ℕ) (draw : Draw) (username : String)
    (address : Option IpAddr) (k : LoginProg LoginAnswer) (s : AppState) :
    (recordFailure username address k).eval (exec J now draw) s =
      k.eval (exec J now draw)
        { s with throttle := s.throttle.recordFailure now username address } := by
  cases address <;> rfl

end Login

/-- A login that is being handled. -/
structure LoginAttempt where
  request : LoginRequest
  address : Option IpAddr
  /-- The calls that have been answered, each with the instant of its answer. -/
  log : List (ℕ × Prog.Performed LoginE)
  rest : LoginProg LoginAnswer
  dropped : Bool

/-- The blocking task of a login. -/
structure Verification where
  username : String
  offered : String
  /-- How the task ended, once it has. -/
  outcome : Option (Option Authentication)
  /-- The work done on password verification. -/
  work : ℕ

structure Logins (ι : Type) where
  state : AppState
  now : ℕ
  attempt : ι → Option LoginAttempt
  verification : ι → Option Verification

namespace Logins

inductive Event (ι : Type)
  /-- A request reaches its handler. -/
  | arrive (i : ι) (request : LoginRequest) (address : Option IpAddr)
  /-- A handler performs its next call on the shared state. -/
  | act (i : ι) (draw : Login.Draw)
  /-- A handler hands its verification to the blocking pool. -/
  | spawn (i : ι)
  /-- A verification ends, or panics, and its permit is released. -/
  | finish (i : ι) (panics : Bool)
  /-- A handler goes on with the outcome of its verification. -/
  | resume (i : ι)
  /-- The client gave up on a request whose verification was started. -/
  | drop (i : ι)
  | tick (d : ℕ)

variable {ι : Type} [DecidableEq ι]

/-- No login has arrived. -/
def start (ι : Type) (state : AppState) : Logins ι := ⟨state, 0, fun _ => none, fun _ => none⟩

/-- The attempts after the next call of `i` was answered. -/
def answer (s : Logins ι) (i : ι) (x : LoginAttempt) (a : LoginAct) (r : a.Ans)
    (rest : LoginProg LoginAnswer) : ι → Option LoginAttempt :=
  Function.update s.attempt i (some { x with log := x.log ++ [(s.now, ⟨a, r⟩)], rest })

def step (cfg : LoginSettings) (s : Logins ι) : Event ι → Option (Logins ι)
  | .arrive i request address =>
    match s.attempt i with
    | none => some { s with
        attempt := Function.update s.attempt i
          (some ⟨request, address, [], Login.login request address, false⟩) }
    | some _ => none
  | .act i draw =>
    match s.attempt i with
    | some ⟨request, address, log, .act a k, false⟩ =>
      match Login.exec cfg.jwt s.now draw a s.state with
      | some (r, state) => some { s with
          state
          attempt := s.answer i ⟨request, address, log, .act a k, false⟩ a r (k r) }
      | none => none
    | _ => none
  | .spawn i =>
    match s.attempt i, s.verification i with
    | some ⟨_, _, _, .act (.authenticate username offered) _, false⟩, none => some { s with
        verification := Function.update s.verification i (some ⟨username, offered, none, 0⟩) }
    | _, _ => none
  | .finish i panics =>
    match s.verification i with
    | some ⟨username, offered, none, _⟩ =>
      let (outcome, work) := cfg.users.authenticate cfg.argon2 cfg.decoyHash username offered
      some { s with
        state := { s.state with hashPermits := s.state.hashPermits + 1 }
        verification := Function.update s.verification i
          (some ⟨username, offered, some (if panics then none else some outcome), work⟩) }
    | _ => none
  | .resume i =>
    match s.attempt i, s.verification i with
    | some ⟨request, address, log, .act (.authenticate username offered) k, false⟩,
        some ⟨_, _, some outcome, _⟩ => some { s with
          attempt := s.answer i
            ⟨request, address, log, .act (.authenticate username offered) k, false⟩
            (.authenticate username offered) outcome (k outcome) }
    | _, _ => none
  | .drop i =>
    match s.attempt i, s.verification i with
    | some ⟨request, address, log, .act (.authenticate username offered) k, false⟩, some _ =>
      some { s with
        attempt := Function.update s.attempt i
          (some ⟨request, address, log, .act (.authenticate username offered) k, true⟩) }
    | _, _ => none
  | .tick d => some { s with now := s.now + d }

abbrev machine (ι : Type) [DecidableEq ι] (cfg : LoginSettings) : Machine where
  State := Logins ι
  Event := Event ι
  step := step cfg

/-- The response to `i`. -/
def Responded (s : Logins ι) (i : ι) (response : Response) : Prop :=
  ∃ x answer, s.attempt i = some x ∧ x.rest = .pure answer ∧ Login.render answer = response

/-- How many password verifications were performed for `i`. -/
def verifications (s : Logins ι) (i : ι) : ℕ :=
  match s.verification i with
  | some v => v.work
  | none => 0

end Logins

end Knova
