import Knova.Auth.Envelope
import Knova.Auth.LoginProgress
import Knova.System.Identity

/-!
# The platform

Both services with everything that runs in them: clients log in, present the tokens they were
given to the gateway or to `/logout`, and any number of these requests are under way at once.
-/

namespace Knova

open Library AuthService

/-- What the platform is built with. -/
structure Deployment where
  setup : System.Setup
  argon2 : Argon2
  users : UserDirectory
  decoyHash : String
  throttle : LoginThrottle
  hashPermits : ℕ
  /-- Reads the body of a login. -/
  json : HttpRequest → Except Response LoginRequest

/-- Logins issue tokens with the keys and the codec that the gateway verifies them with. -/
def Deployment.logins (d : Deployment) : LoginSettings :=
  ⟨d.argon2, d.setup.gateway.jwt, d.users, d.decoyHash⟩

structure Platform (ι : Type) [DecidableEq ι] (b : Backend) where
  system : System ι b
  logins : Logins ι

namespace Platform

inductive Event (ι : Type)
  /-- A client's request reaches the authorization service. -/
  | request (i : ι) (sent : HttpRequest) (uuid : String) (address : Option IpAddr)
  /-- A step of a login, or of the clock its failures are counted by. -/
  | login (e : Logins.Event ι)
  /-- A login is answered. -/
  | respond (i : ι)
  /-- A step of the proxy or of the profile service, or of the wall clock. -/
  | system (e : System.Event ι)

/-- A step of a login that has arrived; tokens are issued by the wall clock. -/
def Goes {ι : Type} (now : ℕ) : Logins.Event ι → Bool
  | .arrive _ _ _ => false
  | .act _ draw => draw.unixNow = now
  | _ => true

/-- A step of a request that has arrived. -/
def Proceeds {ι : Type} : System.Event ι → Bool
  | .request _ _ _ | .revoke _ => false
  | _ => true

variable {ι : Type} [DecidableEq ι] {b : Backend} {d : Deployment}

def init (ι : Type) [DecidableEq ι] (b : Backend) (d : Deployment) : Platform ι b :=
  ⟨System.init ι b d.setup, Logins.start ι ⟨d.throttle, d.hashPermits, d.setup.tokens⟩⟩

/-- The request `i` stands as `x` says. -/
def put (s : Platform ι b) (i : ι) (x : Exchange) : Platform ι b :=
  { s with system := { s.system with exchange := Function.update s.system.exchange i (some x) } }

/-- The token of `claims` is revoked. -/
def revoke (s : Platform ι b) (claims : Claims) : Platform ι b :=
  let tokens := s.system.tokens.revoke s.system.now claims
  ⟨{ s.system with tokens }, { s.logins with state := { s.logins.state with tokens } }⟩

def step (d : Deployment) (s : Platform ι b) : Event ι → Option (Platform ι b)
  | .request i sent uuid address =>
    let (request, requestId) := propagate uuid sent.ofWire
    match s.system.exchange i,
        serve d.setup.gateway d.json s.system.tokens s.system.now request with
    | some _, _ => none
    | none, .respond response => some (s.put i ⟨request, requestId, none, some response⟩)
    | none, .login credentials =>
      (Logins.step d.logins s.logins (.arrive i credentials address)).map fun logins =>
        { s.put i ⟨request, requestId, none, none⟩ with logins }
    | none, .logout claims =>
      some ((s.put i ⟨request, requestId, none, some (.empty 204)⟩).revoke claims)
    | none, .proxied claims upstream =>
      some (s.put i ⟨request, requestId, some (claims, upstream), none⟩)
  | .login e =>
    if Goes s.system.now e then
      (Logins.step d.logins s.logins e).map fun logins => { s with logins }
    else none
  | .respond i =>
    match s.system.exchange i, s.logins.attempt i with
    | some ⟨request, requestId, none, none⟩, some ⟨_, _, _, .pure answer, _⟩ =>
      some (s.put i ⟨request, requestId, none, some (Login.render answer)⟩)
    | _, _ => none
  | .system e =>
    if Proceeds e then (System.step d.setup s.system e).map fun system => { s with system }
    else none

abbrev machine (ι : Type) [DecidableEq ι] (b : Backend) (d : Deployment) : Machine where
  State := Platform ι b
  Event := Event ι
  step := step d

/-- The request as its handler reads it, and the correlation id of the response. -/
abbrev correlated (sent : HttpRequest) (uuid : String) : HttpRequest × Option HeaderValue :=
  propagate uuid sent.ofWire

/-- Everything one step can do. -/
inductive Taken (d : Deployment) (s : Platform ι b) : Event ι → Platform ι b → Prop
  | responded {i : ι} {sent : HttpRequest} {uuid : String} {address : Option IpAddr}
    {response : Response} : s.system.exchange i = none →
    serve d.setup.gateway d.json s.system.tokens s.system.now (correlated sent uuid).1 =
      .respond response →
    Taken d s (.request i sent uuid address)
      (s.put i ⟨(correlated sent uuid).1, (correlated sent uuid).2, none, some response⟩)
  | arrived {i : ι} {sent : HttpRequest} {uuid : String} {address : Option IpAddr}
    {credentials : LoginRequest} {logins : Logins ι} : s.system.exchange i = none →
    serve d.setup.gateway d.json s.system.tokens s.system.now (correlated sent uuid).1 =
      .login credentials →
    Logins.step d.logins s.logins (.arrive i credentials address) = some logins →
    Taken d s (.request i sent uuid address)
      { s.put i ⟨(correlated sent uuid).1, (correlated sent uuid).2, none, none⟩ with logins }
  | loggedOut {i : ι} {sent : HttpRequest} {uuid : String} {address : Option IpAddr}
    {claims : Claims} : s.system.exchange i = none →
    serve d.setup.gateway d.json s.system.tokens s.system.now (correlated sent uuid).1 =
      .logout claims →
    Taken d s (.request i sent uuid address)
      ((s.put i ⟨(correlated sent uuid).1, (correlated sent uuid).2, none,
        some (.empty 204)⟩).revoke claims)
  | proxied {i : ι} {sent : HttpRequest} {uuid : String} {address : Option IpAddr}
    {claims : Claims} {upstream : HttpRequest} : s.system.exchange i = none →
    serve d.setup.gateway d.json s.system.tokens s.system.now (correlated sent uuid).1 =
      .proxied claims upstream →
    Taken d s (.request i sent uuid address)
      (s.put i ⟨(correlated sent uuid).1, (correlated sent uuid).2, some (claims, upstream), none⟩)
  | login {e : Logins.Event ι} {logins : Logins ι} : Goes s.system.now e →
    Logins.step d.logins s.logins e = some logins → Taken d s (.login e) { s with logins }
  | answered {i : ι} {x : Exchange} {attempt : LoginAttempt} {answer : LoginAnswer} :
    s.system.exchange i = some x → x.sent = none → x.answer = none →
    s.logins.attempt i = some attempt → attempt.rest = .pure answer →
    Taken d s (.respond i) (s.put i { x with answer := some (Login.render answer) })
  | system {e : System.Event ι} {system : System ι b} : Proceeds e →
    System.step d.setup s.system e = some system → Taken d s (.system e) { s with system }

theorem taken_of_step {s s' : Platform ι b} {e : Event ι} (hs : step d s e = some s') :
    Taken d s e s' := by
  cases e with
  | request i sent uuid address =>
    simp only [step] at hs
    split at hs
    · cases hs
    · rename_i hi hserve
      obtain rfl := Option.some.inj hs
      exact .responded hi hserve
    · rename_i credentials hi hserve
      obtain ⟨logins, hlogins, rfl⟩ := Option.map_eq_some_iff.mp hs
      exact .arrived hi hserve hlogins
    · rename_i claims hi hserve
      obtain rfl := Option.some.inj hs
      exact .loggedOut hi hserve
    · rename_i claims upstream hi hserve
      obtain rfl := Option.some.inj hs
      exact .proxied hi hserve
  | login e =>
    simp only [step] at hs
    split at hs
    · rename_i hgoes
      obtain ⟨logins, hlogins, rfl⟩ := Option.map_eq_some_iff.mp hs
      exact .login hgoes hlogins
    · cases hs
  | respond i =>
    simp only [step] at hs
    split at hs
    · rename_i hi hattempt
      obtain rfl := Option.some.inj hs
      exact .answered hi rfl rfl hattempt rfl
    · cases hs
  | system e =>
    simp only [step] at hs
    split at hs
    · rename_i hproceeds
      obtain ⟨system, hsystem, rfl⟩ := Option.map_eq_some_iff.mp hs
      exact .system hproceeds hsystem
    · cases hs

end Platform

end Knova
