import Knova.Profile.Backend
import Knova.Profile.Routes

/-!
# The profile service

Any number of requests handled at once, over one idempotency store and one storage
backend. A handler's calls on the idempotency store are single steps, a call on the
repository runs as the backend runs it, and any time may pass between two steps. While a
handler waits for the repository its future may be dropped; the call it made goes on.
-/

namespace Knova

open Library

/-- What the service is built with. -/
structure Settings where
  /-- `serde_json` reading the body of a create. -/
  parse : String → Option ProfileInput
  fingerprint : String → UInt64
  retention : ℕ
  reservationTimeout : ℕ

/-- The windows of `IdempotencyStore::default`. -/
def Settings.default (parse : String → Option ProfileInput) (fingerprint : String → UInt64) :
    Settings :=
  ⟨parse, fingerprint, Idempotency.IdempotencyStore.defaultRetention,
    Idempotency.IdempotencyStore.defaultReservationTimeout⟩

/-- A request that is being handled. -/
structure Handling where
  request : Request
  /-- The calls that have been answered, each with the instant of its answer. -/
  log : List (ℕ × Prog.Performed HandlerE)
  rest : HandlerProg Answer
  dropped : Bool

structure Service (ι : Type) [DecidableEq ι] (b : Backend) where
  profiles : (b.object ι).Config
  idempotency : Idempotency.IdempotencyStore
  now : ℕ
  handler : ι → Option Handling

namespace Service

inductive Event (ι : Type)
  /-- A request reaches its handler. -/
  | arrive (i : ι) (request : Request)
  /-- A handler performs its next call on the idempotency store. -/
  | perform (i : ι)
  /-- A handler makes its next call on the repository. -/
  | call (i : ι) (env : Env)
  /-- The repository performs the next action of a call. -/
  | act (i : ι)
  | ret (i : ι)
  /-- A handler goes on with what its call on the repository returned. -/
  | resume (i : ι)
  /-- The client or the gateway gave up on a request. -/
  | drop (i : ι)
  | tick (d : ℕ)

/-- A step of the request `i`. -/
def Event.By {ι : Type} (i : ι) : Event ι → Prop
  | .arrive j _ | .perform j | .call j _ | .act j | .ret j | .resume j | .drop j => j = i
  | .tick _ => False

variable {ι : Type} [DecidableEq ι] {b : Backend} {cfg : Settings}

def init (ι : Type) [DecidableEq ι] (b : Backend) (cfg : Settings) : Service ι b :=
  ⟨(b.object ι).initial, .new cfg.retention cfg.reservationTimeout, 0, fun _ => none⟩

/-- One call on the idempotency store. -/
def perform (cfg : Settings) (now : ℕ) : (a : HandlerAct) → Idempotency.IdempotencyStore →
    Option (a.Ans × Idempotency.IdempotencyStore)
  | .begin user key body, store => some (store.begin cfg.fingerprint now user key body)
  | .finish user key body recorded, store =>
    some ((), store.finish cfg.fingerprint now user key body recorded)
  | .abandon user key, store => some ((), store.abandon user key)
  | .store _, _ => none

/-- The handlers after the next call of `i` was answered. -/
def answer (s : Service ι b) (i : ι) (x : Handling) (a : HandlerAct) (r : a.Ans)
    (rest : HandlerProg Answer) : ι → Option Handling :=
  Function.update s.handler i (some { x with log := x.log ++ [(s.now, ⟨a, r⟩)], rest })

def step (cfg : Settings) (s : Service ι b) : Event ι → Option (Service ι b)
  | .arrive i request =>
    match s.handler i with
    | none => some { s with
        handler := Function.update s.handler i
          (some ⟨request, [], request.handler cfg.parse, false⟩) }
    | some _ => none
  | .perform i =>
    match s.handler i with
    | some ⟨request, log, .act a k, false⟩ =>
      match perform cfg s.now a s.idempotency with
      | some (r, idempotency) => some { s with
          idempotency
          handler := s.answer i ⟨request, log, .act a k, false⟩ a r (k r) }
      | none => none
    | _ => none
  | .call i env =>
    match s.handler i with
    | some ⟨_, _, .act (.store op) _, false⟩ =>
      ((b.object ι).step s.profiles (.invoke i (op, env))).map fun profiles => { s with profiles }
    | _ => none
  | .act i => ((b.object ι).step s.profiles (.act i)).map fun profiles => { s with profiles }
  | .ret i => ((b.object ι).step s.profiles (.ret i)).map fun profiles => { s with profiles }
  | .resume i =>
    match s.handler i, s.profiles.thread i with
    | some ⟨request, log, .act (.store op) k, false⟩, some (.returned call r) =>
      if h : call.1 = op then
        some { s with
          handler := s.answer i ⟨request, log, .act (.store op) k, false⟩ (.store op) (h ▸ r)
            (k (h ▸ r)) }
      else none
    | _, _ => none
  | .drop i =>
    match s.handler i, s.profiles.thread i with
    | some ⟨request, log, .act (.store op) k, false⟩, some _ => some { s with
        handler := Function.update s.handler i
          (some ⟨request, log, .act (.store op) k, true⟩) }
    | _, _ => none
  | .tick d => some { s with now := s.now + d }

abbrev machine (ι : Type) [DecidableEq ι] (b : Backend) (cfg : Settings) : Machine where
  State := Service ι b
  Event := Event ι
  step := step cfg

/-- Everything one step can do. -/
theorem step_cases {s s' : Service ι b} {e : Event ι} (hs : step cfg s e = some s') :
    (∃ i request, e = .arrive i request ∧ s.handler i = none ∧ s' = { s with
        handler := Function.update s.handler i
          (some ⟨request, [], request.handler cfg.parse, false⟩) }) ∨
    (∃ i x a k r store, e = .perform i ∧ s.handler i = some x ∧ x.dropped = false ∧
      x.rest = .act a k ∧ perform cfg s.now a s.idempotency = some (r, store) ∧
      s' = { s with idempotency := store, handler := s.answer i x a r (k r) }) ∨
    (∃ m profiles, (b.object ι).step s.profiles m = some profiles ∧
      ((∃ i x op k env, e = .call i env ∧ m = .invoke i (op, env) ∧ s.handler i = some x ∧
        x.dropped = false ∧ x.rest = .act (.store op) k) ∨
        ∃ i, e = .act i ∧ m = .act i ∨ e = .ret i ∧ m = .ret i) ∧
      s' = { s with profiles }) ∨
    (∃ i x op k env r, e = .resume i ∧ s.handler i = some x ∧ x.dropped = false ∧
      x.rest = .act (.store op) k ∧ s.profiles.thread i = some (.returned (op, env) r) ∧
      s' = { s with handler := s.answer i x (.store op) r (k r) }) ∨
    (∃ i x, e = .drop i ∧ s.handler i = some x ∧ x.dropped = false ∧
      (∃ op k, x.rest = .act (.store op) k) ∧
      s' = { s with handler := Function.update s.handler i (some { x with dropped := true }) }) ∨
    ∃ d, e = .tick d ∧ s' = { s with now := s.now + d } := by
  cases e with
  | arrive i request =>
    left
    simp only [step] at hs
    split at hs
    · rename_i hi
      exact ⟨i, request, rfl, hi, (Option.some.inj hs).symm⟩
    · cases hs
  | perform i =>
    right; left
    simp only [step] at hs
    split at hs
    · rename_i request log a k hi
      split at hs
      · rename_i r store hp
        exact ⟨i, _, a, k, r, store, rfl, hi, rfl, rfl, hp, (Option.some.inj hs).symm⟩
      · cases hs
    · cases hs
  | call i env =>
    right; right; left
    simp only [step] at hs
    split at hs
    · rename_i request log op k hi
      obtain ⟨profiles, hp, rfl⟩ := Option.map_eq_some_iff.mp hs
      exact ⟨_, profiles, hp, .inl ⟨i, _, op, k, env, rfl, rfl, hi, rfl, rfl⟩, rfl⟩
    · cases hs
  | act i =>
    right; right; left
    obtain ⟨profiles, hp, rfl⟩ := Option.map_eq_some_iff.mp hs
    exact ⟨_, profiles, hp, .inr ⟨i, .inl ⟨rfl, rfl⟩⟩, rfl⟩
  | ret i =>
    right; right; left
    obtain ⟨profiles, hp, rfl⟩ := Option.map_eq_some_iff.mp hs
    exact ⟨_, profiles, hp, .inr ⟨i, .inr ⟨rfl, rfl⟩⟩, rfl⟩
  | resume i =>
    right; right; right; left
    simp only [step] at hs
    split at hs
    · rename_i request log op k call r hi ht
      split at hs
      · rename_i hop
        obtain ⟨op', env⟩ := call
        obtain rfl : op' = op := hop
        exact ⟨i, _, op', k, env, r, rfl, hi, rfl, rfl, ht, (Option.some.inj hs).symm⟩
      · cases hs
    · cases hs
  | drop i =>
    right; right; right; right; left
    simp only [step] at hs
    split at hs
    · rename_i request log op k t hi ht
      exact ⟨i, _, rfl, hi, rfl, ⟨op, k, rfl⟩, (Option.some.inj hs).symm⟩
    · cases hs
  | tick d => exact .inr (.inr (.inr (.inr (.inr ⟨d, rfl, (Option.some.inj hs).symm⟩))))

end Service

end Knova
