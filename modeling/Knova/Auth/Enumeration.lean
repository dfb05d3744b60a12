import Knova.Auth.Login

/-!
# Login failures do not reveal accounts

Two runs of the same logins over two directories, none of which authenticates in either run,
are the same run: the counters, the responses and the verifications performed do not depend
on which accounts exist.
-/

namespace Knova.Logins

open Library

variable {ι : Type} [DecidableEq ι]

/-- No login authenticates in a step. -/
def Fails (cfg : LoginSettings) (s : Logins ι) : Event ι → Prop
  | .finish i _ => ∀ v ∈ s.verification i,
    (cfg.users.authenticate cfg.argon2 cfg.decoyHash v.username v.offered).1 = .rejected
  | _ => True

instance (cfg : LoginSettings) (s : Logins ι) : DecidablePred (Fails cfg s)
  | .finish i _ => inferInstanceAs (Decidable (∀ v ∈ s.verification i,
      (cfg.users.authenticate cfg.argon2 cfg.decoyHash v.username v.offered).1 = .rejected))
  | .arrive _ _ _ => .isTrue trivial
  | .act _ _ => .isTrue trivial
  | .spawn _ => .isTrue trivial
  | .resume _ => .isTrue trivial
  | .drop _ => .isTrue trivial
  | .tick _ => .isTrue trivial

section Directories

variable {A : Argon2} {J : Jwt} {users₁ users₂ : UserDirectory} {decoy₁ decoy₂ : String}

/-- A step in which no login authenticates does not depend on the directory. -/
theorem step_alike (h₁ : users₁.WellFormed A decoy₁) (h₂ : users₂.WellFormed A decoy₂)
    (s : Logins ι) (e : Event ι) (hf₁ : Fails ⟨A, J, users₁, decoy₁⟩ s e)
    (hf₂ : Fails ⟨A, J, users₂, decoy₂⟩ s e) :
    step ⟨A, J, users₁, decoy₁⟩ s e = step ⟨A, J, users₂, decoy₂⟩ s e := by
  cases e with
  | finish i panics =>
    simp only [step]
    split
    · rename_i username offered work hv
      -- both runs reject, after one verification
      have hsame : users₁.authenticate A decoy₁ username offered =
          users₂.authenticate A decoy₂ username offered := by
        refine Prod.ext ?_ ?_
        · exact (hf₁ _ hv).trans (hf₂ _ hv).symm
        · rw [h₁.authenticate_work, h₂.authenticate_work]
      rw [hsame]
    · rfl
  | _ => rfl

end Directories

/-- What can be observed of two runs is the same. -/
structure Alike (s t : Logins ι) : Prop where
  responses : ∀ i response, s.Responded i response ↔ t.Responded i response
  verifications : ∀ i, s.verifications i = t.verifications i
  throttle : s.state.throttle = t.state.throttle
  permits : s.state.hashPermits = t.state.hashPermits

omit [DecidableEq ι] in
lemma Alike.refl (s : Logins ι) : Alike s s := ⟨fun _ _ => Iff.rfl, fun _ => rfl, rfl, rfl⟩

/-- From any state, logins none of which authenticates under either of two directories are
answered alike, cost the same, and leave the throttle in the same state. -/
theorem failures_alike (A : Argon2) (J : Jwt) (users₁ users₂ : UserDirectory)
    (decoy₁ decoy₂ : String) (h₁ : users₁.WellFormed A decoy₁) (h₂ : users₂.WellFormed A decoy₂)
    (ι : Type) [DecidableEq ι] (s : Logins ι) (es : List (Event ι))
    (hf₁ : (machine ι ⟨A, J, users₁, decoy₁⟩).EveryStep (Fails ⟨A, J, users₁, decoy₁⟩) s es)
    (hf₂ : (machine ι ⟨A, J, users₂, decoy₂⟩).EveryStep (Fails ⟨A, J, users₂, decoy₂⟩) s es)
    (t₁ : Logins ι) (hrun : (machine ι ⟨A, J, users₁, decoy₁⟩).run s es = some t₁) :
    ∃ t₂, (machine ι ⟨A, J, users₂, decoy₂⟩).run s es = some t₂ ∧ Alike t₁ t₂ := by
  have heq := Machine.run_congr (fun s e => step_alike (J := J) h₁ h₂ s e) hf₁ hf₂
  exact ⟨t₁, heq.symm.trans hrun, .refl t₁⟩

namespace Sample

/-- Verification of one known password, against hashes with the default parameters. -/
def argon2 : Argon2 where
  PasswordHash := String
  parse phc :=
    if "$argon2id$v=19$m=19456,t=2,p=1$".toList.isPrefixOf phc.toList then some phc else none
  verifyPassword password expected := decide (password = "hunter2" ∧
    expected = "$argon2id$v=19$m=19456,t=2,p=1$c2FsdHNhbHQ$aGFzaA")
  work _ := 1

def alice : UserRecord :=
  ⟨⟨"u1"⟩, "alice", "$argon2id$v=19$m=19456,t=2,p=1$c2FsdHNhbHQ$aGFzaA"⟩

def decoyHash : String := "$argon2id$v=19$m=19456,t=2,p=1$dGxhc3RsYXM$ZGVjb3k"

def directory : UserDirectory := ⟨AList.singleton "alice" alice⟩

def idle : Logins ℕ := start ℕ ⟨.new 1 20 (300 * 10 ^ 9), 1, .new ⟨"k1", "s1"⟩ [] 900⟩

/-- A login of `alice` from no known address with a wrong password. -/
def wrong (i : ℕ) : List (Event ℕ) := [.arrive i ⟨"alice", "wrong"⟩ none,
  .act i ⟨1700000000, "a"⟩, .act i ⟨1700000000, "a"⟩, .spawn i, .finish i false, .resume i,
  .act i ⟨1700000000, "a"⟩]

end Sample

open Sample in
/-- Two failed logins, the second one throttled, where the account exists and where it does
not. -/
theorem failures_alike_two : ∃ t₁ t₂,
    (machine ℕ ⟨argon2, .ofTokens ∅, directory, decoyHash⟩).run idle (wrong 0 ++ wrong 1) =
      some t₁ ∧
    (machine ℕ ⟨argon2, .ofTokens ∅, ⟨∅⟩, decoyHash⟩).run idle (wrong 0 ++ wrong 1) = some t₂ ∧
    Alike t₁ t₂ ∧ t₁.Responded 1 AppError.invalidCredentials.intoResponse ∧
    t₁.verifications 1 = 1 := by
  have hdecoy : argon2.WellFormed decoyHash := ⟨decoyHash, rfl, rfl⟩
  have hdirectory : directory.WellFormed argon2 decoyHash := by
    refine ⟨fun username user hu => ?_, hdecoy⟩
    obtain ⟨rfl, rfl⟩ : username = "alice" ∧ user = alice := by
      simpa [directory] using AList.mem_lookup_iff.mp hu
    exact ⟨_, rfl, rfl⟩
  have hempty : (⟨∅⟩ : UserDirectory).WellFormed argon2 decoyHash := by
    refine ⟨fun username user hu => ?_, hdecoy⟩
    cases hu
  obtain ⟨t₂, hrun, halike⟩ := failures_alike argon2 (.ofTokens ∅) directory ⟨∅⟩ decoyHash
    decoyHash hdirectory hempty ℕ idle (wrong 0 ++ wrong 1) (by decide) (by decide) _ rfl
  exact ⟨_, t₂, rfl, hrun, halike, ⟨_, _, rfl, rfl, rfl⟩, rfl⟩

end Knova.Logins
