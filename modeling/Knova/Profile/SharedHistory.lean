import Knova.Profile.ReplicaTurns

/-!
# Replicas share one history

The calls on all replicas of a file take effect in one order, and an update that was refused
reports what was committed while its transaction ran.
-/

namespace Knova.SqliteProfiles.Replicas

open Library Histories

variable {ι κ : Type} [DecidableEq ι] [DecidableEq κ]

/-- The linearization points of the replicas: a call takes effect as its transaction commits,
or with its last statement. -/
def linearizationPoints (on : ι → κ) :
    LinearizationPoints (object on) Histories.contract Histories.empty where
  inv := Inv
  stage i s h call p done := ∃ told, Place on i s h call p told done
  init := inv_opened
  start _ _ _ _ _ := ⟨none, .waiting rfl⟩
  act := by
    rintro i s h call x k done r s' hs ⟨told, hp⟩ he
    obtain ⟨h', told', done', hturn⟩ := hp.turn hs he
    refine ⟨h', done', hturn.effect, hturn.inv, ⟨told', hturn.place⟩, ?_⟩
    rintro j hj callj p d ⟨toldj, hpj⟩
    exact ⟨toldj, hpj.frame hs hj hturn.frame⟩
  finish := by
    rintro i s h call r done ⟨told, hp⟩
    exact hp.of_pure.2

/-! ### What was committed while a transaction ran -/

variable {on : ι → κ}

/-- The call `i` is in a transaction that holds the write lock. -/
def Running (on : ι → κ) (i : ι) (c : (object on).Config) : Prop :=
  ∃ call p, c.thread i = some (.running call p) ∧ Working on i c.shared p

/-- What a run shows of the call `i` once its answer is `told`: the contract allows that answer
on whatever was committed while its transaction ran, and only an error or a read is answered
without such a transaction. -/
structure Reported (on : ι → κ) (moves : List (Move ι StoreCalls)) (i : ι)
    (call : StoreCalls.Act) (told : Option (StoreCalls.Ans call)) : Prop where
  explained : ∀ d, (object on).machine.Visits (object on).initial moves d → Running on i d →
    ∃ q, told = some q ∧ ∃ h h', Stored d.shared.committed h ∧ contract h call q h'
  ran : ∀ q, told = some q → (∃ e, q = .error e) ∨
    (∃ d, (object on).machine.Visits (object on).initial moves d ∧ Running on i d) ∨
    call.1.input = none

/-- What every run keeps. -/
structure Tracked (on : ι → κ) (moves : List (Move ι StoreCalls)) (c : (object on).Config) :
    Prop where
  running : ∃ h, Inv c.shared h ∧ ∀ i call p, c.thread i = some (.running call p) →
    ∃ told done, Place on i c.shared h call p told done ∧ Reported on moves i call told
  returned : ∀ i call r, c.thread i = some (.returned call r) → Reported on moves i call (some r)
  fresh : ∀ i, c.thread i = none → ∀ d,
    (object on).machine.Visits (object on).initial moves d → ¬Running on i d

section Tracked

variable {moves : List (Move ι StoreCalls)} {c c' : (object on).Config} {m : Move ι StoreCalls}
  {i : ι} {call : StoreCalls.Act} {told told' : Option (StoreCalls.Ans call)}

lemma Reported.snoc (hr : Reported on moves i call told)
    (hrun : (object on).machine.run (object on).initial moves = some c)
    (hstep : (object on).step c m = some c') (hkept : ∀ q, told = some q → told' = some q)
    (hnow : Running on i c' →
      ∃ q, told' = some q ∧ ∃ h h', Stored c'.shared.committed h ∧ contract h call q h')
    (hnew : told = none → ∀ q, told' = some q →
      (∃ e, q = .error e) ∨ Running on i c' ∨ call.1.input = none) :
    Reported on (moves ++ [m]) i call told' where
  explained d hd hrunning := by
    rcases (Machine.visits_snoc hrun hstep).mp hd with hd | rfl
    · obtain ⟨q, hq, hexplained⟩ := hr.explained d hd hrunning
      exact ⟨q, hkept q hq, hexplained⟩
    · exact hnow hrunning
  ran q hq := by
    cases htold : told with
    | none =>
      rcases hnew htold q hq with herr | hrunning | hread
      · exact .inl herr
      · exact .inr (.inl ⟨c', (Machine.visits_snoc hrun hstep).mpr (.inr rfl), hrunning⟩)
      · exact .inr (.inr hread)
    | some q' =>
      have hsame := hkept q' htold
      rw [hq] at hsame
      obtain rfl := Option.some.inj hsame
      rcases hr.ran q htold with herr | ⟨d, hd, hrunning⟩ | hread
      · exact .inl herr
      · exact .inr (.inl ⟨d, (Machine.visits_snoc hrun hstep).mpr (.inl hd), hrunning⟩)
      · exact .inr (.inr hread)

lemma tracked_initial : Tracked on [] (object on).initial where
  running := ⟨_, inv_opened, by simp [SharedObject.initial]⟩
  returned := by simp [SharedObject.initial]
  fresh i _ d hd := by
    obtain rfl := Machine.visits_nil.mp hd
    rintro ⟨call, p, hthread, -⟩
    simp [SharedObject.initial] at hthread

/-- What is settled of a running call is settled by what is committed. -/
lemma explained_of_place {p : Prog E (StoreCalls.Ans call)} {h : Histories}
    {done : Option (StoreCalls.Ans call)} (hs : Inv c.shared h)
    (hi : c.thread i = some (.running call p)) (hp : Place on i c.shared h call p told done)
    (hrunning : Running on i c) :
    ∃ q, told = some q ∧ ∃ h h', Stored c.shared.committed h ∧ contract h call q h' := by
  obtain ⟨call', p', hi', hworking⟩ := hrunning
  rw [hi] at hi'
  cases hi'
  obtain ⟨q, h', hq, hc⟩ := hp.of_working hworking
  exact ⟨q, hq, h, h', hs.stored, hc⟩

/-- A step of the call `i`. What the others know goes on. -/
lemma Tracked.step_of (ht : Tracked on moves c)
    (hrun : (object on).machine.run (object on).initial moves = some c)
    (hstep : (object on).step c m = some c') {h h' : Histories} (hs' : Inv c'.shared h')
    (hplaces : ∀ i call p, c.thread i = some (.running call p) →
      ∃ told done, Place on i c.shared h call p told done ∧ Reported on moves i call told)
    (hothers : ∀ j, j ≠ i → c'.thread j = c.thread j)
    (hframe : ∀ j, j ≠ i → ∀ call p told done, Place on j c.shared h call p told done →
      Place on j c'.shared h' call p told done)
    (hrunning : ∀ call p, c'.thread i = some (.running call p) →
      ∃ told done, Place on i c'.shared h' call p told done ∧
        Reported on (moves ++ [m]) i call told)
    (hreturned : ∀ call r, c'.thread i = some (.returned call r) →
      Reported on (moves ++ [m]) i call (some r))
    (hmade : c'.thread i ≠ none) : Tracked on (moves ++ [m]) c' where
  running := by
    refine ⟨h', hs', fun j call p hj => ?_⟩
    by_cases hji : j = i
    · subst hji
      exact hrunning call p hj
    · obtain ⟨told, done, hp, hr⟩ := hplaces j call p (by rwa [← hothers j hji])
      have hp' := hframe j hji call p told done hp
      exact ⟨told, done, hp', hr.snoc hrun hstep (fun _ hq => hq)
        (explained_of_place hs' hj hp') fun hnone q hq => by simp [hnone] at hq⟩
  returned j call r hj := by
    by_cases hji : j = i
    · subst hji
      exact hreturned call r hj
    · refine (ht.returned j call r (by rwa [← hothers j hji])).snoc hrun hstep (fun _ hq => hq)
        ?_ (by simp)
      rintro ⟨call', p, hj', -⟩
      rw [hj] at hj'
      cases hj'
  fresh j hj d hd := by
    have hji : j ≠ i := by
      rintro rfl
      exact hmade hj
    rcases (Machine.visits_snoc hrun hstep).mp hd with hd | rfl
    · exact ht.fresh j (by rwa [← hothers j hji]) d hd
    · rintro ⟨call, p, hj', -⟩
      rw [hj] at hj'
      cases hj'

lemma Tracked.invoke (ht : Tracked on moves c)
    (hrun : (object on).machine.run (object on).initial moves = some c)
    (hstep : (object on).step c (.invoke i call) = some c') (hi : c.thread i = none)
    (hc' : c' = ⟨c.shared,
      Function.update c.thread i (some (.running call ((object on).body call))),
      c.history ++ [.invoke i call]⟩) : Tracked on (moves ++ [.invoke i call]) c' := by
  obtain ⟨h, hs, hplaces⟩ := ht.running
  have hshared : c'.shared = c.shared := by rw [hc']
  have hthread : c'.thread i = some (.running call ((object on).body call)) := by simp [hc']
  refine ht.step_of (i := i) hrun hstep (by rwa [hshared]) hplaces (fun j hj => by simp [hc', hj])
    (fun j hj callj p told done hp => by rwa [hshared]) ?_ ?_ (by simp [hthread])
  · intro call' p hp
    rw [hthread] at hp
    cases hp
    have hplace : Place on i c'.shared h call ((object on).body call) none none := .waiting rfl
    have hbefore : Reported on moves i call none := {
      explained := fun d hd hrunning => absurd hrunning (ht.fresh i hi d hd)
      ran := by simp }
    refine ⟨none, none, hplace, hbefore.snoc hrun hstep (by simp) ?_ (by simp)⟩
    exact explained_of_place (by rwa [hshared]) hthread hplace
  · intro call' r hr
    rw [hthread] at hr
    cases hr

lemma Tracked.act (ht : Tracked on moves c)
    (hrun : (object on).machine.run (object on).initial moves = some c)
    (hstep : (object on).step c (.act i) = some c') {x : Act}
    {k : x.Ans → Prog E (StoreCalls.Ans call)} {r : x.Ans} {s : Replicas ι κ}
    (hi : c.thread i = some (.running call (.act x k))) (he : exec on i x c.shared = some (r, s))
    (hc' : c' = ⟨s, Function.update c.thread i (some (.running call (k r))), c.history⟩) :
    Tracked on (moves ++ [.act i]) c' := by
  obtain ⟨h, hs, hplaces⟩ := ht.running
  obtain ⟨told, done, hp, hr⟩ := hplaces i call _ hi
  obtain ⟨h', told', done', hturn⟩ := hp.turn hs he
  have hshared : c'.shared = s := by rw [hc']
  have hthread : c'.thread i = some (.running call (k r)) := by simp [hc']
  refine ht.step_of (i := i) hrun hstep (by rw [hshared]; exact hturn.inv) hplaces
    (fun j hj => by simp [hc', hj]) (fun j hj callj p toldj donej hpj => ?_) ?_ ?_
    (by simp [hthread])
  · rw [hshared]
    exact hpj.frame hs hj hturn.frame
  · intro call' p hp'
    rw [hthread] at hp'
    cases hp'
    have hplace : Place on i c'.shared h' call (k r) told' done' := by
      rw [hshared]
      exact hturn.place
    refine ⟨told', done', hplace, hr.snoc hrun hstep hturn.kept
      (explained_of_place (by rw [hshared]; exact hturn.inv) hthread hplace) ?_⟩
    intro hnone q hq
    rcases hturn.settled hnone q hq with herr | hworking | hread
    · exact .inl herr
    · exact .inr (.inl ⟨call, k r, hthread, by rwa [hshared]⟩)
    · exact .inr (.inr hread)
  · intro call' q hq
    rw [hthread] at hq
    cases hq

lemma Tracked.ret (ht : Tracked on moves c)
    (hrun : (object on).machine.run (object on).initial moves = some c)
    (hstep : (object on).step c (.ret i) = some c') {r : StoreCalls.Ans call}
    (hi : c.thread i = some (.running call (.pure r)))
    (hc' : c' = ⟨c.shared, Function.update c.thread i (some (.returned call r)),
      c.history ++ [.ret i call r]⟩) : Tracked on (moves ++ [.ret i]) c' := by
  obtain ⟨h, hs, hplaces⟩ := ht.running
  obtain ⟨told, done, hp, hr⟩ := hplaces i call _ hi
  obtain ⟨rfl, -⟩ := hp.of_pure
  have hshared : c'.shared = c.shared := by rw [hc']
  have hthread : c'.thread i = some (.returned call r) := by simp [hc']
  refine ht.step_of (i := i) hrun hstep (by rwa [hshared]) hplaces (fun j hj => by simp [hc', hj])
    (fun j hj callj p toldj donej hpj => by rwa [hshared]) ?_ ?_ (by simp [hthread])
  · intro call' p hp'
    rw [hthread] at hp'
    cases hp'
  · intro call' q hq
    rw [hthread] at hq
    cases hq
    refine hr.snoc hrun hstep (fun _ hq => hq) ?_ (by simp)
    rintro ⟨call', p, hi', -⟩
    rw [hthread] at hi'
    cases hi'

theorem tracked_run (hrun : (object on).machine.run (object on).initial moves = some c) :
    Tracked on moves c := by
  refine Machine.run_induction (Tracked on) tracked_initial ?_ hrun
  intro moves c m c' hrun ht hstep
  obtain ⟨i, call, rfl, hi, hc'⟩ | ⟨i, call, x, k, r, s, rfl, hi, he, hc'⟩ |
    ⟨i, call, r, rfl, hi, hc'⟩ := SharedObject.step_cases hstep
  · exact ht.invoke hrun hstep hi hc'
  · exact ht.act hrun hstep hi he hc'
  · exact ht.ret hrun hstep hi hc'

end Tracked

/-! ### One history -/

/-- While a transaction of `i` that writes ran, what was committed satisfied `P`; and one ran. -/
def Throughout (on : ι → κ) (moves : List (Move ι StoreCalls)) (i : ι) (P : Db → Prop) : Prop :=
  (∃ d, (object on).machine.Visits (object on).initial moves d ∧ Running on i d) ∧
    ∀ d, (object on).machine.Visits (object on).initial moves d → Running on i d →
      P d.shared.committed

/-- What the calls on all replicas of a file were answered in a run to `c`. -/
structure SharedHistory (on : ι → κ) (moves : List (Move ι StoreCalls)) (c : (object on).Config) :
    Prop where
  linearizable : Linearizable contract Histories.empty c.history
  createdOnce : ∀ i j user input input' env env' p p',
    c.thread i = some (.returned (.create user input, env) (.ok (some p))) →
    c.thread j = some (.returned (.create user input', env') (.ok (some p'))) → i = j
  appliedOnce : ∀ i j user expected input input' env env' p p',
    c.thread i = some (.returned (.update user expected input, env) (.ok (.applied p))) →
    c.thread j = some (.returned (.update user expected input', env') (.ok (.applied p'))) → i = j
  stale : ∀ i user expected input env v,
    c.thread i = some (.returned (.update user expected input, env) (.ok (.stale v))) →
    Throughout on moves i fun db =>
      ∃ row, db.profiles.lookup user = some row ∧ fromSql row.version = v
  missing : ∀ i user expected input env,
    c.thread i = some (.returned (.update user expected input, env) (.ok .missing)) →
    Throughout on moves i fun db => db.profiles.lookup user = none
  /-- The row of `profiles` is the last row of `profile_revisions`, whatever was committed. -/
  projection : ∀ d, (object on).machine.Visits (object on).initial moves d → ∀ user,
    d.shared.committed.profiles.lookup user =
      (revisionsOf d.shared.committed user).getLast?.map fun last =>
        ⟨last.2.address, last.2.phoneNumber, last.1⟩

section SharedHistory

variable {moves : List (Move ι StoreCalls)} {c : (object on).Config}

/-- A returned update that was not answered an error had a transaction, and its answer is what
the contract allows on whatever was committed while that ran. -/
lemma throughout_of_update {P : Db → Prop} {i : ι} {user : UserId} {expected : Version}
    {input : ProfileInput} {env : Env} {answer : Update}
    (hrun : (object on).machine.run (object on).initial moves = some c)
    (hi : c.thread i = some (.returned (.update user expected input, env) (.ok answer)))
    (hP : ∀ db h h', Stored db h → contract h (.update user expected input, env) (.ok answer) h' →
      P db) : Throughout on moves i P := by
  have hreported := (tracked_run hrun).returned i _ _ hi
  constructor
  · rcases hreported.ran _ rfl with ⟨e, he⟩ | hran | hread
    · cases he
    · exact hran
    · cases hread
  · intro d hd hrunning
    obtain ⟨q, hq, h, h', hdb, hc⟩ := hreported.explained d hd hrunning
    obtain rfl := Option.some.inj hq
    exact hP _ h h' hdb hc

/-- Replicas share one history: on any number of stores opened on one file, whatever the
interleaving of the statements of their calls. -/
theorem replicas_share_history (on : ι → κ) {moves : List (Move ι StoreCalls)}
    {c : (object on).Config}
    (hrun : (object on).machine.run (object on).initial moves = some c) :
    SharedHistory on moves c := by
  obtain ⟨order, h, hx⟩ := (linearizationPoints on).reachable_explained ⟨moves, hrun⟩
  exact {
    linearizable := ⟨order, h, hx.linearizes⟩
    createdOnce := fun i j user input input' env env' p p' hi hj =>
      create_unique hx.linearizes.legal (hx.returned_mem hi) (hx.returned_mem hj)
    appliedOnce := fun i j user expected input input' env env' p p' hi hj =>
      update_unique hx.linearizes.legal (hx.returned_mem hi) (hx.returned_mem hj)
    stale := fun i user expected input env v hi => throughout_of_update hrun hi <| by
      intro db g g' hdb hc
      obtain ⟨last, hlast, rfl⟩ := contract_stale hc
      have hfits := hdb.fits user last (List.mem_of_getLast? hlast)
      exact ⟨profileRow last, hdb.profile_getLast hlast, fromSql_clamp hfits.1⟩
    missing := fun i user expected input env hi => throughout_of_update hrun hi <| by
      intro db g g' hdb hc
      rw [hdb.profile, contract_missing hc]
      rfl
    projection := by
      rintro d ⟨before, -, hbefore⟩ user
      obtain ⟨g, hs, -⟩ := (tracked_run hbefore).running
      exact hs.projection user }

/-- Two replicas: of two creates that overlap one finds the database busy, and of two updates
that expect version `1` the later one is told `2`. -/
theorem replicas_share_history_two :
    let on : ℕ → ℕ := fun i => i % 2
    let env : Env := ⟨7, fun _ => false⟩
    let input : ProfileInput := ⟨"1 Main St", "5550100"⟩
    let moves : List (Move ℕ StoreCalls) :=
      [.invoke 0 (.create ⟨"u"⟩ input, env), .invoke 1 (.create ⟨"u"⟩ input, env)] ++
      ([0, 0, 1, 1, 0, 1, 1, 1, 0, 0, 0, 0].map .act) ++ [.ret 0, .ret 1] ++
      [.invoke 2 (.update ⟨"u"⟩ .initial input, env),
        .invoke 3 (.update ⟨"u"⟩ .initial input, env)] ++
      ([2, 2, 3, 2, 2, 2, 3, 3, 3, 3, 3, 2, 2].map .act) ++ [.ret 2, .ret 3]
    ∃ c, (object on).machine.run (object on).initial moves = some c ∧
      c.thread 1 = some (.returned (.create ⟨"u"⟩ input, env) (.error .backend)) ∧
      c.thread 3 = some (.returned (.update ⟨"u"⟩ .initial input, env)
        (.ok (.stale ⟨2, by decide⟩))) ∧
      SharedHistory on moves c := by
  intro on env input moves
  exact ⟨_, rfl, rfl, rfl, replicas_share_history on rfl⟩

end SharedHistory

end Knova.SqliteProfiles.Replicas
