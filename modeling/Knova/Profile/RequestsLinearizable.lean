import Knova.Profile.Rivals

/-!
# Requests are linearizable

A request that calls the repository takes effect where its call does; one that does not takes
effect when it is answered. So every run of the service, whatever it interleaves, shows its
clients a history that one request after another explains, replays included.
-/

namespace Knova.Service

open Library Routes

variable {ι : Type} [DecidableEq ι] {b : Backend} {cfg : Settings} {s s' : Service ι b}

/-! ### Who was sent and who was answered -/

section Handlers

variable {i j : ι} {y : Handling}

lemma sent_update (hs' : s'.handler = Function.update s.handler i (some y)) {q : Request} :
    s'.Sent j q ↔ if j = i then q = y.request else s.Sent j q := by
  unfold Sent
  rw [hs']
  by_cases hji : j = i
  · subst hji
    simp [eq_comm]
  · simp [hji]

lemma answered_update (hs' : s'.handler = Function.update s.handler i (some y)) {a : Answer} :
    s'.Answered j a ↔ if j = i then y.rest = .pure a else s.Answered j a := by
  unfold Answered
  rw [hs']
  by_cases hji : j = i
  · subst hji
    simp
  · simp [hji]

end Handlers

lemma Sent.unique {i : ι} {q q' : Request} (h : s.Sent i q) (h' : s.Sent i q') : q = q' := by
  obtain ⟨x, hx, rfl⟩ := h
  obtain ⟨y, hy, rfl⟩ := h'
  rw [hx] at hy
  rw [Option.some.inj hy]

lemma returns_of_pure {i : ι} {y : Handling} {a : Answer} (hi : s.handler i = some y)
    (ha : y.rest = .pure a) : s.returns i = [.ret i y.request a] := by
  obtain ⟨request, log, rest, dropped⟩ := y
  obtain rfl : rest = .pure a := ha
  simp [returns, hi]

lemma returns_of_act {i : ι} {y : Handling} {a : HandlerAct} {k : a.Ans → HandlerProg Answer}
    (hi : s.handler i = some y) (ha : y.rest = .act a k) : s.returns i = [] := by
  obtain ⟨request, log, rest, dropped⟩ := y
  obtain rfl : rest = .act a k := ha
  simp [returns, hi]

/-- The returns a step shows are those of a handler that is done. -/
lemma mem_returns {i : ι} {e : HistoryEvent ι Requests} :
    e ∈ s.returns i ↔ ∃ q a, e = .ret i q a ∧ s.Sent i q ∧ s.Answered i a := by
  constructor
  · intro h
    unfold returns at h
    split at h
    · rename_i request log a dropped hi
      exact ⟨request, a, List.mem_singleton.mp h, ⟨_, hi, rfl⟩, _, hi, rfl⟩
    · cases h
  · rintro ⟨q, a, rfl, ⟨x, hi, rfl⟩, ha⟩
    rw [returns_of_pure hi (ha.rest_eq hi)]
    exact List.mem_singleton_self _

/-! ### What explains a history -/

/-- One sequence of requests explains what the clients have seen, and one sequence of calls what
the repository has done; the requests that called it are as its calls. -/
structure Serial (cfg : Settings) (s : Service ι b) (seen : List (HistoryEvent ι Requests))
    (order : List (Library.Entry ι Requests)) (calls : List (Library.Entry ι StoreCalls))
    (accounts : Accounts) : Prop where
  linearizes : Linearizes (Serves cfg) Accounts.empty seen order accounts
  explained : (b.points ι).Explains s.profiles calls accounts.histories
  invoked : ∀ i q, .invoke i q ∈ seen ↔ s.Sent i q
  returned : ∀ i q a, .ret i q a ∈ seen ↔ s.Sent i q ∧ s.Answered i a
  /-- A request has taken effect once its call has. -/
  stored : ∀ e ∈ calls, ∃ q, s.Sent e.id q ∧ ⟨e.id, q, e.op.1.answer e.ret⟩ ∈ order
  origin : ∀ e ∈ order, (∃ d ∈ calls, d.id = e.id) ∨ ∃ a, s.Answered e.id a
  createdWith : ∀ i user input env p,
    ⟨i, (.create user input, env), .ok (some p)⟩ ∈ calls →
    ∀ q, s.Sent i q → accounts.createdWith user = q.keyed

lemma serial_init : Serial cfg (init ι b cfg) [] [] [] Accounts.empty where
  linearizes := ⟨.nil, by simp, by simp, by simp, by simp⟩
  explained := (b.points ι).explains_initial
  invoked := by simp [init, Sent]
  returned := by simp [init, Sent]
  stored := by simp
  origin := by simp
  createdWith := by simp

section Steps

variable {seen : List (HistoryEvent ι Requests)} {order : List (Library.Entry ι Requests)}
  {calls : List (Library.Entry ι StoreCalls)} {accounts : Accounts}

/-- A handler that has not returned and whose call has not taken effect has not taken effect. -/
lemma Serial.fresh (hs : Serial cfg s seen order calls accounts) {i : ι}
    (hcalls : ∀ d ∈ calls, d.id ≠ i) (hnot : ∀ a, ¬s.Answered i a) : ∀ e ∈ order, e.id ≠ i := by
  rintro e he rfl
  rcases hs.origin e he with ⟨d, hd, hid⟩ | ⟨a, ha⟩
  · exact hcalls d hd hid
  · exact hnot a ha

/-- A create that was told how another one under its key stands may be answered that. -/
lemma Serial.serves_told (hs : Serial cfg s seen order calls accounts) (hinv' : Inv cfg s')
    (hp : s'.profiles = s.profiles) (hgrows : ∀ j q, s.Sent j q → s'.Sent j q) {i : ι}
    {user : UserId} {headers : HeaderMap} {key body : String} {found : Lookup} {a : Answer}
    {t : ℕ} (hkey : idempotencyKey headers = some key)
    (hdid : s'.Did i t ⟨.begin user.asStr key body, found⟩) (htold : told found = some a) :
    Serves cfg accounts (.create user headers body) a accounts := by
  have hkeyed : (Request.create user headers body).keyed.isSome := by simp [Request.keyed, hkey]
  cases found with
  | reserved => cases htold
  | inFlight => exact .refused hkeyed (.inl (Option.some.inj htold).symm)
  | bodyMismatch => exact .refused hkeyed (.inr (Option.some.inj htold).symm)
  | replay found =>
    obtain rfl := Option.some.inj htold
    obtain ⟨j, t', body', hfinish, hfp⟩ := hinv'.kept.replayed i t user.asStr key body found hdid
    obtain ⟨p, hcreated, -, rfl⟩ := hinv'.created_of_finish hfinish
    have hx : (b.points ι).Explains s'.profiles calls accounts.histories := by
      rw [hp]
      exact hs.explained
    obtain ⟨first, hfirst, rfl⟩ := created_head? hx hcreated
    obtain ⟨x, headers', -, -, hj, hreq, hkey', -⟩ := hinv'.tracks.of_finish hfinish
    obtain ⟨input, env, hthread⟩ := hcreated
    have hmem := hx.returned_mem hthread
    obtain ⟨q, hq, -⟩ := hs.stored _ hmem
    have hwith := hs.createdWith j user input env _ hmem q hq
    rw [(hgrows _ _ hq).unique ⟨x, hj, hreq⟩] at hwith
    exact .replayed hkey (by simpa [Request.keyed, hkey'] using hwith) hfp hfirst

/-- A handler arrives or goes on by itself, and by that may come to its answer. -/
lemma Serial.goOn (hs : Serial cfg s seen order calls accounts) (hinv' : Inv cfg s') {i : ι}
    {y : Handling} {seen₁ : List (HistoryEvent ι Requests)}
    (hs' : s'.handler = Function.update s.handler i (some y)) (hp : s'.profiles = s.profiles)
    (hnot : ∀ a, ¬s.Answered i a) (hgrows : ∀ j q, s.Sent j q → s'.Sent j q)
    (hlin : Linearizes (Serves cfg) Accounts.empty seen₁ order accounts)
    (hinvoked : ∀ j q, .invoke j q ∈ seen₁ ↔ s'.Sent j q)
    (hreturned : ∀ j q a, .ret j q a ∈ seen₁ ↔ s.Sent j q ∧ s.Answered j a) :
    ∃ order', Serial cfg s' (seen₁ ++ s'.returns i) order' calls accounts := by
  have hi : s'.handler i = some y := by rw [hs', Function.update_self]
  have hsent : s'.Sent i y.request := ⟨y, hi, rfl⟩
  -- whatever the order becomes, the rest stays as it is
  have hserial : ∀ order', order <+: order' →
      (∀ e ∈ order', e ∈ order ∨ ∃ a, s'.Answered e.id a) →
      Linearizes (Serves cfg) Accounts.empty (seen₁ ++ s'.returns i) order' accounts →
      Serial cfg s' (seen₁ ++ s'.returns i) order' calls accounts := by
    intro order' hprefix horigin hlin'
    refine ⟨hlin', by rw [hp]; exact hs.explained, fun j q => ?_, fun j q a => ?_, fun e he => ?_,
      fun e he => ?_, fun j user input env p hmem q hq => ?_⟩
    · simp [mem_returns, hinvoked]
    · rw [List.mem_append, hreturned, mem_returns]
      by_cases hji : j = i
      · subst hji
        simp [hnot]
      · simp [hji, sent_update hs', answered_update hs']
    · obtain ⟨q, hq, hmem⟩ := hs.stored e he
      exact ⟨q, hgrows _ _ hq, hprefix.subset hmem⟩
    · rcases horigin e he with hmem | ha
      · rcases hs.origin e hmem with hd | ⟨a, ha⟩
        · exact .inl hd
        · have hne : e.id ≠ i := by
            intro hid
            rw [hid] at ha
            exact hnot a ha
          exact .inr ⟨a, (answered_update hs').mpr (by rwa [if_neg hne])⟩
      · exact .inr ha
    · obtain ⟨q', hq', -⟩ := hs.stored _ hmem
      obtain rfl := (hgrows _ _ hq').unique hq
      exact hs.createdWith j user input env p hmem q' hq'
  cases hrest : y.rest with
  | act a k =>
    refine ⟨order, hserial order (List.prefix_refl _) (fun e he => .inl he) ?_⟩
    rw [returns_of_act hi hrest, List.append_nil]
    exact hlin
  | pure a =>
    have hanswered : s'.Answered i a := ⟨y, hi, hrest⟩
    have hfollows := hinv'.tracks.follows i y hi
    rw [hrest] at hfollows
    have houtcome : Outcome cfg.parse y.request (y.log.map Prod.snd) a :=
      (y.request.ends_handler cfg.parse).follows hfollows
    rw [returns_of_pure hi hrest] at hserial ⊢
    -- a request that did not call the repository takes effect now
    have hnow : (∀ c ∈ y.log.map Prod.snd, ¬c.act.IsStore) →
        Serves cfg accounts y.request a accounts →
        ∃ order', Serial cfg s' (seen₁ ++ [.ret i y.request a]) order' calls accounts := by
      intro hnone hserves
      have hcalls : ∀ d ∈ calls, d.id ≠ i := by
        rintro d hd rfl
        obtain ⟨th, hth, -⟩ := hs.explained.thread_of_mem hd
        rw [← hp] at hth
        rcases hinv'.tracks.called_by hi hth with ⟨k, hk⟩ | ⟨t, r, hmem⟩
        · rw [hrest] at hk
          cases hk
        · exact hnone _ (List.mem_map_of_mem hmem) trivial
      refine ⟨order ++ [⟨i, y.request, a⟩], hserial _ (List.prefix_append _ _) (fun e he => ?_)
        (Linearizes.ret (hlin.snoc hserves (hs.fresh hcalls hnot) ((hinvoked i _).mpr hsent)
          fun q r hmem => hnot r ((hreturned i q r).mp hmem).2) (by simp))⟩
      rcases List.mem_append.mp he with he | he
      · exact .inl he
      · obtain rfl := List.mem_singleton.mp he
        exact .inr ⟨a, hanswered⟩
    cases houtcome with
    | stored op r hop hmem =>
      obtain ⟨t, hdid⟩ := did_of_map hi hmem
      obtain ⟨env, hth⟩ := hinv'.tracks.returned i t op r hdid
      rw [hp] at hth
      obtain ⟨q, hq, hentry⟩ := hs.stored _ (hs.explained.returned_mem hth)
      obtain rfl := (hgrows _ _ hq).unique hsent
      exact ⟨order, hserial order (List.prefix_refl _) (fun e he => .inl he) (hlin.ret hentry)⟩
    | rejected hop hnone => exact hnow hnone (.rejected hop)
    | told hreq hkey hlog htold =>
      obtain ⟨t, hdid⟩ := did_of_map hi (by rw [hlog]; exact List.mem_singleton_self _)
      refine hnow (by simp [hlog, HandlerAct.IsStore]) ?_
      rw [hreq]
      exact hs.serves_told hinv' hp hgrows hkey hdid htold

/-- A step that sends nothing, answers nothing and leaves the repository alone changes nothing. -/
lemma Serial.same (hs : Serial cfg s seen order calls accounts) (hp : s'.profiles = s.profiles)
    (hsent : ∀ i q, s'.Sent i q ↔ s.Sent i q)
    (hanswered : ∀ i a, s'.Answered i a ↔ s.Answered i a) :
    Serial cfg s' seen order calls accounts where
  linearizes := hs.linearizes
  explained := by
    rw [hp]
    exact hs.explained
  invoked i q := (hs.invoked i q).trans (hsent i q).symm
  returned i q a := by rw [hs.returned, hsent, hanswered]
  stored e he := by
    obtain ⟨q, hq, hmem⟩ := hs.stored e he
    exact ⟨q, (hsent _ _).mpr hq, hmem⟩
  origin e he := (hs.origin e he).imp id fun ⟨a, ha⟩ => ⟨a, (hanswered _ _).mpr ha⟩
  createdWith i user input env p hmem q hq :=
    hs.createdWith i user input env p hmem q ((hsent i q).mp hq)

lemma Serial.drop (hs : Serial cfg s seen order calls accounts) {i : ι} {x : Handling}
    (hi : s.handler i = some x)
    (hs' : s'.handler = Function.update s.handler i (some { x with dropped := true }))
    (hp : s'.profiles = s.profiles) : Serial cfg s' seen order calls accounts := by
  refine hs.same hp (fun j q => ?_) fun j a => ?_
  · rw [sent_update hs']
    by_cases hji : j = i
    · subst hji
      rw [if_pos rfl]
      exact ⟨fun h => ⟨x, hi, h.symm⟩, fun h => h.unique ⟨x, hi, rfl⟩⟩
    · rw [if_neg hji]
  · rw [answered_update hs']
    by_cases hji : j = i
    · subst hji
      rw [if_pos rfl]
      exact ⟨fun h => ⟨x, hi, h⟩, fun h => (h.rest_eq hi : x.rest = .pure a)⟩
    · rw [if_neg hji]

/-- What the accounts say about creates, once one more call took effect. -/
lemma createdWith_after {e : Library.Entry ι StoreCalls} {h : Histories} {request : Request}
    (hx : (b.points ι).Explains s.profiles (calls ++ [e]) h)
    (hsent : s.Sent e.id request)
    (hs : ∀ i user input env p, ⟨i, (.create user input, env), .ok (some p)⟩ ∈ calls →
      ∀ q, s.Sent i q → accounts.createdWith user = q.keyed)
    (i : ι) (user : UserId) (input : ProfileInput) (env : Env) (p : Profile)
    (hmem : ⟨i, (.create user input, env), .ok (some p)⟩ ∈ calls ++ [e]) (q : Request)
    (hq : s.Sent i q) : (accounts.after request h e.op.1 e.ret).createdWith user = q.keyed := by
  rcases List.mem_append.mp hmem with hcalls | hlast
  · -- an earlier create of the user succeeded, so this call is no such create
    have hkept : (accounts.after request h e.op.1 e.ret).createdWith user =
        accounts.createdWith user := by
      obtain ⟨j, ⟨op, env'⟩, r⟩ := e
      cases op with
      | create user' input' =>
        rcases r with err | (_ | p')
        · rfl
        · rfl
        · refine Function.update_of_ne ?_ _ _
          rintro rfl
          exact hx.linearizes.id_ne_last _ hcalls (Histories.create_unique hx.linearizes.legal hmem
            (List.mem_append_right _ (List.mem_singleton_self _)))
      | get | update | history => rfl
    rw [hkept]
    exact hs i user input env p hcalls q hq
  · obtain rfl := List.mem_singleton.mp hlast
    rw [hq.unique hsent]
    exact Function.update_self ..

/-- A step of the repository: a request takes effect where its call does. -/
lemma Serial.repository (hs : Serial cfg s seen order calls accounts) (hinv : Inv cfg s)
    {m : Move ι StoreCalls} {profiles : (b.object ι).Config}
    (hm : (b.object ι).step s.profiles m = some profiles) :
    ∃ order' calls' accounts',
      Serial cfg { s with profiles } seen order' calls' accounts' := by
  rcases hs.explained.step_cases hm with hx | ⟨e, h, rfl, hspec, hx⟩
  · exact ⟨order, calls, accounts, hs.linearizes, hx, hs.invoked, hs.returned, hs.stored, hs.origin,
      hs.createdWith⟩
  · have hfresh := hx.linearizes.id_ne_last
    -- the call is the one its handler waits for
    obtain ⟨p, hrunning⟩ := hx.running_of_act hm
    obtain ⟨x, hi, hcalled⟩ := hinv.tracks.called _ _ hrunning
    have hwaits : ∃ k, x.rest = .act (.store e.op.1) k := by
      rcases hcalled with hwaits | ⟨t, r', hmem⟩
      · exact hwaits
      · obtain ⟨env, hreturned⟩ := hinv.tracks.returned _ t _ r' ⟨x, hi, hmem⟩
        rw [hrunning] at hreturned
        cases hreturned
    obtain ⟨k, hrest⟩ := hwaits
    have hsent : s.Sent e.id x.request := ⟨x, hi, rfl⟩
    have hnot : ∀ a, ¬s.Answered e.id a := by
      intro a ha
      rw [ha.rest_eq hi] at hrest
      cases hrest
    have hop : x.request.op cfg.parse = .ok e.op.1 := by
      have hfollows := hinv.tracks.follows e.id x hi
      rw [hrest] at hfollows
      exact ((x.request.all_asked cfg.parse).follows hfollows).2.1 _ rfl
    refine ⟨order ++ [⟨e.id, x.request, e.op.1.answer e.ret⟩], calls ++ [e],
      accounts.after x.request h e.op.1 e.ret, ?_, by simpa using hx, hs.invoked, hs.returned, ?_,
      ?_, createdWith_after hx hsent hs.createdWith⟩
    · exact hs.linearizes.snoc (.stored hop hspec) (hs.fresh hfresh hnot)
        ((hs.invoked _ _).mpr hsent) fun q r hmem => hnot r ((hs.returned _ q r).mp hmem).2
    · intro d hd
      rcases List.mem_append.mp hd with hd | hd
      · obtain ⟨q, hq, hmem⟩ := hs.stored d hd
        exact ⟨q, hq, List.mem_append_left _ hmem⟩
      · obtain rfl := List.mem_singleton.mp hd
        exact ⟨x.request, hsent, List.mem_append_right _ (List.mem_singleton_self _)⟩
    · intro d hd
      rcases List.mem_append.mp hd with hd | hd
      · rcases hs.origin d hd with ⟨c, hc, hid⟩ | ha
        · exact .inl ⟨c, List.mem_append_left _ hc, hid⟩
        · exact .inr ha
      · obtain rfl := List.mem_singleton.mp hd
        exact .inl ⟨e, List.mem_append_right _ (List.mem_singleton_self _), rfl⟩

/-- A call of a handler was answered, and the handler goes on. -/
lemma Serial.answer (hs : Serial cfg s seen order calls accounts) (hinv' : Inv cfg s') {i : ι}
    {x : Handling} {a : HandlerAct} {k : a.Ans → HandlerProg Answer} {r : a.Ans}
    (hi : s.handler i = some x) (hrest : x.rest = .act a k)
    (hs' : s'.handler = s.answer i x a r (k r)) (hp : s'.profiles = s.profiles) :
    ∃ order', Serial cfg s' (seen ++ s'.returns i) order' calls accounts := by
  have hnot : ∀ a, ¬s.Answered i a := by
    intro a ha
    rw [ha.rest_eq hi] at hrest
    cases hrest
  have hsent : ∀ j q, s'.Sent j q ↔ s.Sent j q := by
    intro j q
    rw [sent_update (y := { x with log := x.log ++ [(s.now, ⟨a, r⟩)], rest := k r }) hs']
    by_cases hji : j = i
    · subst hji
      rw [if_pos rfl]
      constructor
      · rintro rfl
        exact ⟨x, hi, rfl⟩
      · exact fun hq => hq.unique ⟨x, hi, rfl⟩
    · rw [if_neg hji]
  exact hs.goOn hinv' hs' hp hnot (fun j q => (hsent j q).mpr) hs.linearizes
    (fun j q => (hs.invoked j q).trans (hsent j q).symm) hs.returned

/-- A request is sent, and may be answered at once. -/
lemma Serial.arrive (hs : Serial cfg s seen order calls accounts) (hinv' : Inv cfg s') {i : ι}
    {y : Handling} (hi : s.handler i = none)
    (hs' : s'.handler = Function.update s.handler i (some y)) (hp : s'.profiles = s.profiles) :
    ∃ order',
      Serial cfg s' (seen ++ [.invoke i y.request] ++ s'.returns i) order' calls accounts := by
  have hnone : ∀ q, ¬s.Sent i q := by
    rintro q ⟨x, hx, -⟩
    rw [hi] at hx
    cases hx
  have hnot : ∀ a, ¬s.Answered i a := by
    rintro a ⟨x, hx, -⟩
    exact hnone _ ⟨x, hx, rfl⟩
  have hfresh : ∀ e ∈ order, e.id ≠ i := by
    rintro e he rfl
    exact hnone _ ((hs.invoked _ _).mp (hs.linearizes.invoked e he))
  refine hs.goOn hinv' hs' hp hnot (fun j q hq => ?_) (hs.linearizes.invoke hfresh) (fun j q => ?_)
    fun j q a => ?_
  · rw [sent_update hs']
    by_cases hji : j = i
    · subst hji
      exact absurd hq (hnone q)
    · rwa [if_neg hji]
  · rw [sent_update hs', List.mem_append, hs.invoked, List.mem_singleton]
    by_cases hji : j = i
    · subst hji
      simp [hnone]
    · simp [hji]
  · simpa using hs.returned j q a

/-- Every step extends what the clients have seen by what it shows, and keeps it explained. -/
theorem Serial.step (hs : Serial cfg s seen order calls accounts) (hinv : Inv cfg s) {e : Event ι}
    (hstep : step cfg s e = some s') : ∃ order' calls' accounts',
      Serial cfg s' (seen ++ s'.seen e) order' calls' accounts' := by
  have hinv' := hinv.step hstep
  obtain ⟨i, request, rfl, hi, rfl⟩ | ⟨i, x, a, k, r, store, rfl, hi, -, hrest, -, rfl⟩ |
    ⟨m, profiles, hm, he, rfl⟩ | ⟨i, x, op, k, env, r, rfl, hi, -, hrest, -, rfl⟩ |
    ⟨i, x, rfl, hi, -, -, rfl⟩ | ⟨d, rfl, rfl⟩ := step_cases hstep
  · obtain ⟨order', h⟩ := hs.arrive hinv' hi rfl rfl
    exact ⟨order', calls, accounts, by simpa [Service.seen] using h⟩
  · obtain ⟨order', h⟩ := hs.answer hinv' hi hrest rfl rfl
    exact ⟨order', calls, accounts, h⟩
  · have hseen : Service.seen { s with profiles } e = [] := by
      rcases he with ⟨i, x, op, k, env, rfl, -⟩ | ⟨i, ⟨rfl, -⟩ | ⟨rfl, -⟩⟩ <;> rfl
    rw [hseen, List.append_nil]
    exact hs.repository hinv hm
  · obtain ⟨order', h⟩ := hs.answer hinv' hi hrest rfl rfl
    exact ⟨order', calls, accounts, h⟩
  · have hdrop : Serial cfg { s with
        handler := Function.update s.handler i (some { x with dropped := true }) } seen order calls
        accounts := hs.drop hi rfl rfl
    exact ⟨order, calls, accounts, by simpa [Service.seen] using hdrop⟩
  · have hsame : Serial cfg { s with now := s.now + d } seen order calls accounts :=
      hs.same rfl (fun _ _ => Iff.rfl) fun _ _ => Iff.rfl
    exact ⟨order, calls, accounts, by simpa [Service.seen] using hsame⟩

theorem Serial.run (hs : Serial cfg s seen order calls accounts) (hinv : Inv cfg s)
    {es : List (Event ι)} (hrun : (machine ι b cfg).run s es = some s') :
    ∃ order' calls' accounts',
      Serial cfg s' (seen ++ history cfg s es) order' calls' accounts' := by
  induction es generalizing s seen order calls accounts with
  | nil =>
    obtain rfl : s = s' := Option.some.inj hrun
    exact ⟨order, calls, accounts, by simpa [history] using hs⟩
  | cons e es ih =>
    obtain ⟨s₁, hstep, hrest⟩ := Machine.run_cons_eq_some.mp hrun
    obtain ⟨order₁, calls₁, accounts₁, h₁⟩ := hs.step hinv hstep
    obtain ⟨order', calls', accounts', h'⟩ := ih h₁ (hinv.step hstep) hrest
    refine ⟨order', calls', accounts', ?_⟩
    rw [List.append_assoc] at h'
    have hstep' : Service.step cfg s e = some s₁ := hstep
    rwa [history, hstep']

end Steps

/-! ### Refusals for a key -/

/-- A request that is refused for its key, in the order, was answered so. -/
lemma Serial.answered_of_conflict {seen : List (HistoryEvent ι Requests)}
    {order : List (Library.Entry ι Requests)} {calls : List (Library.Entry ι StoreCalls)}
    {accounts : Accounts} (hs : Serial cfg s seen order calls accounts)
    {d : Library.Entry ι Requests} (hd : d ∈ order) {e : ProfileError} (hret : d.ret = .error e)
    (he : e = .idempotencyInFlight ∨ e = .idempotencyReused) : s.Answered d.id (.error e) := by
  rcases hs.origin d hd with ⟨c, hc, hid⟩ | ⟨a, ha⟩
  · -- no call on the repository is answered so
    obtain ⟨q, -, hmem⟩ := hs.stored c hc
    have heq := entry_eq_of_id_eq hs.linearizes.nodup hmem hd hid
    subst heq
    rcases answer_eq_error hret with ⟨f, -, rfl⟩ | ⟨⟨hin, hre⟩, -⟩
    · rcases he with he | he <;> cases he
    · exact absurd he (by simp [hin, hre])
  · have hsent : s.Sent d.id d.op := (hs.invoked _ _).mp (hs.linearizes.invoked d hd)
    have hmem := hs.linearizes.complete _ _ _ ((hs.returned d.id d.op a).mpr ⟨hsent, ha⟩)
    have heq := entry_eq_of_id_eq hs.linearizes.nodup hmem hd rfl
    rw [← hret, ← heq]
    exact ha

/-- Where a run shows something, one of its steps does. -/
lemma history_split {es : List (Event ι)} {pre post : List (HistoryEvent ι Requests)}
    {x : HistoryEvent ι Requests} (h : history cfg s es = pre ++ x :: post) :
    ∃ before e after s₁ s₂ shown rest, es = before ++ e :: after ∧
      (machine ι b cfg).run s before = some s₁ ∧ step cfg s₁ e = some s₂ ∧
      pre = history cfg s before ++ shown ∧ s₂.seen e = shown ++ x :: rest := by
  induction es generalizing s pre with
  | nil => simp [history] at h
  | cons e es ih =>
    cases hstep : step cfg s e with
    | none => simp [history, hstep] at h
    | some s' =>
      rw [history, hstep] at h
      have hwhere : (∃ pre', pre = s'.seen e ++ pre' ∧ history cfg s' es = pre' ++ x :: post) ∨
          ∃ rest, s'.seen e = pre ++ x :: rest := by
        rcases List.append_eq_append_iff.mp h with hlater | ⟨rest, hseen, hrest⟩
        · exact .inl hlater
        · cases rest with
          | nil => exact .inl ⟨[], by simpa using hseen.symm, by simpa using hrest.symm⟩
          | cons y rest =>
            obtain rfl : x = y := (List.cons.inj hrest).1
            exact .inr ⟨rest, hseen⟩
      rcases hwhere with ⟨pre', rfl, hlater⟩ | ⟨rest, hseen⟩
      · obtain ⟨before, e', after, s₁, s₂, shown, rest, rfl, hrun, hstep', rfl, hseen⟩ := ih hlater
        refine ⟨e :: before, e', after, s₁, s₂, shown, rest, rfl, ?_, hstep', ?_, hseen⟩
        · exact Machine.run_cons_eq_some.mpr ⟨s', hstep, hrun⟩
        · rw [history, hstep, List.append_assoc]
      · exact ⟨[], e, es, s, s', pre, rest, rfl, rfl, hstep, rfl, hseen⟩

/-- Whoever is sent or answered at one step is one request. -/
lemma eq_of_mem_seen {e : Event ι} {i j : ι} {q q' : Request} {a : Answer}
    (hret : .ret i q a ∈ s.seen e) (hinvoke : .invoke j q' ∈ s.seen e) : j = i := by
  cases e with
  | arrive k request =>
    have hreturned : .ret i q a ∈ s.returns k := by simpa [seen] using hret
    obtain ⟨_, _, heq, -⟩ := mem_returns.mp hreturned
    cases heq
    rcases List.mem_cons.mp hinvoke with heq | hmem
    · cases heq
      rfl
    · obtain ⟨_, _, heq, -⟩ := mem_returns.mp hmem
      cases heq
  | perform k | resume k =>
    obtain ⟨_, _, heq, -⟩ := mem_returns.mp hinvoke
    cases heq
  | call | act | ret | drop | tick => cases hinvoke

/-- Every create that is refused for its key conflicts with another one that was sent before. -/
theorem conflicts_of_history {es : List (Event ι)}
    (hrun : (machine ι b cfg).run (init ι b cfg) es = some s)
    {pre post : List (HistoryEvent ι Requests)} {i : ι} {q : Request} {e : ProfileError}
    (hhistory : history cfg (init ι b cfg) es = pre ++ .ret i q (.error e) :: post)
    (he : e = .idempotencyInFlight ∨ e = .idempotencyReused) :
    ∃ j q', j ≠ i ∧ .invoke j q' ∈ pre ∧ Conflicts cfg q e q' := by
  obtain ⟨before, event, after, s₁, s₂, shown, rest, rfl, hbefore, hstep, rfl, hseen⟩ :=
    history_split hhistory
  -- what the clients have seen up to that step
  have hrun₂ : (machine ι b cfg).run (init ι b cfg) (before ++ [event]) = some s₂ :=
    Machine.run_append_eq_some.mpr ⟨s₁, hbefore, Machine.run_cons_eq_some.mpr ⟨s₂, hstep, rfl⟩⟩
  obtain ⟨order, calls, accounts, hserial⟩ := serial_init.run inv_init hbefore
  obtain ⟨order, calls, accounts, h⟩ := hserial.step (inv_of_run hbefore) hstep
  rw [List.nil_append] at h
  have hret : .ret i q (.error e) ∈ s₂.seen event := by
    rw [hseen]
    simp
  obtain ⟨hsent, hanswered⟩ := (h.returned i q _).mp (List.mem_append_right _ hret)
  obtain ⟨j, q', hne, hsent', hconflicts⟩ :=
    (occupied_of_run hrun₂).conflicts (inv_of_run hrun₂) hsent hanswered he
  refine ⟨j, q', hne, ?_, hconflicts⟩
  rcases List.mem_append.mp ((h.invoked j q').mpr hsent') with hmem | hmem
  · exact List.mem_append_left _ hmem
  · exact absurd (eq_of_mem_seen hret hmem) hne

/-- Every run of the service shows its clients a linearizable history: one order of the requests,
legal for the accounts and never against real time, explains every answer given so far, and the
revisions it accepts are those the backend holds. Whoever is refused for its idempotency key met
another create under it, which was sent before. -/
theorem requests_linearizable (b : Backend) (ι : Type) [DecidableEq ι] (cfg : Settings)
    (es : List (Event ι)) (s : Service ι b)
    (hrun : (machine ι b cfg).run (init ι b cfg) es = some s) :
    (∃ order accounts,
      Linearizes (Serves cfg) Accounts.empty (history cfg (init ι b cfg) es) order accounts ∧
      (b.points ι).inv s.profiles.shared accounts.histories ∧
      (∀ i q, .invoke i q ∈ history cfg (init ι b cfg) es ↔ s.Sent i q) ∧
      ∀ i q a, .ret i q a ∈ history cfg (init ι b cfg) es ↔ s.Sent i q ∧ s.Answered i a) ∧
    ∀ pre post i q e, history cfg (init ι b cfg) es = pre ++ .ret i q (.error e) :: post →
      e = .idempotencyInFlight ∨ e = .idempotencyReused →
      ∃ j q', j ≠ i ∧ .invoke j q' ∈ pre ∧ Conflicts cfg q e q' := by
  obtain ⟨order, calls, accounts, h⟩ := serial_init.run inv_init hrun
  exact ⟨⟨order, accounts, h.linearizes, h.explained.inv, h.invoked, h.returned⟩,
    fun _ _ _ _ _ hhistory he => conflicts_of_history hrun hhistory he⟩

/-- A create under a key, one that meets it there, a retry that is replayed, and a read that is
still running. -/
theorem requests_linearizable_replay :
    let cfg := Settings.default (fun _ => some ⟨"1 Main St", "5550100"⟩) fun _ => 0
    let env : Env := ⟨0, fun _ => false⟩
    let b := Backend.memory 0 fun _ => 0
    let request : Request := .create ⟨"u"⟩ [("idempotency-key", .ofText "k")] ""
    let es : List (Event ℕ) :=
      [.arrive 0 request, .perform 0, .arrive 1 (.read ⟨"u"⟩), .arrive 2 request, .perform 2,
        .call 0 env, .act 0, .act 0, .act 0, .act 0, .act 0, .ret 0, .resume 0, .perform 0,
        .call 1 env, .arrive 3 request, .perform 3]
    ∃ s : Service ℕ b, (machine ℕ b cfg).run (init ℕ b cfg) es = some s ∧
      (∃ order accounts,
        Linearizes (Serves cfg) Accounts.empty (history cfg (init ℕ b cfg) es) order accounts ∧
        (b.points ℕ).inv s.profiles.shared accounts.histories ∧
        (∀ i q, .invoke i q ∈ history cfg (init ℕ b cfg) es ↔ s.Sent i q) ∧
        ∀ i q a, .ret i q a ∈ history cfg (init ℕ b cfg) es ↔ s.Sent i q ∧ s.Answered i a) ∧
      ∀ pre post i q e, history cfg (init ℕ b cfg) es = pre ++ .ret i q (.error e) :: post →
        e = .idempotencyInFlight ∨ e = .idempotencyReused →
        ∃ j q', j ≠ i ∧ .invoke j q' ∈ pre ∧ Conflicts cfg q e q' := by
  intro cfg env b request es
  exact ⟨_, rfl, requests_linearizable b ℕ cfg es _ rfl⟩

end Knova.Service
