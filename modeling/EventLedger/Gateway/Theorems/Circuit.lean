import EventLedger.Gateway.Theorems.Attempts
import EventLedger.Gateway.Theorems.Outcomes

namespace Gateway

open Http
open Client (overflowAttempt)

variable {client : Client} {s s' : State} {a : Action} {id attempt : ℕ} {operation : Operation}
variable {now : Civil} {outcome : Outcome} {verdict : Verdict} {handler : Handler} {clock : ℚ}

-- The circuit, and the time by which it is judged.
def State.SameCircuit (s s' : State) : Prop :=
  s'.breaker = s.breaker ∧ s'.clock = s.clock

namespace State

theorem send_circuit (client : Client) (s : State) (id : ℕ) (operation : Operation) (attempt : ℕ) :
    s.SameCircuit (s.send client id operation attempt).1 := by
  unfold send
  split <;> exact ⟨rfl, rfl⟩

theorem call_circuit (client : Client) (s : State) (id : ℕ) (operation : Operation) :
    s.SameCircuit (s.call client id operation).1 := by
  unfold call
  split
  case isTrue  => exact send_circuit ..
  case isFalse => exact ⟨rfl, rfl⟩

theorem begin_circuit (client : Client) (s : State) (operation : Operation) :
    s.SameCircuit (s.begin client operation).1 := by
  cases operation
  case applyTransaction event =>
    simp only [begin, submitEvent]
    split
    case h_1 => exact ⟨rfl, rfl⟩
    case h_2 => exact call_circuit client (s.start (.applyTransaction event)) ..
    case h_3 => split <;> exact ⟨rfl, rfl⟩
  case getBalance accountId => exact call_circuit client (s.start (.getBalance accountId)) ..
  case getAccount accountId => exact call_circuit client (s.start (.getAccount accountId)) ..

theorem wake_circuit {r : State × Option Sent} (h : s.wake client id = some r) :
    s.SameCircuit r.1 := by
  obtain ⟨operation, attempt, _, _, rfl⟩ := wake_cases h
  exact send_circuit ..

theorem resume_circuit (s : State) (id : ℕ) (now : Civil) (operation : Operation) (attempt : ℕ)
    (verdict : Verdict) : s.SameCircuit (s.resume id now operation attempt verdict) := by
  cases verdict
  case rejected => cases operation <;> exact ⟨rfl, rfl⟩
  case returned payload =>
    cases operation
    case applyTransaction event =>
      simp only [resume, returned, inserted]
      split <;> exact ⟨rfl, rfl⟩
    case getBalance => exact ⟨rfl, rfl⟩
    case getAccount => exact ⟨rfl, rfl⟩
  all_goals exact ⟨rfl, rfl⟩

end State

-- What a call records at the circuit breaker.
inductive Record
  | success
  | failure (clock : ℚ)
  deriving DecidableEq

def Record.failedAt : Record → Option ℚ
  | success       => none
  | failure clock => some clock

def Act.record (clock : ℚ) : Act → Option Record
  | recordsSuccess => some .success
  | recordsFailure => some (.failure clock)
  | _              => none

-- What a step records.
def recorded (client : Client) (s : State) : Action → List Record
  | .settle id _ outcome =>
    match s.handlers id with
    | some ⟨_, attempt, .calling⟩ =>
      (client.attemptBody attempt outcome).1.filterMap (Act.record s.clock)
    | _ => []
  | _ => []

-- What has been recorded since the process began.
def history (client : Client) (s : State) : Action → List Record → List Record
  | .restart, _  => []
  | a,        rs => rs ++ recorded client s a

-- The clocks of the failures since the last success, the last one first.
def failuresSince (rs : List Record) : List ℚ :=
  (rs.reverse.takeWhile fun r => r.failedAt.isSome).filterMap Record.failedAt

theorem failuresSince_success (rs : List Record) : failuresSince (rs ++ [.success]) = [] := by
  simp [failuresSince, Record.failedAt]

theorem failuresSince_failure (rs : List Record) (clock : ℚ) :
    failuresSince (rs ++ [.failure clock]) = clock :: failuresSince rs := by
  simp [failuresSince, Record.failedAt]

-- The breaker as it follows from what has been recorded.
def Breaker.ofHistory (client : Client) (rs : List Record) : Breaker where
  consecutiveFailures := (failuresSince rs).length
  circuitOpenedAt :=
    if client.circuitFailureThreshold ≤ (failuresSince rs).length then (failuresSince rs).head?
    else none

theorem Breaker.ofHistory_nil (client : Client) : ofHistory client [] = closed := by
  simp [ofHistory, failuresSince, closed]

theorem Breaker.ofHistory_record (client : Client) (clock : ℚ) (rs : List Record)
    (acts : List Act) :
    acts.foldl (record client clock) (ofHistory client rs) =
      ofHistory client (rs ++ acts.filterMap (Act.record clock)) := by
  induction acts generalizing rs
  case nil => simp
  case cons act acts hi =>
    have hstep : record client clock (ofHistory client rs) act =
        ofHistory client (rs ++ (Act.record clock act).toList) := by
      cases act
      case recordsSuccess =>
        simp [record, Act.record, recordDownstreamSuccess, closed, ofHistory, failuresSince_success]
      case recordsFailure =>
        simp only [record, Act.record, recordDownstreamFailure, ofHistory, Option.toList_some,
          failuresSince_failure, List.length_cons, List.head?_cons]
        by_cases ht : client.circuitFailureThreshold ≤ (failuresSince rs).length + 1
        case pos => simp [ht]
        case neg =>
          have hl : ¬client.circuitFailureThreshold ≤ (failuresSince rs).length := by omega
          simp [ht, hl]
      all_goals simp [record, Act.record]
    rw [List.foldl_cons, hstep, hi]
    cases h : Act.record clock act <;> simp [h]

theorem step_breaker (h : (machine client).step s a = some s') (hs : a ≠ .restart)
    (rs : List Record) (hb : s.breaker = .ofHistory client rs) :
    s'.breaker = .ofHistory client (rs ++ recorded client s a) := by
  obtain ⟨r, hr, rfl⟩ := Option.map_eq_some_iff.mp h
  cases a
  case begin operation =>
    cases hr
    simp [recorded, (State.begin_circuit client s operation).1, hb]
  case settle id now outcome =>
    obtain ⟨t, ht, rfl⟩ := Option.map_eq_some_iff.mp hr
    obtain ⟨operation, attempt, _, hh, _, _⟩ := Turn.settle ht
    rw [State.settle_eq hh, client.settle_eq_attemptBody, Option.some_inj] at ht
    rw [← ht, (State.resume_circuit ..).1, recorded, hh]
    simp only [hb, Breaker.ofHistory_record]
  case wake id => simp [recorded, (State.wake_circuit hr).1, hb]
  case wait duration =>
    obtain ⟨t, ht, rfl⟩ := Option.map_eq_some_iff.mp hr
    simp only [State.wait, Option.ite_none_right_eq_some, Option.some.injEq] at ht
    simp [recorded, ← ht.2, hb]
  case restart => exact absurd rfl hs

-- The Gateway with what its breaker has recorded.
def recorder (client : Client) : Machine (State × List Record) Action :=
  (machine client).track [] (history client)

theorem recorder_run (client : Client) (as : List Action) :
    ((recorder client).run as).map Prod.fst = (machine client).run as :=
  Machine.track_runFrom _ as

theorem recorder_breaker {as : List Action} {rs : List Record}
    (h : (recorder client).run as = some (s, rs)) : s.breaker = .ofHistory client rs := by
  have hi : (s, rs).1.breaker = .ofHistory client (s, rs).2 := by
    refine Machine.runFrom_invariant (I := fun x : State × List Record =>
      x.1.breaker = .ofHistory client x.2) ?_ ?_ h
    case refine_1 =>
      rintro ⟨s, rs⟩ a s' hb hs
      obtain ⟨t, ht, rfl⟩ := Option.map_eq_some_iff.mp hs
      by_cases ha : a = .restart
      case pos =>
        subst ha
        cases ht
        exact (Breaker.ofHistory_nil client).symm
      case neg =>
        have hh : history client s a rs = rs ++ recorded client s a := by
          cases a
          case restart => exact absurd rfl ha
          all_goals rfl
        exact hh ▸ step_breaker ht ha rs hb
    case refine_2 => exact (Breaker.ofHistory_nil client).symm
  exact hi

-- A call is refused: it makes no attempt and changes nothing but its own answer.
structure Refuses (client : Client) (s : State) (id : ℕ) (operation : Operation) : Prop where
  raises : ∀ outcomes, client.boundedRequest s.breaker s.clock outcomes = ([], .circuitOpen)
  unsent : (s.call client id operation).2 = none
  breaker : (s.call client id operation).1.breaker = s.breaker
  clock : (s.call client id operation).1.clock = s.clock
  events : (s.call client id operation).1.events = s.events
  answers : (s.call client id operation).1.answers =
    s.answers ++ [{ handler := id, reply := .refused 503 (circuitOpenDetail operation) }]

theorem refuses_iff (id : ℕ) (operation : Operation) :
    Refuses client s id operation ↔ s.breaker.allowsRequest client s.clock = false := by
  constructor
  case mp =>
    intro h
    by_contra hb
    have hb : s.breaker.allowsRequest client s.clock := by simpa using hb
    obtain ⟨acts, ending, he, hr⟩ := Client.boundedRequest_runs hb fun _ => .error .other
    have hm : .sends ∈ acts := by cases hr <;> simp
    have hn : acts = [] := congrArg Prod.fst (he.symm.trans (h.raises _))
    simp [hn] at hm
  case mpr =>
    intro h
    have hc : s.call client id operation =
        (s.recordDomainEvent "gateway.account_service.circuit_open"
          |>.recordDomainEvent "gateway.account_service.unavailable"
          |>.answer id (.refused 503 (circuitOpenDetail operation)), none) :=
      if_neg (by simp [h])
    constructor
    case raises => exact fun _ => by simp [Client.boundedRequest, h]
    case unsent => rw [hc]
    all_goals exact hc ▸ rfl

-- A call is refused just if enough failures have been recorded since the last success, the last one
-- of them within the window.
theorem call_refused_iff {as : List Action} {rs : List Record}
    (h : (recorder client).run as = some (s, rs)) (id : ℕ) (operation : Operation) :
    Refuses client s id operation ↔
    client.circuitFailureThreshold ≤ (failuresSince rs).length ∧
      ∃ clock ∈ (failuresSince rs).head?, s.clock - clock < client.circuitResetSeconds := by
  rw [refuses_iff, recorder_breaker h, Breaker.allowsRequest, Breaker.ofHistory]
  by_cases ht : client.circuitFailureThreshold ≤ (failuresSince rs).length
  case neg => simp [ht]
  case pos =>
    cases hf : (failuresSince rs).head?
    case none => simp [ht]
    case some clock => simp [ht]

-- One failed call of a client with a threshold of one.
def failingRun : List Action :=
  [
    .begin (.getBalance EventPayload.sample.accountId),
    .settle 0 EventPayload.sample.eventTimestamp (.error .readTimeout),
    .wait 4
  ]

theorem call_refused_failing : ∃ s rs,
    (recorder (.ofArguments httpxRules 1 0 1 5)).run failingRun = some (s, rs) ∧
    Refuses (.ofArguments httpxRules 1 0 1 5) s 1 (.getBalance EventPayload.sample.accountId) := by
  have hr : ((recorder (.ofArguments httpxRules 1 0 1 5)).run failingRun).map
      (fun x => (x.1.clock, x.2)) = some (4, [.failure 0]) := by decide +kernel
  obtain ⟨⟨s, rs⟩, hx, he⟩ := Option.map_eq_some_iff.mp hr
  refine ⟨s, rs, hx, (call_refused_iff hx 1 _).mpr ?_⟩
  obtain ⟨hc, hrs⟩ := Prod.mk.inj he
  have hc : s.clock = 4 := hc
  have hrs : rs = [.failure 0] := hrs
  rw [hc, hrs]
  exact ⟨by decide, 0, rfl, by decide +kernel⟩

-- An attempt that has been sent, and how the circuit was at that time. The call of a first attempt
-- has just been let through.
structure Sending where
  tag : Tag
  first : Bool
  circuitOpenedAt : Option ℚ
  clock : ℚ
  probe : Option ℕ
  deriving DecidableEq

-- What has been sent, and the call that has been let through the open circuit while its outcome has
-- not been recorded.
structure Watch where
  sendings : List Sending
  probe : Option ℕ

def Watch.init : Watch where
  sendings := []
  probe := none

def sentBy (client : Client) (s : State) (a : Action) : Option Sent :=
  (s.step client a).bind (·.2)

def Action.isBegin : Action → Bool
  | begin _ => true
  | _       => false

def nextProbe (client : Client) (s : State) (probe : Option ℕ) : Action → Option ℕ
  | .begin operation =>
    if (sentBy client s (.begin operation)).isSome && s.breaker.circuitOpenedAt.isSome then
      some s.begun.length
    else
      probe
  | .settle id now outcome =>
    match recorded client s (.settle id now outcome) with
    | []             => probe
    -- A success closes the circuit.
    | .success :: _   => none
    | .failure _ :: _ => if probe = some id then none else probe
  | .restart => none
  | _        => probe

def Watch.note (client : Client) (s : State) (a : Action) (w : Watch) : Watch where
  sendings := w.sendings ++ (sentBy client s a).toList.map fun m =>
    { tag := m.tag
      first := a.isBegin
      circuitOpenedAt := s.breaker.circuitOpenedAt
      clock := s.clock
      probe := w.probe }
  probe := nextProbe client s w.probe a

-- The Gateway with what its client has sent.
def watched (client : Client) : Machine (State × Watch) Action :=
  (machine client).track .init (Watch.note client)

-- While the circuit is open nothing is sent before its window has elapsed, and then no call is let
-- through while there is a probe.
def Sending.Protected (client : Client) (x : Sending) : Prop :=
  ∀ opened, x.circuitOpenedAt = some opened →
    client.circuitResetSeconds ≤ x.clock - opened ∧ (x.first → x.probe = none)

def Protects (client : Client) (x : State × Watch) : Prop :=
  ∀ y ∈ x.2.sendings, y.Protected client

theorem Breaker.allowsRequest_iff {b : Breaker} : b.allowsRequest client clock ↔
    ∀ opened, b.circuitOpenedAt = some opened → client.circuitResetSeconds ≤ clock - opened := by
  unfold allowsRequest
  cases b.circuitOpenedAt <;> simp

theorem sentBy_wake : (sentBy client s (.wake id)).isSome ↔ ∃ operation attempt delay,
    s.handlers id = some ⟨operation, attempt, .sleeping delay⟩ ∧
      (client.request operation).isSome := by
  simp only [sentBy, State.step, State.wake]
  split
  case h_1 operation attempt delay hh =>
    rw [hh, Option.bind_some, State.send_isSome]
    simp
  case h_2 hn =>
    refine iff_of_false (by simp) ?_
    rintro ⟨operation, attempt, delay, hh, _⟩
    exact hn operation attempt delay hh

theorem sentBy_other (hb : a.isBegin = false) (hw : ∀ id, a ≠ .wake id) :
    sentBy client s a = none := by
  cases a
  case begin      => cases hb
  case wake id    => exact absurd rfl (hw id)
  case restart    => rfl
  case settle id now outcome =>
    cases h : s.settle client id now outcome <;> simp [sentBy, State.step, h]
  case wait duration =>
    cases h : s.wait duration <;> simp [sentBy, State.step, h]

-- A step keeps the protection just if what it sends may be sent.
theorem protects_step {x y : State × Watch} (hp : Protects client x)
    (hs : (watched client).step x a = some y) : Protects client y ↔
    ((sentBy client x.1 a).isSome → ∀ opened, x.1.breaker.circuitOpenedAt = some opened →
      client.circuitResetSeconds ≤ x.1.clock - opened ∧ (a.isBegin → x.2.probe = none)) := by
  obtain ⟨t, _, rfl⟩ := Option.map_eq_some_iff.mp hs
  have hp : ∀ z ∈ x.2.sendings, z.Protected client := hp
  cases hm : sentBy client x.1 a
  case none   => simpa [Protects, Watch.note, hm] using hp
  case some m =>
    simp only [Protects, Watch.note, hm, List.forall_mem_append, Option.toList_some, List.map_cons,
      List.map_nil, List.forall_mem_singleton, Option.isSome_some, forall_const]
    exact and_iff_right hp

-- The client records how the attempt ends its call, or makes another one.
structure Client.Heeds (client : Client) (attempt : ℕ) (outcome : Outcome) : Prop where
  caught : ∀ e, outcome = .error e → e.isCaught
  delayed : outcome.isFailure → attempt < client.maxAttempts → attempt < overflowAttempt

-- The calls keep apart: none begins on an open circuit after its window while another one is in
-- progress, none gives up with as many failures as open the circuit while another one has attempts
-- left, and none ends unrecorded while the circuit is open.
def Apart (client : Client) (s : State) : Action → Prop
  | .begin operation => ∀ opened, s.breaker.circuitOpenedAt = some opened →
    client.circuitResetSeconds ≤ s.clock - opened → s.Calls client operation →
    ∀ id, s.handlers id = none
  | .settle id _ outcome => ∀ operation attempt,
    s.handlers id = some ⟨operation, attempt, .calling⟩ →
    (outcome.isFailure → client.maxAttempts ≤ attempt →
      client.circuitFailureThreshold ≤ s.breaker.consecutiveFailures + 1 → ∀ other ≠ id, ∀ handler,
      s.handlers other = some handler → client.maxAttempts ≤ handler.attempt) ∧
    (s.breaker.circuitOpenedAt.isSome → client.Heeds attempt outcome)
  | _ => True

-- What the end of an attempt does to its call and to the circuit, and what it records.
inductive Concludes (client : Client) (s : State) (id : ℕ) (operation : Operation) (attempt : ℕ)
    (outcome : Outcome) : State → List Record → Prop
  | sleeps {t : State} {delay : ℚ} : attempt < client.maxAttempts →
    t.handlers = Function.update s.handlers id (some ⟨operation, attempt, .sleeping delay⟩) →
    t.breaker = s.breaker → Concludes client s id operation attempt outcome t []
  | unavailable {t : State} : outcome.isFailure → client.maxAttempts ≤ attempt →
    t.handlers = Function.update s.handlers id none →
    t.breaker = s.breaker.recordDownstreamFailure client s.clock →
    Concludes client s id operation attempt outcome t [.failure s.clock]
  | heard {t : State} : t.handlers = Function.update s.handlers id none → t.breaker = .closed →
    Concludes client s id operation attempt outcome t [.success]
  | escapes {t : State} : ¬client.Heeds attempt outcome →
    t.handlers = Function.update s.handlers id none → t.breaker = s.breaker →
    Concludes client s id operation attempt outcome t []

theorem State.settle_concludes (hh : s.handlers id = some ⟨operation, attempt, .calling⟩)
    (hs : s.settle client id now outcome = some s') :
    Concludes client s id operation attempt outcome s'
      (recorded client s (.settle id now outcome)) ∧ s'.clock = s.clock := by
  have hj := client.settle_eq_attemptBody s.clock attempt s.breaker outcome
  rw [State.settle_eq hh, hj, Option.some_inj] at hs
  have hcircuit := State.resume_circuit { s with
    breaker := (client.attemptBody attempt outcome).1.foldl
      (Breaker.record client s.clock) s.breaker }
    id now operation attempt (Verdict.ofBody (client.attemptBody attempt outcome))
  rw [hs] at hcircuit
  obtain ⟨hb, hc⟩ := hcircuit
  refine ⟨?_, hc⟩
  have hends : ∀ {acts ending}, client.attemptBody attempt outcome = (acts, some ending) →
      s'.handlers = Function.update s.handlers id none := by
    intro acts ending he
    rw [← hs, he, State.resume_ends]
    intro delay hv
    cases ending <;> cases hv
  simp only [recorded, hh]
  cases hf : outcome.isFailure
  case false =>
    obtain ⟨acts, ending, he, hd⟩ := Client.attemptBody_decides hf client attempt
    have hn := hends he
    rw [he] at hb ⊢
    cases hd
    case uncaught e ho hcaught =>
      refine .escapes (fun hheeds => ?_) hn hb
      simp [hheeds.caught e ho] at hcaught
    all_goals exact .heard hn hb
  case true =>
    rcases Nat.lt_or_ge attempt client.maxAttempts with hlt | hge
    case inr =>
      obtain ⟨message, he⟩ := Client.attemptBody_exhausted hf hge
      have hn := hends he
      rw [he] at hb ⊢
      exact .unavailable hf hge hn hb
    case inl =>
      rcases Nat.lt_or_ge attempt overflowAttempt with ho | ho
      case inl =>
        have he := Client.attemptBody_failure hf (lt_min hlt ho)
        rw [he] at hb hs ⊢
        exact .sleeps hlt (congrArg State.handlers hs.symm) hb
      case inr =>
        have he := Client.attemptBody_overflow hf ho hlt
        have hn := hends he
        rw [he] at hb ⊢
        exact .escapes (fun hheeds => absurd (hheeds.delayed hf hlt) (Nat.not_lt.mpr ho)) hn hb

theorem watched_run (client : Client) (as : List Action) :
    ((watched client).run as).map Prod.fst = (machine client).run as :=
  Machine.track_runFrom _ as

-- What holds along a run whose calls keep apart: while the circuit is open, only calls whose window
-- has elapsed have attempts left, and there is a probe only while its call is in progress.
structure Guarded (client : Client) (s : State) (probe : Option ℕ) : Prop where
  serves : Serves client s
  requests : ∀ id handler, s.handlers id = some handler → (client.request handler.operation).isSome
  elapsed : ∀ opened, s.breaker.circuitOpenedAt = some opened → ∀ id handler,
    s.handlers id = some handler → handler.attempt < client.maxAttempts →
    client.circuitResetSeconds ≤ s.clock - opened
  probed : ∀ id, probe = some id → (s.handlers id).isSome ∧ s.breaker.circuitOpenedAt.isSome

namespace Guarded

variable {probe probe' : Option ℕ} {x : Option Handler}

theorem init : Guarded client .init none where
  serves := .init
  requests := nofun
  elapsed := nofun
  probed := nofun

-- One call goes on or ends, and the circuit stays as it is.
theorem update (h : Guarded client s probe) (hs : Serves client s')
    (hh : s'.handlers = Function.update s.handlers id x) (hc : s.SameCircuit s')
    (hx : ∀ handler, x = some handler → (client.request handler.operation).isSome ∧
      ∀ opened, s.breaker.circuitOpenedAt = some opened → handler.attempt < client.maxAttempts →
        client.circuitResetSeconds ≤ s.clock - opened)
    (hp : ∀ j, probe' = some j → (s'.handlers j).isSome ∧ s.breaker.circuitOpenedAt.isSome) :
    Guarded client s' probe' where
  serves := hs
  requests j handler hj := by
    by_cases he : j = id
    case pos => exact (hx handler (by simpa [hh, he] using hj)).1
    case neg => exact h.requests j handler (by simpa [hh, he] using hj)
  elapsed opened ho j handler hj hlt := by
    rw [hc.1] at ho
    rw [hc.2]
    by_cases he : j = id
    case pos => exact (hx handler (by simpa [hh, he] using hj)).2 opened ho hlt
    case neg => exact h.elapsed opened ho j handler (by simpa [hh, he] using hj) hlt
  probed := hc.1 ▸ hp

-- The probe has not ended with another call.
theorem probed_update (h : Guarded client s probe) {j : ℕ} (hj : probe = some j)
    (hh : s'.handlers = Function.update s.handlers id x) (hx : j = id → x.isSome) :
    (s'.handlers j).isSome ∧ s.breaker.circuitOpenedAt.isSome := by
  have ⟨hr, ho⟩ := h.probed j hj
  refine ⟨?_, ho⟩
  by_cases he : j = id
  case pos => simpa [hh, he] using hx he
  case neg => simpa [hh, he] using hr

theorem begin (h : Guarded client s probe)
    (hs : Serves client (s.begin client operation).1) :
    Guarded client (s.begin client operation).1 (nextProbe client s probe (.begin operation)) := by
  have hcircuit := State.begin_circuit client s operation
  have hold : ∀ j, (s.handlers j).isSome → j ≠ s.begun.length := by
    intro j hj
    have ⟨handler, hj⟩ := Option.isSome_iff_exists.mp hj
    exact (h.serves.running j handler hj).1.ne
  have hsent : sentBy client s (.begin operation) = (s.begin client operation).2 := rfl
  rw [nextProbe, hsent]
  cases hm : (s.begin client operation).2.isSome
  case false =>
    have ha := Attempts.begin client s operation
    rw [Option.isSome_eq_false_iff.mp hm |> Option.isNone_iff_eq_none.mp] at ha
    cases ha
    case ends hh _ =>
      refine h.update hs hh hcircuit nofun fun j hj => ?_
      exact h.probed_update hj hh fun he => absurd he (hold j (h.probed j hj).1)
  case true =>
    have ⟨hcalls, hallows⟩ := State.begin_isSome.mp hm
    have ⟨m, he⟩ := State.begin_of_calls hcalls hallows
    have hh : (s.begin client operation).1.handlers =
        Function.update s.handlers s.begun.length (some ⟨operation, 1, .calling⟩) := by
      rw [he]
      rfl
    refine h.update hs hh hcircuit (fun handler hx => ?_) fun j hj => ?_
    case refine_1 =>
      cases Option.some.inj hx
      exact ⟨hcalls.request, fun opened ho _ => Breaker.allowsRequest_iff.mp hallows opened ho⟩
    case refine_2 =>
      split at hj
      case isTrue ho =>
        cases Option.some.inj hj
        exact ⟨by simp [hh], by simpa using ho⟩
      case isFalse => exact h.probed_update hj hh fun _ => rfl

theorem wake (h : Guarded client s probe) {r : State × Option Sent}
    (hw : s.wake client id = some r) (hs : Serves client r.1) : Guarded client r.1 probe := by
  have hcircuit := State.wake_circuit hw
  obtain ⟨operation, attempt, delay, hh, rfl⟩ := State.wake_cases hw
  have hr := h.requests id _ hh
  have ⟨m, hm⟩ := State.send_of_request hr s id (attempt + 1)
  have hh' : (s.send client id operation (attempt + 1)).1.handlers =
      Function.update s.handlers id (some ⟨operation, attempt + 1, .calling⟩) := by
    rw [hm]
    rfl
  refine h.update hs hh' hcircuit (fun handler hx => ?_) fun j hj => ?_
  case refine_1 =>
    cases Option.some.inj hx
    refine ⟨hr, fun opened ho _ => ?_⟩
    exact h.elapsed opened ho id _ hh (h.serves.sleeping _ _ _ _ hh)
  case refine_2 => exact h.probed_update hj hh' fun _ => rfl

theorem settle (h : Guarded client s probe) (hc : Apart client s (.settle id now outcome))
    (hs : s.settle client id now outcome = some s') (hserves : Serves client s') :
    Guarded client s' (nextProbe client s probe (.settle id now outcome)) := by
  obtain ⟨operation, attempt, _, hh, _, _⟩ := Turn.settle hs
  have ⟨hapart, hheeds⟩ := hc operation attempt hh
  have ⟨hcon, hclock⟩ := State.settle_concludes hh hs
  rw [nextProbe]
  generalize recorded client s (.settle id now outcome) = rs at hcon
  have hgone : ∀ j handler, s'.handlers = Function.update s.handlers id none →
      s'.handlers j = some handler → j ≠ id ∧ s.handlers j = some handler := by
    intro j handler hn hj
    by_cases he : j = id
    case pos => simp [hn, he] at hj
    case neg => exact ⟨he, by simpa [hn, he] using hj⟩
  cases hcon
  case sleeps hlt hn hb =>
    have hr := h.requests id _ hh
    refine h.update hserves hn ⟨hb, hclock⟩ (fun handler hx => ?_) fun j hj => ?_
    case refine_1 =>
      cases Option.some.inj hx
      exact ⟨hr, fun opened ho hlt => h.elapsed opened ho id _ hh hlt⟩
    case refine_2 => exact h.probed_update hj hn fun _ => rfl
  case unavailable hf hge hn hb =>
    refine ⟨hserves, fun j handler hj => h.requests j handler (hgone j handler hn hj).2, ?_, ?_⟩
    case refine_1 =>
      intro opened ho j handler hj hlt
      have ⟨hne, hj⟩ := hgone j handler hn hj
      simp only [hb, Breaker.recordDownstreamFailure] at ho
      split at ho
      case isTrue ht  => exact absurd hlt (Nat.not_lt.mpr (hapart hf hge ht j hne handler hj))
      case isFalse ht => exact hclock ▸ h.elapsed opened ho j handler hj hlt
    case refine_2 =>
      intro j hj
      simp only [Option.ite_none_left_eq_some] at hj
      have ⟨hr, ho⟩ := h.probed_update hj.2 hn fun he => absurd (he ▸ hj.2) hj.1
      refine ⟨hr, ?_⟩
      rw [hb, Breaker.recordDownstreamFailure]
      split
      case isTrue  => rfl
      case isFalse => exact ho
  case heard hn hb =>
    refine ⟨hserves, fun j handler hj => h.requests j handler (hgone j handler hn hj).2, ?_, ?_⟩
    case refine_1 =>
      rw [hb]
      nofun
    case refine_2 => nofun
  case escapes he hn hb =>
    have hclosed : s.breaker.circuitOpenedAt = none := by
      by_contra ho
      exact he (hheeds (Option.isSome_iff_ne_none.mpr ho))
    refine h.update hserves hn ⟨hb, hclock⟩ nofun fun j hj => ?_
    have ho := (h.probed j hj).2
    simp [hclosed] at ho

theorem step (h : Guarded client s probe) (hc : Apart client s a)
    (hs : (machine client).step s a = some s') :
    Guarded client s' (nextProbe client s probe a) := by
  have hserves := h.serves.step hs
  obtain ⟨r, hr, rfl⟩ := Option.map_eq_some_iff.mp hs
  cases a
  case begin operation =>
    cases Option.some.inj hr
    exact h.begin hserves
  case settle id now outcome =>
    obtain ⟨t, ht, rfl⟩ := Option.map_eq_some_iff.mp hr
    exact h.settle hc ht hserves
  case wake id => exact h.wake hr hserves
  case wait duration =>
    obtain ⟨t, ht, rfl⟩ := Option.map_eq_some_iff.mp hr
    simp only [State.wait, Option.ite_none_right_eq_some, Option.some.injEq] at ht
    obtain ⟨hd, rfl⟩ := ht
    refine ⟨hserves, h.requests, fun opened ho j handler hj hlt => ?_, h.probed⟩
    have he := h.elapsed opened ho j handler hj hlt
    have hl : s.clock - opened ≤ s.clock + duration - opened := by linarith
    exact he.trans hl
  case restart =>
    cases Option.some.inj hr
    refine ⟨hserves, ?_, ?_, ?_⟩
    case refine_1 =>
      intro _ _ hh
      cases hh
    case refine_2 =>
      intro _ ho
      cases ho
    case refine_3 =>
      intro _ hp
      cases hp

-- What is sent may be sent.
theorem sends (h : Guarded client s probe) (hc : Apart client s a)
    (hs : (sentBy client s a).isSome) : ∀ opened, s.breaker.circuitOpenedAt = some opened →
      client.circuitResetSeconds ≤ s.clock - opened ∧ (a.isBegin → probe = none) := by
  intro opened ho
  cases a
  case begin operation =>
    have ⟨hcalls, hallows⟩ := State.begin_isSome.mp hs
    have he := Breaker.allowsRequest_iff.mp hallows opened ho
    refine ⟨he, fun _ => ?_⟩
    by_contra hn
    have ⟨id, hp⟩ := Option.ne_none_iff_exists'.mp hn
    have hr := (h.probed id hp).1
    simp [hc opened ho he hcalls id] at hr
  case wake id =>
    have ⟨operation, attempt, delay, hh, _⟩ := sentBy_wake.mp hs
    exact ⟨h.elapsed opened ho id _ hh (h.serves.sleeping _ _ _ _ hh), nofun⟩
  all_goals
    rw [sentBy_other rfl (by simp)] at hs
    cases hs

end Guarded

-- The attempts of a client that makes only one keep apart by themselves.
theorem apart_settle (h : Serves client s) (h₁ : client.maxAttempts = 1)
    (hc : ∀ e, outcome = .error e → e.isCaught) : Apart client s (.settle id now outcome) := by
  intro operation attempt hh
  have hpos := (h.running id _ hh).2.1
  refine ⟨fun _ _ _ other _ handler ho => ?_, fun _ => ⟨hc, fun _ hlt => ?_⟩⟩
  case refine_1 => exact h₁ ▸ (h.running other handler ho).2.1
  case refine_2 =>
    rw [h₁] at hlt
    exact absurd hlt (Nat.not_lt.mpr hpos)

-- In a run whose calls keep apart, an open circuit protects the Account Service in every state.
theorem always_protects (client : Client) {as : List Action}
    (h : (machine client).Meets (Apart client) .init as) :
    (watched client).Always (Protects client) (.init, .init) as := by
  refine Machine.always_of_meets (C := fun x => Apart client x.1)
    (I := fun x => Guarded client x.1 x.2.probe ∧ Protects client x)
    (fun x a y hi hc hs => ?_) (fun _ hi => hi.2) ⟨.init, by simp [Protects, Watch.init]⟩
    (Machine.track_meets.mpr h)
  have hp := (protects_step hi.2 hs).mpr (hi.1.sends hc)
  obtain ⟨t, ht, rfl⟩ := Option.map_eq_some_iff.mp hs
  exact ⟨hi.1.step hc ht, hp⟩

-- A call that is let through after the window and succeeds.
def probingRun : List Action :=
  [
    .begin (.getBalance EventPayload.sample.accountId),
    .settle 1 EventPayload.sample.eventTimestamp (.response (.detail 200 []))
  ]

theorem always_protects_probing :
    (watched (.ofArguments httpxRules 1 0 1 4)).Always (Protects (.ofArguments httpxRules 1 0 1 4))
      (.init, .init) (failingRun ++ probingRun) := by
  have hw : ((machine (.ofArguments httpxRules 1 0 1 4)).run failingRun).map
      (fun s => (s.begun.length, (s.handlers 0).isNone)) = some (1, true) := by decide +kernel
  refine always_protects _ (Machine.meets_append.mpr ⟨?_, fun s hs => ?_⟩)
  case refine_1 =>
    refine ⟨nofun, fun s hs => ⟨?_, fun _ _ => ⟨trivial, fun _ _ => trivial⟩⟩⟩
    refine apart_settle (Serves.init.step hs) rfl fun e he => ?_
    cases he
    rfl
  case refine_2 =>
    have hserves : Serves (.ofArguments httpxRules 1 0 1 4) s := .of_reachable ⟨_, hs⟩
    obtain ⟨t, ht, he⟩ := Option.map_eq_some_iff.mp hw
    cases ht.symm.trans hs
    have ⟨hb, hn⟩ := Prod.mk.inj he
    have hnone : ∀ id, s.handlers id = none := by
      intro id
      by_contra hh
      have ⟨handler, hh⟩ := Option.ne_none_iff_exists'.mp hh
      have hlt := (hserves.running id handler hh).1
      obtain rfl : id = 0 := by omega
      simp [hh] at hn
    refine ⟨fun _ _ _ _ => hnone, fun t ht => ⟨?_, fun _ _ => trivial⟩⟩
    exact apart_settle (hserves.step ht) rfl nofun

-- The circuit opens while a call sleeps, which then makes its next attempt.
def overlappingRun : List Action :=
  let account := EventPayload.sample.accountId
  let fails := fun id =>
    Action.settle id EventPayload.sample.eventTimestamp (.error .connectTimeout)
  List.replicate 4 (.begin (.getBalance account)) ++ [fails 3] ++
    [0, 1, 2].flatMap (fun id => [fails id, .wake id, fails id, .wake id, fails id]) ++ [.wake 3]

theorem not_protects_overlapping : ∃ x, (watched .default).run overlappingRun = some x ∧
    ¬Protects .default x := by
  have hr : ((watched .default).run overlappingRun).map (fun x => x.2.sendings.getLast?) =
      some (some ⟨⟨3, 2⟩, false, some 0, 0, none⟩) := by decide +kernel
  obtain ⟨x, hx, hl⟩ := Option.map_eq_some_iff.mp hr
  refine ⟨x, hx, fun hp => ?_⟩
  have hn := (hp _ (List.mem_of_getLast? hl) 0 rfl).1
  exact absurd hn (by decide +kernel)

end Gateway
