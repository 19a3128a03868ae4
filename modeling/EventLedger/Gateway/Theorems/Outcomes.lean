import EventLedger.Gateway.Theorems.Request
import EventLedger.Gateway.Theorems.Steps

namespace Gateway

open Http
open Client (overflowAttempt)

variable {client : Client} {attempt n : ℕ} {outcome : Outcome} {outcomes : ℕ → Outcome}
variable {acts : List Act} {ending : Ending} {s s' : State} {operation : Operation}
variable {event : EventPayload} {id : ℕ} {now : Civil}

-- What the breaker records of the acts of an attempt.
def Breaker.record (client : Client) (clock : ℚ) (b : Breaker) : Act → Breaker
  | .recordsSuccess => b.recordDownstreamSuccess
  | .recordsFailure => b.recordDownstreamFailure client clock
  | _               => b

-- The body of the loop as the handlers see it.
def Verdict.ofBody : List Act × Option Ending → Verdict
  | (_,     some (.returned payload))       => .returned payload
  | (_,     some (.rejected status detail)) => .rejected status detail
  | (_,     some (.unavailable _))          => .unavailable
  | (_,     some _)                         => .escaped
  | (acts,  none)                           => .retry (sleepTotal acts)

theorem Client.failed_eq_sleep (client : Client) (clock : ℚ) (attempt : ℕ) (b : Breaker)
    (h : attempt < client.maxAttempts) : client.failed clock attempt b =
      (Verdict.ofBody (client.sleep attempt),
        (client.sleep attempt).1.foldl (Breaker.record client clock) b) := by
  rw [failed, if_pos h, sleep]
  cases client.delay attempt <;> simp [Verdict.ofBody, Breaker.record, sleepTotal, Act.delay]

-- A step of the handlers is the body of the loop.
theorem Client.settle_eq_attemptBody (client : Client) (clock : ℚ) (attempt : ℕ) (b : Breaker)
    (outcome : Outcome) : client.settle clock attempt b outcome =
      (Verdict.ofBody (client.attemptBody attempt outcome),
        (client.attemptBody attempt outcome).1.foldl (Breaker.record client clock) b) := by
  have hexhausted : ¬attempt < client.maxAttempts → client.failed clock attempt b =
      (.unavailable, b.recordDownstreamFailure client clock) := fun h => if_neg h
  cases outcome
  case error e =>
    simp only [settle, attemptBody]
    split_ifs with he ha
    case pos => exact client.failed_eq_sleep clock attempt b ha
    case neg => exact hexhausted ha
    case neg => simp [Verdict.ofBody]
  case response r =>
    obtain ⟨status, body⟩ := r
    simp only [settle, attemptBody]
    split_ifs with h₅ ha h₄
    case pos => exact client.failed_eq_sleep clock attempt b ha
    case neg => exact hexhausted ha
    case pos => cases responseDetail body <;> simp [Verdict.ofBody, Breaker.record]
    case neg => cases body <;> simp [Verdict.ofBody, Breaker.record]

-- The actions that end the attempts of a handler with these outcomes.
def attempts (id : ℕ) (now : Civil) (outcomes : ℕ → Outcome) : ℕ → ℕ → List Action
  | _,       0     => []
  | attempt, 1     => [.settle id now (outcomes attempt)]
  | attempt, n + 2 => .settle id now (outcomes attempt) :: .wake id ::
      attempts id now outcomes (attempt + 1) (n + 1)

-- An attempt that is retried, and the sleep after it.
theorem step_retry (hh : s.handlers id = some ⟨operation, attempt, .calling⟩)
    (hr : (client.request operation).isSome) {outcome : Outcome} (hf : outcome.isFailure)
    (ha : attempt < client.reach) (now : Civil) :
    ∃ t, s.settle client id now outcome = some t ∧
      ∃ m, t.wake client id = some (s.enter id ⟨operation, attempt + 1, .calling⟩, some m) := by
  have hb := client.settle_eq_attemptBody s.clock attempt s.breaker outcome
  rw [Client.attemptBody_failure hf ha] at hb
  let asleep := s.enter id ⟨operation, attempt,
    .sleeping (sleepTotal [.sleeps (client.backoffSeconds * 2 ^ (attempt - 1))])⟩
  have hs : s.settle client id now outcome = some asleep := by rw [State.settle_eq hh, hb]; rfl
  obtain ⟨m, hm⟩ := State.send_of_request hr asleep id (attempt + 1)
  have hw : asleep.handlers id = some ⟨operation, attempt, .sleeping
      (sleepTotal [.sleeps (client.backoffSeconds * 2 ^ (attempt - 1))])⟩ := by
    simp [asleep, State.enter]
  refine ⟨asleep, hs, m, ?_⟩
  rw [State.wake, hw]
  simp only [hm, asleep, State.enter_enter]

-- Attempts that are retried leave everything as it is but the handler.
theorem runFrom_attempts (hh : s.handlers id = some ⟨operation, attempt, .calling⟩)
    (hr : (client.request operation).isSome)
    (hf : ∀ j, attempt ≤ j → j < attempt + n → (outcomes j).isFailure)
    (hn : attempt + n ≤ client.reach) :
    (machine client).runFrom s (attempts id now outcomes attempt (n + 1)) =
      (s.enter id ⟨operation, attempt + n, .calling⟩).settle client id now
        (outcomes (attempt + n)) := by
  induction n generalizing s attempt
  case zero =>
    simp only [Nat.add_zero, State.enter_self hh]
    simp [attempts, Machine.runFrom, machine, State.step, Function.comp_def]
  case succ n hi =>
    have hlt : attempt < client.reach := by omega
    obtain ⟨t, hs, m, hw⟩ := step_retry hh hr (hf attempt le_rfl (by omega)) hlt now
    have hi := @hi (attempt + 1) (s.enter id ⟨operation, attempt + 1, .calling⟩)
      (by simp [State.enter]) (fun j hj hlt => hf j (by omega) (by omega)) (by omega)
    rw [State.enter_enter] at hi
    rw [show attempt + (n + 1) = attempt + 1 + n by omega, ← hi]
    simp [attempts, Machine.runFrom, machine, State.step, hs, hw]

def Client.sendCount (client : Client) (outcomes : ℕ → Outcome) : ℕ :=
  (client.loop outcomes 1 client.maxAttempts).1.count .sends

theorem Client.sendCount_cases (client : Client) (outcomes : ℕ → Outcome) :
    (client.sendCount outcomes ≤ client.reach ∧
      Decisive outcomes (client.sendCount outcomes)) ∨
    (client.sendCount outcomes = client.reach ∧
      ∀ j, 1 ≤ j → j ≤ client.reach → (outcomes j).isFailure) := by
  obtain ⟨acts, ending, hl, hr⟩ := client.loop_runs outcomes
  rw [sendCount, hl]
  have hpos := client.reach_pos
  cases hr
  case decided k last hk hd he =>
    have hpos := hd.pos
    have hc : last.count .sends = 0 := by cases he <;> rfl
    have hs : (retries client 1 (k - 1) ++ .sends :: last).count .sends = k := by
      rw [List.count_append, retries_sends, List.count_cons_self, hc]
      omega
    exact .inl (hs.symm ▸ ⟨hk, hd⟩)
  case exhausted _ hall =>
    refine .inr ⟨?_, hall⟩
    rw [List.count_append, retries_sends]
    simp
    omega
  case overflown _ hall =>
    refine .inr ⟨?_, hall⟩
    rw [List.count_append, retries_sends]
    simp
    omega

theorem sendCount_of_decisive {k : ℕ} (hk : k ≤ client.reach) (hd : Decisive outcomes k) :
    client.sendCount outcomes = k := by
  rcases client.sendCount_cases outcomes with ⟨_, hs⟩ | ⟨_, hf⟩
  case inl => exact hs.unique hd
  case inr => simpa [hd.decides] using hf k hd.pos hk

-- A submission that sends its first attempt, with the outcomes of its attempts.
def submission (client : Client) (s : State) (event : EventPayload) (now : Civil)
    (outcomes : ℕ → Outcome) : List Action :=
  .begin (.applyTransaction event) ::
    attempts s.begun.length now outcomes 1 (client.sendCount outcomes)

theorem runFrom_submission (h : (s.begin client (.applyTransaction event)).2.isSome) :
    (machine client).runFrom s (submission client s event now outcomes) =
      ((s.start (.applyTransaction event)).enter s.begun.length
        ⟨.applyTransaction event, client.sendCount outcomes, .calling⟩).settle client s.begun.length
        now (outcomes (client.sendCount outcomes)) := by
  obtain ⟨hc, hb⟩ := State.begin_isSome.mp h
  obtain ⟨m, hm⟩ := State.begin_of_calls hc hb
  have hk : ∃ n, client.sendCount outcomes = 1 + n ∧ 1 + n ≤ client.reach ∧
      ∀ j, 1 ≤ j → j < 1 + n → (outcomes j).isFailure := by
    have hpos := client.reach_pos
    refine ⟨client.sendCount outcomes - 1, ?_⟩
    rcases client.sendCount_cases outcomes with ⟨hle, hd⟩ | ⟨he, hf⟩
    case inl =>
      have hd0 := hd.pos
      exact ⟨by omega, by omega, fun j hj hlt => hd.first j hj (by omega)⟩
    case inr => exact ⟨by omega, by omega, fun j hj hlt => hf j hj (by omega)⟩
  obtain ⟨n, hn, hle, hf⟩ := hk
  have hrun : (machine client).runFrom s (submission client s event now outcomes) =
      (machine client).runFrom ((s.start (.applyTransaction event)).enter s.begun.length
        ⟨.applyTransaction event, 1, .calling⟩)
        (attempts s.begun.length now outcomes 1 (n + 1)) := by
    rw [submission, hn, Nat.add_comm 1 n, Machine.runFrom]
    simp [machine, State.step, hm]
  rw [hrun, runFrom_attempts (by simp [State.enter]) hc.request hf hle, State.enter_enter, hn]

-- The ends of a call that its callers know.
inductive Translated : List Act → Ending → Prop
  | returned {acts payload} : Translated acts (.returned payload)
  | rejected {acts status detail} : 400 ≤ status → status < 500 →
    Translated acts (.rejected status detail)
  | unavailable {acts message} : acts.count .recordsFailure = 1 →
    Translated acts (.unavailable message)

-- Every outcome of the attempts is turned into an end of the call, and into an answer.
structure Translates (client : Client) (outcomes : ℕ → Outcome) : Prop where
  ends : ∀ b clock, b.allowsRequest client clock →
    Translated (client.boundedRequest b clock outcomes).1
      (client.boundedRequest b clock outcomes).2
  answers : ∀ s event now s', (s.begin client (.applyTransaction event)).2.isSome →
    (machine client).runFrom s (submission client s event now outcomes) = some s' →
    ∃ reply, s'.answers = s.answers ++ [{ handler := s.begun.length, reply }] ∧
      ((∃ e, outcomes (client.sendCount outcomes) = .error e) →
        reply = .refused 503 (unavailableDetail (.applyTransaction event))) ∧
      ((outcomes (client.sendCount outcomes)).isSuccess = false → reply.sentStatus ≠ 500)

-- A response with JSON, or a rejection with an object or with no JSON at all.
def Outcome.isTranslatable : Outcome → Bool
  | .error _    => false
  | .response r =>
    if 400 ≤ r.status then (responseDetail r.body).isSome
    else match r.body with
      | .json _ => true
      | .text _ => false

-- An outcome that is not retried is translated just if it can be.
theorem Client.Decides.translated_iff (h : Client.Decides outcome acts ending) :
    outcome.isTranslatable ↔ Translated acts ending := by
  cases h
  case rejected ho h₄ h₅ hd =>
    exact iff_of_true (by simp [ho, Outcome.isTranslatable, h₄, hd]) (.rejected h₄ h₅)
  case returned ho hl =>
    exact iff_of_true (by simp [ho, Outcome.isTranslatable, Nat.not_le.mpr hl]) .returned
  case withoutDetail ho h₄ h₅ hd =>
    exact iff_of_false (by simp [ho, Outcome.isTranslatable, h₄, hd]) (by rintro ⟨⟩)
  case withoutJson ho hl =>
    exact iff_of_false (by simp [ho, Outcome.isTranslatable, Nat.not_le.mpr hl]) (by rintro ⟨⟩)
  case uncaught ho he =>
    exact iff_of_false (by simp [ho, Outcome.isTranslatable]) (by rintro ⟨⟩)

theorem Translated.append (h : Translated acts ending) (client : Client) :
    Translated (retries client 1 n ++ .sends :: acts) ending := by
  cases h
  case returned           => exact .returned
  case rejected h₄ h₅     => exact .rejected h₄ h₅
  case unavailable hc     =>
    have hr := List.count_eq_zero.mpr (retries_records (.inr rfl) client 1 n)
    exact .unavailable (by simp [hr, hc])

theorem Client.Runs.translated_iff (h : client.Runs outcomes acts ending) :
    Translated acts ending ↔
    (client.maxAttempts ≤ overflowAttempt ∨ ∃ k ≤ overflowAttempt, Decisive outcomes k) ∧
      ∀ k ≤ client.reach, Decisive outcomes k → (outcomes k).isTranslatable := by
  cases h
  case decided k last hk hd he =>
    have hu : (∀ j ≤ client.reach, Decisive outcomes j → (outcomes j).isTranslatable) ↔
        (outcomes k).isTranslatable :=
      ⟨fun h => h k hk hd, fun h j _ hj => hd.unique hj ▸ h⟩
    have hover : ∃ k ≤ overflowAttempt, Decisive outcomes k :=
      ⟨k, hk.trans (min_le_right _ _), hd⟩
    rw [hu, he.translated_iff, and_iff_right (.inr hover)]
    constructor
    case mpr => exact fun ht => ht.append client
    case mp =>
      intro ht
      cases he
      case rejected h₄ h₅ _ => exact .rejected h₄ h₅
      case returned         => exact .returned
      all_goals cases ht
  case exhausted message hle hf =>
    have ht : Translated [.recordsFailure] (.unavailable message) := .unavailable rfl
    refine iff_of_true (ht.append client) ⟨.inl hle, fun k hk hd => ?_⟩
    simpa [hd.decides] using hf k hd.pos hk
  case overflown hlt hf =>
    refine iff_of_false (by rintro ⟨⟩) ?_
    rintro ⟨hle | ⟨k, hk, hd⟩, _⟩
    case inl => omega
    case inr => simpa [hd.decides] using hf k hd.pos (le_min (hk.trans hlt.le) hk)

-- How the last attempt of a submission ends.
inductive Settles (client : Client) (outcomes : ℕ → Outcome) : List Act → Ending → Prop
  | decided {last final} : client.sendCount outcomes ≤ client.reach →
    Decisive outcomes (client.sendCount outcomes) →
    Client.Decides (outcomes (client.sendCount outcomes)) last final →
    Settles client outcomes last final
  | exhausted {message} : (outcomes (client.sendCount outcomes)).isFailure →
    Settles client outcomes [.recordsFailure] (.unavailable message)
  | overflown : overflowAttempt < client.maxAttempts →
    (∀ j, 1 ≤ j → j ≤ overflowAttempt → (outcomes j).isFailure) →
    Settles client outcomes [] .escaped

theorem attemptBody_settles (client : Client) (outcomes : ℕ → Outcome) : ∃ acts ending,
    client.attemptBody (client.sendCount outcomes) (outcomes (client.sendCount outcomes)) =
      (acts, some ending) ∧ Settles client outcomes acts ending := by
  rcases client.sendCount_cases outcomes with ⟨hle, hd⟩ | ⟨he, hall⟩
  case inl =>
    obtain ⟨acts, ending, hb, hdec⟩ := Client.attemptBody_decides hd.decides client
      (client.sendCount outcomes)
    exact ⟨acts, ending, hb, .decided hle hd hdec⟩
  case inr =>
    have hf := hall _ client.reach_pos le_rfl
    rw [← he] at hf
    rcases Nat.lt_or_ge overflowAttempt client.maxAttempts with ho | ho
    case inl =>
      have hr : client.reach = overflowAttempt := min_eq_right ho.le
      have hb := Client.attemptBody_overflow hf (he.trans hr).ge ((he.trans hr).trans_lt ho)
      exact ⟨_, _, hb, .overflown ho (hr ▸ hall)⟩
    case inr =>
      obtain ⟨message, hb⟩ := Client.attemptBody_exhausted hf (he.trans (min_eq_left ho)).ge
      exact ⟨_, _, hb, .exhausted hf⟩

-- What a submission leaves, by the end of its last attempt.
theorem submission_settles (h : (s.begin client (.applyTransaction event)).2.isSome) (now : Civil) :
    ∃ acts ending, ∃ t : State, Settles client outcomes acts ending ∧ t.answers = s.answers ∧
      t.events = s.events ∧ (machine client).runFrom s (submission client s event now outcomes) =
        some (t.resume s.begun.length now (.applyTransaction event)
          (client.sendCount outcomes) (Verdict.ofBody (acts, some ending))) := by
  obtain ⟨acts, ending, hb, hs⟩ := attemptBody_settles client outcomes
  have hh : ((s.start (.applyTransaction event)).enter s.begun.length
      ⟨.applyTransaction event, client.sendCount outcomes, .calling⟩).handlers s.begun.length =
      some ⟨.applyTransaction event, client.sendCount outcomes, .calling⟩ := by simp [State.enter]
  rw [runFrom_submission h, State.settle_eq hh, client.settle_eq_attemptBody, hb]
  refine ⟨acts, ending, _, hs, ?_, ?_, rfl⟩
  case refine_1 => rfl
  case refine_2 => rfl

theorem submission_resumes (h : (s.begin client (.applyTransaction event)).2.isSome)
    (hr : (machine client).runFrom s (submission client s event now outcomes) = some s') :
    ∃ acts ending, ∃ t : State, Settles client outcomes acts ending ∧ t.answers = s.answers ∧
      t.events = s.events ∧ s' = t.resume s.begun.length now (.applyTransaction event)
        (client.sendCount outcomes) (Verdict.ofBody (acts, some ending)) := by
  obtain ⟨acts, ending, t, hs, ha, he, hrun⟩ := submission_settles h now
  exact ⟨acts, ending, t, hs, ha, he, Option.some.inj (hr.symm.trans hrun)⟩

-- An answer to a rejection can be rendered.
def Outcome.isRendered : Outcome → Bool
  | .error _    => true
  | .response r =>
    if 400 ≤ r.status then
      (responseDetail r.body).any fun detail =>
        (exceptionDetail r.status detail).any Json.isStandard
    else true

-- Some submission can be sent.
def Client.Submits (client : Client) : Prop :=
  ∃ (s : State) (event : EventPayload), (s.begin client (.applyTransaction event)).2.isSome

theorem Reply.sentStatus_refused {status : ℕ} {detail : Json} (h : status ≠ 500) :
    (Reply.refused status detail).sentStatus ≠ 500 ↔
      (exceptionDetail status detail).any Json.isStandard := by
  cases hd : exceptionDetail status detail
  case none => simp [Reply.sentStatus, Reply.content, hd]
  case some d =>
    cases hs : d.isStandard <;> simp [Reply.sentStatus, Reply.content, hd, hs, Reply.status, h]

-- The answer to a submission that is rejected.
theorem submission_rejected {status : ℕ} {body : Body} {detail : Json}
    (h : (s.begin client (.applyTransaction event)).2.isSome)
    (hk : n ≤ client.reach) (hd : Decisive outcomes n)
    (ho : outcomes n = .response ⟨status, body⟩) (h₄ : 400 ≤ status)
    (hdet : responseDetail body = some detail) (now : Civil) : ∃ s',
      (machine client).runFrom s (submission client s event now outcomes) = some s' ∧
      s'.answers =
        s.answers ++ [{ handler := s.begun.length, reply := .refused status detail }] := by
  obtain ⟨acts, ending, t, hs, ha, _, hrun⟩ := submission_settles h now
  have hn := sendCount_of_decisive hk hd
  refine ⟨_, hrun, ?_⟩
  cases hs
  case exhausted hf => simp [hn, hd.decides] at hf
  case overflown hf =>
    have hle : n ≤ overflowAttempt := hk.trans (min_le_right _ _)
    simpa [hd.decides] using hf n hd.pos hle
  case decided he =>
    rw [hn, ho] at he
    cases he
    case rejected ho' _ _ hdet' =>
      cases ho'
      cases hdet.symm.trans hdet'
      exact ha ▸ rfl
    case returned ho' hl =>
      cases ho'
      exact absurd hl (Nat.not_lt.mpr h₄)
    case withoutDetail ho' _ _ hdet' =>
      cases ho'
      cases hdet.symm.trans hdet'
    case withoutJson ho' hl =>
      cases ho'
      exact absurd hl (Nat.not_lt.mpr h₄)
    case uncaught ho' _ => cases ho'

theorem Translates.isRendered (h : Translates client outcomes) (hs : client.Submits)
    (hk : n ≤ client.reach) (hd : Decisive outcomes n) (ht : (outcomes n).isTranslatable) :
    (outcomes n).isRendered := by
  obtain ⟨s, event, hs⟩ := hs
  cases ho : outcomes n
  case error e => rfl
  case response r =>
    obtain ⟨status, body⟩ := r
    by_cases h₄ : 400 ≤ status
    case neg => simp [Outcome.isRendered, h₄]
    case pos =>
      have h₅ : status < 500 := by simpa [ho, Outcome.isFailure] using hd.decides
      obtain ⟨detail, hdet⟩ := Option.isSome_iff_exists.mp
        (by simpa [ho, Outcome.isTranslatable, h₄] using ht)
      obtain ⟨s', hrun, ha⟩ := submission_rejected hs hk hd ho h₄ hdet
        EventPayload.sample.eventTimestamp
      obtain ⟨reply, ha', _, hsent⟩ := h.answers s event _ s' hs hrun
      have hr : reply = .refused status detail := by simpa using ha'.symm.trans ha
      have hn : (outcomes (client.sendCount outcomes)).isSuccess = false := by
        rw [sendCount_of_decisive hk hd, ho]
        cases body <;> simp [Outcome.isSuccess, Response.isSuccess, h₄]
      have hsent := hsent hn
      rw [hr, Reply.sentStatus_refused (by omega)] at hsent
      simpa [Outcome.isRendered, h₄, hdet] using hsent

-- The answer to a submission whose last attempt is translated and rendered.
theorem Settles.answers {t : State} (h : Settles client outcomes acts ending)
    (hover : client.maxAttempts ≤ overflowAttempt ∨ ∃ k ≤ overflowAttempt, Decisive outcomes k)
    (hd : ∀ k ≤ client.reach, Decisive outcomes k →
      (outcomes k).isTranslatable ∧ (outcomes k).isRendered) : ∃ reply,
      (t.resume id now (.applyTransaction event) (client.sendCount outcomes)
        (Verdict.ofBody (acts, some ending))).answers =
          t.answers ++ [{ handler := id, reply }] ∧
      ((∃ e, outcomes (client.sendCount outcomes) = .error e) →
        reply = .refused 503 (unavailableDetail (.applyTransaction event))) ∧
      ((outcomes (client.sendCount outcomes)).isSuccess = false → reply.sentStatus ≠ 500) := by
  cases h
  case exhausted =>
    refine ⟨.refused 503 (unavailableDetail (.applyTransaction event)), rfl, fun _ => rfl, ?_⟩
    exact fun _ => (Reply.sentStatus_refused (by decide)).mpr rfl
  case overflown hlt hf =>
    rcases hover with hle | ⟨k, hk, hd⟩
    case inl => exact absurd hle (Nat.not_le.mpr hlt)
    case inr => simpa [hd.decides] using hf k hd.pos hk
  case decided hle hdec he =>
    obtain ⟨ht, hr⟩ := hd _ hle hdec
    cases he
    case rejected status body detail ho h₄ h₅ hdet =>
      refine ⟨.refused status detail, rfl, ?_, fun _ => ?_⟩
      case refine_1 =>
        rintro ⟨e, hoe⟩
        cases ho.symm.trans hoe
      case refine_2 =>
        rw [Reply.sentStatus_refused (by omega)]
        simpa [ho, Outcome.isRendered, h₄, hdet] using hr
    case returned status payload ho hl =>
      obtain ⟨reply, ha, _⟩ : ∃ reply, (t.resume id now (.applyTransaction event)
          (client.sendCount outcomes) (.returned payload)).answers =
          t.answers ++ [{ handler := id, reply }] ∧ reply.status ≠ 503 :=
        State.inserted_status ..
      refine ⟨reply, ha, ?_, fun hn => ?_⟩
      case refine_1 =>
        rintro ⟨e, hoe⟩
        cases ho.symm.trans hoe
      case refine_2 => simp [ho, Outcome.isSuccess, Response.isSuccess, hl] at hn
    case withoutDetail ho h₄ _ hdet => simp [ho, Outcome.isTranslatable, h₄, hdet] at ht
    case withoutJson ho hl => simp [ho, Outcome.isTranslatable, Nat.not_le.mpr hl] at ht
    case uncaught ho _ => simp [ho, Outcome.isTranslatable] at ht

theorem submission_translates_iff (client : Client) (outcomes : ℕ → Outcome) :
    Translates client outcomes ↔
    (client.maxAttempts ≤ 1025 ∨ ∃ k ≤ 1025, Decisive outcomes k) ∧
    ∀ k ≤ client.reach, Decisive outcomes k →
      (outcomes k).isTranslatable ∧ (client.Submits → (outcomes k).isRendered) := by
  constructor
  case mp =>
    intro h
    have hb : Breaker.closed.allowsRequest client 0 := rfl
    obtain ⟨acts, ending, he, hr⟩ := Client.boundedRequest_runs hb outcomes
    have ht := h.ends .closed 0 hb
    rw [he] at ht
    obtain ⟨hover, ht⟩ := hr.translated_iff.mp ht
    exact ⟨hover, fun k hk hd => ⟨ht k hk hd, fun hs => h.isRendered hs hk hd (ht k hk hd)⟩⟩
  case mpr =>
    rintro ⟨hover, h⟩
    constructor
    case ends =>
      intro b clock hb
      obtain ⟨acts, ending, he, hr⟩ := Client.boundedRequest_runs hb outcomes
      rw [he]
      exact hr.translated_iff.mpr ⟨hover, fun k hk hd => (h k hk hd).1⟩
    case answers =>
      intro s event now s' hs hr
      obtain ⟨acts, ending, t, hset, ha, _, rfl⟩ := submission_resumes hs hr
      rw [← ha]
      exact hset.answers hover fun k hk hd => ⟨(h k hk hd).1, (h k hk hd).2 ⟨s, event, hs⟩⟩

-- A read error ends the call with an exception of the HTTP library.
theorem not_translates_readError : ¬∀ client outcomes, Translates client outcomes := by
  intro h
  have ht := (h .default fun _ => .error .readError).ends .closed 0 rfl
  have hr : Client.default.boundedRequest .closed 0 (fun _ => .error .readError) =
      ([.sends], .escaped) := rfl
  rw [hr] at ht
  cases ht

-- A response with a status of some classes.
def Outcome.hasStatus (p : ℕ → Bool) : Outcome → Bool
  | .error _    => false
  | .response r => p r.status

def is2xx (status : ℕ) : Bool :=
  200 ≤ status && status < 300

def is4xx (status : ℕ) : Bool :=
  400 ≤ status && status < 500

-- Only a success is recorded as applied, and only a success or a rejection closes the circuit.
structure AppliesSuccess (client : Client) (outcomes : ℕ → Outcome) : Prop where
  stores : ∀ s event now s', (s.begin client (.applyTransaction event)).2.isSome →
    (machine client).runFrom s (submission client s event now outcomes) = some s' →
    s'.events ≠ s.events → ∃ k, 1 ≤ k ∧ k ≤ client.sendCount outcomes ∧
      (outcomes k).hasStatus is2xx
  resets : ∀ b clock, .recordsSuccess ∈ (client.boundedRequest b clock outcomes).1 →
    ∃ k, 1 ≤ k ∧ k ≤ client.sendCount outcomes ∧
      ((outcomes k).hasStatus is2xx ∨ (outcomes k).hasStatus is4xx)

-- A response that is neither a success nor an error.
def isOther (status : ℕ) : Bool :=
  status < 200 || (300 ≤ status && status < 400)

-- A success is recorded for every response that is not retried.
theorem Client.Runs.recordsSuccess_iff (h : client.Runs outcomes acts ending) :
    .recordsSuccess ∈ acts ↔
    ∃ k ≤ client.reach, Decisive outcomes k ∧ ∃ r, outcomes k = .response r := by
  have hn := fun n => retries_records (.inl rfl) client 1 n
  cases h
  case decided k last hk hd he =>
    have hm : .recordsSuccess ∈ retries client 1 (k - 1) ++ .sends :: last ↔
        .recordsSuccess ∈ last := by simp [hn]
    have hu : (∃ j ≤ client.reach, Decisive outcomes j ∧ ∃ r, outcomes j = .response r) ↔
        ∃ r, outcomes k = .response r :=
      ⟨fun ⟨_, _, hj, hr⟩ => hd.unique hj ▸ hr, fun hr => ⟨k, hk, hd, hr⟩⟩
    rw [hm, hu]
    cases he
    case uncaught e ho _ => simp [ho]
    all_goals simp_all
  case exhausted message _ hf =>
    refine iff_of_false (by simp [hn]) ?_
    rintro ⟨k, hk, hd, _⟩
    simpa [hd.decides] using hf k hd.pos hk
  case overflown _ hf =>
    refine iff_of_false (by simp [hn]) ?_
    rintro ⟨k, hk, hd, _⟩
    simpa [hd.decides] using hf k hd.pos hk

-- A failure has none of the statuses below 500.
theorem Outcome.lt_of_hasStatus {p : ℕ → Bool} (h : outcome.hasStatus p)
    (hp : ∀ status, p status → status < 500) : outcome.isFailure = false := by
  cases outcome
  case error      => cases h
  case response r => simpa [Outcome.isFailure] using hp r.status h

theorem is2xx_iff {status : ℕ} : is2xx status ↔ 200 ≤ status ∧ status < 300 := by
  simp [is2xx]

theorem is4xx_iff {status : ℕ} : is4xx status ↔ 400 ≤ status ∧ status < 500 := by
  simp [is4xx]

theorem isOther_iff {status : ℕ} : isOther status = false ↔
    200 ≤ status ∧ (status < 300 ∨ 400 ≤ status) := by
  simp only [isOther, Bool.or_eq_false_iff, Bool.and_eq_false_iff, decide_eq_false_iff_not]
  omega

theorem AppliesSuccess.of_decisive (h : AppliesSuccess client outcomes) {k : ℕ}
    (hk : k ≤ client.reach) (hd : Decisive outcomes k) :
    (outcomes k).hasStatus isOther = false := by
  cases ho : outcomes k
  case error => rfl
  case response r =>
    have hb : Breaker.closed.allowsRequest client 0 := rfl
    obtain ⟨acts, ending, he, hr⟩ := Client.boundedRequest_runs hb outcomes
    have hm := hr.recordsSuccess_iff.mpr ⟨k, hk, hd, r, ho⟩
    obtain ⟨j, hj, hle, hs⟩ := h.resets .closed 0 (he ▸ hm)
    rw [sendCount_of_decisive hk hd] at hle
    have hf : (outcomes j).isFailure = false := by
      rcases hs with hs | hs
      case inl => exact Outcome.lt_of_hasStatus hs fun _ h => by have := is2xx_iff.mp h; omega
      case inr => exact Outcome.lt_of_hasStatus hs fun _ h => (is4xx_iff.mp h).2
    have hjk : j = k := by
      by_contra hn
      simpa [hf] using hd.first j hj (by omega)
    rw [hjk, ho] at hs
    refine isOther_iff.mpr ?_
    rcases hs with hs | hs
    case inl => have := is2xx_iff.mp hs; omega
    case inr => have := is4xx_iff.mp hs; omega

theorem submission_appliesSuccess_iff (client : Client) (outcomes : ℕ → Outcome) :
    AppliesSuccess client outcomes ↔
    ∀ k ≤ client.reach, Decisive outcomes k → (outcomes k).hasStatus isOther = false := by
  constructor
  case mp => exact fun h k hk hd => h.of_decisive hk hd
  case mpr =>
    intro h
    constructor
    case stores =>
      intro s event now s' hs hr hne
      obtain ⟨acts, ending, t, hset, _, he, rfl⟩ := submission_resumes hs hr
      cases hset
      case exhausted => exact absurd he hne
      case overflown => exact absurd he hne
      case decided hle hd hdec =>
        have hn := h _ hle hd
        cases hdec
        case returned status payload ho hl =>
          rw [ho] at hn
          have hs : 200 ≤ status ∧ (status < 300 ∨ 400 ≤ status) := isOther_iff.mp hn
          have h₂ : is2xx status := is2xx_iff.mpr (by omega)
          exact ⟨_, hd.pos, le_rfl, ho ▸ h₂⟩
        all_goals exact absurd he hne
    case resets =>
      intro b clock hm
      by_cases hb : b.allowsRequest client clock
      case neg => simp [Client.boundedRequest, hb] at hm
      case pos =>
        obtain ⟨acts, ending, he, hr⟩ := Client.boundedRequest_runs hb outcomes
        rw [he] at hm
        obtain ⟨k, hk, hd, r, ho⟩ := hr.recordsSuccess_iff.mp hm
        have hn := h k hk hd
        have hl : r.status < 500 := by simpa [ho, Outcome.isFailure] using hd.decides
        refine ⟨k, hd.pos, (sendCount_of_decisive hk hd).ge, ?_⟩
        rw [ho] at hn ⊢
        have := isOther_iff.mp hn
        by_cases h₃ : r.status < 300
        case pos => exact .inl (is2xx_iff.mpr (by omega))
        case neg => exact .inr (is4xx_iff.mpr (by omega))

-- A redirection with JSON is taken for a success.
theorem not_appliesSuccess_redirect : ¬∀ client outcomes, AppliesSuccess client outcomes := by
  intro h
  let payload : Document := ⟨.obj [], Json.wf_obj.mpr (by simp)⟩
  have hd : Decisive (fun _ => .response ⟨302, .json payload⟩) 1 := ⟨le_rfl, rfl, by omega⟩
  have hn := (h .default fun _ => .response ⟨302, .json payload⟩).of_decisive (by decide) hd
  cases hn

end Gateway
