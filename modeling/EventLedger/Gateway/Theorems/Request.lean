import EventLedger.Gateway.Request
import EventLedger.Gateway.Theorems.Client
import Mathlib.Algebra.Order.Ring.Rat
import Mathlib.Tactic.Ring

namespace Gateway

open Http
open Client (overflowAttempt)

variable {client : Client} {clock : ℚ} {attempt k n m : ℕ} {b : Breaker} {outcome : Outcome}
variable {outcomes : ℕ → Outcome} {acts : List Act} {ending : Ending}

-- The first outcome that is not retried.
structure Decisive (outcomes : ℕ → Outcome) (k : ℕ) : Prop where
  pos : 1 ≤ k
  decides : (outcomes k).isFailure = false
  first : ∀ j, 1 ≤ j → j < k → (outcomes j).isFailure

theorem exists_decisive (h : ∃ j, 1 ≤ j ∧ j ≤ n ∧ (outcomes j).isFailure = false) :
    ∃ k, k ≤ n ∧ Decisive outcomes k := by
  classical
  have hf := Nat.find_spec h
  refine ⟨Nat.find h, hf.2.1, hf.1, hf.2.2, fun j hj hlt => ?_⟩
  by_contra hn
  exact Nat.find_min h hlt ⟨hj, by omega, by simpa using hn⟩

-- What an attempt that is retried has done.
def retries (client : Client) : ℕ → ℕ → List Act
  | _,       0     => []
  | attempt, n + 1 => .sends :: .sleeps (client.backoffSeconds * 2 ^ (attempt - 1)) ::
      retries client (attempt + 1) n

namespace Client

-- The attempts that a call can make.
def reach (client : Client) : ℕ :=
  min client.maxAttempts overflowAttempt

theorem reach_pos (client : Client) : 1 ≤ client.reach :=
  le_min client.maxAttempts_pos (by decide)

theorem delay_eq_some (ha : attempt < client.reach) :
    client.delay attempt = some (client.backoffSeconds * 2 ^ (attempt - 1)) :=
  if_pos (ha.trans_le (min_le_right _ _))

theorem attemptBody_failure (h : outcome.isFailure) (ha : attempt < client.reach) :
    client.attemptBody attempt outcome =
      ([.sleeps (client.backoffSeconds * 2 ^ (attempt - 1))], none) := by
  have hm : attempt < client.maxAttempts := ha.trans_le (min_le_left _ _)
  have hd := delay_eq_some ha
  cases outcome
  case error e =>
    have h : e.isCaught := h
    simp [attemptBody, sleep, h, hm, hd]
  case response r =>
    have h : 500 ≤ r.status := of_decide_eq_true h
    simp [attemptBody, sleep, h, hm, hd]

theorem attemptBody_exhausted (h : outcome.isFailure) (ha : client.maxAttempts ≤ attempt) :
    ∃ message, client.attemptBody attempt outcome =
      ([.recordsFailure], some (.unavailable message)) := by
  cases outcome
  case error e =>
    have h : e.isCaught := h
    exact ⟨_, by simp [attemptBody, h, Nat.not_lt.mpr ha]; rfl⟩
  case response r =>
    have h : 500 ≤ r.status := of_decide_eq_true h
    exact ⟨_, by simp [attemptBody, h, Nat.not_lt.mpr ha]; rfl⟩

-- The delay of an attempt that should be retried is no float.
theorem attemptBody_overflow (h : outcome.isFailure) (ha : overflowAttempt ≤ attempt)
    (hm : attempt < client.maxAttempts) :
    client.attemptBody attempt outcome = ([], some .escaped) := by
  have hd : client.delay attempt = none := if_neg (Nat.not_lt.mpr ha)
  cases outcome
  case error e =>
    have h : e.isCaught := h
    simp [attemptBody, sleep, h, hm, hd]
  case response r =>
    have h : 500 ≤ r.status := of_decide_eq_true h
    simp [attemptBody, sleep, h, hm, hd]

-- How an outcome that is not retried ends the loop.
inductive Decides (outcome : Outcome) : List Act → Ending → Prop
  | rejected {status body detail} :
    outcome = .response ⟨status, body⟩ → 400 ≤ status → status < 500 →
    responseDetail body = some detail → Decides outcome [.recordsSuccess] (.rejected status detail)
  | returned {status payload} : outcome = .response ⟨status, .json payload⟩ → status < 400 →
    Decides outcome [.recordsSuccess] (.returned payload)
  | withoutDetail {status body} : outcome = .response ⟨status, body⟩ → 400 ≤ status → status < 500 →
    responseDetail body = none → Decides outcome [.recordsSuccess] .escaped
  | withoutJson {status text} : outcome = .response ⟨status, .text text⟩ → status < 400 →
    Decides outcome [.recordsSuccess] .escaped
  | uncaught {e} : outcome = .error e → e.isCaught = false → Decides outcome [] .escaped

theorem attemptBody_decides (h : outcome.isFailure = false) (client : Client) (attempt : ℕ) :
    ∃ acts ending, client.attemptBody attempt outcome = (acts, some ending) ∧
      Decides outcome acts ending := by
  cases outcome
  case error e =>
    have h : e.isCaught = false := h
    exact ⟨_, _, by simp [attemptBody, h], .uncaught rfl h⟩
  case response r =>
    obtain ⟨status, body⟩ := r
    have h₅ : ¬500 ≤ status := of_decide_eq_false h
    by_cases h₄ : 400 ≤ status
    case pos =>
      cases hd : responseDetail body
      case some detail =>
        exact ⟨_, _, by simp [attemptBody, h₅, h₄, hd],
          .rejected rfl h₄ (Nat.lt_of_not_le h₅) hd⟩
      case none =>
        exact ⟨_, _, by simp [attemptBody, h₅, h₄, hd],
          .withoutDetail rfl h₄ (Nat.lt_of_not_le h₅) hd⟩
    case neg =>
      cases body
      case json payload =>
        exact ⟨_, _, by simp [attemptBody, h₅, h₄],
          .returned rfl (Nat.lt_of_not_le h₄)⟩
      case text =>
        exact ⟨_, _, by simp [attemptBody, h₅, h₄],
          .withoutJson rfl (Nat.lt_of_not_le h₄)⟩

-- Attempts that fail are retried as long as there are attempts left.
theorem loop_failures (h : ∀ j, attempt ≤ j → j < attempt + n → (outcomes j).isFailure)
    (hn : attempt + n ≤ client.reach) (m : ℕ) : client.loop outcomes attempt (n + m) =
      (retries client attempt n ++ (client.loop outcomes (attempt + n) m).1,
        (client.loop outcomes (attempt + n) m).2) := by
  induction n generalizing attempt
  case zero => simp [retries]
  case succ n hi =>
    have ha : attempt < client.reach := by omega
    have hf := attemptBody_failure (h attempt le_rfl (by omega)) ha
    have hi := @hi (attempt + 1) (fun j hj hlt => h j (by omega) (by omega)) (by omega)
    rw [show n + 1 + m = n + m + 1 by omega, loop, hf,
      show attempt + (n + 1) = attempt + 1 + n by omega]
    simp only [hi, retries, List.cons_append, List.nil_append]

-- A call that ends with some attempt, after attempts that have failed.
theorem loop_ends (hk : 1 ≤ k) (hr : k ≤ client.reach)
    (h : ∀ j, 1 ≤ j → j < k → (outcomes j).isFailure)
    (hb : client.attemptBody k (outcomes k) = (acts, some ending)) :
    client.loop outcomes 1 client.maxAttempts =
      (retries client 1 (k - 1) ++ .sends :: acts, some ending) := by
  have hm : k ≤ client.maxAttempts := hr.trans (min_le_left _ _)
  have hl : client.loop outcomes 1 (k - 1 + (client.maxAttempts - k + 1)) = _ :=
    loop_failures (fun j hj hlt => h j hj (by omega)) (by omega) _
  rwa [show k - 1 + (client.maxAttempts - k + 1) = client.maxAttempts by omega,
    show 1 + (k - 1) = k by omega, loop, hb] at hl

-- All that a call can do.
inductive Runs (client : Client) (outcomes : ℕ → Outcome) : List Act → Ending → Prop
  | decided {i last final} : i ≤ client.reach → Decisive outcomes i →
    Decides (outcomes i) last final →
    Runs client outcomes (retries client 1 (i - 1) ++ .sends :: last) final
  | exhausted {message} : client.maxAttempts ≤ overflowAttempt →
    (∀ j, 1 ≤ j → j ≤ client.reach → (outcomes j).isFailure) →
    Runs client outcomes (retries client 1 (client.reach - 1) ++ [.sends, .recordsFailure])
      (.unavailable message)
  | overflown : overflowAttempt < client.maxAttempts →
    (∀ j, 1 ≤ j → j ≤ client.reach → (outcomes j).isFailure) →
    Runs client outcomes (retries client 1 (client.reach - 1) ++ [.sends]) .escaped

-- The loop does not run out without an ending.
theorem loop_runs (client : Client) (outcomes : ℕ → Outcome) : ∃ acts ending,
    client.loop outcomes 1 client.maxAttempts = (acts, some ending) ∧
      client.Runs outcomes acts ending := by
  have hpos := client.reach_pos
  by_cases hd : ∃ j, 1 ≤ j ∧ j ≤ client.reach ∧ (outcomes j).isFailure = false
  case pos =>
    obtain ⟨k, hk, hd⟩ := exists_decisive hd
    obtain ⟨acts, ending, hb, he⟩ := attemptBody_decides hd.decides client k
    exact ⟨_, _, loop_ends hd.pos hk hd.first hb, .decided hk hd he⟩
  case neg =>
    have hf : ∀ j, 1 ≤ j → j ≤ client.reach → (outcomes j).isFailure := fun j hj hle => by
      by_contra hn
      exact hd ⟨j, hj, hle, by simpa using hn⟩
    have hlt : ∀ j, 1 ≤ j → j < client.reach → (outcomes j).isFailure := fun j hj hlt =>
      hf j hj hlt.le
    rcases Nat.lt_or_ge overflowAttempt client.maxAttempts with ho | ho
    case inl =>
      have hr : client.reach = overflowAttempt := min_eq_right ho.le
      have hb := attemptBody_overflow (hf _ hpos le_rfl) hr.ge (hr.trans_lt ho)
      exact ⟨_, _, loop_ends hpos le_rfl hlt hb, .overflown ho hf⟩
    case inr =>
      have hm : client.maxAttempts ≤ client.reach := (min_eq_left ho).ge
      obtain ⟨message, hb⟩ := attemptBody_exhausted (hf _ hpos le_rfl) hm
      exact ⟨_, _, loop_ends hpos le_rfl hlt hb, .exhausted ho hf⟩

theorem boundedRequest_runs (h : b.allowsRequest client clock) (outcomes : ℕ → Outcome) :
    ∃ acts ending, client.boundedRequest b clock outcomes = (acts, ending) ∧
      client.Runs outcomes acts ending := by
  obtain ⟨acts, ending, hl, hr⟩ := client.loop_runs outcomes
  exact ⟨acts, ending, by simp [boundedRequest, h, hl], hr⟩

end Client

def Act.delay : Act → ℚ
  | sleeps delay => delay
  | _            => 0

-- The time that is slept in all.
def sleepTotal (acts : List Act) : ℚ :=
  (acts.map Act.delay).sum

theorem retries_sends (client : Client) (attempt n : ℕ) :
    (retries client attempt n).count .sends = n := by
  induction n generalizing attempt
  case zero => rfl
  case succ n hi => simp [retries, hi]

theorem retries_records {act : Act} (h : act = .recordsSuccess ∨ act = .recordsFailure)
    (client : Client) (attempt n : ℕ) : act ∉ retries client attempt n := by
  induction n generalizing attempt
  case zero => simp [retries]
  case succ n hi =>
    rcases h with rfl | rfl <;> simp [retries, hi]

theorem retries_sleepTotal (client : Client) (attempt n : ℕ) :
    sleepTotal (retries client (attempt + 1) n) =
      client.backoffSeconds * 2 ^ attempt * (2 ^ n - 1) := by
  induction n generalizing attempt
  case zero => simp [retries, sleepTotal]
  case succ n hi =>
    have hi : ((retries client (attempt + 1 + 1) n).map Act.delay).sum = _ := hi (attempt + 1)
    simp only [sleepTotal, retries, List.map_cons, List.sum_cons, Act.delay, hi,
      Nat.add_sub_cancel]
    ring

-- What a call sleeps before the attempt that ends it.
theorem sleepTotal_retries_append {last : List Act} (h : sleepTotal last = 0)
    (hc : last.count .sends = 1) (client : Client) (n : ℕ) :
    sleepTotal (retries client 1 n ++ last) =
      client.backoffSeconds * (2 ^ ((retries client 1 n ++ last).count .sends - 1) - 1) := by
  have hl : (last.map Act.delay).sum = 0 := h
  have hr : ((retries client 1 n).map Act.delay).sum = _ := retries_sleepTotal client 0 n
  rw [List.count_append, retries_sends, hc, Nat.add_sub_cancel, sleepTotal, List.map_append,
    List.sum_append, hl, hr]
  ring

-- A connect or timeout error, or a response with a JSON object.
def Outcome.isPlain : Outcome → Bool
  | .error e                         => e.isCaught
  | .response ⟨_, .json ⟨.obj _, _⟩⟩ => true
  | _                                => false

-- The end of a call as the last outcome dictates it.
inductive Dictates : Outcome → Ending → Prop
  | rejected {status body detail} : 400 ≤ status → status < 500 →
    responseDetail body = some detail →
    Dictates (.response ⟨status, body⟩) (.rejected status detail)
  | returned {status payload} : status < 400 →
    Dictates (.response ⟨status, .json payload⟩) (.returned payload)

-- What a call with retries should do.
structure Retried (client : Client) (outcomes : ℕ → Outcome) (acts : List Act) (ending : Ending) :
    Prop where
  decided : ∀ k ≤ client.maxAttempts, Decisive outcomes k → acts.count .sends = k ∧
    Dictates (outcomes k) ending ∧ acts.count .recordsSuccess = 1 ∧ acts.count .recordsFailure = 0
  exhausted : (∀ k ≤ client.maxAttempts, ¬Decisive outcomes k) →
    acts.count .sends = client.maxAttempts ∧ (∃ message, ending = .unavailable message) ∧
    acts.count .recordsSuccess = 0 ∧ acts.count .recordsFailure = 1
  slept : sleepTotal acts = client.backoffSeconds * (2 ^ (acts.count .sends - 1) - 1)

theorem Decisive.unique {i j : ℕ} (hi : Decisive outcomes i) (hj : Decisive outcomes j) :
    i = j := by
  rcases lt_trichotomy i j with h | h | h
  case inl => simpa [hi.decides] using hj.first i hi.pos h
  case inr.inl => exact h
  case inr.inr => simpa [hj.decides] using hi.first j hj.pos h

-- An outcome of this kind is not the end of the loop with another exception.
theorem Client.Decides.dictates (h : Client.Decides outcome acts ending) (hp : outcome.isPlain) :
    acts = [.recordsSuccess] ∧ Dictates outcome ending := by
  cases h
  case rejected ho h₄ h₅ hd => exact ⟨rfl, ho ▸ .rejected h₄ h₅ hd⟩
  case returned ho hl       => exact ⟨rfl, ho ▸ .returned hl⟩
  case withoutJson ho _     => simp [ho, Outcome.isPlain] at hp
  case uncaught ho he       => simp [ho, Outcome.isPlain, he] at hp
  case withoutDetail status body ho h₄ h₅ hd =>
    subst ho
    unfold Outcome.isPlain at hp
    split at hp <;> simp_all [responseDetail]

theorem retries_append_counts (client : Client) (n : ℕ) (last : List Act) :
    (retries client 1 n ++ last).count .sends = n + last.count .sends ∧
    (retries client 1 n ++ last).count .recordsSuccess = last.count .recordsSuccess ∧
    (retries client 1 n ++ last).count .recordsFailure = last.count .recordsFailure := by
  have hs := retries_sends client 1 n
  have hr := List.count_eq_zero.mpr (retries_records (.inl rfl) client 1 n)
  have hf := List.count_eq_zero.mpr (retries_records (.inr rfl) client 1 n)
  simp only [List.count_append, hs, hr, hf, Nat.zero_add, and_self]

theorem Decisive.retried (hd : Decisive outcomes k) (hk : k ≤ client.maxAttempts)
    (he : Dictates (outcomes k) ending) :
    Retried client outcomes (retries client 1 (k - 1) ++ [.sends, .recordsSuccess]) ending := by
  have ⟨hs, hr, hf⟩ := retries_append_counts client (k - 1) [.sends, .recordsSuccess]
  constructor
  case decided =>
    intro j _ hj
    have hkj := hd.unique hj
    subst hkj
    have hc : k - 1 + 1 = k := Nat.sub_add_cancel hd.pos
    exact ⟨hs.trans hc, he, hr, hf⟩
  case exhausted => exact fun hn => absurd hd (hn k hk)
  case slept => exact sleepTotal_retries_append (by simp [sleepTotal, Act.delay]) rfl client _

theorem retried_of_failures {message : Text}
    (h : ∀ j, 1 ≤ j → j ≤ client.maxAttempts → (outcomes j).isFailure) :
    Retried client outcomes (retries client 1 (client.maxAttempts - 1) ++ [.sends, .recordsFailure])
      (.unavailable message) := by
  have ⟨hs, hr, hf⟩ :=
    retries_append_counts client (client.maxAttempts - 1) [.sends, .recordsFailure]
  constructor
  case decided =>
    intro k hk hd
    simpa [hd.decides] using h k hd.pos hk
  case exhausted =>
    have hc : client.maxAttempts - 1 + 1 = client.maxAttempts :=
      Nat.sub_add_cancel client.maxAttempts_pos
    exact fun _ => ⟨hs.trans hc, ⟨message, rfl⟩, hr, hf⟩
  case slept => exact sleepTotal_retries_append (by simp [sleepTotal, Act.delay]) rfl client _

-- A call whose delay overflows has made too few attempts, whether a later outcome would have
-- decided it or not.
theorem not_retried_of_failures (hlt : overflowAttempt < client.maxAttempts)
    (h : ∀ j, 1 ≤ j → j ≤ overflowAttempt → (outcomes j).isFailure) : ¬Retried client outcomes
      (retries client 1 (overflowAttempt - 1) ++ [.sends]) .escaped := by
  intro ht
  have hc : _ = overflowAttempt := (retries_append_counts client (overflowAttempt - 1) [.sends]).1
  by_cases hd : ∃ k ≤ client.maxAttempts, Decisive outcomes k
  case pos =>
    obtain ⟨k, hk, hd⟩ := hd
    have he := (ht.decided k hk hd).1
    simpa [hd.decides] using h k hd.pos (he.symm.trans hc).le
  case neg =>
    have he := (ht.exhausted fun k hk hd' => hd ⟨k, hk, hd'⟩).1
    exact absurd (he.symm.trans hc) hlt.ne'

-- A call whose delays stay floats does what it should, one that overflows does not.
theorem Client.Runs.retried_iff (h : client.Runs outcomes acts ending)
    (hp : ∀ j, (outcomes j).isPlain) : Retried client outcomes acts ending ↔
    client.maxAttempts ≤ overflowAttempt ∨ ∃ k ≤ overflowAttempt, Decisive outcomes k := by
  cases h
  case decided k last hk hd he =>
    obtain ⟨rfl, hdict⟩ := he.dictates (hp k)
    exact iff_of_true (hd.retried (hk.trans (min_le_left _ _)) hdict)
      (.inr ⟨k, hk.trans (min_le_right _ _), hd⟩)
  case exhausted hle hall =>
    have hreach : client.reach = client.maxAttempts := min_eq_left hle
    rw [hreach] at hall ⊢
    exact iff_of_true (retried_of_failures hall) (.inl hle)
  case overflown hlt hall =>
    have hreach : client.reach = overflowAttempt := min_eq_right hlt.le
    rw [hreach] at hall ⊢
    refine iff_of_false (not_retried_of_failures hlt hall) ?_
    rintro (hle | ⟨k, hk, hd⟩)
    case inl => exact absurd hle (Nat.not_le.mpr hlt)
    case inr => simpa [hd.decides] using hall k hd.pos hk

-- A call that the circuit lets in, with a client of any arguments.
theorem boundedRequest_retried_iff (rules : Url.Rules) (maxAttempts : ℤ) (backoffSeconds : ℚ)
    (circuitFailureThreshold : ℤ) (circuitResetSeconds : ℚ) (b : Breaker) (clock : ℚ)
    (outcomes : ℕ → Outcome) :
    let client := Client.ofArguments rules maxAttempts backoffSeconds circuitFailureThreshold
      circuitResetSeconds
    (∀ j, (outcomes j).isPlain) → b.allowsRequest client clock →
    (Retried client outcomes (client.boundedRequest b clock outcomes).1
        (client.boundedRequest b clock outcomes).2 ∧
      (client.loop outcomes 1 client.maxAttempts).2 ≠ none ↔
    client.maxAttempts ≤ 1025 ∨ ∃ k ≤ 1025, Decisive outcomes k) := by
  intro client hp hb
  obtain ⟨acts, ending, hq, hr⟩ := Client.boundedRequest_runs hb outcomes
  obtain ⟨_, _, hl, _⟩ := client.loop_runs outcomes
  rw [hq, hl]
  exact (and_iff_left (Option.some_ne_none _)).trans (hr.retried_iff hp)

-- Two server errors and then a success, of three attempts.
theorem boundedRequest_retried_third :
    let payload : Document := ⟨.obj [], Json.wf_obj.mpr (by simp)⟩
    let outcomes := fun k => Outcome.response ⟨if k = 3 then 201 else 503, .json payload⟩
    Retried .default outcomes (Client.default.boundedRequest .closed 0 outcomes).1
        (Client.default.boundedRequest .closed 0 outcomes).2 ∧
      (Client.default.loop outcomes 1 Client.default.maxAttempts).2 ≠ none := by
  intro payload outcomes
  exact (boundedRequest_retried_iff httpxRules 3 (1 / 10) 3 5 .closed 0 outcomes (fun _ => rfl)
    rfl).mpr (.inl (by decide))

-- Of 1026 attempts that time out the last one is never made.
theorem not_retried_overflow : ¬∀ maxAttempts backoffSeconds outcomes,
    (∀ j, (outcomes j).isPlain) →
    let client := Client.ofArguments httpxRules maxAttempts backoffSeconds 3 5
    Retried client outcomes (client.boundedRequest .closed 0 outcomes).1
      (client.boundedRequest .closed 0 outcomes).2 := by
  intro h
  let outcomes := fun _ : ℕ => Outcome.error .readTimeout
  let client := Client.ofArguments httpxRules 1026 (1 / 10) 3 5
  have hb : Breaker.closed.allowsRequest client 0 := rfl
  obtain ⟨acts, ending, hq, hr⟩ := Client.boundedRequest_runs hb outcomes
  have ht : Retried client outcomes (client.boundedRequest .closed 0 outcomes).1
      (client.boundedRequest .closed 0 outcomes).2 := h 1026 (1 / 10) outcomes fun _ => rfl
  rw [hq] at ht
  rcases (hr.retried_iff fun _ => rfl).mp ht with hle | ⟨k, _, hd⟩
  case inl => exact absurd hle (by decide)
  case inr => exact absurd hd.decides (by decide)

end Gateway
