import EventLedger.Gateway.Theorems.Counters

-- How a handler goes from its request to its answer.
namespace Gateway

-- A turn that makes an attempt, or ends its handler.
inductive Attempts (s : State) (id attempt : ℕ) : State → Option Sent → Prop
  | ends {s' reply} : s'.handlers = Function.update s.handlers id none →
    s'.answers = s.answers ++ [{ handler := id, reply }] → Attempts s id attempt s' none
  | calls {s' operation m} :
    s'.handlers = Function.update s.handlers id (some ⟨operation, attempt, .calling⟩) →
    s'.answers = s.answers → m.tag = ⟨id, attempt⟩ → Attempts s id attempt s' (some m)

-- A turn that ends an attempt: its handler waits for the next one, or ends.
inductive Rests (client : Client) (s : State) (id attempt : ℕ) : State → Prop
  | ends {s' reply} : s'.handlers = Function.update s.handlers id none →
    s'.answers = s.answers ++ [{ handler := id, reply }] → Rests client s id attempt s'
  | sleeps {s' operation delay} : attempt < client.maxAttempts →
    s'.handlers = Function.update s.handlers id (some ⟨operation, attempt, .sleeping delay⟩) →
    s'.answers = s.answers → Rests client s id attempt s'

-- What a step does to the handlers.
inductive Drives (client : Client) (s : State) : Action → State → Option Sent → Prop
  | begins {operation s' sent} : s'.begun = s.begun ++ [operation] →
    Attempts s s.begun.length 1 s' sent → Drives client s (.begin operation) s' sent
  | settles {id now outcome operation attempt s'} : s'.begun = s.begun →
    s.handlers id = some ⟨operation, attempt, .calling⟩ → Rests client s id attempt s' →
    Drives client s (.settle id now outcome) s' none
  | wakes {id operation attempt delay s' sent} : s'.begun = s.begun →
    s.handlers id = some ⟨operation, attempt, .sleeping delay⟩ →
    Attempts s id (attempt + 1) s' sent → Drives client s (.wake id) s' sent
  | waits {duration s'} : s'.begun = s.begun → s'.handlers = s.handlers →
    s'.answers = s.answers → Drives client s (.wait duration) s' none
  | restarts {s'} : s'.begun = s.begun → (s'.handlers = fun _ => none) →
    s'.answers = s.answers → Drives client s .restart s' none

variable {client : Client} {s s' : State} {id : ℕ} {operation : Operation} {attempt : ℕ}
variable {sent : Option Sent} {now : Civil} {outcome : Outcome} {a : Action}

namespace Attempts

theorem send (client : Client) (s : State) (id : ℕ) (operation : Operation) (attempt : ℕ) :
    Attempts s id attempt (s.send client id operation attempt).1
      (s.send client id operation attempt).2 := by
  unfold State.send
  split
  case h_1 => exact .ends rfl rfl
  case h_2 => exact .calls rfl rfl rfl

theorem call (client : Client) (s : State) (id : ℕ) (operation : Operation) :
    Attempts s id 1 (s.call client id operation).1 (s.call client id operation).2 := by
  unfold State.call
  split
  case isTrue  => exact send ..
  case isFalse => exact .ends rfl rfl

theorem submitEvent (client : Client) (s : State) (id : ℕ) (event : EventPayload) :
    Attempts s id 1 (s.submitEvent client id event).1 (s.submitEvent client id event).2 := by
  unfold State.submitEvent
  split
  case h_1 => exact .ends rfl rfl
  case h_2 => exact call ..
  case h_3 =>
    split
    case isTrue  => exact .ends rfl rfl
    case isFalse => exact .ends rfl rfl

-- A new handler is not yet among those that run.
theorem of_start (h : Attempts (s.start operation) id attempt s' sent) :
    Attempts s id attempt s' sent := by
  cases h
  case ends hh ha     => exact .ends hh ha
  case calls hh ha ht => exact .calls hh ha ht

theorem begin (client : Client) (s : State) (operation : Operation) :
    Attempts s s.begun.length 1 (s.begin client operation).1 (s.begin client operation).2 := by
  cases operation
  case applyTransaction => exact of_start (submitEvent ..)
  case getBalance       => exact of_start (call ..)
  case getAccount       => exact of_start (call ..)

end Attempts

namespace Rests

theorem inserted (client : Client) (s : State) (id attempt : ℕ) (events : Events)
    (result : Except InsertError (EventRecord × Bool)) :
    Rests client s id attempt (s.inserted id events result) := by
  unfold State.inserted
  split <;> exact .ends rfl rfl

theorem returned (client : Client) (s : State) (id attempt : ℕ) (now : Civil)
    (operation : Operation) (payload : Document) :
    Rests client s id attempt (s.returned id now operation payload) := by
  cases operation
  case applyTransaction => exact inserted ..
  case getBalance       => exact .ends rfl rfl
  case getAccount       => exact .ends rfl rfl

theorem of_breaker {breaker : Breaker} (h : Rests client { s with breaker } id attempt s') :
    Rests client s id attempt s' := by
  cases h
  case ends hh ha      => exact .ends hh ha
  case sleeps hl hh ha => exact .sleeps hl hh ha

theorem settle (h : s.settle client id now outcome = some s') : ∃ operation attempt,
    s.handlers id = some ⟨operation, attempt, .calling⟩ ∧ Rests client s id attempt s' := by
  obtain ⟨operation, attempt, verdict, breaker, hh, hj, rfl⟩ := State.settle_cases h
  refine ⟨operation, attempt, hh, ?_⟩
  cases hj
  case retry hl     => exact .sleeps hl rfl rfl
  case unavailable  => exact .ends rfl rfl
  case rejected     => cases operation <;> exact .ends rfl rfl
  case returned     => exact of_breaker (returned ..)
  case escaped      => exact .ends rfl rfl

end Rests

theorem State.step_drives (h : s.step client a = some (s', sent)) : Drives client s a s' sent := by
  have hm := (State.step_moves h).begun_cases
  cases a
  case begin operation =>
    have h := Option.some.inj h
    have ha := Attempts.begin client s operation
    have ⟨_, ht, _⟩ := Turn.begin client s operation
    rw [h] at ha ht
    exact .begins ht.begun ha
  case settle id now outcome =>
    have hb := hm.resolve_right nofun
    have ⟨_, hs, he⟩ := Option.map_eq_some_iff.mp h
    cases he
    have ⟨_, _, hh, hr⟩ := Rests.settle hs
    exact .settles hb hh hr
  case wake id =>
    have hb := hm.resolve_right nofun
    have ⟨operation, attempt, _, hh, he⟩ := State.wake_cases h
    have ha := Attempts.send client s id operation (attempt + 1)
    rw [← he] at ha
    exact .wakes hb hh ha
  case wait duration =>
    have ⟨u, hu, he⟩ := Option.map_eq_some_iff.mp h
    cases he
    simp only [State.wait, Option.ite_none_right_eq_some, Option.some.injEq] at hu
    cases hu.2
    exact .waits rfl rfl rfl
  case restart =>
    cases Option.some.inj h
    exact .restarts rfl rfl rfl

theorem machine_drives (h : (machine client).step s a = some s') :
    ∃ sent, Drives client s a s' sent := by
  have ⟨⟨u, sent⟩, hu, he⟩ := Option.map_eq_some_iff.mp h
  exact ⟨sent, he ▸ State.step_drives hu⟩

-- Nobody is answered twice, nor while a handler runs for him.
structure Serves (client : Client) (s : State) : Prop where
  running : ∀ id handler, s.handlers id = some handler →
    id < s.begun.length ∧ 1 ≤ handler.attempt ∧ handler.attempt ≤ client.maxAttempts
  sleeping : ∀ id operation attempt delay,
    s.handlers id = some ⟨operation, attempt, .sleeping delay⟩ → attempt < client.maxAttempts
  known : ∀ answer ∈ s.answers, answer.handler < s.begun.length
  once : (s.answers.map (·.handler)).Nodup
  exclusive : ∀ answer ∈ s.answers, s.handlers answer.handler = none

namespace Serves

theorem init : Serves client .init where
  running := nofun
  sleeping := nofun
  known := nofun
  once := .nil
  exclusive := nofun

theorem known_of_running (h : Serves client s) {handler : Handler}
    (hh : s.handlers id = some handler) : ∀ answer ∈ s.answers, answer.handler ≠ id := by
  intro answer ha he
  cases hh.symm.trans (he ▸ h.exclusive answer ha)

-- A handler that has no answer ends with its only one.
theorem ends (h : Serves client s) {reply : Reply} (hb : s.begun <+: s'.begun)
    (hi : id < s'.begun.length) (hn : ∀ answer ∈ s.answers, answer.handler ≠ id)
    (hh : s'.handlers = Function.update s.handlers id none)
    (ha : s'.answers = s.answers ++ [{ handler := id, reply }]) : Serves client s' where
  running j handler hj := by
    rw [hh] at hj
    by_cases he : j = id
    case pos => simp [he] at hj
    case neg =>
      have ⟨hl, hr⟩ := h.running j handler (by simpa [he] using hj)
      exact ⟨hl.trans_le hb.length_le, hr⟩
  sleeping j operation attempt delay hj := by
    rw [hh] at hj
    by_cases he : j = id
    case pos => simp [he] at hj
    case neg => exact h.sleeping j operation attempt delay (by simpa [he] using hj)
  known answer hm := by
    rw [ha, List.mem_append, List.mem_singleton] at hm
    cases hm
    case inl hm => exact (h.known answer hm).trans_le hb.length_le
    case inr hm => exact hm ▸ hi
  once := by
    rw [ha, List.map_append, List.nodup_append]
    refine ⟨h.once, by simp, fun j hj k hk => ?_⟩
    have ⟨answer, hm, he⟩ := List.mem_map.mp hj
    cases List.mem_singleton.mp hk
    exact he ▸ hn answer hm
  exclusive answer hm := by
    rw [ha, List.mem_append, List.mem_singleton] at hm
    rw [hh]
    cases hm
    case inl hm => simp [hn answer hm, h.exclusive answer hm]
    case inr hm => simp [hm]

-- A handler that has no answer goes on.
theorem goes (h : Serves client s) {handler : Handler} (hb : s.begun <+: s'.begun)
    (hi : id < s'.begun.length) (hn : ∀ answer ∈ s.answers, answer.handler ≠ id)
    (hh : s'.handlers = Function.update s.handlers id (some handler))
    (ha : s'.answers = s.answers) (h₁ : 1 ≤ handler.attempt)
    (hm : handler.attempt ≤ client.maxAttempts)
    (hs : ∀ delay, handler.phase = .sleeping delay → handler.attempt < client.maxAttempts) :
    Serves client s' where
  running j handler' hj := by
    rw [hh] at hj
    by_cases he : j = id
    case pos =>
      simp only [he, Function.update_self, Option.some.injEq] at hj
      exact he ▸ hj ▸ ⟨hi, h₁, hm⟩
    case neg =>
      have ⟨hl, hr⟩ := h.running j handler' (by simpa [he] using hj)
      exact ⟨hl.trans_le hb.length_le, hr⟩
  sleeping j operation attempt delay hj := by
    rw [hh] at hj
    by_cases he : j = id
    case pos =>
      simp only [he, Function.update_self, Option.some.injEq] at hj
      subst hj
      exact hs delay rfl
    case neg => exact h.sleeping j operation attempt delay (by simpa [he] using hj)
  known answer hm := (h.known answer (ha ▸ hm)).trans_le hb.length_le
  once := ha ▸ h.once
  exclusive answer hm := by
    have hm : answer ∈ s.answers := ha ▸ hm
    rw [hh]
    simp [hn answer hm, h.exclusive answer hm]

theorem attempts (h : Serves client s) (hb : s.begun <+: s'.begun) (hi : id < s'.begun.length)
    (hn : ∀ answer ∈ s.answers, answer.handler ≠ id) (h₁ : 1 ≤ attempt)
    (hm : attempt ≤ client.maxAttempts) (ha : Attempts s id attempt s' sent) :
    Serves client s' := by
  cases ha
  case ends hh ha     => exact h.ends hb hi hn hh ha
  case calls hh ha _  => exact h.goes hb hi hn hh ha h₁ hm nofun

theorem drives (h : Serves client s) (hd : Drives client s a s' sent) : Serves client s' := by
  cases hd
  case begins hb ha =>
    refine h.attempts ⟨_, hb.symm⟩ (by simp [hb]) (fun answer hm => ?_) le_rfl
      client.maxAttempts_pos ha
    exact (h.known answer hm).ne
  case settles hh hb hr =>
    have ⟨hl, h₁, hm⟩ := h.running _ _ hh
    have hn := h.known_of_running hh
    have hp : s.begun <+: s'.begun := hb ▸ List.prefix_refl _
    cases hr
    case ends hh ha       => exact h.ends hp (hb ▸ hl) hn hh ha
    case sleeps hlt hh ha => exact h.goes hp (hb ▸ hl) hn hh ha h₁ hm fun _ _ => hlt
  case wakes hh hb ha =>
    have hs := h.sleeping _ _ _ _ hh
    exact h.attempts (hb ▸ List.prefix_refl _) (hb ▸ (h.running _ _ hh).1) (h.known_of_running hh)
      (by omega) hs ha
  case waits hb hh ha =>
    exact ⟨hb ▸ hh ▸ h.running, hh ▸ h.sleeping, hb ▸ ha ▸ h.known, ha ▸ h.once,
      hh ▸ ha ▸ h.exclusive⟩
  case restarts hb hh ha =>
    exact ⟨hh ▸ nofun, hh ▸ nofun, hb ▸ ha ▸ h.known, ha ▸ h.once, hh ▸ fun _ _ => rfl⟩

theorem step (h : Serves client s) (hs : (machine client).step s a = some s') :
    Serves client s' :=
  have ⟨_, hd⟩ := machine_drives hs
  h.drives hd

theorem of_reachable (h : (machine client).Reachable s) : Serves client s :=
  h.invariant init fun _ _ _ hi hs => hi.step hs

theorem countP_le (h : Serves client s) (id : ℕ) :
    s.answers.countP (·.handler = id) ≤ if (s.handlers id).isSome then 0 else 1 := by
  split
  case isTrue hh =>
    have ⟨handler, hh⟩ := Option.isSome_iff_exists.mp hh
    rw [Nat.le_zero, List.countP_eq_zero]
    exact fun answer ha => by simpa using h.known_of_running hh answer ha
  case isFalse =>
    have hc := List.nodup_iff_count_le_one.mp h.once id
    rw [List.count, List.countP_map] at hc
    exact (List.countP_congr fun answer _ => by simp).trans_le hc

end Serves

-- The attempts of a handler come in the order of their numbers.
structure Advances (s s' : State) (sent : Option Sent) : Prop where
  onward : ∀ id < s.begun.length, ∀ handler', s'.handlers id = some handler' →
    ∃ handler, s.handlers id = some handler ∧ handler.attempt ≤ handler'.attempt
  latest : ∀ m, sent = some m →
    ∃ operation, s'.handlers m.tag.handler = some ⟨operation, m.tag.attempt, .calling⟩
  next : ∀ m, sent = some m → m.tag.handler < s.begun.length →
    ∃ handler, s.handlers m.tag.handler = some handler ∧ handler.attempt < m.tag.attempt

theorem Advances.of_update {x : Option Handler} (hh : s'.handlers = Function.update s.handlers id x)
    (hx : id < s.begun.length → ∀ handler', x = some handler' →
      ∃ handler, s.handlers id = some handler ∧ handler.attempt ≤ handler'.attempt) :
    Advances s s' none where
  onward j hj handler' hj' := by
    rw [hh] at hj'
    by_cases he : j = id
    case pos =>
      subst he
      exact hx hj handler' (by simpa using hj')
    case neg => exact ⟨handler', by simpa [he] using hj', le_rfl⟩
  latest := nofun
  next := nofun

theorem Attempts.advances (h : Attempts s id attempt s' sent)
    (hn : id < s.begun.length →
      ∃ handler, s.handlers id = some handler ∧ handler.attempt < attempt) :
    Advances s s' sent := by
  cases h
  case ends hh _     => exact .of_update hh nofun
  case calls operation m hh _ ht =>
    refine ⟨(Advances.of_update hh fun hi handler' he => ?_).onward, fun _ he => ?_,
      fun _ he hi => ?_⟩
    case refine_1 =>
      have ⟨handler, hs, hl⟩ := hn hi
      exact ⟨handler, hs, Option.some.inj he ▸ hl.le⟩
    case refine_2 =>
      cases Option.some.inj he
      exact ⟨operation, by simp [hh, ht]⟩
    case refine_3 =>
      cases Option.some.inj he
      rw [ht] at hi ⊢
      exact hn hi

theorem Drives.begun (h : Drives client s a s' sent) : s.begun <+: s'.begun := by
  cases h
  case begins hb _   => exact ⟨_, hb.symm⟩
  case settles hb _  => exact hb ▸ List.prefix_refl _
  case wakes hb _    => exact hb ▸ List.prefix_refl _
  case waits hb _ _  => exact hb ▸ List.prefix_refl _
  case restarts hb _ _ => exact hb ▸ List.prefix_refl _

theorem Drives.advances (h : Drives client s a s' sent) : Advances s s' sent := by
  cases h
  case begins hb ha => exact ha.advances fun hi => absurd hi (lt_irrefl _)
  case settles hh hb hr =>
    cases hr
    case ends hh' _   => exact .of_update hh' nofun
    case sleeps hh' _ => exact .of_update hh' fun _ _ he => ⟨_, hh, Option.some.inj he ▸ le_rfl⟩
  case wakes hh hb ha => exact ha.advances fun _ => ⟨_, hh, Nat.lt_succ_self _⟩
  case waits hb hh _  =>
    exact ⟨fun _ _ handler' hs => ⟨handler', hh ▸ hs, le_rfl⟩, nofun, nofun⟩
  case restarts hb hh _ => exact ⟨fun _ _ _ hs => (nomatch hh ▸ hs), nofun, nofun⟩

-- A request whose handler runs or has answered.
def State.Attends (s : State) (id : ℕ) : Prop :=
  (s.handlers id).isSome ∨ ∃ answer ∈ s.answers, answer.handler = id

theorem State.Attends.update {x : Option Handler} {j : ℕ} (h : j ≠ id → s.Attends j)
    (hh : s'.handlers = Function.update s.handlers id x) (ha : s.answers ⊆ s'.answers)
    (hx : x.isSome ∨ ∃ answer ∈ s'.answers, answer.handler = id) : s'.Attends j := by
  by_cases he : j = id
  case pos =>
    subst he
    exact hx.imp_left fun hx => by simpa [hh] using hx
  case neg =>
    refine (h he).imp (fun hs => by simpa [hh, he] using hs) ?_
    exact fun ⟨answer, hm, hi⟩ => ⟨answer, ha hm, hi⟩

theorem Attempts.attends {j : ℕ} (h : Attempts s id attempt s' sent) (hj : j ≠ id → s.Attends j) :
    s'.Attends j := by
  cases h
  case ends hh ha    => exact .update hj hh (by simp [ha]) (.inr (by simp [ha]))
  case calls hh ha _ => exact .update hj hh (by simp [ha]) (.inl rfl)

-- Only a restart forgets a handler.
theorem Drives.attends (h : Drives client s a s' sent) (hr : a ≠ .restart)
    (hs : ∀ id < s.begun.length, s.Attends id) : ∀ id < s'.begun.length, s'.Attends id := by
  intro j hj
  cases h
  case begins hb ha =>
    refine ha.attends fun hn => hs j ?_
    rw [hb, List.length_append, List.length_singleton] at hj
    omega
  case settles hh hb hr =>
    have hj := hs j (hb ▸ hj)
    cases hr
    case ends hh ha     => exact .update (fun _ => hj) hh (by simp [ha]) (.inr (by simp [ha]))
    case sleeps hh ha   => exact .update (fun _ => hj) hh (by simp [ha]) (.inl rfl)
  case wakes hh hb ha   => exact ha.attends fun _ => hs j (hb ▸ hj)
  case waits hb hh ha   =>
    have hj := hs j (hb ▸ hj)
    rw [State.Attends, hh, ha]
    exact hj
  case restarts         => exact absurd rfl hr

theorem attends_of_run {as : List Action} (h : (machine client).run as = some s)
    (hr : .restart ∉ as) : ∀ id < s.begun.length, s.Attends id := by
  refine Machine.runFrom_invariant_of_meets (m := machine client)
    (I := fun s : State => ∀ id < s.begun.length, s.Attends id) ?_
    (fun _ hi => absurd hi (Nat.not_lt_zero _))
    (Machine.meets_of_mem (C := (· ≠ .restart)) fun a ha he => hr (he ▸ ha)) h
  intro s a s' hs hc hstep
  have ⟨_, hd⟩ := machine_drives hstep
  exact hd.attends hc hs

-- Every request is answered at most once, and not while its handler runs; without a restart of the
-- process it is answered exactly once when its handler no longer runs.
theorem answered_once {as : List Action} (h : (machine client).run as = some s) (id : ℕ) :
    (s.answers.countP (·.handler = id) ≤ if (s.handlers id).isSome then 0 else 1) ∧
    (.restart ∉ as → id < s.begun.length →
      s.answers.countP (·.handler = id) = if (s.handlers id).isSome then 0 else 1) := by
  have hs := Serves.of_reachable ⟨as, h⟩
  refine ⟨hs.countP_le id, fun hr hi => le_antisymm (hs.countP_le id) ?_⟩
  split
  case isTrue  => exact Nat.zero_le _
  case isFalse hn =>
    have ⟨answer, hm, he⟩ := (attends_of_run h hr id hi).resolve_left hn
    exact List.countP_pos_iff.mpr ⟨answer, hm, by simpa using he⟩

-- A submission whose first attempt has timed out and whose second one has been accepted.
def retriedRun : List Action :=
  [
    .begin (.applyTransaction .sample),
    .settle 0 EventPayload.sample.eventTimestamp (.error .readTimeout),
    .wake 0,
    .settle 0 EventPayload.sample.eventTimestamp
      (.response { status := 201, body := .json EventPayload.sample.body })
  ]

theorem retriedRun_isSome : ((machine .default).run retriedRun).isSome := by
  decide +kernel

theorem answered_once_retried : ∃ s, (machine .default).run retriedRun = some s ∧
    (s.answers.countP (·.handler = 0) ≤ if (s.handlers 0).isSome then 0 else 1) ∧
    (.restart ∉ retriedRun → 0 < s.begun.length →
      s.answers.countP (·.handler = 0) = if (s.handlers 0).isSome then 0 else 1) := by
  have ⟨s, hs⟩ := Option.isSome_iff_exists.mp retriedRun_isSome
  exact ⟨s, hs, answered_once hs 0⟩

-- The turns that a handler can still take.
def Handler.remaining (client : Client) (handler : Handler) : ℕ :=
  match handler.phase with
  | .calling    => 2 * (client.maxAttempts - handler.attempt) + 1
  | .sleeping _ => 2 * (client.maxAttempts - handler.attempt)

def State.remaining (client : Client) (s : State) (id : ℕ) : ℕ :=
  if id < s.begun.length then ((s.handlers id).map (·.remaining client)).getD 0
  else 2 * client.maxAttempts - 1

def Action.isTurnOf (id : ℕ) : Action → Bool
  | .settle j _ _ => j = id
  | .wake j       => j = id
  | _             => false

theorem Serves.remaining_pos (h : Serves client s) (hh : (s.handlers id).isSome) :
    0 < s.remaining client id := by
  have ⟨⟨operation, attempt, phase⟩, hh⟩ := Option.isSome_iff_exists.mp hh
  rw [State.remaining, if_pos (h.running id _ hh).1, hh]
  cases phase
  case calling  => exact Nat.succ_pos _
  case sleeping =>
    have := h.sleeping id _ _ _ hh
    simp only [Handler.remaining, Option.map_some, Option.getD_some]
    omega

theorem remaining_update {x : Option Handler} {j : ℕ} (hb : s'.begun = s.begun)
    (hh : s'.handlers = Function.update s.handlers id x) (hi : id < s.begun.length) :
    s'.remaining client j = if j = id then (x.map (·.remaining client)).getD 0
      else s.remaining client j := by
  split
  case isTrue he  => simp [State.remaining, hb, hh, he, hi]
  case isFalse he => simp [State.remaining, hb, hh, he]

theorem remaining_turn (client : Client) {j : ℕ} (hb : s'.begun = s.begun) (hi : j < s.begun.length)
    (h : ∃ x : Option Handler, s'.handlers = Function.update s.handlers j x ∧
      (x.map (·.remaining client)).getD 0 + 1 ≤ s.remaining client j) (id : ℕ) :
    s'.remaining client id + (if j = id then 1 else 0) ≤ s.remaining client id := by
  have ⟨x, hh, hx⟩ := h
  rw [remaining_update hb hh hi]
  split
  case isTrue he  => simpa [he] using hx
  case isFalse he => simp [Ne.symm he]

-- Every turn of a handler uses up one of those that it can take.
theorem Serves.remaining_drives (h : Serves client s) (hd : Drives client s a s' sent) (id : ℕ) :
    s'.remaining client id + (if a.isTurnOf id then 1 else 0) ≤ s.remaining client id := by
  cases hd
  case begins hb ha =>
    have hl : s'.begun.length = s.begun.length + 1 := by simp [hb]
    have hx : ∃ x : Option Handler, s'.handlers = Function.update s.handlers s.begun.length x ∧
        (x.map (·.remaining client)).getD 0 ≤ 2 * client.maxAttempts - 1 := by
      cases ha
      case ends hh _  => exact ⟨_, hh, Nat.zero_le _⟩
      case calls hh _ _ =>
        refine ⟨_, hh, ?_⟩
        have := client.maxAttempts_pos
        simp only [Handler.remaining, Option.map_some, Option.getD_some]
        omega
    have ⟨x, hh, hx⟩ := hx
    simp only [Action.isTurnOf, State.remaining, hh, hl, Bool.false_eq_true, if_false, Nat.add_zero]
    rcases Nat.lt_trichotomy id s.begun.length with hi | hi | hi
    case inl     => simp [hi, hi.ne, Nat.lt_succ_of_lt hi]
    case inr.inl => simpa [hi] using hx
    case inr.inr =>
      have hn : ¬id < s.begun.length + 1 := by omega
      simp [hn, hi.not_gt]
  case settles j _ _ operation attempt hh hb hr =>
    have hi := (h.running j _ hh).1
    have hrem : s.remaining client j = 2 * (client.maxAttempts - attempt) + 1 := by
      simp [State.remaining, hi, hh, Handler.remaining]
    have hr := remaining_turn client hb hi (by
      cases hr
      case ends hh _   => exact ⟨_, hh, by simp [hrem]⟩
      case sleeps hh _ => exact ⟨_, hh, by simp [hrem, Handler.remaining]⟩) id
    simpa [Action.isTurnOf] using hr
  case wakes j operation attempt delay hh hb ha =>
    have hi := (h.running j _ hh).1
    have hlt := h.sleeping j _ _ _ hh
    have hrem : s.remaining client j = 2 * (client.maxAttempts - attempt) := by
      simp [State.remaining, hi, hh, Handler.remaining]
    have hr := remaining_turn client hb hi (by
      cases ha
      case ends hh _ =>
        refine ⟨_, hh, ?_⟩
        simp only [hrem, Option.map_none, Option.getD_none]
        omega
      case calls hh _ _ =>
        refine ⟨_, hh, ?_⟩
        simp only [hrem, Handler.remaining, Option.map_some, Option.getD_some]
        omega) id
    simpa [Action.isTurnOf] using hr
  case waits hb hh _ => simp [State.remaining, Action.isTurnOf, hb, hh]
  case restarts hb hh _ =>
    simp only [State.remaining, Action.isTurnOf, hb, hh]
    split <;> simp

theorem turns_remaining {as : List Action} (h : (machine client).run as = some s) (id : ℕ) :
    as.countP (·.isTurnOf id) + s.remaining client id ≤ 2 * client.maxAttempts - 1 :=
  Machine.countP_le_of_potential (m := machine client) (I := Serves client)
    (Φ := (·.remaining client id)) (fun _ _ _ hi hs => hi.step hs)
    (fun _ _ _ hi hs => have ⟨_, hd⟩ := machine_drives hs; hi.remaining_drives hd id) .init h

theorem takes_turn (hh : (s.handlers id).isSome) (now : Civil) (outcome : Outcome) :
    ((machine client).step s (.settle id now outcome)).isSome ∨
      ((machine client).step s (.wake id)).isSome := by
  have ⟨⟨operation, attempt, phase⟩, hh⟩ := Option.isSome_iff_exists.mp hh
  cases phase
  case calling  => exact .inl (by simp [machine, State.step, State.settle_eq hh])
  case sleeping => exact .inr (by simp [machine, State.step, State.wake, hh])

-- A handler that runs can take a turn, however its attempt ends, and after a bounded number of them
-- it does not run any more.
theorem turns_bounded {as : List Action} (h : (machine client).run as = some s) (id : ℕ) :
    as.countP (·.isTurnOf id) + (if (s.handlers id).isSome then 1 else 0) ≤
      2 * client.maxAttempts - 1 ∧
    ((s.handlers id).isSome → ∀ now outcome,
      ((machine client).step s (.settle id now outcome)).isSome ∨
        ((machine client).step s (.wake id)).isSome) := by
  refine ⟨?_, fun hh now outcome => takes_turn hh now outcome⟩
  have ht := turns_remaining h id
  split
  case isTrue hh =>
    have := (Serves.of_reachable ⟨as, h⟩).remaining_pos hh
    omega
  case isFalse => omega

-- After the timeout the submission is asleep: it has taken one turn, and can take its next one.
theorem turns_bounded_retried : ∃ s, (machine .default).run (retriedRun.take 2) = some s ∧
    (s.handlers 0).isSome ∧
    (retriedRun.take 2).countP (·.isTurnOf 0) + 1 ≤ 5 ∧
    ∀ now outcome,
      ((machine .default).step s (.settle 0 now outcome)).isSome ∨
        ((machine .default).step s (.wake 0)).isSome := by
  have hs : ((machine .default).run (retriedRun.take 2)).any fun s => (s.handlers 0).isSome := by
    decide +kernel
  have ⟨s, hs, hh⟩ := Option.any_eq_true _ _ |>.mp hs
  have ⟨hbound, hnext⟩ := turns_bounded hs 0
  rw [if_pos hh] at hbound
  exact ⟨s, hs, hh, hbound, hnext hh⟩

end Gateway
