import EventLedger.Gateway.Theorems.Serving

-- What becomes of the attempts of a call.
namespace Gateway

variable {client : Client} {s s' : State} {a : Action} {id attempt : ℕ} {operation : Operation}
variable {now : Civil} {outcome : Outcome} {sent : Option Sent} {m : Sent} {tag : Tag}
variable {failed : List Tag}

namespace State

theorem inserted_handlers (s : State) (id : ℕ) (u : Events)
    (result : Except InsertError (EventRecord × Bool)) :
    (s.inserted id u result).handlers = Function.update s.handlers id none := by
  unfold inserted
  split <;> rfl

-- A handler goes on only with another attempt.
theorem resume_ends {verdict : Verdict} (h : ∀ delay, verdict ≠ .retry delay) (s : State) (id : ℕ)
    (now : Civil) (operation : Operation) (attempt : ℕ) :
    (s.resume id now operation attempt verdict).handlers = Function.update s.handlers id none := by
  cases verdict
  case retry delay => exact absurd rfl (h delay)
  case unavailable => rfl
  case rejected    => cases operation <;> rfl
  case escaped     => rfl
  case returned payload =>
    cases operation
    case applyTransaction => exact inserted_handlers ..
    case getBalance       => rfl
    case getAccount       => rfl

theorem settle_ends (hh : s.handlers id = some ⟨operation, attempt, .calling⟩)
    (hf : outcome.isFailure = false) (hs : s.settle client id now outcome = some s') :
    s'.handlers = Function.update s.handlers id none := by
  have hj := client.settle_judges s.clock attempt s.breaker outcome
  rw [settle_eq hh, Option.some_inj] at hs
  rw [← hs, resume_ends]
  intro delay he
  rw [he] at hj
  cases hj
  case retry hfail _ => simp [hf] at hfail

-- The attempt that a step ends in failure.
def failing (s : State) : Action → Option Tag
  | .settle id _ outcome =>
    match s.handlers id with
    | some ⟨_, attempt, .calling⟩ => if outcome.isFailure then some ⟨id, attempt⟩ else none
    | _                           => none
  | _ => none

end State

-- Where an answer 503 comes from: an open circuit, or a handler that gives up.
theorem unavailable_cases (h : s.step client a = some (s', sent)) {answer : Answer}
    (ha : answer ∈ s'.answers) (hs : answer.reply.status = 503) :
    answer ∈ s.answers ∨ answer.handler = s.begun.length ∨
    ∃ now outcome operation attempt, a = .settle answer.handler now outcome ∧
      s.handlers answer.handler = some ⟨operation, attempt, .calling⟩ ∧ outcome.isFailure ∧
      client.maxAttempts ≤ attempt := by
  have hnew : ∀ {id reply}, s'.answers = s.answers ++ [⟨id, reply⟩] → reply.status ≠ 503 →
      answer ∈ s.answers := by
    intro id reply he hr
    rw [he, List.mem_append, List.mem_singleton] at ha
    refine ha.resolve_right fun he => hr ?_
    subst he
    exact hs
  cases a
  case begin operation =>
    have h := Option.some.inj h
    obtain ⟨reply, ht, _⟩ := Turn.begin client s operation
    rw [h] at ht
    rw [ht.answers, List.mem_append, List.mem_map] at ha
    rcases ha with ha | ⟨_, _, he⟩
    case inl => exact .inl ha
    case inr => exact .inr (.inl (he ▸ rfl))
  case settle id now outcome =>
    obtain ⟨u, hu, he⟩ := Option.map_eq_some_iff.mp h
    cases he
    obtain ⟨operation, attempt, _, hh, _, _⟩ := Turn.settle hu
    by_cases hf : outcome.isFailure ∧ client.maxAttempts ≤ attempt
    case pos =>
      rw [State.settle_unavailable hh hf hu, List.mem_append, List.mem_singleton] at ha
      rcases ha with ha | ha
      case inl => exact .inl ha
      case inr =>
        subst ha
        exact .inr (.inr ⟨now, outcome, operation, attempt, rfl, hh, hf.1, hf.2⟩)
    case neg =>
      rcases State.settle_available hh hf hu with he | ⟨reply, he, hr⟩
      case inl => exact .inl (he ▸ ha)
      case inr => exact .inl (hnew he hr)
  case wake id =>
    rcases State.wake_answers h with he | ⟨reply, he, hr⟩
    case inl => exact .inl (he ▸ ha)
    case inr => exact .inl (hnew he hr)
  case wait duration =>
    obtain ⟨u, hu, he⟩ := Option.map_eq_some_iff.mp h
    cases he
    simp only [State.wait, Option.ite_none_right_eq_some, Option.some.injEq] at hu
    cases hu.2
    exact .inl ha
  case restart =>
    cases Option.some.inj h
    exact .inl ha

-- A handler has not been answered 503.
def State.Spares (s : State) (id : ℕ) : Prop :=
  ∀ answer ∈ s.answers, answer.handler = id → answer.reply.status ≠ 503

-- An attempt is awaited, or has failed, or its handler has ended without an answer 503.
inductive Fate (s : State) (failed : List Tag) (tag : Tag) : Prop
  | awaited {operation : Operation} :
    s.handlers tag.handler = some ⟨operation, tag.attempt, .calling⟩ → Fate s failed tag
  | failed : tag ∈ failed → Fate s failed tag
  | gone : s.handlers tag.handler = none → s.Spares tag.handler → Fate s failed tag

theorem State.Spares.step (h : s.Spares id) (hs : s.step client a = some (s', sent))
    (hi : id < s.begun.length)
    (hn : ∀ now outcome attempt operation, a = .settle id now outcome →
      s.handlers id = some ⟨operation, attempt, .calling⟩ → outcome.isFailure = false) :
    s'.Spares id := by
  rintro answer ha rfl h503
  rcases unavailable_cases hs ha h503 with hm | hb |
    ⟨now, outcome, operation, attempt, he, hh, hf, _⟩
  case inl     => exact h answer hm rfl h503
  case inr.inl => omega
  case inr.inr => simp [hn now outcome attempt operation he hh] at hf

-- A handler awaits its attempt until the attempt ends, or the Gateway is restarted.
theorem awaits_step (hh : s.handlers id = some ⟨operation, attempt, .calling⟩)
    (hi : id < s.begun.length) (hs : s.step client a = some (s', sent)) :
    s'.handlers id = s.handlers id ∨ (∃ now outcome, a = .settle id now outcome) ∨
      a = .restart := by
  cases a
  case settle other now outcome =>
    obtain ⟨u, hu, he⟩ := Option.map_eq_some_iff.mp hs
    cases he
    obtain ⟨_, _, _, _, ht, _⟩ := Turn.settle hu
    by_cases hid : id = other
    case pos => exact .inr (.inl ⟨now, outcome, by rw [hid]⟩)
    case neg => exact .inl (ht.others id hid)
  case begin operation' =>
    obtain ⟨_, ht, _⟩ := Turn.begin client s operation'
    have he := Option.some.inj hs
    rw [he] at ht
    exact .inl (ht.others id hi.ne)
  case wake other =>
    obtain ⟨_, _, _, _, hh', ht, _⟩ := Turn.wake hs
    have hid : id ≠ other := by
      rintro rfl
      cases hh.symm.trans hh'
    exact .inl (ht.others id hid)
  case wait duration =>
    obtain ⟨u, hu, he⟩ := Option.map_eq_some_iff.mp hs
    cases he
    simp only [State.wait, Option.ite_none_right_eq_some, Option.some.injEq] at hu
    cases hu.2
    exact .inl rfl
  case restart => exact .inr (.inr rfl)

-- One step decides the fate of an attempt.
theorem Fate.step (h : Fate s failed tag) (hserves : Serves client s)
    (hi : tag.handler < s.begun.length) (hs : s.step client a = some (s', sent)) :
    Fate s' (failed ++ (s.failing a).toList) tag := by
  cases h
  case failed hm => exact .failed (List.mem_append_left _ hm)
  case gone hn hspares =>
    refine .gone ?_ (hspares.step hs hi fun _ _ _ _ _ hh => by cases hn.symm.trans hh)
    cases hh : s'.handlers tag.handler
    case none => rfl
    case some =>
      obtain ⟨_, hh, _⟩ := (State.step_drives hs).advances.onward tag.handler hi _ hh
      cases hn.symm.trans hh
  case awaited operation hh =>
    have hspares : s.Spares tag.handler := fun answer ha he =>
      absurd he (hserves.known_of_running hh answer ha)
    rcases awaits_step hh hi hs with hsame | ⟨now, outcome, rfl⟩ | rfl
    case inl => exact .awaited (hsame.trans hh)
    case inr.inl =>
      obtain ⟨u, hu, he⟩ := Option.map_eq_some_iff.mp hs
      cases he
      cases hf : outcome.isFailure
      case true  =>
        refine .failed (List.mem_append_right _ ?_)
        simp [State.failing, hh, hf]
      case false =>
        refine .gone (by simp [State.settle_ends hh hf hu]) (hspares.step hs hi ?_)
        intro _ _ _ _ he _
        cases he
        exact hf
    case inr.inr =>
      refine .gone ?_ (hspares.step hs hi fun _ _ _ _ he => by cases he)
      cases hs
      rfl

theorem Fate.of_sent (hs : s.step client a = some (s', some m)) : Fate s' failed m.tag :=
  have ⟨_, hh⟩ := (State.step_drives hs).advances.latest m rfl
  .awaited hh

end Gateway
