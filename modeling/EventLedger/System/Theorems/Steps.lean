import EventLedger.Gateway.Theorems.Acceptance
import EventLedger.System.State

namespace System

open Http

open Gateway (Client Operation Sent)
open Account (TransactionRow)

-- What an action is to the Gateway.
def State.gatewayAction (s : State) : Action → Option Gateway.Action
  | .begin operation => some (.begin operation)
  | .receive i now   =>
    s.replies[i]?.map fun reply => .settle reply.tag.handler now (.response reply.response)
  | .fail id now e   => some (.settle id now (.error e))
  | .wake id         => some (.wake id)
  | .wait duration   => some (.wait duration)
  | .restartGateway  => some .restart
  | _                => none

-- The state after the Account Service has handled a request that was under way.
def State.delivered (s : State) (i : ℕ) (order : RowOrder TransactionRow) (now : Civil)
    (sent : Sent) : State :=
  { s with
    account := (s.account.handle order now sent.request).2
    requests := s.requests.eraseIdx i
    replies := s.replies ++
      [{ tag := sent.tag, response := (s.account.handle order now sent.request).1 }]
    deliveries := s.deliveries ++ [{
      sent, order, now
      inserted := (s.account.handle order now sent.request).2.transactions.rows.length ≠
        s.account.transactions.rows.length
    }] }

-- A step of the Gateway, which leaves the Account Service alone.
structure Turns (client : Client) (s : State) (b : Gateway.Action) (sent : Option Sent)
    (s' : State) : Prop where
  step : s.gateway.step client b = some (s'.gateway, sent)
  account : s'.account = s.account
  requests : s'.requests = s.requests ++ sent.toList
  replies : s'.replies ⊆ s.replies
  deliveries : s'.deliveries = s.deliveries

-- Messages are lost, or the Account Service stops and starts again.
structure Idles (s s' : State) : Prop where
  gateway : s'.gateway = s.gateway
  transactions : s'.account.transactions = s.account.transactions
  requests : s'.requests ⊆ s.requests
  replies : s'.replies ⊆ s.replies
  deliveries : s'.deliveries = s.deliveries

-- All that a step can do.
inductive Moves (client : Client) (s : State) : Action → State → Prop
  | turn {a b sent s'} : s.gatewayAction a = some b → Turns client s b sent s' →
    Moves client s a s'
  | deliver {i order now sent} : s.requests[i]? = some sent →
    Moves client s (.deliver i order now) (s.delivered i order now sent)
  | idle {a s'} : s.gatewayAction a = none → Idles s s' → Moves client s a s'

variable {client : Client} {s s' : State} {a : Action} {b : Gateway.Action} {sent : Option Sent}

theorem Turns.of_gatewayStep {r : Gateway.State × Option Sent}
    (h : s.gateway.step client b = some r) : Turns client s b r.2 (s.gatewayStep r) where
  step := h
  account := rfl
  requests := rfl
  replies := List.Subset.refl _
  deliveries := rfl

theorem Moves.of_gatewayStep (ha : s.gatewayAction a = some b)
    (h : (s.gateway.step client b).map s.gatewayStep = some s') : Moves client s a s' := by
  obtain ⟨r, hr, he⟩ := Option.map_eq_some_iff.mp h
  subst he
  exact .turn ha (.of_gatewayStep hr)

theorem State.step_moves (h : (machine client).step s a = some s') : Moves client s a s' := by
  cases a
  case begin          => exact .of_gatewayStep rfl h
  case fail           => exact .of_gatewayStep rfl h
  case wake           => exact .of_gatewayStep rfl h
  case wait           => exact .of_gatewayStep rfl h
  case restartGateway => exact .of_gatewayStep rfl h
  case deliver i order now =>
    obtain ⟨sent, hs, he⟩ := Option.map_eq_some_iff.mp h
    subst he
    exact .deliver hs
  case receive i now =>
    obtain ⟨reply, hr, h⟩ := Option.bind_eq_some_iff.mp h
    split at h
    case isFalse => cases h
    case isTrue =>
      obtain ⟨gateway, hg, he⟩ := Option.map_eq_some_iff.mp h
      subst he
      refine .turn (congrArg (Option.map _) hr) (?_ : Turns client s _ none _)
      exact {
        step := congrArg (Option.map _) hg
        account := rfl
        requests := (List.append_nil _).symm
        replies := List.eraseIdx_subset
        deliveries := rfl
      }
  case loseRequest i =>
    have h := Option.some.inj h
    exact h ▸ .idle rfl ⟨rfl, rfl, List.eraseIdx_subset, List.Subset.refl _, rfl⟩
  case loseReply i =>
    have h := Option.some.inj h
    exact h ▸ .idle rfl ⟨rfl, rfl, List.Subset.refl _, List.eraseIdx_subset, rfl⟩
  case restartAccount =>
    have h := Option.some.inj h
    exact h ▸ .idle rfl ⟨rfl, rfl, List.Subset.refl _, List.Subset.refl _, rfl⟩

theorem begun_cases (hs : (machine client).step s a = some s') :
    s'.gateway.begun = s.gateway.begun ∨
    ∃ operation, a = .begin operation ∧ s'.gateway.begun = s.gateway.begun ++ [operation] := by
  cases State.step_moves hs
  case deliver    => exact .inl rfl
  case idle hi    => exact .inl (hi.gateway ▸ rfl)
  case turn ha ht =>
    refine (Gateway.State.step_moves ht.step).begun_cases.imp_right fun ⟨operation, hb, he⟩ => ?_
    subst hb
    refine ⟨operation, ?_, he⟩
    cases a
    case begin   => exact congrArg _ (Gateway.Action.begin.inj (Option.some.inj ha))
    case receive => cases (Option.map_eq_some_iff.mp ha).choose_spec.2
    all_goals cases ha

theorem begun_begin {operation : Operation}
    (hs : (machine client).step s (.begin operation) = some s') :
    s'.gateway.begun = s.gateway.begun ++ [operation] := by
  obtain ⟨_, ht, _⟩ := Gateway.Turn.begin client s.gateway operation
  have hb := ht.begun
  exact Option.some.inj hs ▸ hb

theorem begun_grows {as : List Action} (h : (machine client).runFrom s as = some s') :
    s.gateway.begun <+: s'.gateway.begun := by
  refine Machine.runFrom_relation (R := fun s s' => s.gateway.begun <+: s'.gateway.begun)
    (fun s => List.prefix_refl s.gateway.begun) (fun _ _ _ => List.IsPrefix.trans) ?_ h
  intro s a s' hs
  rcases begun_cases hs with he | ⟨operation, _, he⟩
  case inl => exact he ▸ List.prefix_refl _
  case inr => exact ⟨[operation], he.symm⟩

theorem events_extends {as : List Action} (h : (machine client).runFrom s as = some s') :
    s.gateway.events.Extends s'.gateway.events := by
  refine Machine.runFrom_relation
    (R := fun s s' : State => s.gateway.events.Extends s'.gateway.events)
    (fun s => .refl _) (fun _ _ _ => .trans) (fun s a s' hs => ?_) h
  cases State.step_moves hs
  case turn ht => exact (Gateway.State.step_moves ht.step).extends
  case deliver => exact .refl _
  case idle hi => exact hi.gateway ▸ .refl _

end System
