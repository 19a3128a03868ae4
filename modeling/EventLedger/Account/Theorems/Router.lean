import EventLedger.Account.Main
import EventLedger.Base.Router

-- The routes of the Account Service as a table of templates.
namespace Account

open Http (Method)

def table : List (Router.Entry Method Endpoint) :=
  [
    ⟨.post, Router.compilePath "/accounts/{account_id}/transactions",
      Router.oneParam .applyTransaction⟩,
    ⟨.get, Router.compilePath "/accounts/{account_id}/balance", Router.oneParam .getBalance⟩,
    ⟨.get, Router.compilePath "/accounts/{account_id}", Router.oneParam .getAccount⟩
  ]

theorem unambiguous_table : Router.Unambiguous table := by
  decide

def Routed.ofRouter : Router.Routed Endpoint → Routed
  | .endpoint e       => .endpoint e
  | .methodNotAllowed => .methodNotAllowed
  | .redirect         => .redirect
  | .notFound         => .notFound

theorem compilePath_accounts :
    Router.compilePath "/accounts/{account_id}/transactions" =
      [.literal [], .literal "accounts".toList, .param, .literal "transactions".toList] ∧
    Router.compilePath "/accounts/{account_id}/balance" =
      [.literal [], .literal "accounts".toList, .param, .literal "balance".toList] ∧
    Router.compilePath "/accounts/{account_id}" =
      [.literal [], .literal "accounts".toList, .param] := by
  decide

section Shapes

variable {a b c : Text} {ss : List Text}

theorem matchSegments_under :
    Router.matchSegments [.literal a, .literal b, .param, .literal c] ss = match ss with
      | [s₀, s₁, s₂, s₃] =>
        if s₀ = a ∧ s₁ = b ∧ s₂ ≠ [] ∧ (s₃ = c ∨ s₃ = c ++ ['\n']) then some [s₂] else none
      | _ => none := by
  rcases ss with _ | ⟨s₀, _ | ⟨s₁, _ | ⟨s₂, _ | ⟨s₃, _ | ⟨s₄, ss⟩⟩⟩⟩⟩ <;>
    simp only [Router.matchSegments] <;> try (split_ifs <;> simp_all)

theorem matchSegments_item :
    Router.matchSegments [.literal a, .literal b, .param] ss = match ss with
      | [s₀, s₁, s₂] => if s₀ = a ∧ s₁ = b ∧ s₂ ≠ [] then some [s₂] else none
      | _            => none := by
  rcases ss with _ | ⟨s₀, _ | ⟨s₁, _ | ⟨s₂, _ | ⟨s₃, ss⟩⟩⟩⟩ <;>
    simp only [Router.matchSegments] <;> try (split_ifs <;> simp_all)

end Shapes

theorem routes_eq (path : Text) : routes path = Router.matching table path := by
  have ⟨ht, hb, ha⟩ := compilePath_accounts
  unfold routes Router.matching table
  rw [ht, hb, ha]
  generalize path.splitOn '/' = ss
  simp only [List.filterMap_eq_flatMap_toList, List.flatMap_cons, List.flatMap_nil,
    matchSegments_under, matchSegments_item, endsRoute, List.append_nil]
  rcases ss with _ | ⟨_ | ⟨c, s₀⟩, _ | ⟨s₁, _ | ⟨s₂, _ | ⟨s₃, _ | ⟨s₄, ss⟩⟩⟩⟩⟩
  all_goals simp only [Option.bind_none, Option.toList_none, List.append_nil, List.nil_append]
  case cons.nil.cons.cons.nil => split_ifs <;> simp_all
  case cons.nil.cons.cons.cons.nil =>
    simp only [Bool.or_eq_true, decide_eq_true_eq, true_and]
    by_cases hs : s₁ = "accounts".toList ∧ s₂ ≠ []
    case neg => simp only [hs, ← and_assoc, false_and, if_false]; rfl
    case pos =>
      have ⟨hs₁, hs₂⟩ := hs
      by_cases ht : s₃ = "transactions".toList ∨ s₃ = "transactions".toList ++ ['\n'] <;>
        by_cases hb : s₃ = "balance".toList ∨ s₃ = "balance".toList ++ ['\n'] <;>
        simp only [hs₁, hs₂, ht, hb, ne_eq, not_false_eq_true, and_self, and_false] <;> rfl
  all_goals rfl

theorem dispatch_eq (method : Method) (path : Text) :
    dispatch method path = .ofRouter (Router.dispatch table method path) := by
  have hp : redirectPath path = Router.redirectPath path := rfl
  unfold dispatch Router.dispatch
  rw [routes_eq, routes_eq, hp]
  cases (Router.matching table path).find? (·.1 = method)
  case some => rfl
  case none =>
    dsimp only
    split_ifs <;> rfl

end Account
