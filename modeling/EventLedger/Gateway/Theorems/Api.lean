import EventLedger.Gateway.Api
import EventLedger.Gateway.Theorems.History

namespace Gateway

open Http

open Router (Fits Template)

theorem unambiguous_table : Router.Unambiguous table := by
  decide

namespace Route

def method : Route → Method
  | submitEvent => .post
  | _           => .get

def template : Route → Template
  | submitEvent  => Router.compilePath "/events"
  | getEvent _   => Router.compilePath "/events/{event_id}"
  | listEvents   => Router.compilePath "/events"
  | getBalance _ => Router.compilePath "/accounts/{account_id}/balance"
  | getAccount _ => Router.compilePath "/accounts/{account_id}"
  | health       => Router.compilePath "/health"
  | metrics      => Router.compilePath "/metrics"

def args : Route → List Text
  | getEvent eventId     => [eventId]
  | getBalance accountId => [accountId]
  | getAccount accountId => [accountId]
  | _                    => []

variable {route : Route} {m : Method} {path : Text}

theorem entry_of_endpoint : ∀ entry ∈ table, ∀ args, entry.endpoint args = some route →
    entry.method = route.method ∧ entry.template = route.template ∧ args = route.args := by
  simp only [table, List.forall_mem_cons, List.not_mem_nil, Router.noParam_eq_some,
    Router.oneParam_eq_some]
  refine ⟨?_, ?_, ?_, ?_, ?_, ?_, ?_, fun _ h => h.elim⟩
  case refine_2 | refine_4 | refine_5 =>
    rintro args ⟨_, rfl, rfl⟩
    exact ⟨rfl, rfl, rfl⟩
  all_goals
    rintro args ⟨rfl, rfl⟩
    exact ⟨rfl, rfl, rfl⟩

theorem exists_entry (route : Route) : ∃ entry ∈ table, entry.endpoint route.args = some route := by
  cases route <;> simp [table, args, Router.noParam, Router.oneParam]

-- A request leads to a handler just if it has its method, and its path fits the template.
theorem dispatch_iff : Router.dispatch table m path = .endpoint route ↔
    m = route.method ∧ Fits route.template route.args (path.splitOn '/') := by
  rw [unambiguous_table.dispatch_iff]
  constructor
  case mp =>
    rintro ⟨entry, hm, rfl, args, hf, he⟩
    obtain ⟨hmethod, htemplate, rfl⟩ := entry_of_endpoint entry hm args he
    exact ⟨hmethod, htemplate ▸ hf⟩
  case mpr =>
    rintro ⟨rfl, hf⟩
    have ⟨entry, hm, he⟩ := route.exists_entry
    have ⟨hmethod, htemplate, _⟩ := entry_of_endpoint entry hm _ he
    exact ⟨entry, hm, hmethod, route.args, htemplate ▸ hf, he⟩

theorem plain_table : ∀ entry ∈ table, Router.Plain entry.template := by
  decide

theorem length_args (route : Route) : route.args.length = route.template.count .param := by
  cases route <;> rfl

-- A handler can be reached just if its parameters are segments of a path that are not empty.
theorem reachable_iff (route : Route) :
    (∃ path, Router.dispatch table route.method (Url.unquote path) = .endpoint route) ↔
    ∀ a ∈ route.args, a ≠ [] ∧ '/' ∉ a := by
  have ⟨entry, hm, he⟩ := route.exists_entry
  have ht := (entry_of_endpoint entry hm _ he).2.1 ▸ plain_table entry hm
  simp only [dispatch_iff, true_and]
  rw [← and_iff_right (b := ∀ a ∈ route.args, _) route.length_args, ← ht.exists_path_iff]
  constructor
  case mp  => exact fun ⟨path, hf⟩ => ⟨_, hf⟩
  case mpr => exact fun ⟨path, hf⟩ => ⟨Url.escapeAll path, by rwa [Url.unquote_escapeAll]⟩

end Route

end Gateway
