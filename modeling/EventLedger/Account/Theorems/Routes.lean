import EventLedger.Account.Main

namespace Account

namespace Endpoint

variable {e : Endpoint}

def accountId : Endpoint → Text
  | applyTransaction accountId => accountId
  | getBalance accountId       => accountId
  | getAccount accountId       => accountId

def method : Endpoint → Http.Method
  | applyTransaction _ => .post
  | getBalance _       => .get
  | getAccount _       => .get

-- The segments of a path after the account.
def rest : Endpoint → List Text
  | applyTransaction _ => ["transactions".toList]
  | getBalance _       => ["balance".toList]
  | getAccount _       => []

-- The segments of the path that the route of an endpoint is made for.
def segments (e : Endpoint) : List Text :=
  [] :: "accounts".toList :: e.accountId :: e.rest

def path (e : Endpoint) : Text :=
  ['/'].intercalate e.segments

theorem splitOn_path (h : '/' ∉ e.accountId) : e.path.splitOn '/' = e.segments := by
  refine List.splitOn_intercalate '/' ?_ (by simp [segments])
  intro s hs
  cases e <;>
    simp only [segments, rest, accountId, List.mem_cons, List.not_mem_nil, or_false] at hs h
  case applyTransaction =>
    rcases hs with hs | hs | hs | hs <;> subst hs
    case inr.inr.inl => exact h
    all_goals decide
  case getBalance =>
    rcases hs with hs | hs | hs | hs <;> subst hs
    case inr.inr.inl => exact h
    all_goals decide
  case getAccount =>
    rcases hs with hs | hs | hs <;> subst hs
    case inr.inr => exact h
    all_goals decide

end Endpoint

variable {path : Text} {method : Http.Method} {e : Endpoint}

-- A path of the segments of an endpoint leads to it, whatever the other routes are.
theorem dispatch_of_segments (hs : path.splitOn '/' = e.segments) (ha : e.accountId ≠ []) :
    dispatch e.method path = .endpoint e := by
  cases e <;>
    simp_all [dispatch, routes, endsRoute, Endpoint.segments, Endpoint.rest, Endpoint.accountId,
      Endpoint.method]

theorem mem_routes_of_dispatch (h : dispatch method path = .endpoint e) :
    (method, e) ∈ routes path := by
  unfold dispatch at h
  split at h
  case h_1 m e' hf =>
    have hm : m = method := by simpa using List.find?_some hf
    rw [← hm, ← Routed.endpoint.inj h]
    exact List.mem_of_find?_eq_some hf
  case h_2 =>
    split at h
    case isTrue => cases h
    case isFalse =>
      split at h <;> cases h

theorem endsRoute_iff {segment : Text} {name : String} : endsRoute segment name ↔
    segment = name.toList ∨ segment = name.toList ++ ['\n'] := by
  simp [endsRoute]

-- The pattern of a route lets one more newline pass, and nothing else.
theorem splitOn_of_mem_routes (h : (method, e) ∈ routes path) :
    method = e.method ∧ e.accountId ≠ [] ∧ (path.splitOn '/' = e.segments ∨
    ∃ name, e.rest = [name] ∧
      path.splitOn '/' = [[], "accounts".toList, e.accountId, name ++ ['\n']]) := by
  unfold routes at h
  split at h
  case h_1 top accountId name hs =>
    split at h
    case isFalse => simp at h
    case isTrue ht =>
      rw [hs, ht.1]
      rcases List.mem_append.mp h with h | h
      case inl =>
        split at h
        case isFalse => simp at h
        case isTrue hn =>
          cases List.mem_singleton.mp h
          refine ⟨rfl, ht.2, ?_⟩
          rcases endsRoute_iff.mp hn with hn | hn <;> subst hn
          case inl => exact .inl rfl
          case inr => exact .inr ⟨_, rfl, rfl⟩
      case inr =>
        split at h
        case isFalse => simp at h
        case isTrue hn =>
          cases List.mem_singleton.mp h
          refine ⟨rfl, ht.2, ?_⟩
          rcases endsRoute_iff.mp hn with hn | hn <;> subst hn
          case inl => exact .inl rfl
          case inr => exact .inr ⟨_, rfl, rfl⟩
  case h_2 top accountId hs =>
    split at h
    case isFalse => simp at h
    case isTrue ht =>
      cases List.mem_singleton.mp h
      rw [hs, ht.1]
      exact ⟨rfl, ht.2, .inl rfl⟩
  case h_3 => simp at h

theorem method_of_dispatch (h : dispatch method path = .endpoint e) : method = e.method :=
  (splitOn_of_mem_routes (mem_routes_of_dispatch h)).1

-- What leads to an endpoint has its segments, or is longer than its path.
theorem segments_of_dispatch (h : dispatch method path = .endpoint e) : e.accountId ≠ [] ∧
    (path.splitOn '/' = e.segments ∨ e.path.length < path.length) := by
  obtain ⟨_, ha, hs⟩ := splitOn_of_mem_routes (mem_routes_of_dispatch h)
  have hp : ['/'].intercalate (path.splitOn '/') = path := List.intercalate_splitOn '/'
  refine ⟨ha, hs.imp_right fun ⟨name, hr, hs⟩ => ?_⟩
  rw [← hp, hs, Endpoint.path, Endpoint.segments, hr]
  simp [List.intercalate]

end Account
