import EventLedger.Base.Query
import EventLedger.Base.Router
import EventLedger.Gateway.Main

namespace Gateway

open Http

-- The handlers that the public routes lead to.
inductive Route
  | submitEvent
  | getEvent (eventId : Text)
  | listEvents
  | getBalance (accountId : Text)
  | getAccount (accountId : Text)
  | health
  | metrics
  deriving DecidableEq

def table : List (Router.Entry Method Route) :=
  [
    ⟨.post, Router.compilePath "/events", Router.noParam .submitEvent⟩,
    ⟨.get, Router.compilePath "/events/{event_id}", Router.oneParam .getEvent⟩,
    ⟨.get, Router.compilePath "/events", Router.noParam .listEvents⟩,
    ⟨.get, Router.compilePath "/accounts/{account_id}/balance", Router.oneParam .getBalance⟩,
    ⟨.get, Router.compilePath "/accounts/{account_id}", Router.oneParam .getAccount⟩,
    ⟨.get, Router.compilePath "/health", Router.noParam .health⟩,
    ⟨.get, Router.compilePath "/metrics", Router.noParam .metrics⟩
  ]

-- A request of a client, with the query of its URL.
structure PublicRequest extends Request where
  query : Text

-- What a request leads to: an answer at once, or a handler that calls the Account Service.
inductive Arrival
  | answered (response : Response)
  | begins (operation : Operation)
  -- the state of the process is read, and not its table
  | observed

def recordDocument (record : EventRecord) : Document :=
  ⟨.obj record.modelFields, by
    have hn : (record.modelFields.map Prod.fst).Nodup := by
      have h : ["eventId".toList, "accountId".toList, "type".toList, "amount".toList,
          "currency".toList, "eventTimestamp".toList, "metadata".toList, "status".toList,
          "createdAt".toList, "updatedAt".toList].Nodup := by decide
      exact h
    refine Json.wf_obj.mpr ⟨hn, fun f hf => ?_⟩
    cases List.mem_append.mp hf
    case inl hf => exact (Json.wf_obj.mp record.toEventPayload.modelDump_wf).2 f hf
    case inr hf =>
      simp only [List.mem_cons, List.not_mem_nil, or_false] at hf
      rcases hf with rfl | rfl | rfl <;> trivial⟩

def recordsDocument (records : List EventRecord) : Document :=
  ⟨.arr (records.map fun record => (recordDocument record).val), Json.wf_arr.mpr <| by
    rw [List.forall_mem_map]
    exact fun record _ => (recordDocument record).property⟩

-- The error of a query parameter.
def invalidQuery (name type : String) : Response where
  status := 422
  body := .json ⟨.obj [("detail".toList, .arr [.obj [
      ("type".toList, .str type.toList),
      ("loc".toList, .arr [.str "query".toList, .str name.toList])]])], by
    have hn : ["type".toList, "loc".toList].Nodup := by decide
    refine Json.wf_obj.mpr ⟨by simp, ?_⟩
    simp only [forall_eq, Json.wf_arr, Json.wf_obj, List.mem_cons,
      List.not_mem_nil, or_false, forall_eq_or_imp]
    exact ⟨hn, trivial, trivial, trivial⟩⟩

namespace State

variable (s : State) (order : RowOrder EventRow)

def getEventResponse (eventId : Text) : Response :=
  match Gateway.getEvent s.events eventId with
  | .error _          => .internalError
  | .ok none          => .detail 404 "event not found".toList
  | .ok (some record) => .render 200 (recordDocument record)

-- The account has to be given, and may not be empty.
def listEvents (query : Text) : Response :=
  match Url.queryParam query "account" with
  | none    => invalidQuery "account" "missing"
  | some [] => invalidQuery "account" "string_too_short"
  | some account =>
    match listEventsForAccount order s.events account with
    | .error _    => .internalError
    | .ok records => .render 200 (recordsDocument records)

def arrive (request : PublicRequest) : Arrival :=
  match Router.dispatch table request.method (Url.unquote request.path) with
  | .endpoint .submitEvent =>
    match request.body with
    | none      => .answered (.unprocessable [] "missing".toList)
    | some body =>
      match EventPayload.ofJson body with
      | .error e  => .answered (.ofInvalid e)
      | .ok event => .begins (.applyTransaction event)
  | .endpoint (.getEvent eventId)     => .answered (s.getEventResponse eventId)
  | .endpoint .listEvents             => .answered (s.listEvents order request.query)
  | .endpoint (.getBalance accountId) => .begins (.getBalance accountId)
  | .endpoint (.getAccount accountId) => .begins (.getAccount accountId)
  | .endpoint .health                 => .observed
  | .endpoint .metrics                => .observed
  | .methodNotAllowed                 => .answered (.detail 405 "Method Not Allowed".toList)
  | .redirect                         => .answered { status := 307, body := .text [] }
  | .notFound                         => .answered (.detail 404 "Not Found".toList)

end State

end Gateway
