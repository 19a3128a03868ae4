import EventLedger.Base.JsonLines
import EventLedger.Common.Time
import EventLedger.Common.Trace

-- What a process tells of its requests: lines of JSON, and counters.
namespace Logging

-- A value that is not `None` in the `extra` of a call of the logger.
inductive Value
  | text (t : Text)
  | int (n : ℤ)
  | float (x : Float64)

def Value.json : Value → Json
  | text t  => .str t
  | int n   => .int n
  | float x => .float x

-- A record after `TraceContextFilter`, which puts the identifier of the context on it.
structure LogRecord where
  levelName : Text
  message : Text
  traceId : Text
  extra : List (Text × Value)
  exception : Option Text

-- The attributes that the formatter copies when a record has them, in this order.
def copiedKeys : List Text :=
  ["http_method".toList, "path".toList, "status_code".toList, "duration_ms".toList,
    "event_id".toList, "account_id".toList, "attempt".toList, "error".toList]

def copied (record : LogRecord) : List (Text × Json) :=
  copiedKeys.filterMap fun key => (record.extra.lookup key).map fun value => (key, value.json)

def payload (serviceName : Text) (now : Civil) (record : LogRecord) : List (Text × Json) :=
  [
    ("timestamp".toList, .str (Time.formatUtc now)),
    ("level".toList, .str record.levelName),
    ("service".toList, .str serviceName),
    ("trace_id".toList, .str record.traceId),
    ("message".toList, .str record.message)
  ] ++ copied record ++ record.exception.toList.map fun text => ("exception".toList, .str text)

-- `JsonFormatter.format`.
def format (serviceName : Text) (now : Civil) (record : LogRecord) : Text :=
  (Json.obj (payload serviceName now record)).emit

-- The counters of the requests of a process. The latencies are floats; their number is counted.
structure RequestMetrics where
  requestCounts : Text → ℕ
  errorCounts : Text → ℕ
  latencyCounts : Text → ℕ

def RequestMetrics.empty : RequestMetrics where
  requestCounts _ := 0
  errorCounts _ := 0
  latencyCounts _ := 0

def requestKey (method path : Text) : Text :=
  method ++ ' ' :: path

def RequestMetrics.recordRequest (m : RequestMetrics) (method path : Text) (statusCode : ℕ) :
    RequestMetrics where
  requestCounts key := m.requestCounts key + if key = requestKey method path then 1 else 0
  errorCounts key :=
    m.errorCounts key + if key = requestKey method path ∧ 500 ≤ statusCode then 1 else 0
  latencyCounts key := m.latencyCounts key + if key = requestKey method path then 1 else 0

-- A request that has been handled. The path is the one of its route, or its own if it has none.
structure Completion where
  headers : TraceHeaders
  newTraceId : Trace.Uuid
  method : Text
  path : Text
  statusCode : ℕ
  durationMs : Float64

-- What the services log: every request at its end, and what they do with a payload.
inductive Event
  | completed (c : Completion)
  | handled (headers : TraceHeaders) (newTraceId : Trace.Uuid) (message eventId accountId : Text)

variable (endsWord : Text → Text → Bool) (serviceName : Text)

def Event.record : Event → LogRecord
  | completed c => {
      levelName := "INFO".toList
      message := "request completed".toList
      traceId := c.headers.resolve endsWord c.newTraceId
      extra := [("http_method".toList, .text c.method), ("path".toList, .text c.path),
        ("status_code".toList, .int c.statusCode), ("duration_ms".toList, .float c.durationMs)]
      exception := none
    }
  | handled headers newTraceId message eventId accountId => {
      levelName := "INFO".toList
      message
      traceId := headers.resolve endsWord newTraceId
      extra := [("event_id".toList, .text eventId), ("account_id".toList, .text accountId)]
      exception := none
    }

-- What a process has told so far.
structure Observed where
  metrics : RequestMetrics
  stream : Text

def Observed.init : Observed where
  metrics := .empty
  stream := []

-- The handler of the logger ends each record with a line feed.
def Observed.log (o : Observed) (now : Civil) (record : LogRecord) : Observed :=
  { o with stream := o.stream ++ format serviceName now record ++ ['\n'] }

def Observed.observe (o : Observed) (now : Civil) (event : Event) : Observed :=
  let o := match event with
    | .completed c =>
      { o with metrics := o.metrics.recordRequest c.method c.path c.statusCode }
    | .handled .. => o
  o.log serviceName now (event.record endsWord)

def observed (events : List (Civil × Event)) : Observed :=
  events.foldl (fun o e => o.observe endsWord serviceName e.1 e.2) .init

variable {endsWord : Text → Text → Bool} {serviceName : Text} {key : Text}

theorem copied_names (record : LogRecord) : (copied record).map Prod.fst =
    copiedKeys.filter fun key => (record.extra.lookup key).isSome := by
  rw [copied]
  induction copiedKeys
  case nil => rfl
  case cons key keys hi => cases hl : record.extra.lookup key <;> simp [hl, hi]

theorem payload_names (now : Civil) (record : LogRecord) :
    ((payload serviceName now record).map Prod.fst).Nodup := by
  have hn : (["timestamp".toList, "level".toList, "service".toList, "trace_id".toList,
      "message".toList] ++ copiedKeys ++ ["exception".toList]).Nodup := by decide
  have he : ((payload serviceName now record).map Prod.fst).Sublist
      (["timestamp".toList, "level".toList, "service".toList, "trace_id".toList,
        "message".toList] ++ copiedKeys ++ ["exception".toList]) := by
    rw [payload, List.map_append, List.map_append, copied_names]
    refine ((List.Sublist.refl _).append List.filter_sublist).append ?_
    cases record.exception
    case none => exact List.nil_sublist _
    case some => exact .refl _
  exact hn.sublist he

theorem payload_wf (now : Civil) (record : LogRecord) :
    (Json.obj (payload serviceName now record)).WF := by
  refine Json.wf_obj.mpr ⟨payload_names now record, fun f hf => ?_⟩
  rw [payload, List.mem_append, List.mem_append] at hf
  rcases hf with (hf | hf) | hf
  case inl.inl =>
    simp only [List.mem_cons, List.not_mem_nil, or_false] at hf
    rcases hf with rfl | rfl | rfl | rfl | rfl <;> trivial
  case inl.inr =>
    have ⟨_, _, hv⟩ := List.mem_filterMap.mp hf
    have ⟨value, _, he⟩ := Option.map_eq_some_iff.mp hv
    subst he
    cases value <;> trivial
  case inr =>
    have ⟨_, _, he⟩ := List.mem_map.mp hf
    exact he ▸ trivial

-- What a line tells of a request, by the names of its members.
def loggedKey : Json → Option Text
  | .obj fs =>
    match fs.lookup "http_method".toList, fs.lookup "path".toList with
    | some (.str method), some (.str path) => some (requestKey method path)
    | _,                  _                => none
  | _ => none

def isServerError : Json → Bool
  | .obj fs =>
    match fs.lookup "status_code".toList with
    | some (.int n) => 500 ≤ n
    | _             => false
  | _ => false

def document (endsWord : Text → Text → Bool) (serviceName : Text) (now : Civil) (event : Event) :
    Json :=
  .obj (payload serviceName now (event.record endsWord))

theorem loggedKey_completed (now : Civil) (c : Completion) :
    loggedKey (document endsWord serviceName now (.completed c)) =
      some (requestKey c.method c.path) :=
  rfl

theorem loggedKey_handled (now : Civil) (headers : TraceHeaders) (newTraceId : Trace.Uuid)
    (message eventId accountId : Text) : loggedKey (document endsWord serviceName now
      (.handled headers newTraceId message eventId accountId)) = none :=
  rfl

theorem isServerError_completed (now : Civil) (c : Completion) :
    isServerError (document endsWord serviceName now (.completed c)) =
      decide (500 ≤ c.statusCode) := by
  have h : isServerError (document endsWord serviceName now (.completed c)) =
      decide (500 ≤ (c.statusCode : ℤ)) := rfl
  rw [h]
  exact decide_eq_decide.mpr (by omega)

-- The lines of a process, read back, and its counters.
structure Tells (o : Observed) (lines : List Json) : Prop where
  stream : o.stream = Json.emitLines lines
  requests : ∀ key, o.metrics.requestCounts key = lines.countP (loggedKey · = some key)
  errors : ∀ key, o.metrics.errorCounts key =
    lines.countP fun line => loggedKey line = some key ∧ isServerError line
  latencies : o.metrics.latencyCounts = o.metrics.requestCounts

theorem Tells.observe {o : Observed} {lines : List Json} (h : Tells o lines) (now : Civil)
    (event : Event) : Tells (o.observe endsWord serviceName now event)
      (lines ++ [document endsWord serviceName now event]) := by
  have hs : (o.observe endsWord serviceName now event).stream =
      Json.emitLines (lines ++ [document endsWord serviceName now event]) := by
    rw [Json.emitLines, List.flatMap_append, List.flatMap_singleton, ← List.append_assoc]
    cases event <;> exact congrArg (· ++ _ ++ ['\n']) h.stream
  refine ⟨hs, ?_, ?_, ?_⟩
  case refine_1 =>
    intro key
    rw [List.countP_append, List.countP_singleton, ← h.requests key]
    cases event
    case completed c =>
      simp only [loggedKey_completed, Option.some.injEq, decide_eq_true_eq]
      simp only [eq_comm (b := key)]
      rfl
    case handled => simp [loggedKey_handled, Observed.observe, Observed.log]
  case refine_2 =>
    intro key
    rw [List.countP_append, List.countP_singleton, ← h.errors key]
    cases event
    case completed c =>
      simp only [loggedKey_completed, isServerError_completed, Option.some.injEq,
        decide_eq_true_eq]
      simp only [eq_comm (b := key)]
      rfl
    case handled => simp [loggedKey_handled, Observed.observe, Observed.log]
  case refine_3 =>
    cases event
    case completed c =>
      have hl : (o.metrics.recordRequest c.method c.path c.statusCode).latencyCounts =
          (o.metrics.recordRequest c.method c.path c.statusCode).requestCounts := by
        simp only [RequestMetrics.recordRequest, h.latencies]
      exact hl
    case handled => exact h.latencies

theorem tells_observed (events : List (Civil × Event)) :
    Tells (observed endsWord serviceName events)
      (events.map fun e => document endsWord serviceName e.1 e.2) := by
  induction events using List.reverseRecOn
  case nil => exact ⟨rfl, fun _ => rfl, fun _ => rfl, rfl⟩
  case append_singleton events e hi =>
    rw [observed, List.foldl_append, List.map_append]
    exact hi.observe e.1 e.2

-- The stream of a process is a line for each record, whatever texts the requests bring into it, and
-- from its lines alone the counters of the process can be computed.
structure Accounts (o : Observed) (lines : List Json) : Prop where
  read : Json.loadsLines o.stream = some lines
  printable : ∀ c ∈ o.stream, Text.isPrintable c ∨ c = '\n'
  requests : ∀ key, o.metrics.requestCounts key = lines.countP (loggedKey · = some key)
  errors : ∀ key, o.metrics.errorCounts key =
    lines.countP fun line => loggedKey line = some key ∧ isServerError line
  latencies : o.metrics.latencyCounts = o.metrics.requestCounts

theorem observed_accounts (endsWord : Text → Text → Bool) (serviceName : Text)
    (events : List (Civil × Event)) : Accounts (observed endsWord serviceName events)
      (events.map fun e => document endsWord serviceName e.1 e.2) := by
  have h : Tells (observed endsWord serviceName events)
      (events.map fun e => document endsWord serviceName e.1 e.2) := tells_observed events
  refine ⟨?_, ?_, h.requests, h.errors, h.latencies⟩
  case refine_1 =>
    rw [h.stream]
    refine Json.loadsLines_emitLines ?_
    rw [List.forall_mem_map]
    exact fun e _ => payload_wf e.1 _
  case refine_2 =>
    intro c hc
    rw [h.stream] at hc
    exact Json.printable_emitLines hc

end Logging
