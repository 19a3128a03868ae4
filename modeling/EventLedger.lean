import EventLedger.Base.Lists
import EventLedger.Base.Text
import EventLedger.Base.Utf8
import EventLedger.Base.Url
import EventLedger.Base.Query
import EventLedger.Base.Router
import EventLedger.Base.Numeral
import EventLedger.Base.Decimal
import EventLedger.Base.DecimalContext
import EventLedger.Base.Binary64
import EventLedger.Base.Float64
import EventLedger.Base.Json
import EventLedger.Base.JsonText
import EventLedger.Base.JsonRoundtrip
import EventLedger.Base.JsonWellFormed
import EventLedger.Base.JsonPath
import EventLedger.Base.JsonLines
import EventLedger.Base.Unicode
import EventLedger.Base.PyString
import EventLedger.Base.Civil
import EventLedger.Base.Iso
import EventLedger.Base.Table
import EventLedger.Base.Store
import EventLedger.Base.Machine
import EventLedger.Base.Simulation
import EventLedger.Base.Ledger
import EventLedger.Common.Time
import EventLedger.Common.Contracts
import EventLedger.Common.Metrics
import EventLedger.Common.Trace
import EventLedger.Common.Logging
import EventLedger.Common.Http
import EventLedger.Common.Normalisation
import EventLedger.Common.Rows
import EventLedger.Common.Timeline
import EventLedger.Common.Metadata
import EventLedger.Common.Responses
import EventLedger.Common.Wire
import EventLedger.Common.Relay
import EventLedger.Account.Db
import EventLedger.Account.Main
import EventLedger.Account.Theorems.Routes
import EventLedger.Account.Theorems.Router
import EventLedger.Account.Theorems.Store
import EventLedger.Account.Theorems.Handling
import EventLedger.Account.Theorems.Invariant
import EventLedger.Account.Theorems.Balance
import EventLedger.Account.Theorems.Range
import EventLedger.Account.Theorems.Details
import EventLedger.Account.Theorems.Arrival
import EventLedger.Account.Theorems.Reading
import EventLedger.Account.Theorems.Rejection
import EventLedger.Account.Theorems.Counters
import EventLedger.Gateway.Db
import EventLedger.Gateway.AccountClient
import EventLedger.Gateway.Request
import EventLedger.Gateway.Main
import EventLedger.Gateway.Api
import EventLedger.Gateway.Theorems.Client
import EventLedger.Gateway.Theorems.Request
import EventLedger.Gateway.Theorems.Addressing
import EventLedger.Gateway.Theorems.Store
import EventLedger.Gateway.Theorems.History
import EventLedger.Gateway.Theorems.Steps
import EventLedger.Gateway.Theorems.Outcomes
import EventLedger.Gateway.Theorems.Acceptance
import EventLedger.Gateway.Theorems.Counters
import EventLedger.Gateway.Theorems.Answers
import EventLedger.Gateway.Theorems.Orderly
import EventLedger.Gateway.Theorems.Serving
import EventLedger.Gateway.Theorems.Attempts
import EventLedger.Gateway.Theorems.Circuit
import EventLedger.Gateway.Theorems.Api
import EventLedger.System.State
import EventLedger.System.Theorems.Steps
import EventLedger.System.Theorems.Invariant
import EventLedger.System.Theorems.Agreement
import EventLedger.System.Theorems.Unavailable
import EventLedger.System.Theorems.Recovery
import EventLedger.System.Theorems.Replay
import EventLedger.System.Theorems.Tracing
import EventLedger.System.Theorems.Reading
import EventLedger.System.Theorems.Refinement
import EventLedger.System.Theorems.Delivery
import EventLedger.System.Theorems.Effects
import EventLedger.System.Theorems.Orphans
import EventLedger.System.Theorems.Rejection
import EventLedger.System.Theorems.Convergence
import EventLedger.System.Theorems.History
import EventLedger.System.Theorems.Counters
import EventLedger.System.Theorems.Statuses
import EventLedger.System.Theorems.Admission
import EventLedger.System.Theorems.Verdicts
import EventLedger.System.Theorems.Schedules
