import SynQc.Agents.Delayed
import SynQc.Agents.Idempotency
import SynQc.Agents.Payloads
import SynQc.Agents.Pipe
import SynQc.Agents.Protocol
import SynQc.Agents.Stranding
import SynQc.Auth.Layers
import SynQc.Auth.Minting
import SynQc.Auth.Passwords
import SynQc.Auth.RateLimit
import SynQc.Auth.Register
import SynQc.Auth.Sessions
import SynQc.Budget.Observers
import SynQc.Budget.Refinement
import SynQc.Budget.Replicas
import SynQc.Chat.RateLimit
import SynQc.Engine.Admission
import SynQc.Engine.Bookkeeping
import SynQc.Engine.GroverBatches
import SynQc.Engine.QubitUsage
import SynQc.Engine.Reservation
import SynQc.Engine.Response
import SynQc.Engine.SessionCap
import SynQc.Engine.Status
import SynQc.Grover.Agent
import SynQc.Grover.EnergySearch
import SynQc.Grover.Odds
import SynQc.Grover.Reference
import SynQc.Grover.Retries
import SynQc.Grover.Search
import SynQc.Grover.Utils
import SynQc.Jobs.Balance
import SynQc.Jobs.Capacity
import SynQc.Jobs.History
import SynQc.Jobs.Refusal
import SynQc.Jobs.Shutdown
import SynQc.Jobs.Snapshot
import SynQc.Kpi.Percentile
import SynQc.LoadTest.Gate
import SynQc.LoadTest.Reading
import SynQc.Logging.Context
import SynQc.Metrics.Exporter
import SynQc.Metrics.Guard
import SynQc.Metrics.Recorder
import SynQc.Metrics.Scrape
import SynQc.Middleware.RequestSize
import SynQc.RunQueue.Conservation
import SynQc.RunQueue.Outcomes
import SynQc.Shor.Facade
import SynQc.Shor.KeyGeneration
import SynQc.Shor.RunLog
import SynQc.Shor.Text
import SynQc.Storage.ControlProfiles
import SynQc.Storage.ControlStore
import SynQc.Storage.Recent
import SynQc.Storage.Reload
import SynQc.Storage.SharedFile
