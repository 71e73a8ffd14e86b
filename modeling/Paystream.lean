import Paystream.Library.Checked
import Paystream.Library.TokenLedger
import Paystream.Library.Supply
import Paystream.Library.History
import Paystream.Library.Registry
import Paystream.Library.ToggleLog
import Paystream.Library.Calendar
import Paystream.Library.Rounding
import Paystream.Library.Json
import Paystream.Library.JsonOrder
import Paystream.Library.Dedup
import Paystream.Library.Quorum
import Paystream.Library.LoadSave
import Paystream.Library.Timeline
import Paystream.Library.SortedPages
import Paystream.Library.OrderedMap
import Paystream.Library.Succession
import Paystream.Library.Slot
import Paystream.Library.EventSource
import Paystream.Library.FixedWindow
import Paystream.Library.Expansion
import Paystream.Library.Unwinding
import Paystream.Library.GrowingLog
import Paystream.Library.Csv
import Paystream.Contract.Types
import Paystream.Contract.World
import Paystream.Contract.Storage
import Paystream.Contract.Guards
import Paystream.Contract.Admin
import Paystream.Contract.Governance
import Paystream.Contract.Streams
import Paystream.Contract.Balance
import Paystream.Contract.Exec
import Paystream.Contract.Reentrancy
import Paystream.Contract.Token
import Paystream.Contract.Composition
import Paystream.Services.Validation
import Paystream.Services.Balance
import Paystream.Services.Payroll
import Paystream.Services.Idempotency
import Paystream.Services.Events
import Paystream.Services.Indexer
import Paystream.Services.Analytics
import Paystream.Services.Migration
import Paystream.Services.Workflow
import Paystream.Services.Snapshots
import Paystream.Services.StreamCache
import Paystream.Services.CacheClient
import Paystream.Services.Auth
import Paystream.Services.ApiKeys
import Paystream.Services.AuthMiddleware
import Paystream.Services.Templates
import Paystream.Services.TemplateRoutes
import Paystream.Services.Search
import Paystream.Services.AuthRateLimiter
import Paystream.Services.Sanitize
import Paystream.Services.CsvExport
import Paystream.Services.TransactionHistory
import Paystream.Services.AuditLog
import Paystream.Services.Dashboard
import Paystream.Services.Polling
import Paystream.Semantics.AdminOps
import Paystream.Semantics.StreamOps
import Paystream.Semantics.Refinement
import Paystream.Semantics.Creation
import Paystream.Semantics.Steps
import Paystream.Semantics.Configuration
import Paystream.Semantics.StreamView
import Paystream.Semantics.Governance
import Paystream.Semantics.Records
import Paystream.Semantics.EventLog
import Paystream.Semantics.Announcements
import Paystream.Semantics.TokenOps
import Paystream.Properties.Accrual
import Paystream.Properties.Representation
import Paystream.Properties.Lifecycle
import Paystream.Properties.Pausing
import Paystream.Properties.AccrualLaw
import Paystream.Properties.AdminHandover
import Paystream.Properties.Settlement
import Paystream.Properties.Solvency
import Paystream.Properties.FeeLedger
import Paystream.Properties.Configuration
import Paystream.Properties.CreationRules
import Paystream.Properties.Allowlist
import Paystream.Properties.Batch
import Paystream.Properties.Parties
import Paystream.Properties.EmployerHandover
import Paystream.Properties.Indexes
import Paystream.Properties.FeeCap
import Paystream.Properties.Availability
import Paystream.Properties.Admission
import Paystream.Properties.Reentrancy
import Paystream.Properties.Governance
import Paystream.Properties.Multisig
import Paystream.Properties.PauseHistory
import Paystream.Properties.TokenSupply
import Paystream.Properties.TokenIssuance
import Paystream.Properties.Allowance
import Paystream.Properties.Composition
import Paystream.Properties.BalanceModule
import Paystream.Properties.RemainingDuration
import Paystream.Properties.RateChange
import Paystream.Properties.ReadOnly
import Paystream.Properties.Isolation
import Paystream.Properties.EventLog
import Paystream.Properties.Progress
import Paystream.Properties.Ballots
import Paystream.Properties.WithdrawalValue
import Paystream.Properties.Cooldown
import Paystream.Properties.Entitlement
import Paystream.Properties.PausedTime
import Paystream.Properties.BalanceService
import Paystream.Properties.Periods
import Paystream.Properties.PayrollWindows
import Paystream.Properties.ExactNumbers
import Paystream.Properties.PayrollBoundaries
import Paystream.Properties.Payroll
import Paystream.Properties.Idempotency
import Paystream.Properties.Indexer
import Paystream.Properties.EventDecoding
import Paystream.Properties.Analytics
import Paystream.Properties.AnalyticsTotals
import Paystream.Properties.Migration
import Paystream.Properties.Workflow
import Paystream.Properties.Snapshots
import Paystream.Properties.SnapshotHistory
import Paystream.Properties.StreamCache
import Paystream.Properties.CacheClient
import Paystream.Properties.SignIn
import Paystream.Properties.AuthLockout
import Paystream.Properties.ApiKeys
import Paystream.Properties.KeyBudget
import Paystream.Properties.TemplatePrivacy
import Paystream.Properties.TemplateOwnership
import Paystream.Properties.Search
import Paystream.Properties.Sanitize
import Paystream.Properties.CsvExport
import Paystream.Properties.TransactionHistory
import Paystream.Properties.AuditLog
import Paystream.Properties.Dashboard
import Paystream.Properties.Polling
