import ByteBattles.Api.Authorization
import ByteBattles.Api.Calls
import ByteBattles.Api.CodeObjects
import ByteBattles.Api.CodeRoundTrip
import ByteBattles.Api.Constraints
import ByteBattles.Api.CreateProblem.Bundle
import ByteBattles.Api.CreateProblem.Integrity
import ByteBattles.Api.CreateProblem.Model
import ByteBattles.Api.CreateProblem.Uploads
import ByteBattles.Api.Credentials
import ByteBattles.Api.Effects
import ByteBattles.Api.FailedDeletion
import ByteBattles.Api.FailingTestcase
import ByteBattles.Api.FolderDeletion
import ByteBattles.Api.FolderIsolation
import ByteBattles.Api.Identifiers
import ByteBattles.Api.JudgeInputs
import ByteBattles.Api.Lifecycle
import ByteBattles.Api.Listings
import ByteBattles.Api.Models
import ByteBattles.Api.Oauth2
import ByteBattles.Api.ProblemRoundTrip
import ByteBattles.Api.ProfileUpdate
import ByteBattles.Api.Routes.Problems
import ByteBattles.Api.Routes.Submissions
import ByteBattles.Api.Routes.Users
import ByteBattles.Api.Schemas
import ByteBattles.Api.Service
import ByteBattles.Api.Sessions
import ByteBattles.Api.Solvability
import ByteBattles.Api.Storage
import ByteBattles.Api.SubmissionCounts
import ByteBattles.Api.SubmissionRequests
import ByteBattles.Api.Tags
import ByteBattles.Api.Usernames
import ByteBattles.Api.Visibility
import ByteBattles.Judge.JudgeWorker.Acceptance
import ByteBattles.Judge.JudgeWorker.Calls
import ByteBattles.Judge.JudgeWorker.Evidence
import ByteBattles.Judge.JudgeWorker.Exceptions
import ByteBattles.Judge.JudgeWorker.Executor
import ByteBattles.Judge.JudgeWorker.Findings
import ByteBattles.Judge.JudgeWorker.FirstFailure
import ByteBattles.Judge.JudgeWorker.Heartbeat
import ByteBattles.Judge.JudgeWorker.Inputs
import ByteBattles.Judge.JudgeWorker.Measurements
import ByteBattles.Judge.JudgeWorker.OutputComparison
import ByteBattles.Judge.JudgeWorker.Pipeline
import ByteBattles.Judge.JudgeWorker.Protocol
import ByteBattles.Judge.JudgeWorker.Release
import ByteBattles.Judge.JudgeWorker.Requeue
import ByteBattles.Judge.JudgeWorker.ResultWrite
import ByteBattles.Judge.JudgeWorker.Retention
import ByteBattles.Judge.JudgeWorker.RunVerdict
import ByteBattles.Judge.JudgeWorker.StdinExchange
import ByteBattles.Judge.JudgeWorker.Trace
import ByteBattles.Judge.JudgeWorker.Types
import ByteBattles.Judge.JudgeWorker.Usage
import ByteBattles.Judge.JudgeWorker.Worker
import ByteBattles.Judge.Models
import ByteBattles.Judge.Orchestrator.CrashRecovery
import ByteBattles.Judge.Orchestrator.FrozenRetry
import ByteBattles.Judge.Orchestrator.LeftBehind
import ByteBattles.Judge.Orchestrator.Model
import ByteBattles.Judge.Orchestrator.Moves
import ByteBattles.Judge.Orchestrator.Restarts
import ByteBattles.Judge.Orchestrator.Scaling
import ByteBattles.Judge.Orchestrator.SubmissionKey
import ByteBattles.Judge.Orchestrator.Wellformed
import ByteBattles.Judge.Refinement.Jobs
import ByteBattles.Judge.Refinement.Sandboxes
import ByteBattles.Judge.SandboxManager.Accounting
import ByteBattles.Judge.SandboxManager.Creations
import ByteBattles.Judge.SandboxManager.DeadEnd
import ByteBattles.Judge.SandboxManager.Isolation
import ByteBattles.Judge.SandboxManager.Lifetime
import ByteBattles.Judge.SandboxManager.Model
import ByteBattles.Judge.SandboxManager.Moves
import ByteBattles.Judge.SandboxManager.PendingCount
import ByteBattles.Judge.SandboxManager.PoolHistory
import ByteBattles.Judge.SandboxManager.Refill
import ByteBattles.Judge.SandboxManager.Shutdown
import ByteBattles.Lib.ColumnUpdate
import ByteBattles.Lib.DecimalText
import ByteBattles.Lib.Fairness
import ByteBattles.Lib.Handler
import ByteBattles.Lib.History
import ByteBattles.Lib.Lines
import ByteBattles.Lib.Monitor
import ByteBattles.Lib.ObjectStore
import ByteBattles.Lib.Paging
import ByteBattles.Lib.Pool
import ByteBattles.Lib.Prefixes
import ByteBattles.Lib.PyBytes
import ByteBattles.Lib.PyNumber
import ByteBattles.Lib.PyStr
import ByteBattles.Lib.Regex
import ByteBattles.Lib.RetryQueue
import ByteBattles.Lib.Rounding
import ByteBattles.Lib.Scan
import ByteBattles.Lib.Simulation
import ByteBattles.Lib.StdioProgram
import ByteBattles.Lib.Table
import ByteBattles.Lib.Tokens
import ByteBattles.Lib.Traced
import ByteBattles.Lib.Transition
import ByteBattles.Lib.UnitOfWork
import ByteBattles.Lib.Utf8Canonical
import ByteBattles.Lib.Versions
import ByteBattles.Platform.Model
import ByteBattles.Platform.Refinement
import ByteBattles.Platform.Verdicts
