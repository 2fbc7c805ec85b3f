import TiojJudge.Outbox.Pending
import TiojJudge.Outbox.Spacing
import TiojJudge.Outbox.Subscription
import TiojJudge.Judge.Order
import TiojJudge.Judge.Layers
import TiojJudge.Judge.SummaryGuard
import TiojJudge.Judge.CustomSummary
import TiojJudge.Judge.Multistage
import TiojJudge.Judge.SkipGroup
import TiojJudge.Judge.Tidy
import TiojJudge.Judge.Ending
import TiojJudge.Judge.Announced
import TiojJudge.Judge.ScoreText
import TiojJudge.Judge.InBounds
import TiojJudge.Judge.CheckerScore
import TiojJudge.Judge.OverrideCommands
import TiojJudge.Judge.StageChain
import TiojJudge.Judge.Handover
import TiojJudge.Judge.Paths
import TiojJudge.Judge.Turns
import TiojJudge.Judge.Programs
import TiojJudge.Judge.Answered
import TiojJudge.Runner.Closing
import TiojJudge.WorkLoop.Delivered
import TiojJudge.WorkLoop.Finished
import TiojJudge.TestdataStore.Recovery
import TiojJudge.TestdataStore.Sequence
import TiojJudge.TestdataStore.Copies
import TiojJudge.Sandbox.Exec
import TiojJudge.Sandbox.Limits
import TiojJudge.Cpuset.Grammar
import TiojJudge.DefaultScoring.Nested
import TiojJudge.DefaultScoring.Compared
import TiojJudge.DefaultScoring.Literals
import TiojJudge.Receiver.Fetching
import TiojJudge.Receiver.Threads
import TiojJudge.Receiver.Reports
import TiojJudge.Receiver.Download
import TiojJudge.Receiver.Base64
import TiojJudge.Receiver.Intake
