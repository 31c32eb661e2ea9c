import Rally.Core.Value
import Rally.Core.Dict
import Rally.Core.Exec
import Rally.Core.Trace
import Rally.Core.Monitor
import Rally.Envelope
import Rally.Report
import Rally.Console
import Rally.Runner.State
import Rally.Runner.Turn
import Rally.Runner.Disk
import Rally.Runner.History
import Rally.Runner.Scope
import Rally.Runner.Handlers
import Rally.Runner.Edits
import Rally.Runner.Loop
import Rally.Runner.Outcome
import Rally.Runner.Session
import Rally.Runner.Notes
import Rally.Runner.KillSwitch
import Rally.Runner.Completion
import Rally.Runner.Commission
import Rally.Runner.Ids
import Rally.Runner.Accounting
import Rally.Runner.Budget
import Rally.Runner.Delivery
import Rally.Runner.Guidance
import Rally.Runner.Isolation
import Rally.Runner.Custody
import Rally.Runner.Thread
import Rally.Runner.Atomicity
import Rally.Runner.Rejections
import Rally.Runner.Replies
import Rally.Transport.Ledger
import Rally.Transport.Ceilings
import Rally.Transport.Attachments
import Rally.Ingress.Mail
import Rally.Ingress.Dashboard
import Rally.Ingress.UnrelatedText
import Rally.Cloud.Commissions
import Rally.Cloud.Governance
import Rally.Cloud.Leases
import Rally.Cloud.SignIn
import Rally.Cloud.RateLimits
import Rally.Cloud.Discovery
import Rally.Cloud.TaskOrder
import Rally.Cloud.Audit
import Rally.Cloud.HumanApproval
import Rally.Profiles
import Rally.Cloud.OAuthFlows
import Rally.Cloud.VaultLeases
import Rally.Worker.Inbox
import Rally.Worker.Intake
import Rally.Worker.Artifacts
import Rally.Core.JsonRoundTrip
import Rally.Runner.Ownership
import Rally.Runner.Extraction
import Rally.Runner.Progress
import Rally.Cloud.Scopes
import Rally.Cloud.Orphans
import Rally.Cloud.Sessions
import Rally.Cloud.Vouched
import Rally.Cloud.Endpoints
import Rally.Cloud.Sealing
import Rally.Cloud.Quarantine
import Rally.Ingress.RawHeaders
