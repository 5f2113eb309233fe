import Hmux.Auth.Steps
import Hmux.Auth.Finality
import Hmux.Diagnostics.Ring
import Hmux.Gateway.BootstrapRuns
import Hmux.Gateway.Budgets
import Hmux.Gateway.Completions
import Hmux.Gateway.Correlation
import Hmux.Gateway.Isolation
import Hmux.Gateway.Limiter
import Hmux.Gateway.Uploads
import Hmux.Gateway.View
import Hmux.Home.PeerRuns
import Hmux.Home.ProviderKeys
import Hmux.Home.Send
import Hmux.Lib.Civil
import Hmux.Protocol.ActionsJson
import Hmux.Protocol.BoundedJson
import Hmux.Protocol.Frames
import Hmux.Protocol.SnapshotsModel
import Hmux.Protocol.UsageAgreement
import Hmux.Push.Runs
import Hmux.Recovery.Layout
import Hmux.Recovery.Lineage
import Hmux.Terminal.Credit
import Hmux.Transport.Runs
import Hmux.Upload.Agreement
import Hmux.Usage.ActivityRuns
import Hmux.Usage.FleetPublish
import Hmux.Usage.QuotaFresh
import Hmux.UsagePreferences.Runs
import Hmux.Workflow.Frame
import Hmux.Workspace.MergeOrder
import Hmux.Workspace.Runs
import Hmux.TabCompletions.Runs
import Hmux.Home.CompletionPolls
import Hmux.Home.CompletionTasks
