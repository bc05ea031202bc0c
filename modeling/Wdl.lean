import Wdl.Workflow.PayloadLimit
import Wdl.Workflow.Delivery
import Wdl.Workflow.Results
import Wdl.Workflow.Retries
import Wdl.Workflow.Admission
import Wdl.Workflow.Pages
import Wdl.Control.Activations
import Wdl.Control.Guarantees
import Wdl.Auth.Quota
import Wdl.Auth.Revocation
import Wdl.Gateway.Coherence
import Wdl.Runtime.Admission
import Wdl.Queue.Delivery
import Wdl.DurableObject.AlarmDelete
import Wdl.Control.HostMirror
import Wdl.D1.Retryable
import Wdl.Workflow.Indexes
import Wdl.D1.Migrations
import Wdl.Gateway.Patterns
import Wdl.S3.Cleanup
import Wdl.Control.LogsTail
import Wdl.Control.Catalogue
import Wdl.Queue.Budget
import Wdl.D1.ReadCache
