import Plico.Model.Memory.Reread
import Plico.Proof.Api.Connection
import Plico.Proof.Cas.Files
import Plico.Proof.Fs.CircuitBreaker
import Plico.Proof.Fs.Deletion
import Plico.Proof.Fs.GraphConflicts
import Plico.Proof.Fs.GraphContent
import Plico.Proof.Fs.Independence
import Plico.Proof.Fs.VectorFile
import Plico.Proof.Kernel.CostLedger
import Plico.Proof.Kernel.Credentials
import Plico.Proof.Kernel.EventBus
import Plico.Proof.Kernel.GrantFile
import Plico.Proof.Kernel.IntentFile
import Plico.Proof.Kernel.Privacy
import Plico.Proof.Kernel.Sessions
import Plico.Proof.Kernel.Shutdown
import Plico.Proof.Kernel.Tasks
import Plico.Proof.Layered.Quota
import Plico.Proof.Layered.ReadPaths
import Plico.Proof.Memory.Preimage
import Plico.Proof.Memory.Reread
import Plico.Proof.Migrate.Totality
import Plico.Proof.Projection.Fencing
import Plico.Proof.Scheduler.Names
import Plico.Proof.Scheduler.Queue
import Plico.Proof.Scheduler.Suspension
