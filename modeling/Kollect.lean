import Kollect.Collect.InformerScope
import Kollect.Collect.InFlight
import Kollect.Collect.Unregister
import Kollect.Collect.Reregister
import Kollect.Controller.ClusterReconcile
import Kollect.Controller.StoreSource
import Kollect.Controller.FingerprintCache
import Kollect.Sink.Git.PruneErrors
import Kollect.Controller.Preview
import Kollect.Controller.RollupOrder
import Kollect.Controller.SinkCleanup
import Kollect.Sink.SetHistory
import Kollect.Sink.Git.MergeTarget
import Kollect.Sink.Gitlab.Branch
import Kollect.Sink.PoolFence
import Kollect.Sink.PostgresBulk
import Kollect.Sink.Bigquery
import Kollect.Sink.Mongodb
import Kollect.Collect.Encodable
import Kollect.Collect.PrunePath
import Kollect.Sink.SetVerify
import Kollect.Sink.Git.RecordBytes
import Kollect.Validation.GitRef
import Kollect.Inventory.Memory
import Kollect.Validation.EndpointGuard
import Kollect.Collect.Access
