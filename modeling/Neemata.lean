import Neemata.Workflows.InMemory.Statuses
import Neemata.Workflows.InMemory.DeadLetters
import Neemata.Workflows.Postgres.DedupIndex
import Neemata.Workflows.InMemory.Deletion
import Neemata.Workflows.Coordinator.LeaseFence
import Neemata.Workflows.Worker.RetryBudget
import Neemata.Workflows.Worker.CancellationKept
import Neemata.Workflows.Worker.CompletionReplayed
import Neemata.Protocol.RoundTrip
import Neemata.Rpc.StreamCredit
import Neemata.Workflows.InMemory.ScheduleUpdates
import Neemata.Workflows.Worker.PoolSound
import Neemata.Ws.BlobDiscipline
import Neemata.Host.Convergence
import Neemata.Common.PoolAccounting
import Neemata.Host.Recovery
import Neemata.Common.OperationDiscipline
import Neemata.Host.Teardown
import Neemata.Core.DisposalOnce
import Neemata.Core.DisposalOrder
import Neemata.PubSub.RedisCounting
import Neemata.Application.MiddlewareOrder
import Neemata.Ws.CallScope
import Neemata.Application.HostTeardown
import Neemata.Http.Exchange
import Neemata.Application.RouteTable
import Neemata.Client.AbortFrames
import Neemata.Client.Leaving
import Neemata.Ws.FreshIds
import Neemata.Client.Uploads
import Neemata.Workflows.Routeability
import Neemata.Workflows.WatchRun
import Neemata.Ws.RpcAdmission
import Neemata.Workflows.InMemory.Listing
import Neemata.Workflows.InMemory.Intervals
import Neemata.Workflows.Postgres.Idempotence
import Neemata.Workflows.InMemory.ValueKeys
import Neemata.Client.EventStream
import Neemata.Http.CorsGrants
import Neemata.Http.HostStops
import Neemata.PubSub.StreamDelivery
import Neemata.Common.DuplexFlow
import Neemata.JsonRpc.Batches
import Neemata.Neem.BuildOutputs
import Neemata.Http.BodyArrives
import Neemata.Labels.CreatorCalls
import Neemata.Workflows.Coordinator.NodeOrder
import Neemata.Workflows.Coordinator.MapWindow
