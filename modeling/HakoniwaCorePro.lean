import HakoniwaCorePro.Runs
import HakoniwaCorePro.FirstMatch
import HakoniwaCorePro.Fallible
import HakoniwaCorePro.RecvEventTable
import HakoniwaCorePro.Turn
import HakoniwaCorePro.RecvEventGate
import HakoniwaCorePro.Mailbox
import HakoniwaCorePro.RpcChannel
import HakoniwaCorePro.ServiceRegistration
import HakoniwaCorePro.ClientSlots
import HakoniwaCorePro.ResponseReads
import HakoniwaCorePro.RecvEventRuns
import HakoniwaCorePro.ServiceProtocol
import HakoniwaCorePro.ServiceServer
import HakoniwaCorePro.ServerRuns
import HakoniwaCorePro.ServerTurn
import HakoniwaCorePro.ServerIsolation
import HakoniwaCorePro.ServiceBus
import HakoniwaCorePro.ServerFairness
import HakoniwaCorePro.RunStart
import HakoniwaCorePro.ServiceClient
import HakoniwaCorePro.Exchange
import HakoniwaCorePro.RpcSession
import HakoniwaCorePro.RpcExactlyOnce
import HakoniwaCorePro.ClientOps
import HakoniwaCorePro.ClientTrack
import HakoniwaCorePro.ClientTimeout
import HakoniwaCorePro.ClientProgress
import HakoniwaCorePro.ClientRequest
import HakoniwaCorePro.ProgressReports
import HakoniwaCorePro.ResponseNames
import HakoniwaCorePro.CoreAttach
import HakoniwaCorePro.RuntimeRecovery
import HakoniwaCorePro.LauncherRuns
import HakoniwaCorePro.LauncherTruth
import HakoniwaCorePro.ServiceSetup
import HakoniwaCorePro.ServiceLoad
import HakoniwaCorePro.ConfigLimits
import HakoniwaCorePro.MissCache
import HakoniwaCorePro.ServiceLookups
import HakoniwaCorePro.SetupRetry
import HakoniwaCorePro.ClientRecreate
import HakoniwaCorePro.PointerMap
import HakoniwaCorePro.ServerRegistry
import HakoniwaCorePro.SessionMemory
import HakoniwaCorePro.RuntimeRemoval
import HakoniwaCorePro.AssetSteps
import HakoniwaCorePro.AssetInstance
import HakoniwaCorePro.FirstOccurrences
import HakoniwaCorePro.PduKeys
import HakoniwaCorePro.SamplingGrid
import HakoniwaCorePro.Conductor
import HakoniwaCorePro.Kahn
import HakoniwaCorePro.LaunchSpec
import HakoniwaCorePro.LaunchOrder
import HakoniwaCorePro.PathList
import HakoniwaCorePro.EnvMerge
import HakoniwaCorePro.ChildEnv
import HakoniwaCorePro.JsonString
import HakoniwaCorePro.SimpleYaml
import HakoniwaCorePro.YamlBlocks
import HakoniwaCorePro.BuildConfig
import HakoniwaCorePro.ResolvedManifest
import HakoniwaCorePro.PreparedBuild
import HakoniwaCorePro.ConcurrentClients
import HakoniwaCorePro.ClientsAtomic
import HakoniwaCorePro.ClientsReturn
import HakoniwaCorePro.LaunchRuntime
import HakoniwaCorePro.LeadsTo
import HakoniwaCorePro.RoundRobin
import HakoniwaCorePro.RpcLiveness
import HakoniwaCorePro.YamlLayout
import HakoniwaCorePro.YamlTidy
import HakoniwaCorePro.ClientHandles
import HakoniwaCorePro.NativeBuild
import HakoniwaCorePro.RpcRuns
import HakoniwaCorePro.ChannelReceivers
import HakoniwaCorePro.ServiceWiring
import HakoniwaCorePro.ServicesTogether
