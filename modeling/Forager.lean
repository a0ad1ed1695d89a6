import Forager.Runs
import Forager.Registry
import Forager.GoValue
import Forager.ConfigSync
import Forager.LocalDatasources
import Forager.SyncRace
import Forager.Locks
import Forager.SshLocks
import Forager.GoNet
import Forager.Sweep
import Forager.Lines
import Forager.Base64
import Forager.When
import Forager.Pack
import Forager.PackSign
import Forager.FloatText
import Forager.Json
import Forager.JsonNumber
import Forager.JsonDecode
import Forager.JsonRuns
import Forager.JsonRaw
import Forager.JsonMarshal
import Forager.Scope
import Forager.DiscoveryConfig
import Forager.SshAccess
import Forager.PackTrust
import Forager.GoTime
import Forager.Calendar
import Forager.Signing
import Forager.Replay
import Forager.Dispatch
import Forager.Routing
import Forager.SignedValue
import Forager.Coverage
import Forager.SignVerify
import Forager.ReplayRace
import Forager.McpSession
import Forager.McpKept
import Forager.McpLedger
import Forager.StdioPipe
import Forager.StdioStart
import Forager.WsWriters
import Forager.RequestErrors
import Forager.HealthReport
import Forager.WsHealth
import Forager.WsQueue
import Forager.SweepRun
import Forager.FanOut
import Forager.Inventory
import Forager.CloudPush
import Forager.SweepExpand
import Forager.SweepOnce
import Forager.ConfigTest
import Forager.GoText
import Forager.GoCase
import Forager.DbQuery
import Forager.CaseOffsets
import Forager.GoUrl
import Forager.GoUrlPrint
import Forager.HttpTarget
import Forager.GoUrlPath
import Forager.HttpPath
import Forager.GoRange
import Forager.ServiceMap
import Forager.ServiceMapLog
import Forager.ServiceMapCounts
import Forager.ServiceMapContext
import Forager.ServiceMapOrder
import Forager.WhenEval
import Forager.WhenGrammar
import Forager.HostFacts
import Forager.PackVersions
import Forager.HostInventory
import Forager.ServiceMapResolve
import Forager.ServiceMapBytes
import Forager.QueryAll
import Forager.ScopeRejections
import Forager.SweepSchedule
import Forager.MongoQuery
import Forager.RedisCommand
import Forager.GoQuote
import Forager.ErrorPayload
import Forager.ConnPool
import Forager.SshPool
import Forager.SshPoolRun
import Forager.FlowControl
import Forager.SshExec
import Forager.RunCommand
import Forager.ConnInfo
import Forager.UriParts
import Forager.ConnStrings
import Forager.HexBytes
import Forager.ObjectGuid
import Forager.Reconnect
import Forager.OAuthToken
import Forager.LineScanner
import Forager.SseStream
import Forager.RegistryBooks
import Forager.SecretCache
import Forager.HealthTrigger
import Forager.KeyFiles
import Forager.ProxyConfigs
import Forager.StringSettings
import Forager.PrefixScope
import Forager.NonceBound
