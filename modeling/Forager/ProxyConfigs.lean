import Forager.GoText
import Forager.HttpTarget
import Forager.SshAccess

/-!
# What the proxies decode from a configuration

The part of `Configure` of every proxy package that reads the pushed map, before
credentials and connections. Six packages marshal the map to JSON and decode it into
a `Config` struct; the HTTP and the MCP proxy take single entries by type assertion,
and an entry of another type counts as absent.

`pushedConfig` is the configuration that a push leaves in a new proxy, and
`ProxyConfig.strings` its settings of type string.
-/

namespace Forager

open Go GoJson GoUrl
open GoText (utf8)

inductive DecodeError
  /-- The error of `json.Unmarshal` behind this text. -/
  | parsing (what : String)
  | invalid (text : String)
  | base (err : BaseError)
deriving DecidableEq, Repr

/-! ## Structs -/

/-- `json.Unmarshal` into the struct of a package. -/
def decodeStruct {σ : Type} (what : String) (zero : σ) (fields : List (StructField σ))
    (config : StrMap Any) : Except DecodeError σ :=
  let r := remarshal zero fields config
  if r.2 then .ok r.1 else .error (.parsing what)

structure SqlSettings where
  host : String
  port : Int
  database : String
  sslMode : String
  tlsEnabled : Bool
  maxOpen : Int
  maxIdle : Int
  maxLifetime : Int
deriving DecidableEq, Repr

def SqlSettings.zero : SqlSettings := ⟨"", 0, "", "", false, 0, 0, 0⟩

def sqlFields : List (StructField SqlSettings) :=
  [field "host" (·.host) (fun s v => { s with host := v }) string,
   field "port" (·.port) (fun s v => { s with port := v }) int,
   field "database" (·.database) (fun s v => { s with database := v }) string,
   field "ssl_mode" (·.sslMode) (fun s v => { s with sslMode := v }) string,
   field "tls_enabled" (·.tlsEnabled) (fun s v => { s with tlsEnabled := v }) bool,
   field "max_open_connections" (·.maxOpen) (fun s v => { s with maxOpen := v }) int,
   field "max_idle_connections" (·.maxIdle) (fun s v => { s with maxIdle := v }) int,
   field "max_lifetime_sec" (·.maxLifetime) (fun s v => { s with maxLifetime := v }) int]

structure MongoSettings where
  host : String
  port : Int
  database : String
  replicaSet : String
  authSource : String
  tlsEnabled : Bool
deriving DecidableEq, Repr

def MongoSettings.zero : MongoSettings := ⟨"", 0, "", "", "", false⟩

def mongoFields : List (StructField MongoSettings) :=
  [field "host" (·.host) (fun s v => { s with host := v }) string,
   field "port" (·.port) (fun s v => { s with port := v }) int,
   field "database" (·.database) (fun s v => { s with database := v }) string,
   field "replica_set" (·.replicaSet) (fun s v => { s with replicaSet := v }) string,
   field "auth_source" (·.authSource) (fun s v => { s with authSource := v }) string,
   field "tls_enabled" (·.tlsEnabled) (fun s v => { s with tlsEnabled := v }) bool]

structure RedisSettings where
  host : String
  port : Int
  db : Int
  tlsEnabled : Bool
deriving DecidableEq, Repr

def RedisSettings.zero : RedisSettings := ⟨"", 0, 0, false⟩

def redisFields : List (StructField RedisSettings) :=
  [field "host" (·.host) (fun s v => { s with host := v }) string,
   field "port" (·.port) (fun s v => { s with port := v }) int,
   field "db" (·.db) (fun s v => { s with db := v }) int,
   field "tls_enabled" (·.tlsEnabled) (fun s v => { s with tlsEnabled := v }) bool]

structure KafkaSettings where
  brokers : String
  saslMechanism : String
  tlsEnabled : Bool
deriving DecidableEq, Repr

def KafkaSettings.zero : KafkaSettings := ⟨"", "", false⟩

def kafkaFields : List (StructField KafkaSettings) :=
  [field "brokers" (·.brokers) (fun s v => { s with brokers := v }) string,
   field "sasl_mechanism" (·.saslMechanism) (fun s v => { s with saslMechanism := v }) string,
   field "tls_enabled" (·.tlsEnabled) (fun s v => { s with tlsEnabled := v }) bool]

/-- `v == 0` takes the default. -/
def nonzeroOr (default v : Int) : Int := if v = 0 then default else v

def sqlDefaultPort : String → Int
  | "postgresql" => 5432
  | "mysql" => 3306
  | "mssql" => 1433
  | "clickhouse" => 9000
  | "oracle" => 1521
  | _ => 0

def applySqlDefaults (dbType : String) (cfg : SqlSettings) : SqlSettings :=
  { cfg with
    port := nonzeroOr (sqlDefaultPort dbType) cfg.port
    maxOpen := nonzeroOr 5 cfg.maxOpen
    maxIdle := nonzeroOr 2 cfg.maxIdle
    maxLifetime := nonzeroOr 300 cfg.maxLifetime }

def applyMongoDefaults (cfg : MongoSettings) : MongoSettings :=
  { cfg with
    port := nonzeroOr 27017 cfg.port
    authSource := if cfg.authSource = "" then "admin" else cfg.authSource }

def checkRedis (cfg : RedisSettings) : Except DecodeError RedisSettings :=
  if cfg.host = "" then .error (.invalid "redis host is required")
  else if cfg.port = 0 then .ok { cfg with port := 6379 }
  else if cfg.port < 1 ∨ cfg.port > 65535 then
    .error (.invalid ("invalid redis port: " ++ toString cfg.port))
  else .ok cfg

def checkKafka (cfg : KafkaSettings) : Except DecodeError KafkaSettings :=
  if cfg.brokers = "" then .error (.invalid "missing brokers configuration") else .ok cfg

/-! ## Single entries -/

/-- `http.Proxy` as far as `Configure` takes it from the map. -/
structure HttpSettings where
  baseURL : String
  base : URL
  authType : String
  tlsSkipVerify : Bool
  followRedirects : Bool
  dsType : String
  maxRespBytes : Int
deriving DecidableEq, Repr

def defaultMaxResponseBytes : Int := 256 * 2 ^ 20

/-- `max_response_bytes`, with a double beyond the range of `int64` clamped. -/
def maxResponseBytes : Option Any → Int
  | some (.int n) => if n > 0 then n else defaultMaxResponseBytes
  | some (.float f) =>
    if f.toInt ≥ 2 ^ 63 then 2 ^ 63 - 1
    else if f.toInt ≥ 1 then f.toInt
    else defaultMaxResponseBytes
  | _ => defaultMaxResponseBytes

def httpDecode (config : StrMap Any) : Except DecodeError HttpSettings :=
  let baseURL := Any.asString (config.get "base_url")
  match configureBase (utf8 baseURL) with
  | .error err => .error (.base err)
  | .ok base => .ok {
      baseURL := baseURL
      base := base
      authType := Any.asString (config.get "auth_type")
      tlsSkipVerify := Any.asBool (config.get "tls_skip_verify")
      followRedirects := Any.asBool (config.get "follow_redirects")
      dsType := Any.asString (config.get "datasource_type")
      maxRespBytes := maxResponseBytes (config.get "max_response_bytes") }

/-- `mcp.Proxy` as far as `Configure` takes it from the map. -/
structure McpSettings where
  transport : String
  authType : String
  url : String := ""
  command : String := ""
  args : String := ""
  workingDir : String := ""
  env : Option (StrMap String) := none
deriving DecidableEq, Repr

def mcpTransport (config : StrMap Any) : String :=
  let transport := Any.asString (config.get "transport")
  if transport = "" ∨ transport = "streamable_http" then "http" else transport

/-- The strings of the map `env`. -/
def mcpEnv : Option Any → Option (StrMap String)
  | some (.map env) => some (env.filterMap fun e => match e.2 with
    | .string s => some (e.1, s)
    | _ => none)
  | _ => none

/-- `Configure` of a new MCP proxy. -/
def mcpDecode (config : StrMap Any) : Except DecodeError McpSettings :=
  let transport := mcpTransport config
  let authType := Any.asString (config.get "auth_type")
  if transport = "http" ∨ transport = "sse" then
    let url := Any.asString (config.get "url")
    if url = "" then .error (.invalid ("url is required for MCP " ++ transport ++ " transport"))
    else .ok { transport, authType, url }
  else if transport = "stdio" then
    let command := Any.asString (config.get "command")
    if command = "" then .error (.invalid "command is required for MCP stdio transport")
    else .ok {
      transport, authType, command
      args := Any.asString (config.get "args")
      workingDir := Any.asString (config.get "working_dir")
      env := mcpEnv (config.get "env") }
  else .error (.invalid ("unsupported MCP transport: " ++ transport))

/-! ## All proxies -/

/-- The decoded configuration of a proxy. The SQL proxy also keeps the map, for the
`service_name` of `buildOracleDSN`. -/
inductive ProxyConfig
  | http (cfg : HttpSettings)
  | db (dbType : String) (cfg : SqlSettings) (serviceName : String) (readOnly : Bool)
  | mcp (cfg : McpSettings)
  | ssh (cfg : SshConfig)
  | mongo (cfg : MongoSettings)
  | redis (cfg : RedisSettings)
  | kafka (cfg : KafkaSettings)
  | discovery (cfg : DiscoveryConfig)
deriving DecidableEq, Repr

def decodeConfig (kind : ProxyKind) (config : StrMap Any) : Except DecodeError ProxyConfig :=
  match kind with
  | .http => do return .http (← httpDecode config)
  | .db dbType => do
    let cfg ← decodeStruct "parsing db config: " .zero sqlFields config
    return .db dbType (applySqlDefaults dbType cfg) (Any.asString (config.get "service_name"))
      (Any.asBool (config.get "read_only"))
  | .mcp => do return .mcp (← mcpDecode config)
  | .ssh => do
    let cfg ← decodeStruct "parsing ssh config: " .zero sshFields config
    return .ssh (applySshDefaults cfg)
  | .mongo => do
    let cfg ← decodeStruct "parsing mongo config: " .zero mongoFields config
    return .mongo (applyMongoDefaults cfg)
  | .redis => do
    let cfg ← decodeStruct "parsing redis config: " .zero redisFields config
    return .redis (← checkRedis cfg)
  | .kafka => do
    let cfg ← decodeStruct "parsing kafka config: " .zero kafkaFields config
    return .kafka (← checkKafka cfg)
  | .discovery => do
    let cfg ← decodeStruct "parsing discovery config: " .zero discoveryFields config
    return .discovery (applyConfigDefaults cfg)

/-- The settings of type string, by the name they have in the map. Only the Oracle
driver is given a service name. -/
def ProxyConfig.strings : ProxyConfig → List (String × String)
  | .http cfg =>
    [("base_url", cfg.baseURL), ("auth_type", cfg.authType), ("datasource_type", cfg.dsType)]
  | .db dbType cfg serviceName _ =>
    [("host", cfg.host), ("database", cfg.database), ("ssl_mode", cfg.sslMode)] ++
      if dbType = "oracle" then [("service_name", serviceName)] else []
  | .mcp cfg =>
    [("transport", cfg.transport), ("auth_type", cfg.authType), ("url", cfg.url),
      ("command", cfg.command), ("args", cfg.args), ("working_dir", cfg.workingDir)]
  | .ssh cfg => [("host", cfg.host), ("known_hosts", cfg.knownHosts), ("host_key", cfg.hostKey)]
  | .mongo cfg =>
    [("host", cfg.host), ("database", cfg.database), ("replica_set", cfg.replicaSet),
      ("auth_source", cfg.authSource)]
  | .redis cfg => [("host", cfg.host)]
  | .kafka cfg => [("brokers", cfg.brokers), ("sasl_mechanism", cfg.saslMechanism)]
  | .discovery cfg =>
    [("pack_public_key", cfg.packPublicKey), ("pack_dir", cfg.packDir),
      ("known_hosts_file", cfg.knownHostsFile), ("ldap.host", cfg.ldap.host),
      ("ldap.base_dn", cfg.ldap.baseDN)]

/-- What the proxy of a pushed datasource decodes from the map that `newProxyByType`
leaves. -/
def pushedConfig (proxyType dsType : String) (allowedHosts : List String) (config : StrMap Any) :
    Except DecodeError ProxyConfig :=
  match newProxyByType proxyType dsType config allowedHosts with
  | .error err => .error (.invalid err)
  | .ok (kind, config) => decodeConfig kind config

end Forager
