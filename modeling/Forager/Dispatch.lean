import Forager.ConfigSync
import Forager.Signing

/-!
# Message dispatch

`HandleMessage` of `pkg/ws/handler.go` with `handleRequest` and
`handleLegacyRequest`, up to the call they make: of a proxy's `HandleRequest`,
of the config sync or of the config test. Every stage decodes the same message
text again, each into a struct of its own.
-/

namespace Forager

open GoJson JsonText Go

/-! ## The structs -/

structure EnvelopeBody where
  actionName : String := ""
deriving DecidableEq

structure Envelope where
  action : String := ""
  requestID : String := ""
  datasourceID : String := ""
  body : EnvelopeBody := {}
deriving DecidableEq

def envelopeBodyFields : List (StructField EnvelopeBody) :=
  [field "action_name" (·.actionName) (fun b v => { b with actionName := v }) string]

def envelopeFields : List (StructField Envelope) :=
  [field "action" (·.action) (fun e v => { e with action := v }) string,
   field "request_id" (·.requestID) (fun e v => { e with requestID := v }) string,
   field "datasource_id" (·.datasourceID) (fun e v => { e with datasourceID := v }) string,
   field "body" (·.body) (fun e v => { e with body := v }) (struct envelopeBodyFields)]

def envelope (msg : Text) : Envelope × Bool := unmarshal {} (struct envelopeFields) msg

abbrev Header := StrMap (Option (List String))

def headerDecoder : Decoder (Option Header) := mapOf none (freshSliceOf "" string)

/-- `map[string]any`. -/
def paramsDecoder : Decoder (Option (StrMap Any)) := mapOf .nil any

structure ActionRequest where
  requestID : String := ""
  datasourceID : String := ""
  action : String := ""
  params : Option (StrMap Any) := none
  method : String := ""
  url : String := ""
  header : Option Header := none
  body : String := ""
deriving DecidableEq

def actionRequestFields : List (StructField ActionRequest) :=
  [field "request_id" (·.requestID) (fun r v => { r with requestID := v }) string,
   field "datasource_id" (·.datasourceID) (fun r v => { r with datasourceID := v }) string,
   field "action" (·.action) (fun r v => { r with action := v }) string,
   field "params" (·.params) (fun r v => { r with params := v }) paramsDecoder,
   field "method" (·.method) (fun r v => { r with method := v }) string,
   field "url" (·.url) (fun r v => { r with url := v }) string,
   field "header" (·.header) (fun r v => { r with header := v }) headerDecoder,
   field "body" (·.body) (fun r v => { r with body := v }) string]

def actionRequest (msg : Text) : ActionRequest × Bool :=
  unmarshal {} (struct actionRequestFields) msg

structure LegacyBody where
  actionName : String := ""
  actionParams : Option (StrMap Any) := none

structure LegacyAction where
  body : LegacyBody := {}
  requestID : String := ""

def legacyBodyFields : List (StructField LegacyBody) :=
  [field "action_name" (·.actionName) (fun b v => { b with actionName := v }) string,
   field "action_params" (·.actionParams) (fun b v => { b with actionParams := v }) paramsDecoder]

def legacyActionFields : List (StructField LegacyAction) :=
  [field "body" (·.body) (fun r v => { r with body := v }) (struct legacyBodyFields),
   field "request_id" (·.requestID) (fun r v => { r with requestID := v }) string]

def legacyAction (msg : Text) : LegacyAction × Bool := unmarshal {} (struct legacyActionFields) msg

structure LegacyHTTP where
  method : String := ""
  url : String := ""
  header : Option Header := none
  body : String := ""

def legacyHTTPFields : List (StructField LegacyHTTP) :=
  [field "method" (·.method) (fun r v => { r with method := v }) string,
   field "url" (·.url) (fun r v => { r with url := v }) string,
   field "header" (·.header) (fun r v => { r with header := v }) headerDecoder,
   field "body" (·.body) (fun r v => { r with body := v }) string]

def legacyHTTP (msg : Text) : LegacyHTTP × Bool := unmarshal {} (struct legacyHTTPFields) msg

/-- `map[string]string`. -/
def credsDecoder : Decoder (Option Creds) := mapOf "" string

/-- An element of `datasources` while it is decoded. -/
structure DatasourceCell where
  id : String := ""
  type : String := ""
  proxyType : String := ""
  name : String := ""
  config : Option (StrMap Any) := none
  credentials : Option Creds := none
  credentialSource : String := ""
  credentialRef : String := ""
  allowedHosts : Slice String := .nil

def DatasourceCell.value (c : DatasourceCell) : Datasource :=
  ⟨c.id, c.type, c.proxyType, c.name, c.config, c.credentials, c.credentialSource,
    c.credentialRef, c.allowedHosts.elems⟩

def datasourceFields : List (StructField DatasourceCell) :=
  [field "id" (·.id) (fun c v => { c with id := v }) string,
   field "type" (·.type) (fun c v => { c with type := v }) string,
   field "proxy_type" (·.proxyType) (fun c v => { c with proxyType := v }) string,
   field "name" (·.name) (fun c v => { c with name := v }) string,
   field "config" (·.config) (fun c v => { c with config := v }) paramsDecoder,
   field "credentials" (·.credentials) (fun c v => { c with credentials := v }) credsDecoder,
   field "credential_source" (·.credentialSource) (fun c v => { c with credentialSource := v })
     string,
   field "credential_ref" (·.credentialRef) (fun c v => { c with credentialRef := v }) string,
   field "allowed_hosts" (·.allowedHosts) (fun c v => { c with allowedHosts := v })
     (sliceOf "" string)]

def datasourcesDecoder : Decoder (Slice DatasourceCell) := sliceOf {} (struct datasourceFields)

structure ConfigPush where
  action : String := ""
  accountID : String := ""
  datasources : Slice DatasourceCell := .nil

def configPushFields : List (StructField ConfigPush) :=
  [field "action" (·.action) (fun p v => { p with action := v }) string,
   field "account_id" (·.accountID) (fun p v => { p with accountID := v }) string,
   field "datasources" (·.datasources) (fun p v => { p with datasources := v })
     datasourcesDecoder]

def configPush (msg : Text) : ConfigPush × Bool := unmarshal {} (struct configPushFields) msg

/-- The datasources of a push, as `handleConfigSync` reads them. -/
def ConfigPush.values (p : ConfigPush) : Option (List Datasource) :=
  p.datasources.elems.map (·.map DatasourceCell.value)

/-- A `test_datasource_config` message: its datasource has no id and no name. -/
structure TestConfig where
  action : String := ""
  datasource : DatasourceCell := {}

def testDatasourceFields : List (StructField DatasourceCell) :=
  datasourceFields.filter fun f => f.tag ∉ ["id", "name"]

def testConfigFields : List (StructField TestConfig) :=
  [field "action" (·.action) (fun r v => { r with action := v }) string,
   field "datasource" (·.datasource) (fun r v => { r with datasource := v })
     (struct testDatasourceFields)]

def testConfig (msg : Text) : TestConfig × Bool := unmarshal {} (struct testConfigFields) msg

/-! ## Routing -/

def signedActions : List String :=
  ["datasource_config_sync", "db_query", "db_execute", "db_metadata", "ssh_command", "ssh_upload",
   "ssh_download", "ssh_list_dir", "http_request", "mcp_request", "mongo_query",
   "mongo_aggregate", "mongo_server_status", "mongo_repl_status", "mongo_collection_stats",
   "mongo_current_ops", "mongo_db_stats", "mongo_list_databases", "mongo_list_collections",
   "redis_command", "redis_info", "redis_info_section", "redis_slowlog", "redis_client_list",
   "redis_memory_stats", "redis_cluster_info", "redis_keyspace_stats", "kafka_consumer_lag",
   "kafka_consumer_groups", "kafka_consumer_group_describe", "kafka_topics",
   "kafka_topic_describe", "kafka_brokers", "kafka_topic_offsets", "test_datasource_config",
   "discovery_sweep", "discovery_ldap", "discovery_inventory"]

inductive ReplyError
  | signature
  | datasourceNotFound (id : String)
  | invalidRequest
  | missingDatasourceID
  | noHTTPProxy
  | ambiguousHTTPProxy (n : Nat)
  | unrecognized
deriving DecidableEq, Repr

def ReplyError.status : ReplyError → Nat
  | .signature => 403
  | .datasourceNotFound _ | .noHTTPProxy => 404
  | .invalidRequest | .missingDatasourceID | .ambiguousHTTPProxy _ | .unrecognized => 400

def ReplyError.code : ReplyError → String
  | .datasourceNotFound _ | .noHTTPProxy => "datasource_not_found"
  | .ambiguousHTTPProxy _ => "ambiguous_datasource"
  | _ => ""

/-- The struct whose decoding failed when `HandleMessage` returns an error. -/
inductive Undecoded
  | envelope | configPush | testConfig
deriving DecidableEq, Repr

/-- What `HandleMessage` does with a message. -/
inductive Dispatch (P : Type)
  | configSync (push : ConfigPush)
  | testConfig (req : TestConfig)
  | request (p : P) (req : ActionRequest)
  | legacyAction (p : P) (req : ActionRequest)
  | legacyHTTP (p : P) (req : ActionRequest)
  | reply (err : ReplyError)
  | failed (what : Undecoded)

/-- `Handler`; `typeOf` is `Proxy.Type`. -/
structure Handler (P : Type) where
  registry : Registry P
  typeOf : P → String
  verifier : Option Verifier

variable {P : Type}

/-- The request that a legacy action stands for: `action_params` is marshalled
and decoded as an `ActionRequest`, errors ignored. -/
def LegacyAction.toRequest (r : LegacyAction) (datasourceID : String) : ActionRequest :=
  let params := r.body.actionParams
  let req := (unmarshal {} (struct actionRequestFields)
    (print (params.elim .null fun m => ofAny (.map m)))).1
  { req with requestID := r.requestID, action := r.body.actionName, datasourceID, params }

def httpProxies (h : Handler P) : List P :=
  (h.registry.proxies.keys.filterMap h.registry.proxies.lookup).filter (h.typeOf · = "http-proxy")

def handleLegacyRequest (h : Handler P) (msg : Text) : Dispatch P :=
  let (actionReq, ok) := legacyAction msg
  if ok ∧ actionReq.body.actionName ≠ "" then
    let datasourceID := Any.asString ((actionReq.body.actionParams.getD []).get "datasource_id")
    if datasourceID = "" then .reply .missingDatasourceID
    else match h.registry.proxies.lookup datasourceID with
      | none => .reply (.datasourceNotFound datasourceID)
      | some p => .legacyAction p (actionReq.toRequest datasourceID)
  else
    let (httpReq, ok) := legacyHTTP msg
    if ok ∧ httpReq.url ≠ "" then
      match httpProxies h with
      | [] => .reply .noHTTPProxy
      | [p] => .legacyHTTP p
          { method := httpReq.method, url := httpReq.url, header := httpReq.header,
            body := httpReq.body }
      | ps => .reply (.ambiguousHTTPProxy ps.length)
    else .reply .unrecognized

def handleRequest (h : Handler P) (msg : Text) (datasourceID : String) : Dispatch P :=
  if datasourceID = "" then handleLegacyRequest h msg
  else match h.registry.proxies.lookup datasourceID with
    | none => .reply (.datasourceNotFound datasourceID)
    | some p => match actionRequest msg with
      | (_, false) => .reply .invalidRequest
      | (req, true) => .request p req

/-- The switch of `HandleMessage`. -/
def route (h : Handler P) (env : Envelope) (msg : Text) : Dispatch P :=
  if env.action = "datasource_config_sync" then
    match configPush msg with
    | (_, false) => .failed .configPush
    | (push, true) => .configSync push
  else if env.action = "test_datasource_config" then
    match testConfig msg with
    | (_, false) => .failed .testConfig
    | (req, true) => .testConfig req
  else handleRequest h msg env.datasourceID

def handleMessage (ed : Ed25519) (h : Handler P) (clock : Clock) (msg : Text) :
    Dispatch P × Option Verifier :=
  match envelope msg with
  | (_, false) => (.failed .envelope, h.verifier)
  | (env, true) =>
    let effectiveAction := if env.action = "" then env.body.actionName else env.action
    match h.verifier with
    | none => (route h env msg, none)
    | some v =>
      if effectiveAction ∈ signedActions ∨ v.enabled then
        match verify ed v clock msg with
        | (.ok (), v') => (route h env msg, some v')
        | (.error _, v') =>
          (if v.enabled then .reply .signature else route h env msg, some v')
      else (route h env msg, some v)

namespace DispatchLemmas

/-! ## The fields of the structs -/

theorem envelopeFields_distinct : (envelopeFields.map (foldName ·.tag)).Nodup := by decide

theorem actionRequestFields_distinct : (actionRequestFields.map (foldName ·.tag)).Nodup := by
  decide

theorem configPushFields_distinct : (configPushFields.map (foldName ·.tag)).Nodup := by decide

theorem envelope_action : Decodes envelopeFields "action" (·.action) string :=
  ⟨envelopeFields_distinct, by decide, by simp [envelopeFields, field]⟩

theorem envelope_datasourceID : Decodes envelopeFields "datasource_id" (·.datasourceID) string :=
  ⟨envelopeFields_distinct, by decide, by simp [envelopeFields, field]⟩

theorem request_action : Decodes actionRequestFields "action" (·.action) string :=
  ⟨actionRequestFields_distinct, by decide, by simp [actionRequestFields, field]⟩

theorem request_datasourceID :
    Decodes actionRequestFields "datasource_id" (·.datasourceID) string :=
  ⟨actionRequestFields_distinct, by decide, by simp [actionRequestFields, field]⟩

theorem request_params : Decodes actionRequestFields "params" (·.params) paramsDecoder :=
  ⟨actionRequestFields_distinct, by decide, by simp [actionRequestFields, field]⟩

theorem request_method : Decodes actionRequestFields "method" (·.method) string :=
  ⟨actionRequestFields_distinct, by decide, by simp [actionRequestFields, field]⟩

theorem request_url : Decodes actionRequestFields "url" (·.url) string :=
  ⟨actionRequestFields_distinct, by decide, by simp [actionRequestFields, field]⟩

theorem request_header : Decodes actionRequestFields "header" (·.header) headerDecoder :=
  ⟨actionRequestFields_distinct, by decide, by simp [actionRequestFields, field]⟩

theorem push_action : Decodes configPushFields "action" (·.action) string :=
  ⟨configPushFields_distinct, by decide, by simp [configPushFields, field]⟩

theorem push_datasources :
    Decodes configPushFields "datasources" (·.datasources) datasourcesDecoder :=
  ⟨configPushFields_distinct, by decide, by simp [configPushFields, field]⟩

end DispatchLemmas

/-- The datasource that a run of objects fills one variable with: each field
from the members spelled like its tag. -/
def readDatasource (objs : List Json) : Datasource :=
  let run (tag : String) : List Json := objs.flatMap fun j => spelled tag (members j)
  { id := stored string "" (run "id")
    type := stored string "" (run "type")
    proxyType := stored string "" (run "proxy_type")
    name := stored string "" (run "name")
    config := stored paramsDecoder none (run "config")
    credentials := stored credsDecoder none (run "credentials")
    credentialSource := stored string "" (run "credential_source")
    credentialRef := stored string "" (run "credential_ref")
    allowedHosts := (stored (sliceOf "" string) .nil (run "allowed_hosts")).elems }

namespace DispatchLemmas

theorem datasource_decodes {τ : Type} {tag : String} {get : DatasourceCell → τ} {d : Decoder τ}
    (hmem : tag ∈ datasourceFields.map (·.tag))
    (hstep : ∀ f ∈ datasourceFields, ∀ s j,
      get (f.decode s j).1 = if f.tag = tag then (d (get s) j).1 else get s) (objs : List Json) :
    get (stored (struct datasourceFields) {} objs) =
      stored d (get {}) (objs.flatMap fun j => spelled tag (members j)) :=
  Decodes.stored_get ⟨by decide, hmem, hstep⟩ {} objs

theorem stored_datasource (objs : List Json) :
    (stored (struct datasourceFields) {} objs).value = readDatasource objs := by
  unfold DatasourceCell.value readDatasource
  congr 1
  case e_allowedHosts =>
    exact congrArg Slice.elems
      (datasource_decodes (by decide) (by simp [datasourceFields, field]) objs)
  all_goals exact datasource_decodes (by decide) (by simp [datasourceFields, field]) objs

/-! ## Verified dispatch -/

def Dispatched {P : Type} : Dispatch P → Prop
  | .reply _ | .failed _ => False
  | _ => True

theorem handleMessage_verified {P : Type} {ed : Ed25519} {h : Handler P} {v : Verifier}
    {clock : Clock} {msg : Text} (hv : h.verifier = some v) (hen : v.enabled = true)
    (hd : Dispatched (handleMessage ed h clock msg).1) :
    (verify ed v clock msg).1 = .ok () ∧
      ∃ env, envelope msg = (env, true) ∧ (handleMessage ed h clock msg).1 = route h env msg := by
  unfold handleMessage at hd ⊢
  rcases he : envelope msg with ⟨env, _ | _⟩
  · simp only [he, Dispatched] at hd
  · simp only [he, hv, hen, or_true, if_true] at hd ⊢
    rcases hver : verify ed v clock msg with ⟨_ | ⟨⟩, v'⟩
    · simp only [hver, Dispatched] at hd
    · exact ⟨rfl, env, rfl, rfl⟩

end DispatchLemmas

end Forager
