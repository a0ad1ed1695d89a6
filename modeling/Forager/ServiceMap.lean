import Forager.GoRange
import Forager.GoNet
import Forager.GoText
import Forager.Registry
import Forager.GoValue
import Forager.Lines
import Mathlib.Data.Rat.Floor
import Mathlib.Data.String.Basic
import Mathlib.Order.Lex

/-!
# The service map of a VM fleet

`buildServiceMap` (`pkg/proxy/http/vmservicemap.go`) folds the vectors of some sixty queries
into hosts, services and edges. It is modelled from the query results on: `res i` is the
vector of query `i`, in the order the source builds its list of queries. Numbers are exact
rationals.

Go leaves two kinds of order open on the way, and both are arguments here (`Orders`): the
order of each `range` over a map, and the order in which `sort.Slice` leaves elements that
its comparator does not tell apart.
-/

namespace Forager

open Go GoRange

namespace ServiceMap

/-! ## Samples and records -/

structure Sample where
  metric : GoMap String
  value : ℚ

/-- `s.Metric[name]`: a label that is missing reads as the empty string. -/
def Sample.label (s : Sample) (name : String) : String := (s.metric.lookup name).getD ""

structure Listener where
  addr : String
  port : Int
deriving DecidableEq, Repr

structure Host where
  instanceID : String
  hostname : String
  ips : List String
  listeners : List Listener
deriving DecidableEq, Repr

/-- `serviceMapService`. `storeInstance` is the field `instance`, the store's instance label,
which is not part of the answer. -/
structure Service where
  storeInstance : String
  instanceID : String
  hostname : String
  containerID : String
  name : String
  kind : String
  image : String
  applicationTypes : List String
  listeners : List Listener
deriving DecidableEq, Repr

structure Edge where
  sourceHost : String
  sourceInstanceID : String
  sourceService : String
  sourceContainer : String
  destination : String
  destinationKind : String
  destinationName : String
  destinationHost : String
  destinationInstanceID : String
  destinationService : String
  destinationContainer : String
  protocol : String
  requests : ℚ
  errors : ℚ
  latencyMs : ℚ
  bytesSent : ℚ
  bytesReceived : ℚ
deriving DecidableEq, Repr

/-- The zero values of the records, which Go reads where a map has no entry. -/
def Host.zero : Host := ⟨"", "", [], []⟩

@[inherit_doc Host.zero]
def Service.zero : Service := ⟨"", "", "", "", "", "", "", [], []⟩

/-- `containerKey`: the store's instance label and the container id. -/
structure ContainerKey where
  inst : String
  container : String
deriving DecidableEq, Repr

/-- An (instance, container, destination), the source's `[3]string`. -/
structure Pair where
  inst : String
  container : String
  destination : String
deriving DecidableEq, Repr

structure EdgeKey where
  inst : String
  container : String
  destination : String
  kind : String
  name : String
  protocol : String
deriving DecidableEq, Repr

def EdgeKey.source (k : EdgeKey) : ContainerKey := ⟨k.inst, k.container⟩

def EdgeKey.pair (k : EdgeKey) : Pair := ⟨k.inst, k.container, k.destination⟩

namespace Sample

def containerKey (s : Sample) : ContainerKey := ⟨s.label "instance", s.label "container_id"⟩

def pair (s : Sample) : Pair :=
  ⟨s.label "instance", s.label "container_id", s.label "destination"⟩

def edgeKey (s : Sample) (protocol : String) : EdgeKey :=
  ⟨s.label "instance", s.label "container_id", s.label "destination",
    s.label "destination_workload_kind", s.label "destination_workload_name", protocol⟩

@[simp] theorem edgeKey_pair (s : Sample) (p : String) : (s.edgeKey p).pair = s.pair := rfl

@[simp] theorem edgeKey_protocol (s : Sample) (p : String) : (s.edgeKey p).protocol = p := rfl

end Sample

/-! ## Addresses and names -/

/-- `net.SplitHostPort`; its errors are only compared with `nil` here. -/
def splitHostPort (hostport : String) : Option (String × String) :=
  let cs := hostport.toList
  -- the port starts after the last colon
  match GoText.lastIndex cs [':'] with
  | none => none
  | some i =>
    -- `j` and `k` are the positions before which no bracket can stand
    let finish (host : List Char) (j k : ℕ) : Option (String × String) :=
      if '[' ∈ cs.drop j then none
      else if ']' ∈ cs.drop k then none
      else some (String.ofList host, String.ofList (cs.drop (i + 1)))
    if cs.head? = some '[' then
      -- the first `]` is expected just before the last colon
      match GoText.index cs [']'] with
      | none => none
      | some e => if e + 1 = i then finish ((cs.take e).drop 1) 1 (e + 1) else none
    else if ':' ∈ cs.take i then none
    else finish (cs.take i) 0 0

/-- `strings.Trim(s, "[]")`. -/
def trimBrackets (s : String) : String :=
  let bracket (c : Char) : Bool := c = '[' ∨ c = ']'
  String.ofList (Lines.trimRight bracket (s.toList.dropWhile bracket))

def isUnspecified (ip : GoNet.IP) : Bool := ip.to4 = some 0 ∨ ip = .b16 0

def hasSuffix (s p : String) : Bool := p.toList.isSuffixOf s.toList

def isServiceContainer (containerID : String) : Bool :=
  if containerID = "" then false
  else if hasSuffix containerID ".scope" || hasSuffix containerID ".slice" then false
  else containerID ≠ "/init.scope"

def serviceName (containerID : String) : String :=
  let id := Lines.trimRight (· = '/') containerID.toList
  match GoText.lastIndex id ['/'] with
  | some i => String.ofList (id.drop (i + 1))
  | none => String.ofList id

def serviceKind (containerID : String) : String :=
  if hasPrefix containerID "/docker/" then "docker"
  else if hasSuffix containerID ".service" then "systemd"
  else "other"

/-- `parseListener`; `collectHosts` has the same steps in its own loop. -/
def parseListener (addr : String) : Option Listener :=
  (splitHostPort addr).bind fun (_, port) => (atoi port).map fun n => ⟨addr, n⟩

def normalizeKind (kind : String) : String :=
  if kind ∈ ["vm", "private", "external", "localhost"] then kind else "external"

def destinationName (dest workloadName : String) : String :=
  let host := ((splitHostPort dest).map Prod.fst).getD dest
  if workloadName ≠ "" ∧ workloadName ≠ host ∧ workloadName ≠ dest then workloadName
  else if GoNet.parseIP (trimBrackets host) = none ∧ host ≠ "" then host
  else ""

/-! ## Counters -/

/-- `math.Round`: halves away from zero. -/
def mathRound (x : ℚ) : ℚ :=
  if x < 0 then -((-x + 1 / 2).floor : ℚ) else ((x + 1 / 2).floor : ℚ)

def wholeCount (v : ℚ) : ℚ :=
  if v ≤ 0 then 0
  else if 1 ≤ mathRound v then mathRound v
  else 1

def sumByContainerPair (samples : List Sample) : AList fun _ : Pair => ℚ :=
  fill Sample.pair (fun s v => v + s.value) (fun _ => 0) ∅ samples

def edgeIdentity (s : Sample) : String :=
  "\x00".intercalate [s.label "instance", s.label "container_id", s.label "destination",
    s.label "destination_workload_kind", s.label "destination_workload_name"]

def indexByEdge (samples : List Sample) : GoMap ℚ :=
  fill edgeIdentity (fun s v => v + s.value) (fun _ => 0) ∅ samples

/-! ## The orders that are left open -/

def listenerLess (a b : Listener) : Bool := a.addr < b.addr

def serviceLess (a b : Service) : Bool :=
  if a.hostname ≠ b.hostname then a.hostname < b.hostname else a.name < b.name

def edgeLess (a b : Edge) : Bool :=
  if a.requests ≠ b.requests then b.requests < a.requests
  else if a.sourceService ≠ b.sourceService then a.sourceService < b.sourceService
  else a.destination < b.destination

/-- The choices one run of `buildServiceMap` meets: an order for each `range` over a map, in
the order of the source, and one for each `sort.Slice`. -/
structure Orders where
  hostKeys : Visit String
  serviceKeys : Visit ContainerKey
  resolverHosts : Visit String
  bestKeys : Visit EdgeKey
  bestPairs : Visit Pair
  edgeKeys : Visit EdgeKey
  listeners : Sorter listenerLess
  services : Sorter serviceLess
  edges : Sorter edgeLess

/-! ## Hosts -/

/-- Append a value to a slice that does not hold it (`contains`, `containsListener`). -/
def addNew {α : Type} [DecidableEq α] (l : List α) (v : α) : List α :=
  if v ∈ l then l else l ++ [v]

def hostTable (cloud info ips listen : List Sample) : GoMap Host :=
  let get := fun _ : String => Host.zero
  let inst := fun s : Sample => s.label "instance"
  let t := fill inst (fun s h => { h with instanceID := s.label "instance_id" }) get ∅ cloud
  let t := fill inst (fun s h => { h with hostname := s.label "hostname" }) get t info
  let t := fill inst (fun s h =>
    if s.label "ip" = "" then h else { h with ips := addNew h.ips (s.label "ip") }) get t ips
  fill inst (fun s h =>
    match parseListener (s.label "listen_addr") with
    | none => h
    | some l => { h with listeners := addNew h.listeners l }) get t listen

/-- What `collectHosts` answers for the instance `k`. -/
def finishHost (k : String) (h : Host) : Host :=
  { h with ips := sortValues h.ips, hostname := if h.hostname = "" then k else h.hostname }

def collectHosts (o : Orders) (cloud info ips listen : List Sample) : List Host × GoMap Host :=
  let by_ := hostTable cloud info ips listen
  let instances := sortValues (o.hostKeys.visit by_.keys)
  let host := fun k => finishHost k (entry (fun _ => Host.zero) by_ k)
  (instances.map host, instances.foldl (fun m k => m.insert k (host k)) ∅)

/-! ## Services -/

def newService (hosts : GoMap Host) (k : ContainerKey) : Service :=
  let h := (hosts.lookup k.inst).getD Host.zero
  { storeInstance := k.inst, instanceID := h.instanceID,
    hostname := if h.hostname = "" then k.inst else h.hostname,
    containerID := k.container, name := serviceName k.container, kind := serviceKind k.container,
    image := "", applicationTypes := [], listeners := [] }

def setImage (s : Sample) (sv : Service) : Service :=
  if s.label "image" = "" then sv else { sv with image := s.label "image" }

def addType (s : Sample) (sv : Service) : Service :=
  if s.label "application_type" = "" then sv
  else { sv with applicationTypes := addNew sv.applicationTypes (s.label "application_type") }

def addListener (s : Sample) (sv : Service) : Service :=
  match parseListener (s.label "listen_addr") with
  | none => sv
  | some l => { sv with listeners := addNew sv.listeners l }

def Sample.isService (s : Sample) : Bool := isServiceContainer (s.label "container_id")

/-- The map `by` of `collectServices`: the containers of `info`, and for these what the
other two vectors say. -/
def serviceTable (info appType listen : List Sample) (hosts : GoMap Host) :
    AList fun _ : ContainerKey => Service :=
  let t := fill Sample.containerKey setImage (newService hosts) ∅ (info.filter Sample.isService)
  let t := (appType.filter Sample.isService).foldl
    (fun t s => adjust s.containerKey (addType s) t) t
  listen.foldl (fun t s => adjust s.containerKey (addListener s) t) t

def finishService (o : Orders) (sv : Service) : Service :=
  { sv with
    applicationTypes := sortValues sv.applicationTypes
    listeners := o.listeners.sort sv.listeners }

def collectServices (o : Orders) (info appType listen : List Sample) (hosts : GoMap Host) :
    List Service × AList fun _ : ContainerKey => Service :=
  let by_ := serviceTable info appType listen hosts
  let visited := (o.serviceKeys.visit by_.keys).map fun k =>
    (k, finishService o (entry (newService hosts) by_ k))
  (o.services.sort (visited.map Prod.snd), visited.foldl (fun m e => m.insert e.1 e.2) ∅)

/-! ## Destinations -/

structure Resolved where
  hostname : String
  instanceID : String
  service : String
  container : String
  ownerInstance : String
deriving DecidableEq, Repr

/-- A destination the store does not know. -/
def Resolved.none : Resolved := ⟨"", "", "", "", ""⟩

/-- `skip`: a service calling itself. -/
def Resolved.skip (r : Resolved) (src : ContainerKey) : Bool :=
  r.container ≠ "" ∧ r.ownerInstance = src.inst ∧ r.container = src.container

structure Resolver where
  instancesByIP : GoMap (List String)
  hosts : GoMap Host
  services : GoMap (List Service)

def appendAt {β : Type} (k : String) (v : β) (m : GoMap (List β)) : GoMap (List β) :=
  upd (fun _ => []) k (· ++ [v]) m

def newDestinationResolver (o : Orders) (byInstance : GoMap Host) (services : List Service) :
    Resolver where
  instancesByIP := (o.resolverHosts.visit byInstance.keys).foldl (fun m inst =>
    ((byInstance.lookup inst).getD Host.zero).ips.foldl (fun m ip => appendAt ip inst m) m) ∅
  hosts := byInstance
  services := services.foldl (fun m sv => appendAt sv.storeInstance sv m) ∅

/-- How a service listens for an address: on it, or on all addresses. -/
inductive Listens
  | exact
  | wildcard
deriving DecidableEq, Repr

/-- The first listener on the port that fits; the loop over the listeners stops there. -/
def listens (host : String) (port : Int) (sv : Service) : Option Listens :=
  sv.listeners.findSome? fun l =>
    if l.port ≠ port then none
    else
      let lh := trimBrackets ((splitHostPort l.addr).map Prod.fst |>.getD "")
      if lh = host then some .exact
      else if (GoNet.parseIP lh).any isUnspecified then some .wildcard
      else none

def uniqueByContainer (services : List Service) : List Service :=
  services.foldl (fun out s => if s.containerID ∈ out.map Service.containerID then out
    else out ++ [s]) []

def slice {β : Type} (m : GoMap (List β)) (k : String) : List β := entry (fun _ => []) m k

/-- The part of `resolve` after the owner of the address is found. -/
def resolveAt (services : List Service) (owner : String) (h : Host) (host : String) (port : Int) :
    Resolved :=
  let out : Resolved := ⟨h.hostname, h.instanceID, "", "", owner⟩
  let exact := services.filter fun sv => listens host port sv = some .exact
  let wildcard := services.filter fun sv => listens host port sv = some .wildcard
  let pick := uniqueByContainer exact
  let pick := if pick = [] then uniqueByContainer wildcard else pick
  match only pick with
  | some s => { out with service := s.name, container := s.containerID }
  | none => out

/-- `resolve`; the source does not read its parameter `srcInstance`. -/
def Resolver.resolve (r : Resolver) (_srcInstance dest : String) : Resolved :=
  match splitHostPort dest with
  | none => .none
  | some (host, portStr) =>
    let host := trimBrackets host
    match atoi portStr with
    | none => .none
    | some port =>
      -- an address that several hosts have is left unresolved
      let owner := (only (slice r.instancesByIP host)).getD ""
      match r.hosts.lookup owner with
      | none => .none
      | some h => if owner = "" then .none else resolveAt (slice r.services owner) owner h host port

/-! ## Edges -/

/-- What the closure `touch` reads besides the sample. -/
structure Context where
  host : String → Host
  service : ContainerKey → Service
  resolve : String → String → Resolved

/-- `touch` answers an edge for this sample: a service container that does not call
itself. -/
def Context.contributes (ctx : Context) (s : Sample) : Bool :=
  s.isService && !(ctx.resolve (s.label "instance") (s.label "destination")).skip s.containerKey

/-- The edge `touch` makes for a key it has not met. -/
def Context.newEdge (ctx : Context) (k : EdgeKey) : Edge :=
  let h := ctx.host k.inst
  let svc := ctx.service k.source
  let target := ctx.resolve k.inst k.destination
  { sourceHost := if h.hostname = "" then k.inst else h.hostname
    sourceInstanceID := h.instanceID
    sourceService := if svc.name = "" then serviceName k.container else svc.name
    sourceContainer := k.container
    destination := k.destination
    destinationKind := normalizeKind k.kind
    destinationName := destinationName k.destination k.name
    destinationHost := target.hostname
    destinationInstanceID := target.instanceID
    destinationService := target.service
    destinationContainer := target.container
    protocol := k.protocol
    requests := 0, errors := 0, latencyMs := 0, bytesSent := 0, bytesReceived := 0 }

abbrev EdgeTable := AList fun _ : EdgeKey => Edge

/-- `touch`, with what the caller does to the edge it gets. -/
def touch (ctx : Context) (s : Sample) (protocol : String) (f : Edge → Edge) (edges : EdgeTable) :
    EdgeTable :=
  if ctx.contributes s then upd ctx.newEdge (s.edgeKey protocol) f edges else edges

/-- The map `edges` and the set `covered`. -/
structure Tally where
  edges : EdgeTable
  covered : List Pair

namespace Tally

def request (ctx : Context) (protocol : String) (t : Tally) (s : Sample) : Tally :=
  if s.value ≤ 0 then t
  else
    { edges := touch ctx s protocol (fun e => { e with requests := e.requests + s.value }) t.edges
      covered := if ctx.contributes s then s.pair :: t.covered else t.covered }

/-- The body of the loops over its failures, and of the one over the gRPC failures. -/
def failure (ctx : Context) (protocol : String) (t : Tally) (s : Sample) : Tally :=
  { t with
    edges := touch ctx s protocol (fun e => { e with errors := e.errors + s.value }) t.edges }

def duration (ctx : Context) (protocol : String) (sums : GoMap ℚ) (t : Tally) (s : Sample) :
    Tally :=
  if s.value ≤ 0 then t
  else
    { t with edges := touch ctx s protocol (fun e =>
        { e with latencyMs := entry (fun _ => 0) sums (edgeIdentity s) / s.value * 1000 }) t.edges }

def connect (ctx : Context) (tcpTime : GoMap ℚ) (t : Tally) (s : Sample) : Tally :=
  if s.value ≤ 0 ∨ s.pair ∈ t.covered then t
  else
    { t with edges := touch ctx s "tcp" (fun e =>
        { e with
          requests := e.requests + s.value
          latencyMs := entry (fun _ => 0) tcpTime (edgeIdentity s) / s.value * 1000 }) t.edges }

def failedConnect (ctx : Context) (t : Tally) (s : Sample) : Tally :=
  if s.value ≤ 0 ∨ s.pair ∈ t.covered then t
  else
    { t with edges := touch ctx s "tcp" (fun e => { e with errors := e.errors + s.value }) t.edges }

end Tally

/-- The names of `l7Protocols`; its other columns are the names of series. -/
def l7Protocols : List String :=
  ["http", "postgres", "mysql", "redis", "memcached", "mongo", "kafka", "cassandra", "clickhouse",
    "zookeeper", "foundationdb", "dubbo"]

/-- The number of queries before those of the protocols. -/
def fixed : ℕ := 11

/-- The index of the gRPC query, the last one. -/
def grpcErrIdx : ℕ := fixed + l7Protocols.length * 4

/-- The loops over the four vectors of one application protocol. -/
def l7Pass (ctx : Context) (res : ℕ → List Sample) (t : Tally) (pr : String × ℕ) : Tally :=
  let base := fixed + pr.2 * 4
  let t := (res base).foldl (Tally.request ctx pr.1) t
  let t := (res (base + 1)).foldl (Tally.failure ctx pr.1) t
  let sums := indexByEdge (res (base + 2))
  (res (base + 3)).foldl (Tally.duration ctx pr.1 sums) t

def tally (ctx : Context) (res : ℕ → List Sample) : Tally :=
  let t := l7Protocols.zipIdx.foldl (l7Pass ctx res) ⟨∅, []⟩
  let t := (res grpcErrIdx).foldl (Tally.failure ctx "http") t
  let tcpTime := indexByEdge (res 10)
  let t := (res 8).foldl (Tally.connect ctx tcpTime) t
  (res 9).foldl (Tally.failedConnect ctx) t

/-- `e.Requests` of the edge at `k`. -/
def requestsAt (edges : EdgeTable) (k : EdgeKey) : ℚ := ((edges.lookup k).map Edge.requests).getD 0

/-- The body of the loop that fills `best`: an edge is a pointer into the map `edges`, so
here its key. -/
def bestStep (edges : EdgeTable) (best : AList fun _ : Pair => EdgeKey) (k : EdgeKey) :
    AList fun _ : Pair => EdgeKey :=
  match best.lookup k.pair with
  | none => best.insert k.pair k
  | some cur => if requestsAt edges cur < requestsAt edges k then best.insert k.pair k else best

def bestEdges (o : Orders) (edges : EdgeTable) : AList fun _ : Pair => EdgeKey :=
  (o.bestKeys.visit edges.keys).foldl (bestStep edges) ∅

def setBytes (sent recv : AList fun _ : Pair => ℚ) (pair : Pair) (e : Edge) : Edge :=
  { e with
    bytesSent := entry (fun _ => 0) sent pair
    bytesReceived := entry (fun _ => 0) recv pair }

/-- The body of the loop over `best`. -/
def bytesStep (sent recv : AList fun _ : Pair => ℚ) (best : AList fun _ : Pair => EdgeKey)
    (edges : EdgeTable) (pair : Pair) : EdgeTable :=
  match best.lookup pair with
  | none => edges
  | some k => adjust k (setBytes sent recv pair) edges

def assignBytes (o : Orders) (sent recv : AList fun _ : Pair => ℚ)
    (best : AList fun _ : Pair => EdgeKey) (edges : EdgeTable) : EdgeTable :=
  (o.bestPairs.visit best.keys).foldl (bytesStep sent recv best) edges

def finishEdge (e : Edge) : Edge :=
  { e with
    requests := wholeCount e.requests, errors := wholeCount e.errors
    bytesSent := mathRound e.bytesSent, bytesReceived := mathRound e.bytesReceived }

/-- The loop that fills `out`; the model keeps the key beside each edge. -/
def emit (o : Orders) (edges : EdgeTable) : List (EdgeKey × Edge) :=
  (o.edgeKeys.visit edges.keys).filterMap fun k =>
    (edges.lookup k).bind fun e =>
      let e := finishEdge e
      if 0 < e.requests ∨ 0 < e.errors then some (k, e) else none

/-! ## The map -/

def maxServiceMapEdges : ℕ := 5000

structure Result where
  hosts : List Host
  services : List Service
  edges : List Edge
  truncated : Bool
deriving DecidableEq

def byInstance (o : Orders) (res : ℕ → List Sample) : List Host × GoMap Host :=
  collectHosts o (res 0) (res 1) (res 2) (res 3)

def servicesOf (o : Orders) (res : ℕ → List Sample) :
    List Service × AList fun _ : ContainerKey => Service :=
  collectServices o (res 4) (res 5) (res 3) (byInstance o res).2

def contextOf (o : Orders) (res : ℕ → List Sample) : Context where
  host k := ((byInstance o res).2.lookup k).getD Host.zero
  service k := ((servicesOf o res).2.lookup k).getD Service.zero
  resolve := (newDestinationResolver o (byInstance o res).2 (servicesOf o res).1).resolve

/-- The map `edges` before the emission. -/
def assigned (o : Orders) (res : ℕ → List Sample) : EdgeTable :=
  let edges := (tally (contextOf o res) res).edges
  assignBytes o (sumByContainerPair (res 6)) (sumByContainerPair (res 7)) (bestEdges o edges) edges

/-- The edges with their keys, before they are sorted and cut. -/
def emitted (o : Orders) (res : ℕ → List Sample) : List (EdgeKey × Edge) := emit o (assigned o res)

def buildServiceMap (o : Orders) (res : ℕ → List Sample) : Result :=
  let out := o.edges.sort ((emitted o res).map Prod.snd)
  { hosts := (byInstance o res).1
    services := (servicesOf o res).1
    edges := out.take maxServiceMapEdges
    truncated := decide (maxServiceMapEdges < out.length) }

end ServiceMap

end Forager
