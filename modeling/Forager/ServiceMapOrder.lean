import Forager.ServiceMapCounts
import Forager.ServiceMapContext

/-!
# The service map and the orders Go leaves open

Two runs of `buildServiceMap` on the same query results can meet different orders of its
`range` loops and sorts. The hosts cannot show it, and neither can any record by itself, but
three things can: services are sorted by host name and service name only, edges by requests,
source service and destination only, and the bytes of a pair go to the first edge visited of
those with the most requests. What ties there is left to the order, and so is which of the
tied edges is cut off after the first 5000.
-/

namespace Forager

open Go GoRange ServiceMap ServiceMapLemmas

namespace ServiceMap

/-! ## The answer -/

/-- What the answer shows of a service: all but the store's instance label. -/
def Service.answer (sv : Service) : Service := { sv with storeInstance := "" }

def Result.answer (r : Result) : Result := { r with services := r.services.map Service.answer }

def serviceKey (sv : Service) : Lex (String × String) := toLex (sv.hostname, sv.name)

def edgeRank (e : Edge) : Lex (ℚᵒᵈ × Lex (String × String)) :=
  toLex (OrderDual.toDual e.requests, toLex (e.sourceService, e.destination))

end ServiceMap

namespace ServiceMapLemmas

theorem serviceLess_compares : Compares serviceLess serviceKey := by
  intro a b
  rw [serviceKey, serviceKey, Prod.Lex.toLex_lt_toLex, serviceLess]
  by_cases h : a.hostname = b.hostname <;> simp [h]

theorem edgeLess_compares : Compares edgeLess edgeRank := by
  intro a b
  rw [edgeRank, edgeRank, Prod.Lex.toLex_lt_toLex, Prod.Lex.toLex_lt_toLex, edgeLess]
  by_cases h : a.requests = b.requests
  · by_cases h' : a.sourceService = b.sourceService <;> simp [h, h']
  · simp [h]

end ServiceMapLemmas

namespace ServiceMap

/-- The orders in which maps are visited as they are held and sorts are stable. -/
def Orders.stored : Orders where
  hostKeys := .stored
  serviceKeys := .stored
  resolverHosts := .stored
  bestKeys := .stored
  bestPairs := .stored
  edgeKeys := .stored
  listeners := .stable listenerLess_compares
  services := .stable serviceLess_compares
  edges := .stable edgeLess_compares

/-! ## Ties -/

/-- The context of the edges; every run has it. -/
def contextFor (res : ℕ → List Sample) : Context := contextOf .stored res

/-- The name of a host, or the instance label if it has none. -/
def Context.hostname (ctx : Context) (inst : String) : String :=
  if (ctx.host inst).hostname = "" then inst else (ctx.host inst).hostname

/-- The samples of two containers on hosts of one name say the same of them. -/
structure SameService (ctx : Context) (res : ℕ → List Sample) (c₁ c₂ : ContainerKey) : Prop where
  instanceID : (ctx.host c₁.inst).instanceID = (ctx.host c₂.inst).instanceID
  container : c₁.container = c₂.container
  image : imageOf res c₁ = imageOf res c₂
  types : ∀ t, t ∈ typesOf res c₁ ↔ t ∈ typesOf res c₂
  listeners : ∀ l, l ∈ listenersOf res c₁ ↔ l ∈ listenersOf res c₂

/-- The place of an edge among the others: its whole requests, its service, its
destination. -/
def placeOf (ctx : Context) (res : ℕ → List Sample) (k : EdgeKey) :
    Lex (ℚᵒᵈ × Lex (String × String)) :=
  toLex (OrderDual.toDual (wholeCount (requestSum ctx res k)),
    toLex (serviceName k.container, k.destination))

/-- The bytes of a pair, if its edge carries them. -/
def bytesOf (samples : List Sample) (k : EdgeKey) (bytes : Bool) : ℚ :=
  if bytes then mathRound (entry (fun _ => 0) (sumByContainerPair samples) k.pair) else 0

/-- The samples of two edges to one destination say the same of them, with or without the
bytes of their pairs. -/
structure SameEdge (ctx : Context) (res : ℕ → List Sample) (k₁ : EdgeKey) (b₁ : Bool)
    (k₂ : EdgeKey) (b₂ : Bool) : Prop where
  host : ctx.hostname k₁.inst = ctx.hostname k₂.inst
  instanceID : (ctx.host k₁.inst).instanceID = (ctx.host k₂.inst).instanceID
  container : k₁.container = k₂.container
  kind : normalizeKind k₁.kind = normalizeKind k₂.kind
  name : destinationName k₁.destination k₁.name = destinationName k₂.destination k₂.name
  protocol : k₁.protocol = k₂.protocol
  errors : wholeCount (failureSum ctx res k₁) = wholeCount (failureSum ctx res k₂)
  latency : latencyOf ctx res k₁ = latencyOf ctx res k₂
  sent : bytesOf (res 6) k₁ b₁ = bytesOf (res 6) k₂ b₂
  received : bytesOf (res 7) k₁ b₁ = bytesOf (res 7) k₂ b₂

/-- The requests leave it open, or settle, that the edge carries the bytes of its pair
(`true`), or that it does not (`false`). -/
def MayCarry (ctx : Context) (res : ℕ → List Sample) (k : EdgeKey) : Bool → Prop
  | true => ∀ k' ∈ touchedKeys ctx res, k'.pair = k.pair →
      requestSum ctx res k' ≤ requestSum ctx res k
  | false => ∃ k' ∈ touchedKeys ctx res, k'.pair = k.pair ∧ k' ≠ k ∧
      requestSum ctx res k ≤ requestSum ctx res k'

/-- The edges that come before the place of `k` in the answer. -/
def before (ctx : Context) (res : ℕ → List Sample) (k : EdgeKey) : List EdgeKey :=
  (touchedKeys ctx res).filter fun k' => Shown ctx res k' ∧ placeOf ctx res k' < placeOf ctx res k

/-- No tie shows: active containers with one host name and one service name show the same,
and so do edges with one place, if the place is among the first ones. -/
structure TiesHidden (ctx : Context) (res : ℕ → List Sample) : Prop where
  services : ∀ c₁ ∈ activeContainers res, ∀ c₂ ∈ activeContainers res,
    ctx.hostname c₁.inst = ctx.hostname c₂.inst →
    serviceName c₁.container = serviceName c₂.container → SameService ctx res c₁ c₂
  edges : ∀ k₁ k₂, Shown ctx res k₁ → Shown ctx res k₂ →
    placeOf ctx res k₁ = placeOf ctx res k₂ → (before ctx res k₁).length < maxServiceMapEdges →
    ∀ b₁ b₂, MayCarry ctx res k₁ b₁ → MayCarry ctx res k₂ b₂ → SameEdge ctx res k₁ b₁ k₂ b₂

end ServiceMap

namespace ServiceMapLemmas

variable {res : ℕ → List Sample}
variable {k : EdgeKey}

theorem contextOf_eq (o : Orders) (res : ℕ → List Sample) : contextOf o res = contextFor res :=
  contextOf_orders o .stored res

/-! ## Services -/

theorem newService_hostname (o : Orders) (c : ContainerKey) :
    (newService (byInstance o res).2 c).hostname = (contextFor res).hostname c.inst := by
  rw [← contextOf_eq o]
  rfl

theorem newService_instanceID (o : Orders) (c : ContainerKey) :
    (newService (byInstance o res).2 c).instanceID = ((contextFor res).host c.inst).instanceID := by
  rw [← contextOf_eq o]
  rfl

theorem serviceKey_serviceOf (o : Orders) {c : ContainerKey} (hc : c ∈ activeContainers res) :
    serviceKey (serviceOf o res c)
      = toLex ((contextFor res).hostname c.inst, serviceName c.container) := by
  rw [serviceOf_eq o hc, serviceKey, newService_hostname]
  rfl

theorem answer_eq_iff (o : Orders) {c₁ c₂ : ContainerKey} (h₁ : c₁ ∈ activeContainers res)
    (h₂ : c₂ ∈ activeContainers res)
    (hhost : (contextFor res).hostname c₁.inst = (contextFor res).hostname c₂.inst)
    (hname : serviceName c₁.container = serviceName c₂.container) :
    (serviceOf o res c₁).answer = (serviceOf o res c₂).answer
      ↔ SameService (contextFor res) res c₁ c₂ := by
  have htypes : sortValues ((typesOf res c₁).foldl addNew [])
      = sortValues ((typesOf res c₂).foldl addNew [])
      ↔ ∀ t, t ∈ typesOf res c₁ ↔ t ∈ typesOf res c₂ :=
    sortValues_eq_iff.trans foldl_addNew_perm
  have hlisteners : o.listeners.sort ((listenersOf res c₁).foldl addNew [])
      = o.listeners.sort ((listenersOf res c₂).foldl addNew [])
      ↔ ∀ l, l ∈ listenersOf res c₁ ↔ l ∈ listenersOf res c₂ :=
    (sort_listeners _ _ (listenersOf_parsed res c₁)).trans foldl_addNew_perm
  rw [serviceOf_eq o h₁, serviceOf_eq o h₂]
  constructor
  · intro h
    have hid := congrArg Service.instanceID h
    refine ⟨?_, congrArg Service.containerID h, congrArg Service.image h,
      htypes.mp (congrArg Service.applicationTypes h),
      hlisteners.mp (congrArg Service.listeners h)⟩
    rw [← newService_instanceID o, ← newService_instanceID o]
    exact hid
  · intro h
    simp only [Service.answer, Service.mk.injEq, true_and]
    refine ⟨?_, ?_, h.container, hname, congrArg serviceKind h.container, h.image,
      htypes.mpr h.types, hlisteners.mpr h.listeners⟩
    · rw [newService_instanceID, newService_instanceID, h.instanceID]
    · rw [newService_hostname, newService_hostname, hhost]

/-- The services of a run before they are sorted. -/
def unsortedServices (res : ℕ → List Sample) (o : Orders) : List Service :=
  (o.serviceKeys.visit (servicesBy o res).keys).map (serviceOf o res)

theorem servicesOf_fst (o : Orders) (res : ℕ → List Sample) :
    (servicesOf o res).1 = o.services.sort (unsortedServices res o) := by
  rw [servicesOf, collectServices, List.map_map]
  rfl

theorem mem_unsortedServices (o : Orders) {sv : Service} :
    sv ∈ unsortedServices res o ↔ ∃ c ∈ activeContainers res, serviceOf .stored res c = sv := by
  rw [unsortedServices, List.mem_map]
  refine exists_congr fun c => ?_
  rw [Visit.mem_visit, service_orders o .stored]
  exact and_congr_left' (mem_servicesBy o res c)

theorem unsortedServices_perm (o o' : Orders) :
    (unsortedServices res o).Perm (unsortedServices res o') := by
  have hperm (o : Orders) : (unsortedServices res o).Perm (servicesOf o res).1 := by
    rw [servicesOf_fst]
    exact (o.services.perm _).symm
  exact (hperm o).trans ((services_orders o o' res).trans (hperm o').symm)

theorem services_answer_iff (res : ℕ → List Sample) :
    (∀ o o', (servicesOf o res).1.map Service.answer = (servicesOf o' res).1.map Service.answer) ↔
      ∀ c₁ ∈ activeContainers res, ∀ c₂ ∈ activeContainers res,
        (contextFor res).hostname c₁.inst = (contextFor res).hostname c₂.inst →
        serviceName c₁.container = serviceName c₂.container →
        SameService (contextFor res) res c₁ c₂ := by
  have hsorter : (∀ o o', (servicesOf o res).1.map Service.answer
      = (servicesOf o' res).1.map Service.answer) ↔
      ∀ o o' (s s' : Sorter serviceLess), (s.sort (unsortedServices res o)).map Service.answer
        = (s'.sort (unsortedServices res o')).map Service.answer := by
    simp only [servicesOf_fst]
    exact ⟨fun h o o' s s' => h { o with services := s } { o' with services := s' },
      fun h o o' => h o o' _ _⟩
  rw [hsorter, sort_iff serviceLess_compares
    fun o o' => (unsortedServices_perm o o').map serviceKey]
  constructor
  · intro h c₁ h₁ c₂ h₂ hhost hname
    refine (answer_eq_iff .stored h₁ h₂ hhost hname).mp (h .stored .stored _ ?_ _ ?_ ?_)
    · exact (mem_unsortedServices _).mpr ⟨c₁, h₁, rfl⟩
    · exact (mem_unsortedServices _).mpr ⟨c₂, h₂, rfl⟩
    · rw [serviceKey_serviceOf _ h₁, serviceKey_serviceOf _ h₂, hhost, hname]
  · intro h o o' a ha b hb hab
    obtain ⟨c₁, h₁, rfl⟩ := (mem_unsortedServices o).mp ha
    obtain ⟨c₂, h₂, rfl⟩ := (mem_unsortedServices o').mp hb
    rw [serviceKey_serviceOf _ h₁, serviceKey_serviceOf _ h₂] at hab
    obtain ⟨hhost, hname⟩ := Prod.mk.inj (toLex.injective hab)
    exact (answer_eq_iff .stored h₁ h₂ hhost hname).mpr (h c₁ h₁ c₂ h₂ hhost hname)

/-! ## Edges -/

theorem newEdge_sourceService (res : ℕ → List Sample) (k : EdgeKey) :
    ((contextFor res).newEdge k).sourceService = serviceName k.container := by
  have hname : ((contextFor res).service k.source).name = "" ∨
      ((contextFor res).service k.source).name = serviceName k.container := by
    have hlookup : (contextFor res).service k.source = _ :=
      congrArg (·.getD Service.zero) (servicesOf_snd .stored res k.source)
    rw [hlookup]
    split
    next => exact .inr (serviceOf_entry .stored res k.source).name
    next => exact .inl rfl
  show (if ((contextFor res).service k.source).name = "" then serviceName k.container
    else ((contextFor res).service k.source).name) = _
  split
  next => rfl
  next h => exact hname.resolve_left h

theorem edgeRank_edgeOf (k : EdgeKey) (b : Bool) :
    edgeRank (edgeOf (contextFor res) res k b) = placeOf (contextFor res) res k := by
  have hservice : (edgeOf (contextFor res) res k b).sourceService = serviceName k.container := by
    rw [← newEdge_sourceService res k]
    cases b <;> rfl
  have hdest : (edgeOf (contextFor res) res k b).destination = k.destination := by cases b <;> rfl
  rw [edgeRank, placeOf, edgeOf_requests, hservice, hdest]

theorem mathRound_zero : mathRound 0 = 0 := by decide +kernel

theorem edgeOf_eq (ctx : Context) (k : EdgeKey) (b : Bool) :
    edgeOf ctx res k b
      = { ctx.newEdge k with
          requests := wholeCount (requestSum ctx res k)
          errors := wholeCount (failureSum ctx res k)
          latencyMs := latencyOf ctx res k
          bytesSent := bytesOf (res 6) k b
          bytesReceived := bytesOf (res 7) k b } := by
  cases b
  · show finishEdge (tallied ctx res k) = _
    simp only [finishEdge, tallied, Context.newEdge, mathRound_zero, bytesOf, Bool.false_eq_true,
      if_false]
  · rfl

theorem edgeOf_eq_iff {k₁ k₂ : EdgeKey} (b₁ b₂ : Bool)
    (h : placeOf (contextFor res) res k₁ = placeOf (contextFor res) res k₂) :
    edgeOf (contextFor res) res k₁ b₁ = edgeOf (contextFor res) res k₂ b₂
      ↔ SameEdge (contextFor res) res k₁ b₁ k₂ b₂ := by
  obtain ⟨hrequests, hplace⟩ := Prod.mk.inj (toLex.injective h)
  obtain ⟨hservice, hdest⟩ := Prod.mk.inj (toLex.injective hplace)
  have hresolve : (contextFor res).resolve k₁.inst k₁.destination
      = (contextFor res).resolve k₂.inst k₂.destination := by
    rw [hdest]
    rfl
  rw [edgeOf_eq, edgeOf_eq]
  constructor
  · intro he
    exact ⟨congrArg Edge.sourceHost he, congrArg Edge.sourceInstanceID he,
      congrArg Edge.sourceContainer he, congrArg Edge.destinationKind he,
      congrArg Edge.destinationName he, congrArg Edge.protocol he, congrArg Edge.errors he,
      congrArg Edge.latencyMs he, congrArg Edge.bytesSent he, congrArg Edge.bytesReceived he⟩
  · intro hs
    simp only [Edge.mk.injEq]
    refine ⟨hs.host, hs.instanceID, ?_, hs.container, hdest, hs.kind, hs.name,
      congrArg Resolved.hostname hresolve, congrArg Resolved.instanceID hresolve,
      congrArg Resolved.service hresolve, congrArg Resolved.container hresolve, hs.protocol,
      OrderDual.toDual.injective hrequests, hs.errors, hs.latency, hs.sent, hs.received⟩
    rw [newEdge_sourceService, newEdge_sourceService, hservice]

/-! ## Which edge carries the bytes -/

def edgesFor (res : ℕ → List Sample) : EdgeTable := (tally (contextFor res) res).edges

theorem mem_edgesFor : k ∈ (edgesFor res).keys ↔ k ∈ touchedKeys (contextFor res) res := by
  rw [touchedKeys, List.mem_dedup]
  exact mem_tally

theorem requestsAt_edgesFor (hk : k ∈ touchedKeys (contextFor res) res) :
    requestsAt (edgesFor res) k = requestSum (contextFor res) res k := by
  rw [requestsAt, edgesFor, lookup_tally (List.mem_dedup.mp hk)]
  rfl

theorem carries_iff (o : Orders) (k : EdgeKey) :
    carries o res k = true ↔
      ((o.bestKeys.visit (edgesFor res).keys).foldl (bestStep (edgesFor res)) ∅).lookup k.pair
        = some k := by
  rw [carries, contextOf_eq, decide_eq_true_iff]
  rfl

theorem best_of_first {edges : EdgeTable} (ks : List EdgeKey)
    (hmost : ∀ k' ∈ ks, k'.pair = k.pair → requestsAt edges k' ≤ requestsAt edges k) :
    ((k :: ks).foldl (bestStep edges) ∅).lookup k.pair = some k := by
  have hstart : (bestStep edges ∅ k).lookup k.pair = some k := AList.lookup_insert _
  rw [List.foldl_cons]
  generalize bestStep edges ∅ k = best at hstart
  induction ks generalizing best with
  | nil => exact hstart
  | cons k' ks ih =>
    refine ih (fun q hq => hmost q (List.mem_cons_of_mem _ hq)) _ ?_
    unfold bestStep
    by_cases hp : k'.pair = k.pair
    · rw [hp, hstart]
      dsimp only
      rw [if_neg (not_lt.mpr (hmost k' (List.mem_cons_self ..) hp))]
      exact hstart
    · have hinsert : (best.insert k'.pair k').lookup k.pair = some k := by
        rw [AList.lookup_insert_ne (Ne.symm hp)]
        exact hstart
      split
      next => exact hinsert
      next =>
        split
        next => exact hinsert
        next => exact hstart

theorem carries_first (hk : k ∈ touchedKeys (contextFor res) res)
    (hmost : MayCarry (contextFor res) res k true) :
    carries { Orders.stored with bestKeys := .first k } res k = true := by
  rw [carries_iff, Visit.first_visit (mem_edgesFor.mpr hk)]
  refine best_of_first _ fun k' hk' hp => ?_
  have hk'' := mem_edgesFor.mp (List.mem_of_mem_erase hk')
  rw [requestsAt_edgesFor hk, requestsAt_edgesFor hk'']
  exact hmost k' hk'' hp

theorem most_of_carries {o : Orders} (hk : k ∈ touchedKeys (contextFor res) res)
    (h : carries o res k = true) : MayCarry (contextFor res) res k true := by
  intro k' hk' hp
  have hle := (bestOf_foldl _ _).most ((carries_iff o k).mp h) k'
    ((Visit.mem_visit _).mpr (mem_edgesFor.mpr hk')) hp
  rwa [requestsAt_edgesFor hk, requestsAt_edgesFor hk'] at hle

theorem exists_carries_iff (hk : k ∈ touchedKeys (contextFor res) res) (b : Bool) :
    (∃ o, carries o res k = b) ↔ MayCarry (contextFor res) res k b := by
  cases b with
  | true => exact ⟨fun ⟨o, ho⟩ => most_of_carries hk ho, fun h => ⟨_, carries_first hk h⟩⟩
  | false =>
    constructor
    · rintro ⟨o, ho⟩
      have hbest := bestOf_foldl (edgesFor res) (o.bestKeys.visit (edgesFor res).keys)
      have hmem : k ∈ o.bestKeys.visit (edgesFor res).keys :=
        (Visit.mem_visit _).mpr (mem_edgesFor.mpr hk)
      obtain ⟨k', hk'⟩ := hbest.held hmem
      have htouched := mem_edgesFor.mp ((Visit.mem_visit _).mp (hbest.mem hk').1)
      refine ⟨k', htouched, (hbest.mem hk').2, ?_, ?_⟩
      · rintro rfl
        rw [(carries_iff o k').mpr hk'] at ho
        cases ho
      · have hle := hbest.most hk' k hmem rfl
        rwa [requestsAt_edgesFor hk, requestsAt_edgesFor htouched] at hle
    · rintro ⟨k', hk', hp, hne, hle⟩
      refine ⟨{ Orders.stored with bestKeys := .first k' }, Bool.eq_false_iff.mpr fun hc => ?_⟩
      -- if `k` were still chosen it would have the most requests, and then so has `k'`
      have hmost := most_of_carries hk hc
      have hmost' : MayCarry (contextFor res) res k' true := fun q hq hqp =>
        (hmost q hq (hqp.trans hp)).trans hle
      have hk₁ := (carries_iff _ _).mp (carries_first hk' hmost')
      have hk₂ := (carries_iff _ _).mp hc
      rw [hp, hk₂] at hk₁
      exact hne (Option.some.inj hk₁).symm

theorem emitted_snd_perm (o : Orders) (res : ℕ → List Sample) :
    ((emitted o res).map Prod.snd).Perm
      (((touchedKeys (contextFor res) res).filter fun k => Shown (contextFor res) res k).map
        fun k => edgeOf (contextFor res) res k (carries o res k)) := by
  have hperm := (emitted_perm o res).map Prod.snd
  rw [contextOf_eq, List.map_map] at hperm
  exact hperm

theorem countP_emitted (o : Orders) (res : ℕ → List Sample) (k : EdgeKey) (b : Bool) :
    ((emitted o res).map Prod.snd).countP
      (edgeRank · < edgeRank (edgeOf (contextFor res) res k b))
      = (before (contextFor res) res k).length := by
  rw [(emitted_snd_perm o res).countP_eq, List.countP_map, List.countP_filter,
    List.countP_eq_length_filter, before]
  simp only [Function.comp_def, edgeRank_edgeOf, Bool.decide_and, Bool.and_comm]

theorem edgeRank_emitted (o : Orders) (res : ℕ → List Sample) :
    (((emitted o res).map Prod.snd).map edgeRank).Perm
      (((touchedKeys (contextFor res) res).filter fun k => Shown (contextFor res) res k).map
        (placeOf (contextFor res) res)) := by
  refine ((emitted_snd_perm o res).map edgeRank).trans (.of_eq ?_)
  rw [List.map_map]
  exact List.map_congr_left fun k _ => edgeRank_edgeOf k _

theorem mem_emitted_snd (o : Orders) {e : Edge} :
    e ∈ (emitted o res).map Prod.snd ↔
      ∃ k, Shown (contextFor res) res k ∧ e = edgeOf (contextFor res) res k (carries o res k) := by
  rw [List.mem_map]
  constructor
  · rintro ⟨⟨k, e⟩, hk, rfl⟩
    rw [mem_emitted, contextOf_eq] at hk
    exact ⟨k, hk⟩
  · rintro ⟨k, hk⟩
    exact ⟨(k, e), by rwa [mem_emitted, contextOf_eq], rfl⟩

theorem edges_answer_iff (res : ℕ → List Sample) :
    (∀ o o', (buildServiceMap o res).edges = (buildServiceMap o' res).edges) ↔
      ∀ k₁ k₂, Shown (contextFor res) res k₁ → Shown (contextFor res) res k₂ →
        placeOf (contextFor res) res k₁ = placeOf (contextFor res) res k₂ →
        (before (contextFor res) res k₁).length < maxServiceMapEdges →
        ∀ b₁ b₂, MayCarry (contextFor res) res k₁ b₁ → MayCarry (contextFor res) res k₂ b₂ →
          SameEdge (contextFor res) res k₁ b₁ k₂ b₂ := by
  have hsorter : (∀ o o', (buildServiceMap o res).edges = (buildServiceMap o' res).edges) ↔
      ∀ o o' (s s' : Sorter edgeLess),
        ((s.sort ((emitted o res).map Prod.snd)).map id).take maxServiceMapEdges
        = ((s'.sort ((emitted o' res).map Prod.snd)).map id).take maxServiceMapEdges := by
    simp only [List.map_id]
    exact ⟨fun h o o' s s' => h { o with edges := s } { o' with edges := s' },
      fun h o o' => h o o' _ _⟩
  rw [hsorter, take_sort_iff edgeLess_compares fun o o' =>
    (edgeRank_emitted o res).trans (edgeRank_emitted o' res).symm]
  constructor
  · intro h k₁ k₂ h₁ h₂ hplace hbefore b₁ b₂ hb₁ hb₂
    obtain ⟨o₁, rfl⟩ := (exists_carries_iff (touched_of_shown h₁) b₁).mpr hb₁
    obtain ⟨o₂, rfl⟩ := (exists_carries_iff (touched_of_shown h₂) b₂).mpr hb₂
    have hmem₁ := (mem_emitted_snd o₁).mpr ⟨k₁, h₁, rfl⟩
    have hmem₂ := (mem_emitted_snd o₂).mpr ⟨k₂, h₂, rfl⟩
    have hrank : edgeRank (edgeOf (contextFor res) res k₁ (carries o₁ res k₁))
        = edgeRank (edgeOf (contextFor res) res k₂ (carries o₂ res k₂)) := by
      rw [edgeRank_edgeOf, edgeRank_edgeOf, hplace]
    have hcount := countP_emitted o₁ res k₁ (carries o₁ res k₁)
    exact (edgeOf_eq_iff _ _ hplace).mp (h o₁ o₂ _ hmem₁ _ hmem₂ hrank (hcount ▸ hbefore))
  · intro h o o' a ha b hb hab hn
    obtain ⟨k₁, h₁, rfl⟩ := (mem_emitted_snd o).mp ha
    obtain ⟨k₂, h₂, rfl⟩ := (mem_emitted_snd o').mp hb
    rw [edgeRank_edgeOf, edgeRank_edgeOf] at hab
    rw [countP_emitted] at hn
    refine (edgeOf_eq_iff _ _ hab).mpr (h k₁ k₂ h₁ h₂ hab hn _ _ ?_ ?_)
    · exact (exists_carries_iff (touched_of_shown h₁) _).mp ⟨o, rfl⟩
    · exact (exists_carries_iff (touched_of_shown h₂) _).mp ⟨o', rfl⟩

end ServiceMapLemmas

/-! ## When the answer does not depend on the orders -/

/-- All runs of `buildServiceMap` on the same query results give the same answer, whatever
the orders, iff no tie shows. -/
theorem same_answer_iff (res : ℕ → List Sample) :
    (∀ o o', (buildServiceMap o res).answer = (buildServiceMap o' res).answer) ↔
      TiesHidden (contextFor res) res := by
  have htruncated (o o' : Orders) :
      (buildServiceMap o res).truncated = (buildServiceMap o' res).truncated := by
    have hlen (o : Orders) : (o.edges.sort ((emitted o res).map Prod.snd)).length
        = ((touchedKeys (contextFor res) res).filter fun k =>
            Shown (contextFor res) res k).length := by
      rw [(o.edges.perm _).length_eq, (emitted_snd_perm o res).length_eq, List.length_map]
    show decide (_ < List.length _) = decide (_ < List.length _)
    rw [hlen, hlen]
  have hanswer (o o' : Orders) :
      (buildServiceMap o res).answer = (buildServiceMap o' res).answer ↔
        (servicesOf o res).1.map Service.answer = (servicesOf o' res).1.map Service.answer ∧
        (buildServiceMap o res).edges = (buildServiceMap o' res).edges := by
    constructor
    · intro h
      have hedges := congrArg Result.edges h
      exact ⟨congrArg Result.services h, hedges⟩
    · rintro ⟨hservices, hedges⟩
      have hhosts : (buildServiceMap o res).hosts = (buildServiceMap o' res).hosts :=
        congrArg Prod.fst (byInstance_orders o o' res)
      rw [Result.answer, Result.answer, hhosts, hedges, htruncated o o']
      exact congrArg (Result.mk _ · _ _) hservices
  simp only [hanswer, forall_and]
  rw [services_answer_iff, edges_answer_iff]
  exact ⟨fun ⟨hs, he⟩ => ⟨hs, he⟩, fun ⟨hs, he⟩ => ⟨hs, he⟩⟩

/-! ## A tie that shows -/

namespace ServiceMap

def series (labels : List (String × String)) (value : ℚ) : Sample :=
  ⟨labels.foldl (fun m l => m.insert l.1 l.2) ∅, value⟩

def calls (value : ℚ) : Sample :=
  series [("instance", "m1"), ("container_id", "/k8s/shop/app"), ("destination", "10.0.0.9:9000"),
    ("destination_workload_kind", "private")] value

/-- One host with two workloads whose paths end alike. One of them has sent three HTTP
requests and three Postgres queries to one address, and 1000 bytes. -/
def tied : ℕ → List Sample
  | 1 => [series [("instance", "m1"), ("hostname", "vm-1")] 1]
  | 4 => [series [("instance", "m1"), ("container_id", "/k8s/shop/app")] 1,
      series [("instance", "m1"), ("container_id", "/k8s/blog/app")] 1]
  | 6 => [calls 1000]
  | 11 => [calls 3]
  | 15 => [calls 3]
  | _ => []

/-- The orders in which the services and the edges are visited the other way round. -/
def Orders.reversed : Orders :=
  { Orders.stored with serviceKeys := .reversed, bestKeys := .reversed, edgeKeys := .reversed }

end ServiceMap

/-- Two runs on the same query results give the services in a different order and put the
byte counters on different edges. -/
theorem answer_depends_on_order :
    (buildServiceMap .stored tied).answer.services ≠
        (buildServiceMap .reversed tied).answer.services ∧
      (buildServiceMap .stored tied).answer.edges ≠
        (buildServiceMap .reversed tied).answer.edges := by
  decide +kernel

end Forager
