import Forager.ServiceMap
import Mathlib.Data.List.Nodup

/-!
# What the orders cannot change

The edges of the service map are built against three tables: the hosts, the services and the
resolver of destinations. All three are filled under orders that Go leaves open, and none of
them shows it.
-/

namespace Forager

open Go GoRange ServiceMap

namespace ServiceMapLemmas

variable {k : ContainerKey} {sv : Service}

variable {res : ℕ → List Sample}

/-! ## Hosts -/

theorem byInstance_orders (o o' : Orders) (res : ℕ → List Sample) :
    byInstance o res = byInstance o' res := by
  unfold byInstance collectHosts
  dsimp only
  rw [sortValues_eq_iff.mpr (Visit.perm_visit o.hostKeys o'.hostKeys _)]

/-! ## Services -/

/-- What the table of services says of a key and its record. -/
structure ServiceOf (k : ContainerKey) (sv : Service) : Prop where
  inst : sv.storeInstance = k.inst
  container : sv.containerID = k.container
  name : sv.name = serviceName k.container
  parsed : ∀ l ∈ sv.listeners, parseListener l.addr = some l

theorem parseListener_addr {a : String} {l : Listener} (h : parseListener a = some l) :
    l.addr = a := by
  unfold parseListener at h
  obtain ⟨⟨_, port⟩, -, h⟩ := Option.bind_eq_some_iff.mp h
  obtain ⟨n, -, rfl⟩ := Option.map_eq_some_iff.mp h
  rfl

theorem serviceOf_addListener (s : Sample) (h : ServiceOf k sv) :
    ServiceOf k (addListener s sv) := by
  unfold addListener
  split
  next => exact h
  next l hl =>
    refine ⟨h.inst, h.container, h.name, fun l' hl' => ?_⟩
    simp only [addNew] at hl'
    split at hl'
    · exact h.parsed l' hl'
    · rcases List.mem_append.mp hl' with hl' | hl'
      · exact h.parsed l' hl'
      · rw [List.mem_singleton.mp hl', parseListener_addr hl, hl]

theorem serviceOf_addType (s : Sample) (h : ServiceOf k sv) : ServiceOf k (addType s sv) := by
  unfold addType
  split
  · exact h
  · exact ⟨h.inst, h.container, h.name, h.parsed⟩

theorem serviceOf_setImage (s : Sample) (h : ServiceOf k sv) : ServiceOf k (setImage s sv) := by
  unfold setImage
  split
  · exact h
  · exact ⟨h.inst, h.container, h.name, h.parsed⟩

theorem serviceTable_all (info appType listen : List Sample) (hosts : GoMap Host) :
    All ServiceOf (serviceTable info appType listen hosts) := by
  have hnew : ∀ k, ServiceOf k (newService hosts k) := fun k =>
    ⟨rfl, rfl, rfl, fun l hl => by simp [newService] at hl⟩
  refine foldl_keeps _ (fun t s ht => ht.adjust fun _ => serviceOf_addListener s) listen ?_
  refine foldl_keeps _ (fun t s ht => ht.adjust fun _ => serviceOf_addType s) _ ?_
  exact foldl_keeps _ (fun t s ht => ht.upd (hnew _) fun _ => serviceOf_setImage s) _ (all_empty _)

theorem listenerLess_compares : Compares listenerLess Listener.addr := fun a b => by
  simp [listenerLess]

theorem sort_listeners (s s' : Sorter listenerLess) {l l' : List Listener}
    (hl : ∀ x ∈ l, parseListener x.addr = some x) : s.sort l = s'.sort l' ↔ l.Perm l' := by
  constructor
  · intro h
    exact (s.perm l).symm.trans (h ▸ s'.perm l')
  · intro h
    have hperm := (s.perm l).trans (h.trans (s'.perm l').symm)
    refine List.Perm.eq_of_pairwise ?_ (s.pairwise_key listenerLess_compares l)
      (s'.pairwise_key listenerLess_compares l') hperm
    intro a b ha hb hab hba
    have hpa := hl a ((s.perm l).mem_iff.mp ha)
    have hpb := hl b ((s.perm l).mem_iff.mp (hperm.mem_iff.mpr hb))
    have haddr : a.addr = b.addr := le_antisymm hab hba
    rw [haddr, hpb] at hpa
    exact (Option.some.inj hpa).symm

theorem finishService_orders (o o' : Orders) (h : ServiceOf k sv) :
    finishService o sv = finishService o' sv := by
  rw [finishService, (sort_listeners o.listeners o'.listeners h.parsed).mpr .rfl]
  rfl

end ServiceMapLemmas

namespace ServiceMap

/-- The table of services of the query results. -/
def servicesBy (o : Orders) (res : ℕ → List Sample) : AList fun _ : ContainerKey => Service :=
  serviceTable (res 4) (res 5) (res 3) (byInstance o res).2

/-- The record of a container that the answer is built from. -/
def serviceOf (o : Orders) (res : ℕ → List Sample) (k : ContainerKey) : Service :=
  finishService o (entry (newService (byInstance o res).2) (servicesBy o res) k)

end ServiceMap

namespace ServiceMapLemmas

theorem serviceOf_entry (o : Orders) (res : ℕ → List Sample) (k : ContainerKey) :
    ServiceOf k (entry (newService (byInstance o res).2) (servicesBy o res) k) := by
  rcases h : (servicesBy o res).lookup k with _ | sv
  · rw [entry, h]
    exact ⟨rfl, rfl, rfl, fun l hl => by simp [newService] at hl⟩
  · rw [entry_of_lookup h]
    exact serviceTable_all _ _ _ _ k sv h

theorem service_orders (o o' : Orders) (res : ℕ → List Sample) (k : ContainerKey) :
    serviceOf o res k = serviceOf o' res k := by
  rw [serviceOf, finishService_orders o o' (serviceOf_entry o res k), serviceOf, servicesBy,
    servicesBy, byInstance_orders o o']

theorem servicesOf_snd (o : Orders) (res : ℕ → List Sample) (k : ContainerKey) :
    (servicesOf o res).2.lookup k
      = if k ∈ (servicesBy o res).keys then some (serviceOf o res k) else none := by
  have h := lookup_foldl_insert (serviceOf o res) (o.serviceKeys.visit (servicesBy o res).keys) ∅ k
  simp only [Visit.mem_visit] at h
  rw [servicesOf, collectServices, List.foldl_map]
  exact h

theorem services_perm (o : Orders) (res : ℕ → List Sample) :
    (servicesOf o res).1.Perm ((servicesBy o res).keys.map (serviceOf o res)) := by
  rw [servicesOf, collectServices, List.map_map]
  exact (o.services.perm _).trans ((o.serviceKeys.perm _).map _)

theorem servicesBy_orders (o o' : Orders) (res : ℕ → List Sample) :
    servicesBy o res = servicesBy o' res := by
  rw [servicesBy, byInstance_orders o o']
  rfl

/-! ### What a service shows -/

end ServiceMapLemmas

namespace ServiceMap

/-- The values of a label on the samples of a container; an empty value counts as none. -/
def labelValues (name : String) (samples : List Sample) (c : ContainerKey) : List String :=
  ((samples.filter (·.containerKey = c)).map (·.label name)).filter (· ≠ "")

/-- The containers that were active: those of `container_info`. -/
def activeContainers (res : ℕ → List Sample) : List ContainerKey :=
  ((res 4).filter Sample.isService).map Sample.containerKey

/-- The last image `container_info` gives. -/
def imageOf (res : ℕ → List Sample) (c : ContainerKey) : String :=
  (labelValues "image" (res 4) c).getLastD ""

/-- The application types of a container. -/
def typesOf (res : ℕ → List Sample) (c : ContainerKey) : List String :=
  labelValues "application_type" (res 5) c

/-- The listeners of a container: its addresses that parse. -/
def listenersOf (res : ℕ → List Sample) (c : ContainerKey) : List Listener :=
  (labelValues "listen_addr" (res 3) c).filterMap parseListener

end ServiceMap

namespace ServiceMapLemmas

theorem foldl_setImage (l : List Sample) (sv : Service) :
    l.foldl (fun sv s => setImage s sv) sv
      = { sv with
          image := ((l.map (·.label "image")).filter (· ≠ "")).getLastD sv.image } := by
  induction l generalizing sv with
  | nil => rfl
  | cons s t ih =>
    rw [List.foldl_cons, ih, setImage]
    by_cases h : s.label "image" = "" <;> simp [h, List.getLast?_cons]

theorem foldl_addType (l : List Sample) (sv : Service) :
    l.foldl (fun sv s => addType s sv) sv
      = { sv with
          applicationTypes := ((l.map (·.label "application_type")).filter (· ≠ "")).foldl addNew
            sv.applicationTypes } := by
  induction l generalizing sv with
  | nil => rfl
  | cons s t ih =>
    rw [List.foldl_cons, ih, addType]
    by_cases h : s.label "application_type" = "" <;> simp [h]

theorem parseListener_empty : parseListener "" = none := by decide

theorem foldl_addListener (l : List Sample) (sv : Service) :
    l.foldl (fun sv s => addListener s sv) sv
      = { sv with
          listeners := (((l.map (·.label "listen_addr")).filter (· ≠ "")).filterMap
            parseListener).foldl addNew sv.listeners } := by
  induction l generalizing sv with
  | nil => rfl
  | cons s t ih =>
    rw [List.foldl_cons, ih, addListener]
    by_cases h : s.label "listen_addr" = ""
    · simp [h, parseListener_empty]
    · rcases hp : parseListener (s.label "listen_addr") with _ | l <;> simp [h, hp]

theorem mem_addNew {α : Type} [DecidableEq α] {l : List α} {v a : α} :
    a ∈ addNew l v ↔ a ∈ l ∨ v = a := by
  unfold addNew
  split
  next h =>
    constructor
    · exact .inl
    · rintro (h' | rfl)
      · exact h'
      · exact h
  next => simp [eq_comm]

theorem mem_foldl_addNew {α : Type} [DecidableEq α] {vs : List α} {a : α} :
    a ∈ vs.foldl addNew [] ↔ a ∈ vs := by
  have h := foldl_adds (P := fun l => a ∈ l) (Q := fun v => v = a) addNew
    (fun l v => mem_addNew) vs []
  simpa using h

theorem nodup_addNew {α : Type} [DecidableEq α] {l : List α} (hl : l.Nodup) (v : α) :
    (addNew l v).Nodup := by
  unfold addNew
  split
  · exact hl
  · next hnew => exact List.concat_eq_append ▸ hl.concat hnew

theorem nodup_foldl_addNew {α : Type} [DecidableEq α] (vs : List α) :
    (vs.foldl addNew []).Nodup :=
  foldl_keeps (I := List.Nodup) addNew (fun _ v hl => nodup_addNew hl v) vs List.nodup_nil

theorem foldl_addNew_perm {α : Type} [DecidableEq α] {vs vs' : List α} :
    (vs.foldl addNew []).Perm (vs'.foldl addNew []) ↔ ∀ a, a ∈ vs ↔ a ∈ vs' := by
  rw [List.perm_ext_iff_of_nodup (nodup_foldl_addNew vs) (nodup_foldl_addNew vs')]
  simp only [mem_foldl_addNew]

theorem listenersOf_parsed (res : ℕ → List Sample) (c : ContainerKey) :
    ∀ l ∈ (listenersOf res c).foldl addNew [], parseListener l.addr = some l := by
  intro l hl
  obtain ⟨a, -, ha⟩ := List.mem_filterMap.mp (mem_foldl_addNew.mp hl)
  rw [parseListener_addr ha, ha]

theorem mem_servicesBy (o : Orders) (res : ℕ → List Sample) (c : ContainerKey) :
    c ∈ servicesBy o res ↔ c ∈ activeContainers res := by
  unfold servicesBy serviceTable
  rw [← AList.lookup_isSome, lookup_foldl_adjust, Option.isSome_map, lookup_foldl_adjust,
    Option.isSome_map, AList.lookup_isSome, mem_fill]
  simp [activeContainers]

theorem filter_isService {res : ℕ → List Sample} {c : ContainerKey} (hc : c ∈ activeContainers res)
    (l : List Sample) :
    ((l.filter Sample.isService).filter (·.containerKey = c)) = l.filter (·.containerKey = c) := by
  obtain ⟨s₀, hs₀, rfl⟩ := List.mem_map.mp hc
  rw [List.filter_filter]
  refine List.filter_congr fun s _ => ?_
  by_cases hs : s.containerKey = s₀.containerKey
  · have hid : s.label "container_id" = s₀.label "container_id" :=
      congrArg ContainerKey.container hs
    have hservice : s.isService := by
      rw [Sample.isService, hid]
      exact (List.mem_filter.mp hs₀).2
    simp [hservice]
  · simp [hs]

theorem serviceOf_eq (o : Orders) {res : ℕ → List Sample} {c : ContainerKey}
    (hc : c ∈ activeContainers res) :
    serviceOf o res c
      = { newService (byInstance o res).2 c with
          image := imageOf res c
          applicationTypes := sortValues ((typesOf res c).foldl addNew [])
          listeners := o.listeners.sort ((listenersOf res c).foldl addNew []) } := by
  have hfill := lookup_fill (m := ∅) Sample.containerKey setImage (newService (byInstance o res).2)
    ((res 4).filter Sample.isService) (.inr hc)
  have hlookup : (servicesBy o res).lookup c = some { newService (byInstance o res).2 c with
      image := imageOf res c
      applicationTypes := (typesOf res c).foldl addNew []
      listeners := (listenersOf res c).foldl addNew [] } := by
    unfold servicesBy serviceTable
    rw [lookup_foldl_adjust, lookup_foldl_adjust, hfill, Option.map_some, Option.map_some,
      filter_isService hc, filter_isService hc, foldl_setImage, foldl_addType, foldl_addListener]
    rfl
  rw [serviceOf, entry_of_lookup hlookup]
  rfl

theorem services_nodup (o : Orders) (res : ℕ → List Sample) :
    ((servicesOf o res).1.map fun sv => ContainerKey.mk sv.storeInstance sv.containerID).Nodup := by
  have hkey : ∀ k, ContainerKey.mk (serviceOf o res k).storeInstance (serviceOf o res k).containerID
      = k := by
    intro k
    have h := serviceOf_entry o res k
    show ContainerKey.mk (entry _ _ k : Service).storeInstance
      (entry _ _ k : Service).containerID = k
    rw [h.inst, h.container]
  refine ((services_perm o res).map _).nodup_iff.mpr ?_
  rw [List.map_map]
  simp only [Function.comp_def, hkey, List.map_id']
  exact AList.keys_nodup _

theorem containers_nodup (o : Orders) (res : ℕ → List Sample) (inst : String) :
    (((servicesOf o res).1.filter (·.storeInstance = inst)).map Service.containerID).Nodup := by
  refine List.Nodup.map_on ?_ ((services_nodup o res).of_map.filter _)
  intro sv hsv sv' hsv' hc
  obtain ⟨hmem, hi⟩ := List.mem_filter.mp hsv
  obtain ⟨hmem', hi'⟩ := List.mem_filter.mp hsv'
  refine List.inj_on_of_nodup_map (services_nodup o res) hmem hmem' ?_
  rw [of_decide_eq_true hi, of_decide_eq_true hi', hc]

theorem services_orders (o o' : Orders) (res : ℕ → List Sample) :
    (servicesOf o res).1.Perm (servicesOf o' res).1 := by
  refine (services_perm o res).trans ?_
  rw [servicesBy_orders o o', funext (service_orders o o' res)]
  exact (services_perm o' res).symm

/-! ## Destinations -/

theorem slice_foldl_appendAt {α β : Type} (key : α → String) (v : α → β) (l : List α) (k : String) :
    slice (l.foldl (fun m a => appendAt (key a) (v a) m) ∅) k = (l.filter (key · = k)).map v := by
  have happend : ∀ (l : List α) (b : List β), l.foldl (fun b a => b ++ [v a]) b = b ++ l.map v := by
    intro l
    induction l with
    | nil => simp
    | cons a t ih => intro b; simp [ih]
  have h := entry_fill (m := ∅) (k := k) key (fun a b => b ++ [v a]) (fun _ => []) l
  exact h.trans (happend _ _)

theorem uniqueByContainer_nodup {l : List Service} (h : (l.map Service.containerID).Nodup) :
    uniqueByContainer l = l := by
  have hloop : ∀ (l out : List Service), ((out ++ l).map Service.containerID).Nodup →
      l.foldl (fun out s => if s.containerID ∈ out.map Service.containerID then out
        else out ++ [s]) out = out ++ l := by
    intro l
    induction l with
    | nil => simp
    | cons s t ih =>
      intro out hnd
      have hs : s.containerID ∉ out.map Service.containerID := by
        rw [List.map_append, List.nodup_append] at hnd
        intro hmem
        exact hnd.2.2 _ hmem _ (by simp) rfl
      rw [List.foldl_cons, if_neg hs, ih _ (by simpa using hnd), List.append_assoc]
      rfl
  exact hloop l [] h

theorem resolveAt_perm {l l' : List Service} (h : l.Perm l')
    (hnd : (l.map Service.containerID).Nodup) (owner : String) (host : Host) (addr : String)
    (port : Int) : resolveAt l owner host addr port = resolveAt l' owner host addr port := by
  have hnd' : (l'.map Service.containerID).Nodup := (h.map _).nodup_iff.mp hnd
  have hunique (q : Service → Bool) (l : List Service) (hl : (l.map Service.containerID).Nodup) :
      uniqueByContainer (l.filter q) = l.filter q :=
    uniqueByContainer_nodup (hl.sublist ((List.filter_sublist).map _))
  have hpick (q q' : Service → Bool) :
      only (if l.filter q = [] then l.filter q' else l.filter q)
        = only (if l'.filter q = [] then l'.filter q' else l'.filter q) := by
    have hq := h.filter q
    by_cases hnil : l.filter q = []
    · rw [if_pos hnil, if_pos ((hnil ▸ hq).nil_eq.symm)]
      exact only_perm (h.filter q')
    · rw [if_neg hnil, if_neg fun hnil' => hnil (hnil' ▸ hq).eq_nil]
      exact only_perm hq
  unfold resolveAt
  dsimp only
  rw [hunique _ l hnd, hunique _ l hnd, hunique _ l' hnd', hunique _ l' hnd', hpick]

theorem slice_services (o : Orders) (hosts : GoMap Host) (services : List Service) (k : String) :
    slice (newDestinationResolver o hosts services).services k
      = services.filter (·.storeInstance = k) := by
  have h := slice_foldl_appendAt Service.storeInstance id services k
  rw [List.map_id] at h
  exact h

theorem slice_instancesByIP (o : Orders) (hosts : GoMap Host) (services : List Service)
    (ip : String) :
    slice (newDestinationResolver o hosts services).instancesByIP ip
      = (o.resolverHosts.visit hosts.keys).flatMap fun inst =>
          (((hosts.lookup inst).getD Host.zero).ips.filter (· = ip)).map fun _ => inst := by
  have h := slice_foldl_appendAt Prod.fst Prod.snd
    ((o.resolverHosts.visit hosts.keys).flatMap fun inst =>
      ((hosts.lookup inst).getD Host.zero).ips.map fun ip => (ip, inst)) ip
  rw [List.foldl_flatMap, List.filter_flatMap, List.map_flatMap] at h
  simp only [List.foldl_map, List.filter_map, List.map_map, Function.comp_def] at h
  exact h

theorem resolve_congr {r r' : Resolver} (hhosts : r.hosts = r'.hosts)
    (howner : ∀ ip, only (slice r.instancesByIP ip) = only (slice r'.instancesByIP ip))
    (hat : ∀ owner h addr port, resolveAt (slice r.services owner) owner h addr port
      = resolveAt (slice r'.services owner) owner h addr port) (src dest : String) :
    r.resolve src dest = r'.resolve src dest := by
  unfold Resolver.resolve
  rcases splitHostPort dest with _ | ⟨host, portStr⟩
  · rfl
  · dsimp only
    rcases atoi portStr with _ | port
    · rfl
    · dsimp only
      rw [howner, hhosts]
      rcases r'.hosts.lookup _ with _ | h
      · rfl
      · dsimp only
        rw [hat]

theorem resolve_orders (o o' : Orders) (res : ℕ → List Sample) (src dest : String) :
    (newDestinationResolver o (byInstance o res).2 (servicesOf o res).1).resolve src dest =
      (newDestinationResolver o' (byInstance o' res).2 (servicesOf o' res).1).resolve src
        dest := by
  refine resolve_congr (congrArg Prod.snd (byInstance_orders o o' res)) ?_ ?_ src dest
  · intro ip
    rw [slice_instancesByIP, slice_instancesByIP, byInstance_orders o o']
    exact only_perm ((Visit.perm_visit o.resolverHosts o'.resolverHosts _).flatMap_right _)
  · intro owner h addr port
    rw [slice_services, slice_services]
    exact resolveAt_perm ((services_orders o o' res).filter _) (containers_nodup o res owner) ..

theorem contextOf_orders (o o' : Orders) (res : ℕ → List Sample) :
    contextOf o res = contextOf o' res := by
  have hservice : ∀ k, (servicesOf o res).2.lookup k = (servicesOf o' res).2.lookup k := by
    intro k
    rw [servicesOf_snd, servicesOf_snd, service_orders o o', servicesBy_orders o o']
  have hresolve : (newDestinationResolver o (byInstance o res).2 (servicesOf o res).1).resolve
      = (newDestinationResolver o' (byInstance o' res).2 (servicesOf o' res).1).resolve := by
    funext src dest
    exact resolve_orders o o' res src dest
  rw [contextOf, hresolve]
  simp only [hservice, byInstance_orders o o']
  rfl

end ServiceMapLemmas

end Forager
