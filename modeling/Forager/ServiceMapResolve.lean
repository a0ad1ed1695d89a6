import Forager.ServiceMapOrder

/-!
# Destinations of the service map

`resolve` of `pkg/proxy/http/vmservicemap.go` looks for the host that has the address
of a destination and for the service of that host that listens on its port. A service
counts as listening on the address, or on all addresses, by the first of its sorted
listeners that fits. A listener on all addresses that sorts before the one on the
address hides it.
-/

namespace Forager

open GoRange Go

namespace ServiceMap

/-! ## Hosts and services -/

/-- Hosts and services as the collectors return them: a host does not repeat an
address, a service is known by its instance and container, and its container has a
name. -/
structure Known where
  hosts : GoMap Host
  services : List Service
  addresses : ∀ inst h, hosts.lookup inst = some h → h.ips.Nodup
  containers : (services.map fun sv => ContainerKey.mk sv.storeInstance sv.containerID).Nodup
  identified : ∀ sv ∈ services, sv.containerID ≠ ""

namespace Known

def owners (k : Known) (host : String) : List String :=
  k.hosts.keys.filter fun inst => host ∈ ((k.hosts.lookup inst).getD Host.zero).ips

def servicesAt (k : Known) (inst : String) : List Service :=
  k.services.filter (·.storeInstance = inst)

def resolver (k : Known) (o : Orders) : Resolver := newDestinationResolver o k.hosts k.services

end Known

def listenHost (l : Listener) : String :=
  trimBrackets ((splitHostPort l.addr).map Prod.fst |>.getD "")

def onAddress (host : String) (port : Int) (l : Listener) : Bool :=
  l.port = port ∧ listenHost l = host

def onAll (port : Int) (l : Listener) : Bool :=
  l.port = port ∧ (GoNet.parseIP (listenHost l)).any isUnspecified

/-- The only service of `services` on the address, or if there is none on the address
the only one on all addresses. -/
def answer (services : List Service) (host : String) (port : Int) : Option Service :=
  let exact := services.filter (·.listeners.any (onAddress host port))
  if exact = [] then only (services.filter (·.listeners.any (onAll port))) else only exact

def namedBy : Option Service → String × String
  | some sv => (sv.name, sv.containerID)
  | none => ("", "")

/-- What `resolve` is to name: the answer of the only host that has the address. -/
def Truthful (k : Known) (host : String) (port : Int) (r : Resolved) : Prop :=
  (r.service, r.container) =
    namedBy ((only (k.owners host)).bind fun inst => answer (k.servicesAt inst) host port)

/-- Among the listeners, one on all addresses stands before all those on the address,
and there is one on the address. -/
def Hides (host : String) (port : Int) (listeners : List Listener) : Prop :=
  ∃ before l after, listeners = before ++ l :: after ∧ onAll port l = true ∧
    onAddress host port l = false ∧ (∀ x ∈ before, onAddress host port x = false) ∧
    after.any (onAddress host port) = true

/-- The service `sv` of the instance may hide its listener on the address: the
services that show one are none or several, and if there are none then another one
hides its listener too, or no other one listens on all addresses. -/
def MayHide (services : List Service) (host : String) (port : Int) (sv : Service) : Prop :=
  (¬ ∃! t, t ∈ services ∧ t.listeners.any (onAddress host port) = true ∧
      ¬ Hides host port t.listeners) ∧
    ((∀ t ∈ services, t.listeners.any (onAddress host port) = true →
        Hides host port t.listeners) →
      (∃ t ∈ services, t ≠ sv ∧ t.listeners.any (onAddress host port) = true) ∨
        ∀ t ∈ services, t.listeners.any (onAll port) = true → t = sv)

/-- If the address has one owner: its label is not empty, unless nothing is to be named,
and the services that hide their listeners may do so. -/
def Resolvable (k : Known) (host : String) (port : Int) : Prop :=
  ∀ inst, only (k.owners host) = some inst →
    (inst = "" → answer (k.servicesAt inst) host port = none) ∧
    (inst ≠ "" → ∀ sv ∈ k.servicesAt inst, Hides host port sv.listeners →
      MayHide (k.servicesAt inst) host port sv)

/-- The address and the port of a destination, as `resolve` reads them. -/
def parseDestination (dest : String) : Option (String × Int) :=
  (splitHostPort dest).bind fun (host, portStr) =>
    (atoi portStr).map fun port => (trimBrackets host, port)

end ServiceMap

open ServiceMap

namespace ServiceMapLemmas

variable {host : String} {port : Int} {sv : Service} {services : List Service}

/-! ## One service -/

def fits (host : String) (port : Int) (l : Listener) : Option Listens :=
  if onAddress host port l then some .exact else if onAll port l then some .wildcard else none

theorem listens_eq (host : String) (port : Int) (sv : Service) :
    listens host port sv = sv.listeners.findSome? (fits host port) := by
  unfold listens fits onAddress onAll
  refine congrArg (List.findSome? · sv.listeners) (funext fun l => ?_)
  by_cases hport : l.port = port
  · simp only [hport, true_and, ne_eq, not_true_eq_false, if_false, decide_eq_true_eq]
    rfl
  · simp [hport]

theorem hides_cons (l : Listener) (ls : List Listener) : Hides host port (l :: ls) ↔
    onAddress host port l = false ∧
      (onAll port l = true ∧ ls.any (onAddress host port) = true ∨ Hides host port ls) := by
  constructor
  · rintro ⟨before, x, after, h, hall, hx, hbefore, hafter⟩
    cases before with
    | nil =>
      obtain ⟨rfl, rfl⟩ := List.cons.inj h
      exact ⟨hx, .inl ⟨hall, hafter⟩⟩
    | cons y before =>
      obtain ⟨rfl, rfl⟩ := List.cons.inj h
      obtain ⟨hl, hbefore⟩ := List.forall_mem_cons.mp hbefore
      exact ⟨hl, .inr ⟨before, x, after, rfl, hall, hx, hbefore, hafter⟩⟩
  · rintro ⟨hl, ⟨hall, hls⟩ | ⟨before, x, after, rfl, hall, hx, hbefore, hafter⟩⟩
    · exact ⟨[], l, ls, rfl, hall, hl, by simp, hls⟩
    · exact ⟨l :: before, x, after, rfl, hall, hx, List.forall_mem_cons.mpr ⟨hl, hbefore⟩, hafter⟩

theorem any_of_hides {ls : List Listener} (h : Hides host port ls) :
    ls.any (onAddress host port) = true ∧ ls.any (onAll port) = true := by
  obtain ⟨before, l, after, rfl, hall, -, -, hafter⟩ := h
  simp [hall, hafter]

theorem listens_exact : listens host port sv = some .exact ↔
    sv.listeners.any (onAddress host port) = true ∧ ¬ Hides host port sv.listeners := by
  rw [listens_eq]
  induction sv.listeners with
  | nil => simp
  | cons l ls ih =>
    rw [List.findSome?_cons, hides_cons, List.any_cons, fits]
    cases hl : onAddress host port l with
    | true => simp
    | false =>
      cases hall : onAll port l with
      | true => cases hls : ls.any (onAddress host port) <;> simp
      | false => simpa using ih

theorem listens_wildcard : listens host port sv = some .wildcard ↔
    sv.listeners.any (onAll port) = true ∧
      (Hides host port sv.listeners ∨ sv.listeners.any (onAddress host port) = false) := by
  rw [listens_eq]
  induction sv.listeners with
  | nil => simp
  | cons l ls ih =>
    rw [List.findSome?_cons, hides_cons, List.any_cons, List.any_cons, fits]
    cases hl : onAddress host port l with
    | true => simp
    | false =>
      cases hall : onAll port l with
      | true => cases hls : ls.any (onAddress host port) <;> simp
      | false => simpa using ih

/-! ## The services of an instance -/

section Pick

variable {α : Type} {l : List α}

theorem only_eq_some {a : α} (hl : l.Nodup) : only l = some a ↔ a ∈ l ∧ ∀ b ∈ l, b = a := by
  match l, hl with
  | [], _ => simp [only]
  | [b], _ => simp [only, eq_comm]
  | b :: c :: t, hl =>
    have hbc : b ≠ c := fun h => (List.nodup_cons.mp hl).1 (h ▸ List.mem_cons_self)
    constructor
    · intro h
      cases h
    · rintro ⟨-, hall⟩
      exact absurd ((hall b (by simp)).trans (hall c (by simp)).symm) hbc

theorem only_eq_none {a b : α} (ha : a ∈ l) (hb : b ∈ l) (hab : a ≠ b) : only l = none := by
  match l with
  | [] => cases ha
  | [c] => exact absurd ((List.mem_singleton.mp ha).trans (List.mem_singleton.mp hb).symm) hab
  | _ :: _ :: _ => rfl

variable {e a h : α → Bool}

/-- The elements that count as on the address. -/
def seen (l : List α) (e h : α → Bool) : List α := l.filter fun x => e x && !h x

theorem seen_of_none (hnone : ∀ x ∈ l, h x = false) : seen l e h = l.filter e :=
  List.filter_congr fun x hx => by rw [hnone x hx, Bool.not_false, Bool.and_true]

theorem mem_seen {x : α} : x ∈ seen l e h ↔ x ∈ l ∧ e x = true ∧ h x = false := by
  simp [seen]

theorem pick_eq_iff (hl : l.Nodup) (hh : ∀ x, h x = true → e x = true ∧ a x = true) :
    only (if seen l e h = [] then l.filter (fun x => a x && (h x || !e x)) else seen l e h) =
      (if l.filter e = [] then only (l.filter a) else only (l.filter e)) ↔
    ∀ x ∈ l, h x = true → only (seen l e h) = none ∧
      (seen l e h = [] → (∃ y ∈ l, y ≠ x ∧ e y = true) ∨ ∀ y ∈ l, a y = true → y = x) := by
  by_cases hnone : ∀ x ∈ l, h x = false
  · -- nothing is hidden
    refine iff_of_true ?_ fun x hx hhx => absurd hhx (by simp [hnone x hx])
    rw [seen_of_none hnone]
    split
    · next hnil =>
      refine congrArg only (List.filter_congr fun x hx => ?_)
      have hex : e x = false := by simpa using List.filter_eq_nil_iff.mp hnil x hx
      rw [hex, Bool.not_false, Bool.or_true, Bool.and_true]
    · rfl
  · push Not at hnone
    obtain ⟨x, hx, hhx⟩ := hnone
    replace hhx := Bool.eq_true_of_not_eq_false hhx
    obtain ⟨hex, hax⟩ := hh x hhx
    have hxe : x ∈ l.filter e := List.mem_filter.mpr ⟨hx, hex⟩
    rw [if_neg (List.ne_nil_of_mem hxe)]
    by_cases hseen : seen l e h = []
    · -- every element on the address hides its listener there
      have hhidden : ∀ y ∈ l, e y = true → h y = true := by
        intro y hy hey
        by_contra hhy
        exact List.not_mem_nil (hseen ▸ mem_seen.mpr ⟨hy, hey, Bool.not_eq_true _ ▸ hhy⟩)
      have hall : l.filter (fun x => a x && (h x || !e x)) = l.filter a := by
        refine List.filter_congr fun y hy => ?_
        cases hey : e y with
        | false => simp
        | true => simp [hhidden y hy hey]
      have hxa : x ∈ l.filter a := List.mem_filter.mpr ⟨hx, hax⟩
      rw [if_pos hseen, hall]
      by_cases hother : ∃ y ∈ l, y ≠ x ∧ e y = true
      · obtain ⟨y, hy, hyx, hey⟩ := hother
        have hya : y ∈ l.filter a := List.mem_filter.mpr ⟨hy, (hh y (hhidden y hy hey)).2⟩
        rw [only_eq_none hya hxa hyx, only_eq_none (List.mem_filter.mpr ⟨hy, hey⟩) hxe hyx]
        refine iff_of_true rfl fun z hz _ => ⟨by rw [hseen]; rfl, fun _ => .inl ?_⟩
        by_cases hzx : z = x
        · exact ⟨y, hy, hzx ▸ hyx, hey⟩
        · exact ⟨x, hx, Ne.symm hzx, hex⟩
      · push Not at hother
        have honly : only (l.filter e) = some x := by
          refine (only_eq_some (hl.filter _)).mpr ⟨hxe, fun y hy => ?_⟩
          obtain ⟨hy, hey⟩ := List.mem_filter.mp hy
          by_contra hyx
          exact hother y hy hyx hey
        rw [honly, only_eq_some (hl.filter _)]
        constructor
        · rintro ⟨-, hrest⟩ z hz hhz
          refine ⟨by rw [hseen]; rfl, fun _ => .inr fun y hy hay => ?_⟩
          have hzx : z = x := hrest z (List.mem_filter.mpr ⟨hz, (hh z hhz).2⟩)
          exact (hrest y (List.mem_filter.mpr ⟨hy, hay⟩)).trans hzx.symm
        · intro hcond
          refine ⟨hxa, fun y hy => ?_⟩
          obtain ⟨hy, hay⟩ := List.mem_filter.mp hy
          rcases (hcond x hx hhx).2 hseen with ⟨z, hz, hzx, hez⟩ | hrest
          · exact absurd hez (hother z hz hzx)
          · exact hrest y hy hay
    · -- some element is seen on the address, and `x` is not
      rw [if_neg hseen]
      obtain ⟨v, hv⟩ := List.exists_mem_of_ne_nil _ hseen
      have hnot : ∀ v ∈ seen l e h, only (l.filter e) = none := by
        intro v hv
        obtain ⟨hvl, hev, hhv⟩ := mem_seen.mp hv
        refine only_eq_none (List.mem_filter.mpr ⟨hvl, hev⟩) hxe ?_
        rintro rfl
        rw [hhx] at hhv
        cases hhv
      rw [hnot v hv]
      constructor
      · exact fun honly y _ _ => ⟨honly, fun hnil => absurd hnil hseen⟩
      · exact fun hcond => (hcond x hx hhx).1

end Pick

def pickAt (services : List Service) (host : String) (port : Int) : Option Service :=
  let exact := services.filter fun sv => listens host port sv = some .exact
  let wildcard := services.filter fun sv => listens host port sv = some .wildcard
  only (if exact = [] then wildcard else exact)

theorem resolveAt_named (hnd : (services.map Service.containerID).Nodup) (owner : String)
    (h : Host) :
    ((resolveAt services owner h host port).service,
      (resolveAt services owner h host port).container) =
      namedBy (pickAt services host port) := by
  have hunique (q : Service → Bool) : uniqueByContainer (services.filter q) = services.filter q :=
    uniqueByContainer_nodup (hnd.sublist ((List.filter_sublist).map _))
  unfold resolveAt pickAt
  dsimp only
  rw [hunique, hunique]
  split
  · next sv hsv => rw [hsv]; rfl
  · next hsv => rw [hsv]; rfl

theorem mem_of_only {α : Type} {l : List α} {a : α} (h : only l = some a) : a ∈ l := by
  match l with
  | [b] => exact List.mem_singleton.mpr (Option.some.inj h).symm

theorem pickAt_mem (h : pickAt services host port = some sv) : sv ∈ services := by
  have hmem := mem_of_only h
  split at hmem
  · exact List.mem_of_mem_filter hmem
  · exact List.mem_of_mem_filter hmem

theorem answer_mem (h : answer services host port = some sv) : sv ∈ services := by
  unfold answer at h
  dsimp only at h
  split at h
  · exact List.mem_of_mem_filter (mem_of_only h)
  · exact List.mem_of_mem_filter (mem_of_only h)

theorem pickAt_eq_iff (hnd : services.Nodup) :
    pickAt services host port = answer services host port ↔
      ∀ sv ∈ services, Hides host port sv.listeners → MayHide services host port sv := by
  classical
  let e : Service → Bool := fun sv => sv.listeners.any (onAddress host port)
  let a : Service → Bool := fun sv => sv.listeners.any (onAll port)
  let h : Service → Bool := fun sv => decide (Hides host port sv.listeners)
  have hexact : services.filter (fun sv => listens host port sv = some .exact) =
      seen services e h := by
    refine List.filter_congr fun sv _ => ?_
    rw [Bool.eq_iff_iff, decide_eq_true_iff, listens_exact]
    simp [e, h]
  have hwildcard : services.filter (fun sv => listens host port sv = some .wildcard) =
      services.filter fun sv => a sv && (h sv || !e sv) := by
    refine List.filter_congr fun sv _ => ?_
    rw [Bool.eq_iff_iff, decide_eq_true_iff, listens_wildcard]
    simp [e, a, h]
  have hpick := pick_eq_iff (l := services) (e := e) (a := a) (h := h) hnd fun sv hsv =>
    any_of_hides (of_decide_eq_true hsv)
  unfold pickAt answer
  dsimp only
  rw [hexact, hwildcard]
  refine hpick.trans ?_
  refine forall_congr' fun sv => imp_congr_right fun _ => ?_
  rw [decide_eq_true_iff]
  refine imp_congr_right fun _ => and_congr ?_ ?_
  · -- one service is seen
    rw [← Option.not_isSome_iff_eq_none, Option.isSome_iff_exists]
    refine not_congr (exists_congr fun t => ?_)
    have hmem : ∀ u, u ∈ seen services e h ↔ u ∈ services ∧
        u.listeners.any (onAddress host port) = true ∧ ¬ Hides host port u.listeners := by
      intro u
      rw [mem_seen]
      simp [e, h]
    rw [only_eq_some (show (seen services e h).Nodup from hnd.filter _), hmem]
    simp only [hmem]
  · refine imp_congr_left ?_
    rw [seen, List.filter_eq_nil_iff]
    refine forall_congr' fun t => imp_congr_right fun _ => ?_
    simp [e, h]

/-! ## What the collectors return -/

theorem hostTable_ips (cloud info ips listen : List Sample) :
    All (fun _ h => h.ips.Nodup) (hostTable cloud info ips listen) := by
  have hzero : Host.zero.ips.Nodup := List.nodup_nil
  unfold hostTable
  refine foldl_keeps _ (fun t s ht => ht.upd hzero fun h hh => ?_) listen
    (foldl_keeps _ (fun t s ht => ht.upd hzero fun h hh => ?_) ips
      (foldl_keeps _ (fun t s ht => ht.upd hzero fun h hh => hh) info
        (foldl_keeps _ (fun t s ht => ht.upd hzero fun h hh => hh) cloud (all_empty _))))
  · dsimp only
    split
    · exact hh
    · exact hh
  · dsimp only
    split
    · exact hh
    · exact nodup_addNew hh _

theorem byInstance_ips (o : Orders) (res : ℕ → List Sample) (inst : String) (h : Host)
    (hlookup : (byInstance o res).2.lookup inst = some h) : h.ips.Nodup := by
  unfold byInstance collectHosts at hlookup
  dsimp only at hlookup
  rw [lookup_foldl_insert] at hlookup
  split at hlookup
  · obtain rfl := Option.some.inj hlookup
    refine (List.perm_insertionSort (· ≤ ·) _).nodup_iff.mpr ?_
    cases hentry : (hostTable (res 0) (res 1) (res 2) (res 3)).lookup inst with
    | none =>
      rw [entry, hentry]
      exact List.nodup_nil
    | some h =>
      rw [entry_of_lookup hentry]
      exact hostTable_ips _ _ _ _ inst h hentry
  · simp at hlookup

theorem servicesOf_identified (o : Orders) (res : ℕ → List Sample) :
    ∀ sv ∈ (servicesOf o res).1, sv.containerID ≠ "" := by
  intro sv hsv
  obtain ⟨c, hc, rfl⟩ := List.mem_map.mp ((services_perm o res).mem_iff.mp hsv)
  obtain ⟨s, hs, rfl⟩ := List.mem_map.mp ((mem_servicesBy o res c).mp hc)
  have hservice : isServiceContainer (s.label "container_id") = true := (List.mem_filter.mp hs).2
  have hid : (serviceOf o res s.containerKey).containerID = s.label "container_id" :=
    (serviceOf_entry o res s.containerKey).container
  rw [hid]
  intro hempty
  rw [hempty] at hservice
  cases hservice

/-! ## The owner -/

variable {k : Known} {inst : String}

theorem servicesAt_containers (k : Known) (inst : String) :
    ((k.servicesAt inst).map Service.containerID).Nodup := by
  refine List.Nodup.map_on ?_ (k.containers.of_map.filter _)
  intro sv hsv sv' hsv' hc
  obtain ⟨hmem, hi⟩ := List.mem_filter.mp hsv
  obtain ⟨hmem', hi'⟩ := List.mem_filter.mp hsv'
  refine List.inj_on_of_nodup_map k.containers hmem hmem' ?_
  rw [of_decide_eq_true hi, of_decide_eq_true hi', hc]

theorem only_instancesByIP (k : Known) (o : Orders) (host : String) :
    only (slice (k.resolver o).instancesByIP host) = only (k.owners host) := by
  have hone : ∀ inst, (((k.hosts.lookup inst).getD Host.zero).ips.filter (· = host)).map
      (fun _ => inst)
        = if host ∈ ((k.hosts.lookup inst).getD Host.zero).ips then [inst] else [] := by
    intro inst
    have hnd : ((k.hosts.lookup inst).getD Host.zero).ips.Nodup := by
      cases h : k.hosts.lookup inst with
      | none => exact List.nodup_nil
      | some h' => exact k.addresses inst h' h
    rw [List.filter_eq, List.map_replicate, List.Nodup.count hnd]
    split <;> rfl
  rw [Known.resolver, slice_instancesByIP]
  simp only [hone]
  rw [flatMap_ite, List.flatMap_singleton']
  exact only_perm ((o.resolverHosts.perm _).filter _)

theorem lookup_of_only (h : only (k.owners host) = some inst) :
    ∃ h, k.hosts.lookup inst = some h := by
  have hmem := List.mem_of_mem_filter (mem_of_only h)
  exact Option.isSome_iff_exists.mp (AList.lookup_isSome.mpr (AList.mem_keys.mpr hmem))

theorem namedBy_inj {x y : Option Service} (hx : ∀ sv, x = some sv → sv ∈ k.servicesAt inst)
    (hy : ∀ sv, y = some sv → sv ∈ k.servicesAt inst) : namedBy x = namedBy y ↔ x = y := by
  have hne : ∀ sv ∈ k.servicesAt inst, sv.containerID ≠ "" := fun sv hsv =>
    k.identified sv (List.mem_of_mem_filter hsv)
  constructor
  · intro h
    have hid := congrArg Prod.snd h
    match x, y with
    | none, none => rfl
    | none, some sv => exact absurd hid.symm (hne sv (hy sv rfl))
    | some sv, none => exact absurd hid (hne sv (hx sv rfl))
    | some sv, some sv' =>
      rw [List.inj_on_of_nodup_map (servicesAt_containers k inst) (hx sv rfl) (hy sv' rfl) hid]
  · exact congrArg namedBy

theorem resolve_named (k : Known) (o : Orders) (src : String) {dest : String}
    (hdest : parseDestination dest = some (host, port)) :
    (((k.resolver o).resolve src dest).service, ((k.resolver o).resolve src dest).container) =
      namedBy ((only (k.owners host)).bind fun inst =>
        if inst = "" then none else pickAt (k.servicesAt inst) host port) := by
  obtain ⟨⟨host', portStr⟩, hsplit, hport⟩ := Option.bind_eq_some_iff.mp hdest
  obtain ⟨port', hatoi, hpair⟩ := Option.map_eq_some_iff.mp hport
  obtain ⟨rfl, rfl⟩ := Prod.mk.inj hpair
  unfold Resolver.resolve
  rw [hsplit]
  dsimp only
  rw [hatoi]
  dsimp only
  rw [only_instancesByIP]
  cases howner : only (k.owners (trimBrackets host')) with
  | none =>
    -- the empty label is no owner
    cases hempty : AList.lookup "" (k.resolver o).hosts with
    | none => simp [hempty, namedBy, Resolved.none]
    | some h => simp [hempty, namedBy, Resolved.none]
  | some inst =>
    obtain ⟨h, hlookup⟩ := lookup_of_only howner
    have hlookup : (k.resolver o).hosts.lookup inst = some h := hlookup
    rw [Option.getD_some, Option.bind_some, hlookup]
    dsimp only
    split
    · rfl
    · rw [Known.resolver, slice_services]
      exact resolveAt_named (servicesAt_containers k inst) inst h

end ServiceMapLemmas

/-- The hosts and services of a run. -/
def ServiceMap.knownOf (o : Orders) (res : ℕ → List Sample) : Known where
  hosts := (byInstance o res).2
  services := (servicesOf o res).1
  addresses := ServiceMapLemmas.byInstance_ips o res
  containers := ServiceMapLemmas.services_nodup o res
  identified := ServiceMapLemmas.servicesOf_identified o res

theorem ServiceMapLemmas.contextOf_resolve (o : Orders) (res : ℕ → List Sample) :
    (contextOf o res).resolve = ((knownOf o res).resolver o).resolve := rfl

open ServiceMapLemmas in
/-- `resolve` names what the hosts and services say iff the destination is resolvable:
no service of the only owner of its address hides a listener on the address behind one
on all addresses, except where that makes no difference. -/
theorem resolve_truthful_iff (k : Known) (o : Orders) (src dest host : String) (port : Int)
    (hdest : parseDestination dest = some (host, port)) :
    Truthful k host port ((k.resolver o).resolve src dest) ↔ Resolvable k host port := by
  rw [Truthful, resolve_named k o src hdest]
  unfold Resolvable
  cases howner : only (k.owners host) with
  | none => exact iff_of_true rfl (fun inst h => by cases h)
  | some inst =>
    have hanswer : ∀ sv, answer (k.servicesAt inst) host port = some sv →
        sv ∈ k.servicesAt inst := fun sv => answer_mem
    simp only [Option.bind_some, Option.some.injEq, forall_eq']
    by_cases hempty : inst = ""
    · rw [if_pos hempty, namedBy_inj (fun sv h => by cases h) hanswer]
      exact ⟨fun h => ⟨fun _ => h.symm, fun hne => absurd hempty hne⟩, fun h => (h.1 hempty).symm⟩
    · rw [if_neg hempty, namedBy_inj (fun sv => pickAt_mem) hanswer,
        pickAt_eq_iff (servicesAt_containers k inst).of_map]
      exact ⟨fun h => ⟨fun he => absurd he hempty, fun _ => h⟩, fun h => h.2 hempty⟩

namespace ServiceMap

def container (id : String) : Sample := series [("instance", "m1"), ("container_id", id)] 1

/-- A listener of a container of the host `m1`. -/
def listenerOn (id addr : String) : Sample :=
  series [("instance", "m1"), ("container_id", id), ("listen_addr", addr)] 1

/-- The host `m1` with the address 10.0.0.5. Its container `web` listens on that address,
and `proxy` on it and on all addresses. -/
def twoOnAddress : ℕ → List Sample
  | 2 => [series [("instance", "m1"), ("ip", "10.0.0.5")] 1]
  | 3 => [listenerOn "/docker/web" "10.0.0.5:80", listenerOn "/docker/web" "10.0.0.5:443",
      listenerOn "/docker/proxy" "10.0.0.5:80", listenerOn "/docker/proxy" "0.0.0.0:80"]
  | 4 => [container "/docker/web", container "/docker/proxy"]
  | _ => []

end ServiceMap

/-- The port 443 of the host is resolvable, to `web`. -/
theorem listened_port_resolvable :
    (answer ((knownOf .stored twoOnAddress).servicesAt "m1") "10.0.0.5" 443).isSome = true ∧
      Resolvable (knownOf .stored twoOnAddress) "10.0.0.5" 443 :=
  ⟨by decide +kernel, (resolve_truthful_iff (knownOf .stored twoOnAddress) .stored "m1"
    "10.0.0.5:443" "10.0.0.5" 443 (by decide)).mp (by unfold Truthful; decide +kernel)⟩

/-- Both containers listen on 10.0.0.5:80, so nothing is to be named, and `resolve` names
`web`. -/
theorem hidden_listener_guessed :
    answer ((knownOf .stored twoOnAddress).servicesAt "m1") "10.0.0.5" 80 = none ∧
      (((knownOf .stored twoOnAddress).resolver .stored).resolve "m1" "10.0.0.5:80").container =
        "/docker/web" ∧
      ((knownOf .stored twoOnAddress).servicesAt "m1").all
        (·.listeners.any (onAddress "10.0.0.5" 80)) = true := by
  decide +kernel

end Forager
