import Forager.Sweep

/-!
# The scope of a target given by name

`isTargetAllowed` of `pkg/proxy/discovery/proxy.go` and `isHostAllowed` of
`pkg/proxy/ssh/proxy.go` decide whether a host may be dialled. Both resolve a
name and compare the answer with the configured networks; the dial that follows
resolves the name again. The two proxies keep the networks in different forms,
`parseAllowedCIDRs` and `parseAllowedHosts`. A DNS answer is a parameter.
-/

namespace Forager

open Go GoNet

/-! ## The scope of the SSH proxy -/

/-- The fields of `ssh.Proxy` that `isHostAllowed` reads. -/
structure SshScope where
  allowedNets : List IPNet
  allowedHosts : List String
deriving DecidableEq, Repr

/-- One entry of `parseAllowedHosts`: an IPv4 address is kept in its 4-byte form. -/
def parseAllowedHost (h : String) : Except String IPNet :=
  match parseCIDR h with
  | some ipNet => .ok ipNet
  | none => match parseIP h with
    | some ip => .ok (match ip.to4 with
      | some ip4 => ⟨.b4 ip4, 32, true⟩
      | none => ⟨ip, 128, false⟩)
    | none => .error h

def parseAllowedHosts (hosts : List String) : SshScope where
  allowedNets := hosts.filterMap fun h => (parseAllowedHost h).toOption
  allowedHosts := hosts.filter fun h => (parseAllowedHost h).toOption.isNone

/-- The check that both proxies make, on the networks and names they keep. -/
def scopeAllows (allowedNets : List IPNet) (allowedHosts : List String)
    (lookupHost : String → Option (List String)) (host : String) : Bool :=
  if allowedNets.length = 0 ∧ allowedHosts.length = 0 then true
  else if host ∈ allowedHosts then true
  else match parseIP host with
    | none => match lookupHost host with
      | none => false
      | some addrs => addrs.any fun a => (parseIP a).any fun resolved =>
        allowedNets.any (·.contains resolved)
    | some ip => allowedNets.any (·.contains ip)

def isHostAllowed (p : SshScope) (lookupHost : String → Option (List String)) (host : String) :
    Bool :=
  scopeAllows p.allowedNets p.allowedHosts lookupHost host

theorem isTargetAllowed_eq (p : DiscoveryProxy) (lookupHost : String → Option (List String))
    (host : String) :
    isTargetAllowed p lookupHost host =
      scopeAllows p.allowedNets p.allowedHosts lookupHost host := rfl

/-! ## Resolution -/

/-- `net.LookupHost`: an address is its own answer, and the empty name has none.
`dns` answers the rest, with the texts of addresses. -/
def lookupHost (dns : String → Option (List String)) (host : String) : Option (List String) :=
  if host = "" then none
  else match parseAddr host with
    | some _ => some [host]
    | none => dns host

/-- The addresses that a dial of `host` may connect to. -/
def dialAddrs (dns : String → Option (List String)) (host : String) : List Addr :=
  ((lookupHost dns host).getD []).filterMap parseAddr

/-- The `net.IP` of an address, its zone left off. -/
def ipOf (a : Addr) : IP := .b16 a.as16

/-- A network of the list contains the address. A listed address is a network
of its own. -/
def Listed (L : List String) (ip : IP) : Prop :=
  ∃ c ∈ L, ∃ n, parseAllowed c = .ok n ∧ n.contains ip = true

/-- `host` is a name for which `dns` answers with an address inside the listed
networks and with an address outside. The check does not see an address with a
zone. -/
def MixedAnswer (L : List String) (dns : String → Option (List String)) (host : String) : Prop :=
  host ≠ "" ∧ parseAddr host = none ∧ ∃ addrs, dns host = some addrs ∧
    (∃ s ∈ addrs, ∃ ip, parseIP s = some ip ∧ Listed L ip) ∧
    ∃ s ∈ addrs, ∃ a, parseAddr s = some a ∧ ¬ Listed L (ipOf a)

namespace ScopeLemmas

theorem parseIP_eq_some {s : String} {ip : IP} (h : parseIP s = some ip) :
    ∃ a, parseAddr s = some a ∧ ip = ipOf a := by
  unfold parseIP at h
  split at h
  · next n zone ha =>
    split at h
    · cases h
      exact ⟨_, ha, rfl⟩
    · cases h
  · next n ha =>
    cases h
    exact ⟨_, ha, rfl⟩
  · cases h

theorem parseIP_empty : parseIP "" = none := by decide

theorem contains_of_to4 {ip : IP} {ip4 : BitVec 32} (h : ip.to4 = some ip4) (ones : Nat)
    (mask4 : Bool) (x : IP) :
    (IPNet.mk (.b4 ip4) ones mask4).contains x = (IPNet.mk ip ones mask4).contains x := by
  have hb4 : (IP.b4 ip4).to4 = some ip4 := rfl
  unfold IPNet.contains
  cases hx : x.to4 <;> simp only [h, hb4]

theorem contains_parseAllowedHost (c : String) (x : IP) :
    (parseAllowedHost c).toOption.map (·.contains x) =
      (parseAllowed c).toOption.map (·.contains x) := by
  unfold parseAllowedHost parseAllowed
  cases parseCIDR c with
  | some n => rfl
  | none => cases parseIP c with
    | none => rfl
    | some ip =>
      dsimp only
      cases h4 : ip.to4 with
      | none => rfl
      | some ip4 => exact congrArg some (contains_of_to4 h4 32 true x)

theorem isNone_parseAllowedHost (c : String) :
    (parseAllowedHost c).toOption.isNone = (parseAllowed c).toOption.isNone := by
  have h := congrArg Option.isNone (contains_parseAllowedHost c (.b4 0))
  simpa using h

theorem any_filterMap_contains {f : String → Option IPNet} {g : String → Option IPNet}
    {x : IP} (h : ∀ c, (f c).map (·.contains x) = (g c).map (·.contains x)) (L : List String) :
    (L.filterMap f).any (·.contains x) = (L.filterMap g).any (·.contains x) := by
  have hany : ∀ k : String → Option IPNet,
      (L.filterMap k).any (·.contains x) =
        L.any fun c => ((k c).map (·.contains x)).getD false := by
    intro k
    rw [List.any_filterMap]
    congr 1
    funext c
    cases k c <;> rfl
  rw [hany f, hany g]
  simp only [h]

theorem any_parseAllowedHosts (L : List String) (rate : Int) (x : IP) :
    (parseAllowedHosts L).allowedNets.any (·.contains x) =
      (configureSweep L rate).allowedNets.any (·.contains x) :=
  any_filterMap_contains (fun c => contains_parseAllowedHost c x) L

theorem any_configureSweep (L : List String) (rate : Int) (x : IP) :
    (configureSweep L rate).allowedNets.any (·.contains x) = true ↔ Listed L x := by
  simp only [configureSweep, parseAllowedCIDRs, List.any_filterMap, List.any_eq_true, Listed]
  refine exists_congr fun c => and_congr_right fun _ => ?_
  cases parseAllowed c with
  | error e => simp [Except.toOption]
  | ok n => simp [Except.toOption]

theorem isSome_parseAllowed {c : String} (h : (parseCIDR c).isSome ∨ (parseIP c).isSome) :
    (parseAllowed c).toOption.isSome = true := by
  unfold parseAllowed
  cases hc : parseCIDR c with
  | some n => rfl
  | none =>
    obtain ⟨ip, hip⟩ := Option.isSome_iff_exists.mp (h.resolve_left (by simp [hc]))
    rw [hip]
    rfl

theorem scopeAllows_iff {nets : List IPNet} (hne : nets ≠ []) (dns : String → Option (List String))
    (host : String) :
    scopeAllows nets [] (lookupHost dns) host = true ↔
      ∃ s ∈ (lookupHost dns host).getD [], ∃ ip, parseIP s = some ip ∧
        nets.any (·.contains ip) = true := by
  have hlen : ¬ (nets.length = 0 ∧ ([] : List String).length = 0) := by simpa using hne
  unfold scopeAllows
  rw [if_neg hlen, if_neg List.not_mem_nil]
  cases hip : parseIP host with
  | none => cases lookupHost dns host with
    | none => simp
    | some addrs => simp [Option.any_eq_true]
  | some ip =>
    obtain ⟨a, ha, -⟩ := parseIP_eq_some hip
    have hne : host ≠ "" := by
      rintro rfl
      rw [parseIP_empty] at hip
      cases hip
    simp [lookupHost, if_neg hne, ha, hip]

theorem mem_dialAddrs {dns : String → Option (List String)} {host : String} {a : Addr} :
    a ∈ dialAddrs dns host ↔ ∃ s ∈ (lookupHost dns host).getD [], parseAddr s = some a := by
  simp [dialAddrs]

theorem kept_iff {L : List String} {nets : List IPNet} (hne : nets ≠ [])
    (hnets : ∀ ip, nets.any (·.contains ip) = true ↔ Listed L ip)
    (dns : String → Option (List String)) (host : String) :
    (scopeAllows nets [] (lookupHost dns) host = true →
      ∀ a ∈ dialAddrs dns host, ∃ n ∈ nets, n.contains (ipOf a) = true) ↔
    ¬ MixedAnswer L dns host := by
  have hlisted : ∀ a, (∃ n ∈ nets, n.contains (ipOf a) = true) ↔ Listed L (ipOf a) := by
    intro a
    rw [← hnets, List.any_eq_true]
  simp only [scopeAllows_iff hne, hnets, mem_dialAddrs, hlisted]
  constructor
  · rintro h ⟨hhost, hname, addrs, hdns, hin, s, hs, a, ha, hout⟩
    have hlook : lookupHost dns host = some addrs := by
      simp [lookupHost, if_neg hhost, hname, hdns]
    rw [hlook] at h
    exact hout (h hin a ⟨s, hs, ha⟩)
  · rintro hmix ⟨s, hs, ip, hip, hin⟩ a ⟨t, ht, ha⟩
    by_contra hout
    unfold lookupHost at hs ht
    split at hs
    · cases hs
    · next hhost =>
      rw [if_neg hhost] at ht
      split at hs
      · -- an address is its own answer
        next hlit =>
        rw [hlit] at ht
        obtain rfl := List.mem_singleton.mp hs
        obtain rfl := List.mem_singleton.mp ht
        obtain ⟨b, hb, rfl⟩ := parseIP_eq_some hip
        cases ha.symm.trans hb
        exact hout hin
      · next hname =>
        rw [hname] at ht
        cases hdns : dns host with
        | none =>
          rw [hdns] at hs
          cases hs
        | some addrs =>
          rw [hdns] at hs ht
          exact hmix ⟨hhost, hname, addrs, hdns, ⟨s, hs, ip, hip, hin⟩, t, ht, a, ha, hout⟩

end ScopeLemmas

/-! ## Scope and dial -/

open ScopeLemmas in
/-- With a list `L` of networks and addresses, both proxies keep every dial in
scope exactly if DNS does not answer the name with addresses inside and outside
of it. -/
theorem dial_in_scope_iff (L : List String) (hne : L ≠ [])
    (hL : ∀ c ∈ L, (parseCIDR c).isSome ∨ (parseIP c).isSome) (maxRate : Int)
    (dns : String → Option (List String)) (host : String) :
    ((isTargetAllowed (configureSweep L maxRate) (lookupHost dns) host = true →
        ∀ a ∈ dialAddrs dns host,
          ∃ n ∈ (configureSweep L maxRate).allowedNets, n.contains (ipOf a) = true) ∧
      (isHostAllowed (parseAllowedHosts L) (lookupHost dns) host = true →
        ∀ a ∈ dialAddrs dns host,
          ∃ n ∈ (parseAllowedHosts L).allowedNets, n.contains (ipOf a) = true)) ↔
    ¬ MixedAnswer L dns host := by
  have hsome : ∀ c ∈ L, (parseAllowed c).toOption.isNone = false := fun c hc => by
    simpa using isSome_parseAllowed (hL c hc)
  have hnames : (configureSweep L maxRate).allowedHosts = [] :=
    List.filter_eq_nil_iff.mpr fun c hc => by simp [hsome c hc]
  have hnames' : (parseAllowedHosts L).allowedHosts = [] :=
    List.filter_eq_nil_iff.mpr fun c hc => by simp [isNone_parseAllowedHost, hsome c hc]
  obtain ⟨c, hc⟩ := List.exists_mem_of_ne_nil L hne
  have hnil : ∀ {f : String → Option IPNet}, (f c).isNone = false → L.filterMap f ≠ [] := by
    intro f hf hnil
    simp [List.filterMap_eq_nil_iff.mp hnil c hc] at hf
  have hnets : (configureSweep L maxRate).allowedNets ≠ [] := hnil (hsome c hc)
  have hnets' : (parseAllowedHosts L).allowedNets ≠ [] :=
    hnil ((isNone_parseAllowedHost c).trans (hsome c hc))
  have hkept := kept_iff hnets (any_configureSweep L maxRate) dns host
  have hkept' := kept_iff hnets' (fun ip => by
    rw [any_parseAllowedHosts L maxRate]
    exact any_configureSweep L maxRate ip) dns host
  rw [isTargetAllowed_eq, isHostAllowed, hnames, hnames', hkept, hkept', and_self]

/-- A name with one address. -/
theorem dial_in_scope_single :
    isHostAllowed (parseAllowedHosts ["10.0.0.0/8"]) (lookupHost fun _ => some ["10.0.0.5"])
        "db.internal" = true ∧
      ∀ a ∈ dialAddrs (fun _ => some ["10.0.0.5"]) "db.internal",
        ∃ n ∈ (parseAllowedHosts ["10.0.0.0/8"]).allowedNets, n.contains (ipOf a) = true := by
  have hadmits : isHostAllowed (parseAllowedHosts ["10.0.0.0/8"])
      (lookupHost fun _ => some ["10.0.0.5"]) "db.internal" = true := by decide
  refine ⟨hadmits, ((dial_in_scope_iff ["10.0.0.0/8"] (by decide) (by decide) 0
    (fun _ => some ["10.0.0.5"]) "db.internal").mpr ?_).2 hadmits⟩
  rintro ⟨-, -, addrs, haddrs, -, s, hs, a, ha, hout⟩
  cases haddrs
  obtain rfl := List.mem_singleton.mp hs
  cases (show parseAddr "10.0.0.5" = some (.v4 0x0a000005) by decide).symm.trans ha
  exact hout ⟨"10.0.0.0/8", List.mem_singleton.mpr rfl, ⟨.b4 0x0a000000, 8, true⟩, by rfl,
    by decide⟩

/-- A name with an address of the network and one outside: both proxies admit
it, and the dial may connect to the address outside. -/
theorem dial_leaves_scope :
    let dns : String → Option (List String) := fun _ => some ["10.0.0.5", "192.0.2.7"]
    let L := ["10.0.0.0/8"]
    isTargetAllowed (configureSweep L 0) (lookupHost dns) "db.internal" = true ∧
      isHostAllowed (parseAllowedHosts L) (lookupHost dns) "db.internal" = true ∧
      Addr.v4 0xc0000207 ∈ dialAddrs dns "db.internal" ∧
      (∀ n ∈ (configureSweep L 0).allowedNets, n.contains (ipOf (.v4 0xc0000207)) = false) ∧
      ∀ n ∈ (parseAllowedHosts L).allowedNets, n.contains (ipOf (.v4 0xc0000207)) = false := by
  decide

end Forager
