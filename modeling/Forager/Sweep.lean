import Forager.GoNet

/-!
# The discovery sweep and its scope

`handleSweep` of `pkg/proxy/discovery/proxy.go` with the functions that decide
which addresses are probed: `parseAllowedCIDRs`, `isTargetAllowed` and
`prefixWithinAny` there, `parseSweepParams` and `expandCIDRs` in `sweep.go`.
The configured scope is a list of `net.IPNet`, the requested one a list of
`netip.Prefix`. A DNS lookup is a parameter.
-/

namespace Forager

open Go GoNet

/-! ## The configured scope -/

/-- The fields of `discovery.Proxy` that a sweep reads. -/
structure DiscoveryProxy where
  allowedNets : List IPNet
  allowedHosts : List String
  maxRatePPS : Int

/-- One entry of `parseAllowedCIDRs`: a network, or a host name. -/
def parseAllowed (c : String) : Except String IPNet :=
  match parseCIDR c with
  | some ipNet => .ok ipNet
  | none => match parseIP c with
    | some ip => .ok (match ip.to4 with
      | some _ => ⟨ip, 32, true⟩
      | none => ⟨ip, 128, false⟩)
    | none => .error c

def parseAllowedCIDRs (cidrs : List String) : List IPNet × List String :=
  (cidrs.filterMap fun c => (parseAllowed c).toOption,
    cidrs.filter fun c => (parseAllowed c).toOption.isNone)

def rateCap : Int := 1000

/-- What `Configure` keeps of `allowed_cidrs` and `max_rate_pps`, with the
default of `applyConfigDefaults` for the rate. -/
def configureSweep (allowedCIDRs : List String) (maxRatePPS : Int) : DiscoveryProxy where
  allowedNets := (parseAllowedCIDRs allowedCIDRs).1
  allowedHosts := (parseAllowedCIDRs allowedCIDRs).2
  maxRatePPS := if maxRatePPS ≤ 0 ∨ maxRatePPS > rateCap then rateCap else maxRatePPS

def isTargetAllowed (p : DiscoveryProxy) (lookupHost : String → Option (List String))
    (host : String) : Bool :=
  if p.allowedNets.length = 0 ∧ p.allowedHosts.length = 0 then true
  else if host ∈ p.allowedHosts then true
  else match parseIP host with
    | none => match lookupHost host with
      | none => false
      | some addrs => addrs.any fun a => (parseIP a).any fun resolved =>
        p.allowedNets.any (·.contains resolved)
    | some ip => p.allowedNets.any (·.contains ip)

/-- `prefixWithinAny`: a network with no IPv4 form is skipped. -/
def prefixWithinAny (requested : Prefix) (configured : List IPNet) : Bool :=
  configured.any fun allowed => match allowed.ip.to4 with
    | none => false
    | some a =>
      let allowedPrefix := prefixFrom (.v4 a) allowed.ones
      allowedPrefix.contains requested.addr && requested.bitCount ≥ allowedPrefix.bitCount

/-! ## The request -/

inductive SweepError
  | required (key : String)
  | notStrings (key : String)
  | notNumbers (key : String)
  | invalidCIDR (c : String)
  | invalidExclusion (e : String)
  | invalidPort (port : Int)
  | outsideAllowed (requested : Prefix)
  | notIPv4 (cidr : Prefix)
  | tooManyAddresses
deriving DecidableEq, Repr

/-- `sweepConfig`, with the probe timeout in milliseconds. -/
structure SweepConfig where
  cidrs : List Prefix
  exclusions : List Prefix
  ports : List Int
  ratePPS : Int
  timeoutMs : Int
  workers : Int
deriving DecidableEq, Repr

def stringSliceParam (params : StrMap Any) (key : String) : Except SweepError (List String) :=
  match params.get key with
  | none => .error (.required key)
  | some (.strings v) => .ok v
  | some (.slice v) => v.mapM fun
    | .string s => .ok s
    | _ => .error (.notStrings key)
  | some _ => .error (.notStrings key)

def intSliceParam (params : StrMap Any) (key : String) : Except SweepError (List Int) :=
  match params.get key with
  | none => .ok []
  | some (.slice v) => v.mapM fun
    | .float f => .ok f.toInt
    | .int n => .ok n
    | _ => .error (.notNumbers key)
  | some _ => .error (.notNumbers key)

/-- `intParam`, for the callers that ask for a positive value. -/
def positiveParam (params : StrMap Any) (key : String) (default : Int) : Int :=
  let v := match params.get key with
    | some (.float f) => f.toInt
    | some (.int n) => n
    | _ => 0
  if v > 0 then v else default

def parsePrefixOrAddr (s : String) : Option Prefix :=
  match parsePrefix s with
  | some p => some p.masked
  | none => (parseAddr s).map fun addr => prefixFrom addr addr.bitLen

/-- Whether an optional parameter is given: `raw, ok := params[key]; ok && raw != nil`. -/
def given (params : StrMap Any) (key : String) : Bool :=
  match params.get key with
  | none | some .nil => false
  | some _ => true

def parseSweepParams (params : StrMap Any) (maxRate : Int) : Except SweepError SweepConfig := do
  let rawCIDRs ← stringSliceParam params "cidrs"
  if rawCIDRs.length = 0 then throw (.required "cidrs")
  let cidrs ← rawCIDRs.mapM fun c => match parsePrefix c with
    | some p => .ok p.masked
    | none => .error (.invalidCIDR c)
  let rawEx ← if given params "exclusions" then stringSliceParam params "exclusions" else pure []
  let exclusions ← rawEx.mapM fun e => match parsePrefixOrAddr e with
    | some p => .ok p
    | none => .error (.invalidExclusion e)
  let rawPorts ← if given params "ports" then intSliceParam params "ports" else pure []
  let ports ← rawPorts.mapM fun port =>
    if port < 1 ∨ port > 65535 then .error (.invalidPort port) else .ok port
  return {
    cidrs := cidrs
    exclusions := exclusions
    ports := if ports.length > 0 then ports else [22, 3389, 5985]
    ratePPS := min (positiveParam params "rate_pps" 100) maxRate
    timeoutMs := positiveParam params "timeout_ms" 1000
    workers := min (positiveParam params "workers" 64) 512 }

/-- `handleSweep` up to `runSweep`: the config it runs. -/
def handleSweep (p : DiscoveryProxy) (params : StrMap Any) : Except SweepError SweepConfig := do
  let cfg ← parseSweepParams params p.maxRatePPS
  if p.allowedNets.length > 0 then
    match cfg.cidrs.find? fun requested => ¬ prefixWithinAny requested p.allowedNets with
    | some requested => throw (.outsideAllowed requested)
    | none => return cfg
  else return cfg

/-! ## The addresses of a sweep -/

def isExcluded (addr : Addr) (exclusions : List Prefix) : Bool :=
  exclusions.any (·.contains addr)

def maxSweepAddresses : Nat := 65536

/-- The loop over the `size` addresses of one prefix, `n` of which are left,
with the addresses and the number of exclusions so far. Past the last address
of all, `Next` gives no address; by then the loop has ended. -/
def expandLoop (bits size : Nat) (exclusions : List Prefix) :
    Nat → Nat → BitVec 32 → List String × Nat → List String × Nat
  | 0, _, _, acc => acc
  | n + 1, i, addr, (addrs, excluded) =>
    if bits ≤ 30 ∧ (i = 0 ∨ i = size - 1) then
      expandLoop bits size exclusions n (i + 1) (addr + 1) (addrs, excluded)
    else if isExcluded (.v4 addr) exclusions then
      expandLoop bits size exclusions n (i + 1) (addr + 1) (addrs, excluded + 1)
    else expandLoop bits size exclusions n (i + 1) (addr + 1) (addrs ++ [string4 addr], excluded)

/-- The loop of `expandCIDRs` over the prefixes. An invalid prefix has
`Bits() = -1` and is too large. -/
def expandFrom (exclusions : List Prefix) :
    List Prefix → List String × Nat → Except SweepError (List String × Nat)
  | [], acc => .ok acc
  | cidr :: rest, acc =>
    match cidr.addr, cidr.bits with
    | .v6 _ _, _ => .error (.notIPv4 cidr)
    | .v4 _, none => .error .tooManyAddresses
    | .v4 q, some bits =>
      let size := 2 ^ (32 - bits)
      if acc.1.length + size > maxSweepAddresses then .error .tooManyAddresses
      else expandFrom exclusions rest (expandLoop bits size exclusions size 0 (mask q bits) acc)

def expandCIDRs (cidrs exclusions : List Prefix) : Except SweepError (List String × Nat) :=
  expandFrom exclusions cidrs ([], 0)

namespace SweepLemmas

/-- `s` is the text of the `i`-th address of `cidr`, for some `i`. -/
def AddressOf (cidr : Prefix) (s : String) : Prop :=
  ∃ q bits i, cidr.addr = .v4 q ∧ cidr.bits = some bits ∧ i < 2 ^ (32 - bits) ∧
    s = string4 (mask q bits + BitVec.ofNat 32 i)

theorem expandLoop_mem {bits size : Nat} {exclusions : List Prefix} {base : BitVec 32} {n i : Nat}
    {acc : List String × Nat} {s : String}
    (hs : s ∈ (expandLoop bits size exclusions n i (base + BitVec.ofNat 32 i) acc).1) :
    s ∈ acc.1 ∨ ∃ k < i + n, s = string4 (base + BitVec.ofNat 32 k) := by
  induction n generalizing i acc with
  | zero => exact .inl hs
  | succ n ih =>
    obtain ⟨addrs, excluded⟩ := acc
    have hnext : base + BitVec.ofNat 32 i + 1 = base + BitVec.ofNat 32 (i + 1) := by
      rw [BitVec.add_assoc, BitVec.ofNat_add]
      rfl
    unfold expandLoop at hs
    rw [hnext] at hs
    split at hs
    · rcases ih hs with h | ⟨k, hk, h⟩
      · exact .inl h
      · exact .inr ⟨k, by omega, h⟩
    · split at hs
      · rcases ih hs with h | ⟨k, hk, h⟩
        · exact .inl h
        · exact .inr ⟨k, by omega, h⟩
      · rcases ih hs with h | ⟨k, hk, h⟩
        · rcases List.mem_append.mp h with h | h
          · exact .inl h
          · exact .inr ⟨i, by omega, List.mem_singleton.mp h⟩
        · exact .inr ⟨k, by omega, h⟩

theorem expandFrom_mem {exclusions cidrs : List Prefix} {acc out : List String × Nat}
    (h : expandFrom exclusions cidrs acc = .ok out) {s : String} (hs : s ∈ out.1) :
    s ∈ acc.1 ∨ ∃ cidr ∈ cidrs, AddressOf cidr s := by
  induction cidrs generalizing acc with
  | nil =>
    cases h
    exact .inl hs
  | cons cidr rest ih =>
    unfold expandFrom at h
    split at h
    · cases h
    · cases h
    · next q bits haddr hbits =>
      simp only at h
      split at h
      · cases h
      · rcases ih h with hin | ⟨c, hc, hof⟩
        · have hzero : mask q bits = mask q bits + BitVec.ofNat 32 0 := by simp
          rw [hzero] at hin
          rcases expandLoop_mem hin with hin | ⟨k, hk, hsk⟩
          · exact .inl hin
          · exact .inr ⟨cidr, List.mem_cons_self, q, bits, k, haddr, hbits, by omega, hsk⟩
        · exact .inr ⟨c, List.mem_cons_of_mem _ hc, hof⟩

theorem expandCIDRs_mem {cidrs exclusions : List Prefix} {out : List String × Nat}
    (h : expandCIDRs cidrs exclusions = .ok out) {s : String} (hs : s ∈ out.1) :
    ∃ cidr ∈ cidrs, AddressOf cidr s := by
  rcases expandFrom_mem h hs with hin | hof
  · cases hin
  · exact hof

theorem within_contains {nets : List IPNet} {cidr : Prefix} (h : prefixWithinAny cidr nets = true)
    {s : String} (hs : AddressOf cidr s) :
    ∃ a, s = string4 a ∧ ∃ n ∈ nets, n.contains (.b16 (mapped a)) = true := by
  obtain ⟨q, bits, i, haddr, hbits, hi, rfl⟩ := hs
  obtain ⟨n, hn, hw⟩ := List.any_eq_true.mp h
  refine ⟨_, rfl, n, hn, ?_⟩
  split at hw
  · cases hw
  · next a h4 =>
    simp only [Bool.and_eq_true, decide_eq_true_eq] at hw
    obtain ⟨hcont, hge⟩ := hw
    by_cases hones : n.ones ≤ 32
    · simp only [prefixFrom, Addr.bitLen, hones, if_true, haddr, Prefix.contains,
        decide_eq_true_eq] at hcont
      have hle : n.ones ≤ bits := by
        simpa [Prefix.bitCount, prefixFrom, Addr.bitLen, hones, hbits] using hge
      refine contains_mapped h4 hones ?_
      rw [shift_mask_add hle hi]
      exact (xor_shift_eq_zero _ _ _).mp hcont
    · simp [prefixFrom, Addr.bitLen, hones, Prefix.contains] at hcont

theorem handleSweep_within {p : DiscoveryProxy} {params : StrMap Any} {cfg : SweepConfig}
    (h : handleSweep p params = .ok cfg) (hnets : p.allowedNets ≠ []) :
    ∀ cidr ∈ cfg.cidrs, prefixWithinAny cidr p.allowedNets = true := by
  unfold handleSweep at h
  cases hp : parseSweepParams params p.maxRatePPS with
  | error e => rw [hp] at h; cases h
  | ok cfg' =>
    rw [hp] at h
    simp only [bind, Except.bind, List.length_pos_iff.mpr hnets, if_true] at h
    split at h
    · cases h
    · next hfind =>
      cases h
      intro cidr hc
      simpa using List.find?_eq_none.mp hfind cidr hc

theorem allowedNets_ne_nil {L : List String} {maxRate : Int} :
    (configureSweep L maxRate).allowedNets ≠ [] ↔
      ∃ c ∈ L, (parseCIDR c).isSome ∨ (parseIP c).isSome := by
  have hok : ∀ c, (parseAllowed c).toOption.isSome ↔ (parseCIDR c).isSome ∨ (parseIP c).isSome := by
    intro c
    unfold parseAllowed
    cases parseCIDR c <;> cases parseIP c <;> simp [Except.toOption]
  simp only [configureSweep, parseAllowedCIDRs, ne_eq, List.filterMap_eq_nil_iff, not_forall]
  constructor
  · rintro ⟨c, hc, hne⟩
    exact ⟨c, hc, (hok c).mp (Option.isSome_iff_ne_none.mpr hne)⟩
  · rintro ⟨c, hc, h⟩
    exact ⟨c, hc, Option.isSome_iff_ne_none.mp ((hok c).mpr h)⟩

end SweepLemmas

/-! ## Scope -/

/-- The text of an address of a listed network; a listed address is a network
of its own. -/
def InScope (p : DiscoveryProxy) (s : String) : Prop :=
  ∃ ip, parseIP s = some ip ∧ ∃ n ∈ p.allowedNets, n.contains ip = true

def smallSweep : StrMap Any := [("cidrs", .slice [.string "10.0.0.0/30"])]

open SweepLemmas in
/-- The configured list `L` bounds every sweep, whatever its parameters and
whatever DNS answers, exactly when an entry of `L` is a network or an address.
A list of host names only leaves `allowedNets` empty, which `handleSweep` reads
as no restriction. -/
theorem sweep_in_scope_iff (L : List String) (maxRate : Int)
    (lookupHost : String → Option (List String)) :
    (∀ params cfg out, handleSweep (configureSweep L maxRate) params = .ok cfg →
      expandCIDRs cfg.cidrs cfg.exclusions = .ok out → ∀ s ∈ out.1,
        InScope (configureSweep L maxRate) s ∧
        isTargetAllowed (configureSweep L maxRate) lookupHost s = true) ↔
    ∃ c ∈ L, (parseCIDR c).isSome ∨ (parseIP c).isSome := by
  rw [← allowedNets_ne_nil]
  generalize configureSweep L maxRate = p
  constructor
  · intro h hnil
    have hcfg : handleSweep p smallSweep = .ok
        ⟨[⟨.v4 0x0a000000, some 30⟩], [], [22, 3389, 5985], min 100 p.maxRatePPS, 1000, 64⟩ := by
      unfold handleSweep
      rw [hnil]
      rfl
    have hout : expandCIDRs [⟨.v4 0x0a000000, some 30⟩] [] = .ok (["10.0.0.1", "10.0.0.2"], 0) := by
      decide
    obtain ⟨⟨ip, -, n, hn, -⟩, -⟩ := h _ _ _ hcfg hout "10.0.0.1" List.mem_cons_self
    rw [hnil] at hn
    cases hn
  · intro hnets params cfg out hcfg hout s hs
    obtain ⟨cidr, hc, hof⟩ := expandCIDRs_mem hout hs
    obtain ⟨a, rfl, hin⟩ := within_contains (handleSweep_within hcfg hnets cidr hc) hof
    refine ⟨⟨_, parseIP_string4 a, hin⟩, ?_⟩
    unfold isTargetAllowed
    rw [parseIP_string4]
    split
    · rfl
    · split
      · rfl
      · exact List.any_eq_true.mpr hin

/-- A scope given by a host name: the sweep of `10.0.0.0/30` goes through, and
none of its addresses is in scope or an allowed target. -/
theorem sweep_leaves_host_list :
    let p := configureSweep ["dc1.internal"] 0
    ∃ cfg, handleSweep p smallSweep = .ok cfg ∧
      expandCIDRs cfg.cidrs cfg.exclusions = .ok (["10.0.0.1", "10.0.0.2"], 0) ∧
      ¬ InScope p "10.0.0.1" ∧ isTargetAllowed p (fun _ => none) "10.0.0.1" = false := by
  refine ⟨⟨[⟨.v4 0x0a000000, some 30⟩], [], [22, 3389, 5985], 100, 1000, 64⟩, by decide, by decide,
    ?_, by decide⟩
  rintro ⟨_, -, n, hn, -⟩
  have hnil : (configureSweep ["dc1.internal"] 0).allowedNets = [] := by decide
  rw [hnil] at hn
  cases hn

end Forager
