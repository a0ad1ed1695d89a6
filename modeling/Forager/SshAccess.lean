import Mathlib.Algebra.Order.BigOperators.Group.List
import Forager.DiscoveryConfig
import Forager.JsonRuns

/-!
# The scope of the SSH access sibling

`SSHAccessSibling` of `pkg/proxy/discovery/ssh_access.go` gives the hosts of a
discovery datasource to an SSH proxy, configured by `Configure` of
`pkg/proxy/ssh/proxy.go`. The discovery proxy decodes its scope as a struct
field, from every key spelled like `allowed_cidrs`; the sibling takes the strings
under that very key.
-/

namespace Forager

open Go GoJson GoNet JsonText

/-! ## The SSH proxy -/

structure SshConfig where
  host : String
  port : Int
  maxOutputBytes : Int
  allowedHosts : Slice String
  poolTTL : Int
  poolMaxSize : Int
  knownHosts : String
  hostKey : String
deriving DecidableEq, Repr

def SshConfig.zero : SshConfig := ⟨"", 0, 0, .nil, 0, 0, "", ""⟩

def sshFields : List (StructField SshConfig) :=
  [field "host" (·.host) (fun s v => { s with host := v }) string,
   field "port" (·.port) (fun s v => { s with port := v }) int,
   field "max_output_bytes" (·.maxOutputBytes) (fun s v => { s with maxOutputBytes := v }) int,
   field "allowed_hosts" (·.allowedHosts) (fun s v => { s with allowedHosts := v })
     (sliceOf "" string),
   field "pool_ttl_seconds" (·.poolTTL) (fun s v => { s with poolTTL := v }) int,
   field "pool_max_size" (·.poolMaxSize) (fun s v => { s with poolMaxSize := v }) int,
   field "known_hosts" (·.knownHosts) (fun s v => { s with knownHosts := v }) string,
   field "host_key" (·.hostKey) (fun s v => { s with hostKey := v }) string]

/-- What the code outside the repository answers during `Configure`. -/
structure SshEnv extends ConfigEnv where
  /-- The error of `ssh.ParseAuthorizedKey` on a host key. -/
  hostKeyErr : String → Option String
  /-- The error of `ssh.Dial`. -/
  dialErr : String → Int → Option String

inductive SshConfigError
  | parse
  | auth (err : ConfigError)
  | noUsername
  | knownHosts (err : ConfigError)
  | hostKey (err : String)
  | dial (host : String) (port : Int) (err : String)
deriving DecidableEq, Repr

/-- `hostKeyCallback` of the SSH package: `known_hosts` goes before `host_key`. -/
def sshHostKeyCallback (env : SshEnv) (cfg : SshConfig) :
    Except SshConfigError HostKeyCallback :=
  if cfg.knownHosts ≠ "" then (loadKnownHosts env.toConfigEnv cfg.knownHosts).mapError .knownHosts
  else if cfg.hostKey ≠ "" then
    match env.hostKeyErr cfg.hostKey with
    | some err => .error (.hostKey err)
    | none => .ok (.fixed cfg.hostKey)
  else .ok .insecure

/-- `ssh.Proxy` after `Configure`: in dynamic mode it keeps the client
configuration and the scope, in static mode the connection. -/
structure SshState where
  config : SshConfig
  dynamic : Bool
  sshConfig : Option ClientConfig
  client : Option (String × Int)
  scope : SshScope
deriving DecidableEq, Repr

def applySshDefaults (cfg : SshConfig) : SshConfig :=
  { cfg with
    port := if cfg.port = 0 then 22 else cfg.port
    maxOutputBytes := if cfg.maxOutputBytes = 0 then 2 ^ 20 else cfg.maxOutputBytes }

def sshConfigure (env : SshEnv) (config : StrMap Any) (creds : Creds) :
    Except SshConfigError SshState :=
  let (cfg, ok) := remarshal .zero sshFields config
  if ¬ ok then .error .parse
  else
    let cfg := applySshDefaults cfg
    match buildAuthMethods env.toConfigEnv creds with
    | .error err => .error (.auth err)
    | .ok authMethods =>
      let username := credOf creds "username"
      if username = "" then .error .noUsername
      else match sshHostKeyCallback env cfg with
        | .error err => .error err
        | .ok hostKeyCB =>
          let sshCfg : ClientConfig := ⟨username, authMethods, hostKeyCB, 10⟩
          if cfg.host = "" then
            .ok ⟨cfg, true, some sshCfg, none,
              parseAllowedHosts (cfg.allowedHosts.elems.getD [])⟩
          else match env.dialErr cfg.host cfg.port with
            | some err => .error (.dial cfg.host cfg.port err)
            | none => .ok ⟨cfg, false, none, some (cfg.host, cfg.port), ⟨[], []⟩⟩

/-! ## Two lists with the same scope -/

/-- An entry that is no network and no address. -/
def isName (c : String) : Bool := (parseAllowed c).toOption.isNone

/-- The lists name the same hosts, the empty name apart, and cover the same
addresses. The empty list covers everything, so `D` is not empty. -/
structure SameScope (D S : List String) : Prop where
  restricted : D ≠ []
  names : ∀ h, h ≠ "" → isName h = true → (h ∈ D ↔ h ∈ S)
  addresses : ∀ s ip, parseIP s = some ip → (Listed D ip ↔ Listed S ip)

/-- The entries that values leave in a list of strings they are decoded into
one after another: as many as the last array has, and in each place the last
string stored there. -/
def entriesLeft (js : List Json) : List String :=
  (List.range ((sliceLen js).getD 0)).map fun i => lastText (cellRun js i)

/-- The values under all keys spelled like `allowed_cidrs`, decoded one over the
other, leave the scope of the strings under that very key. -/
def SpellingsAgree (config : StrMap Any) : Prop :=
  SameScope (entriesLeft (spelled "allowed_cidrs" (ofMembers config)))
    (stringSlice (config.get "allowed_cidrs"))

namespace SiblingLemmas

variable {config : StrMap Any}

open ScopeLemmas ConfigureLemmas

/-- The check by address: the host's own, or those it resolves to. -/
def resolvesInto (inside : IP → Bool) (lookupHost : String → Option (List String))
    (host : String) : Bool :=
  match parseIP host with
  | none => match lookupHost host with
    | none => false
    | some addrs => addrs.any fun a => (parseIP a).any inside
  | some ip => inside ip

theorem scopeAllows_of_restricted {nets : List IPNet} {hosts : List String}
    (h : ¬ (nets = [] ∧ hosts = [])) (lookupHost : String → Option (List String)) (host : String) :
    scopeAllows nets hosts lookupHost host =
      (decide (host ∈ hosts) ||
        resolvesInto (fun ip => nets.any (·.contains ip)) lookupHost host) := by
  have hlen : ¬ (nets.length = 0 ∧ hosts.length = 0) := by simpa using h
  unfold scopeAllows
  rw [if_neg hlen]
  by_cases hmem : host ∈ hosts
  · simp [hmem]
  · rw [if_neg hmem, decide_eq_false hmem, Bool.false_or]
    rfl

theorem resolvesInto_congr {inside inside' : IP → Bool}
    (h : ∀ s ip, parseIP s = some ip → inside ip = inside' ip)
    (lookupHost : String → Option (List String)) (host : String) :
    resolvesInto inside lookupHost host = resolvesInto inside' lookupHost host := by
  have hany : ∀ a, (parseIP a).any inside = (parseIP a).any inside' := by
    intro a
    cases ha : parseIP a with
    | none => rfl
    | some ip => exact h a ip ha
  unfold resolvesInto
  split
  · simp only [hany]
  · next ip hip => exact h host ip hip

theorem unrestricted_iff (f : String → Option IPNet) (L : List String) :
    L.filterMap f = [] ∧ (L.filter fun c => (f c).isNone) = [] ↔ L = [] := by
  constructor
  · rintro ⟨hnets, hnames⟩
    refine List.eq_nil_iff_forall_not_mem.mpr fun c hc => ?_
    have hnone := List.filterMap_eq_nil_iff.mp hnets c hc
    exact List.filter_eq_nil_iff.mp hnames c hc (by simp [hnone])
  · rintro rfl
    exact ⟨rfl, rfl⟩

theorem isTargetAllowed_of_ne_nil {D : List String} (hD : D ≠ []) (maxRate : Int)
    (lookupHost : String → Option (List String)) (host : String) :
    isTargetAllowed (configureSweep D maxRate) lookupHost host =
      (decide (host ∈ D ∧ isName host = true) ||
        resolvesInto (fun ip => (configureSweep D maxRate).allowedNets.any (·.contains ip))
          lookupHost host) := by
  have hne := mt (unrestricted_iff (fun c => (parseAllowed c).toOption) D).mp hD
  refine (scopeAllows_of_restricted hne lookupHost host).trans ?_
  simp only [List.mem_filter]
  rfl

theorem isHostAllowed_of_ne_nil {S : List String} (hS : S ≠ []) (maxRate : Int)
    (lookupHost : String → Option (List String)) (host : String) :
    isHostAllowed (parseAllowedHosts S) lookupHost host =
      (decide (host ∈ S ∧ isName host = true) ||
        resolvesInto (fun ip => (configureSweep S maxRate).allowedNets.any (·.contains ip))
          lookupHost host) := by
  have hne := mt (unrestricted_iff (fun c => (parseAllowedHost c).toOption) S).mp hS
  refine (scopeAllows_of_restricted hne lookupHost host).trans ?_
  simp only [List.mem_filter, isNone_parseAllowedHost, ← any_parseAllowedHosts S maxRate]
  rfl

theorem parseIP_eq_none_of_isName {c : String} (h : isName c = true) : parseIP c = none := by
  unfold isName parseAllowed at h
  cases hcidr : parseCIDR c with
  | some n => simp [hcidr, Except.toOption] at h
  | none => cases hip : parseIP c with
    | none => rfl
    | some ip => simp [hcidr, hip, Except.toOption] at h

theorem isName_eq_false_of_parseIP {c : String} {ip : IP} (h : parseIP c = some ip) :
    isName c = false := by
  refine Bool.eq_false_iff.mpr fun hname => ?_
  simp [parseIP_eq_none_of_isName hname] at h

/-- A text without `.`, `:`, `%` and `/` that is longer than every entry. -/
def freshName (L : List String) : String :=
  String.ofList (List.replicate ((L.map String.length).sum + 1) 'x')

theorem freshName_not_mem (L : List String) : freshName L ∉ L := by
  intro h
  have hmem : (freshName L).length ∈ L.map String.length := List.mem_map_of_mem h
  have hle := List.single_le_sum (fun _ _ => Nat.zero_le _) _ hmem
  simp [freshName] at hle

theorem freshName_ne_empty (L : List String) : freshName L ≠ "" := by
  intro h
  have hlen := congrArg String.length h
  simp [freshName] at hlen

theorem parseIP_freshName (L : List String) : parseIP (freshName L) = none := by
  have hfind : (freshName L).toList.find? (fun c => c = '.' ∨ c = ':' ∨ c = '%') = none := by
    rw [freshName, String.toList_ofList, List.find?_eq_none]
    intro c hc
    obtain rfl := List.eq_of_mem_replicate hc
    decide
  unfold parseIP parseAddr
  rw [hfind]

theorem scope_eq_iff {D S : List String} (hS : S ≠ []) (maxRate : Int) :
    (∀ host, host ≠ "" → ∀ lookupHost, isHostAllowed (parseAllowedHosts S) lookupHost host =
      isTargetAllowed (configureSweep D maxRate) lookupHost host) ↔ SameScope D S := by
  constructor
  · intro h
    have hD : D ≠ [] := by
      rintro rfl
      have hfresh := h (freshName S) (freshName_ne_empty S) fun _ => none
      rw [isHostAllowed_of_ne_nil hS maxRate] at hfresh
      simp [freshName_not_mem, resolvesInto, parseIP_freshName, isTargetAllowed, configureSweep,
        parseAllowedCIDRs] at hfresh
    refine ⟨hD, fun c hc hname => ?_, fun s ip hip => ?_⟩
    · -- a name that does not resolve
      have hc' := h c hc fun _ => none
      rw [isHostAllowed_of_ne_nil hS maxRate, isTargetAllowed_of_ne_nil hD] at hc'
      have hres : ∀ inside, resolvesInto inside (fun _ => none) c = false := by
        intro inside
        simp [resolvesInto, parseIP_eq_none_of_isName hname]
      rw [hres, hres, Bool.or_false, Bool.or_false, decide_eq_decide, and_iff_left hname,
        and_iff_left hname] at hc'
      exact hc'.symm
    · -- an address
      have hs : s ≠ "" := by
        rintro rfl
        simp [parseIP_empty] at hip
      have hs' := h s hs fun _ => none
      rw [isHostAllowed_of_ne_nil hS maxRate, isTargetAllowed_of_ne_nil hD] at hs'
      simp only [isName_eq_false_of_parseIP hip, Bool.false_eq_true, and_false, decide_false,
        Bool.false_or, resolvesInto, hip] at hs'
      rw [← any_configureSweep D maxRate, ← any_configureSweep S maxRate, hs']
  · rintro ⟨hD, hnames, haddrs⟩ host hhost lookupHost
    rw [isHostAllowed_of_ne_nil hS maxRate, isTargetAllowed_of_ne_nil hD]
    congr 1
    · rw [decide_eq_decide]
      exact and_congr_left fun hname => (hnames host hhost hname).symm
    · refine resolvesInto_congr (fun s ip hip => ?_) lookupHost host
      rw [Bool.eq_iff_iff, any_configureSweep, any_configureSweep]
      exact (haddrs s ip hip).symm

theorem sameScope_filter {D : List String} (h : D.filter (· ≠ "") ≠ []) :
    SameScope D (D.filter (· ≠ "")) where
  restricted := by
    rintro rfl
    exact h rfl
  names := fun c hc _ => by simp [List.mem_filter, hc]
  addresses := by
    have hempty : parseAllowed "" = .error "" := by decide
    intro s ip _
    constructor
    · rintro ⟨c, hc, n, hn, hin⟩
      refine ⟨c, List.mem_filter.mpr ⟨hc, ?_⟩, n, hn, hin⟩
      have hne : c ≠ "" := by
        rintro rfl
        rw [hempty] at hn
        cases hn
      simpa using hne
    · rintro ⟨c, hc, hn⟩
      exact ⟨c, List.mem_of_mem_filter hc, hn⟩

/-! ## The sibling's scope -/

theorem sshFields_distinct : (sshFields.map (foldName ·.tag)).Nodup := by decide

theorem decodes_host : Decodes sshFields "host" (·.host) string :=
  ⟨sshFields_distinct, by decide, by simp [sshFields, field]⟩

theorem decodes_allowedHosts :
    Decodes sshFields "allowed_hosts" (·.allowedHosts) (sliceOf "" string) :=
  ⟨sshFields_distinct, by decide, by simp [sshFields, field]⟩

theorem overCells_quote (S : List String) :
    (overCells "" string (S.map fun s => Json.str (quote s)) []).1.1 = S := by
  induction S with
  | nil => rfl
  | cons s S ih =>
    simp only [List.map_cons, overCells, List.tail_nil, string, text_quote, ih]

theorem stored_strings (S : List String) :
    (stored (sliceOf "" string) .nil [ofAny (.strings S)]).elems.getD [] = S := by
  cases S with
  | nil => rfl
  | cons s S => exact overCells_quote (s :: S)

theorem spelled_siblingMembers (a b c : Any) :
    let m := StrMap.ofEntries [("host", a), ("allowed_hosts", b), ("known_hosts", c)]
    spelled "host" (ofMembers m) = [ofAny a] ∧
      spelled "allowed_hosts" (ofMembers m) = [ofAny b] := by
  have hsorted : StrMap.ofEntries [("host", a), ("allowed_hosts", b), ("known_hosts", c)] =
      [("allowed_hosts", b), ("host", a), ("known_hosts", c)] := by
    have h₁ : "allowed_hosts" < "host" := by decide
    have h₂ : ¬ "known_hosts" < "allowed_hosts" ∧ ¬ "known_hosts" < "host" := by decide
    simp [StrMap.ofEntries, StrMap.insert, h₁, h₂]
  have hfold : foldName "allowed_hosts" ≠ foldName "host" ∧
      foldName "known_hosts" ≠ foldName "host" ∧
      foldName "known_hosts" ≠ foldName "allowed_hosts" := by decide
  simp only [hsorted, spelled_ofMembers_cons, hfold.1, hfold.1.symm, hfold.2.1, hfold.2.2, if_true,
    if_false]
  exact ⟨rfl, rfl⟩

theorem sshAccessConfig_ok {cfg out : StrMap Any} {signingEnabled : Bool}
    (h : sshAccessConfig cfg signingEnabled = .ok out) :
    signingEnabled = true ∧ Any.asString (cfg.get "known_hosts_file") ≠ "" ∧
      stringSlice (cfg.get "allowed_cidrs") ≠ [] ∧
      spelled "host" (ofMembers out) = [ofAny (.string "")] ∧
      spelled "allowed_hosts" (ofMembers out) =
        [ofAny (.strings (stringSlice (cfg.get "allowed_cidrs")))] := by
  unfold sshAccessConfig at h
  split at h
  · cases h
  · next hsign =>
    simp only at h
    split at h
    · cases h
    · next hknown =>
      split at h
      · cases h
      · next hcidrs =>
        refine ⟨by simpa using hsign, hknown, by simpa using hcidrs, ?_⟩
        have hport : foldName "port" ≠ foldName "host" ∧
            foldName "port" ≠ foldName "allowed_hosts" := by decide
        have hmax : foldName "max_output_bytes" ≠ foldName "host" ∧
            foldName "max_output_bytes" ≠ foldName "allowed_hosts" := by decide
        cases h
        cases cfg.get "max_output_bytes" <;> cases cfg.get "port" <;>
          simp only [spelled_ofMembers_insert hport.1, spelled_ofMembers_insert hport.2,
            spelled_ofMembers_insert hmax.1, spelled_ofMembers_insert hmax.2] <;>
          exact spelled_siblingMembers _ _ _

theorem sshConfigure_dynamic {env : SshEnv} {creds : Creds} {q : SshState}
    (h : sshConfigure env config creds = .ok q)
    (hhost : stored string "" (spelled "host" (ofMembers config)) = "") :
    q.scope = parseAllowedHosts ((stored (sliceOf "" string) .nil
      (spelled "allowed_hosts" (ofMembers config))).elems.getD []) := by
  unfold sshConfigure at h
  by_cases hok : (remarshal .zero sshFields config).2 = true
  · rw [remarshal_eq hok] at h hok
    have hhost' := (decodes_host.struct_get .zero (ofAny (.map config))).trans hhost
    have hallowed := decodes_allowedHosts.struct_get .zero (ofAny (.map config))
    simp only [hok, not_true_eq_false, if_false] at h
    split at h
    · cases h
    · split at h
      · cases h
      · split at h
        · cases h
        · have hempty : (applySshDefaults (struct sshFields .zero (ofAny (.map config))).1).host =
              "" := hhost'
          rw [if_pos hempty] at h
          cases h
          exact congrArg (fun s : Slice String => parseAllowedHosts (s.elems.getD [])) hallowed
  · simp [hok] at h

theorem sibling_scope {env : SshEnv} {report : SshConfigError → String}
    {discovery entry : DatasourceEntry} {creds : Creds} {signingEnabled : Bool} {q : SshState}
    (h : sshAccessSibling discovery config creds signingEnabled (fun c cr => (sshConfigure env c
      cr).mapError report) = .ok (entry, q)) :
    signingEnabled = true ∧ Any.asString (config.get "known_hosts_file") ≠ "" ∧
      stringSlice (config.get "allowed_cidrs") ≠ [] ∧
      q.scope = parseAllowedHosts (stringSlice (config.get "allowed_cidrs")) := by
  unfold sshAccessSibling at h
  cases hcfg : sshAccessConfig config signingEnabled with
  | error err =>
    rw [hcfg] at h
    cases h
  | ok out =>
    obtain ⟨hsign, hknown, hcidrs, hhost, hallowed⟩ := sshAccessConfig_ok hcfg
    refine ⟨hsign, hknown, hcidrs, ?_⟩
    simp only [hcfg] at h
    cases hconf : sshConfigure env out creds with
    | error err =>
      rw [hconf] at h
      cases h
    | ok q' =>
      rw [hconf] at h
      cases h
      rw [sshConfigure_dynamic hconf (by rw [hhost]; rfl), hallowed, stored_strings]

/-! ## Spellings of `allowed_cidrs` -/

theorem stored_eq_entriesLeft (js : List Json) :
    (stored (sliceOf "" string) .nil js).elems.getD [] = entriesLeft js := by
  rw [stored_slice_elems]
  unfold entriesLeft
  cases sliceLen js with
  | none => rfl
  | some n => simp only [Option.map_some, Option.getD_some, stored_string]

theorem spelled_of_one_key {tag : String} (hnodup : (config.map (·.1)).Nodup)
    (hone : ∀ e ∈ config, foldName e.1 = foldName tag → e.1 = tag) :
    spelled tag (ofMembers config) = (config.get tag).toList.map ofAny := by
  induction config with
  | nil => rfl
  | cons e config ih =>
    obtain ⟨k, v⟩ := e
    obtain ⟨hk, hnodup'⟩ := List.nodup_cons.mp hnodup
    have ih' := ih hnodup' fun e he => hone e (List.mem_cons_of_mem _ he)
    rw [spelled_ofMembers_cons, StrMap.get_cons]
    by_cases hkey : k = tag
    · subst hkey
      have hnone : StrMap.get config k = none := by
        refine List.lookup_eq_none_iff.mpr fun e he => ?_
        have hne : k ≠ e.1 := fun h => hk (List.mem_map.mpr ⟨e, he, h.symm⟩)
        simpa using hne
      rw [if_pos rfl, if_pos rfl, ih', hnone]
      rfl
    · have hfold : foldName k ≠ foldName tag := mt (hone _ List.mem_cons_self) hkey
      rw [if_neg hfold, if_neg (Ne.symm hkey), ih']

theorem overCells_ofElements (xs : List Any) :
    (overCells "" string (ofElements xs) []).1.1 = xs.map fun x => Any.asString (some x) := by
  induction xs with
  | nil => rfl
  | cons x xs ih =>
    have hx : (string "" (ofAny x)).1 = Any.asString (some x) := by
      cases x with
      | string s => exact text_quote s
      | _ => rfl
    simp only [ofElements, overCells, List.tail_nil, ih, List.map_cons]
    exact congrArg (· :: _) hx

theorem stringSlice_slice (xs : List Any) :
    stringSlice (some (.slice xs)) = (xs.map fun x => Any.asString (some x)).filter (· ≠ "") := by
  rw [← List.filterMap_eq_filter, List.filterMap_map, stringSlice]
  congr 1
  funext x
  cases x with
  | string s => by_cases hs : s = "" <;> simp [hs, Any.asString, Option.guard]
  | _ => rfl

theorem spellingsAgree_of_one_key (hnodup : (config.map (·.1)).Nodup)
    (hone : ∀ e ∈ config, foldName e.1 = foldName "allowed_cidrs" → e.1 = "allowed_cidrs")
    (hcidrs : stringSlice (config.get "allowed_cidrs") ≠ []) : SpellingsAgree config := by
  unfold SpellingsAgree
  rw [spelled_of_one_key hnodup hone]
  match hget : config.get "allowed_cidrs" with
  | some (.strings S) =>
    rw [hget] at hcidrs
    have hleft : entriesLeft [ofAny (.strings S)] = S := by
      rw [← stored_eq_entriesLeft, stored_strings]
    simp only [Option.toList_some, List.map_cons, List.map_nil, hleft]
    exact sameScope_filter hcidrs
  | some (.slice xs) =>
    rw [hget, stringSlice_slice] at hcidrs
    have hleft : entriesLeft [ofAny (.slice xs)] = xs.map fun x => Any.asString (some x) := by
      rw [← stored_eq_entriesLeft]
      cases xs with
      | nil => rfl
      | cons x xs => exact overCells_ofElements (x :: xs)
    simp only [Option.toList_some, List.map_cons, List.map_nil, hleft, stringSlice_slice]
    exact sameScope_filter hcidrs
  | none | some .nil | some (.bool _) | some (.float _) | some (.int _) | some (.string _)
  | some (.map _) =>
    rw [hget] at hcidrs
    exact absurd rfl hcidrs

end SiblingLemmas

/-! ## The sibling and its datasource -/

open ScopeLemmas ConfigureLemmas SiblingLemmas in
/-- Of a configuration that both proxies accept, the sibling was built with
signing and known hosts and is restricted, and it admits the hosts that the
discovery proxy admits, exactly if the spellings of `allowed_cidrs` agree. Only
the last part can fail. -/
theorem sibling_scope_iff (env : ConfigEnv) (sshEnv : SshEnv) (report : SshConfigError → String)
    (config : StrMap Any) (creds : Creds) (signingEnabled : Bool) (p : DiscoveryState)
    (discovery entry : DatasourceEntry) (q : SshState)
    (hconfigure : (configure env config creds p).2 = .ok ())
    (hsibling : sshAccessSibling discovery config creds signingEnabled
      (fun c cr => (sshConfigure sshEnv c cr).mapError report) = .ok (entry, q)) :
    (signingEnabled = true ∧ Any.asString (config.get "known_hosts_file") ≠ "" ∧
      ¬ (q.scope.allowedNets = [] ∧ q.scope.allowedHosts = []) ∧
      ∀ host, host ≠ "" → ∀ lookupHost, isHostAllowed q.scope lookupHost host =
        isTargetAllowed (configure env config creds p).1.scope lookupHost host) ↔
    SpellingsAgree config := by
  obtain ⟨hsign, hknown, hcidrs, hscope⟩ := sibling_scope hsibling
  have hrestricted : ¬ (q.scope.allowedNets = [] ∧ q.scope.allowedHosts = []) := by
    rw [hscope]
    exact mt (unrestricted_iff (fun c => (parseAllowedHost c).toOption) _).mp hcidrs
  obtain ⟨-, ⟨-, hdecoded, hdiscovery, -⟩ | ⟨hfailed, -⟩⟩ := configure_cases env config creds p
  · rw [allowedCIDRs_decoded hdecoded, stored_eq_entriesLeft] at hdiscovery
    rw [and_iff_right hsign, and_iff_right hknown, and_iff_right hrestricted, hscope, hdiscovery]
    exact scope_eq_iff hcidrs _
  · exact absurd hconfigure hfailed

/-- Everything outside the repository answers, and no public key is known. -/
def willingEnv : SshEnv where
  authorizedKey _ := .error "unknown key"
  pemKey _ := none
  privateKeyErr _ _ := none
  knownHostsErr _ := none
  hostKeyErr _ := none
  dialErr _ _ := none

def scanCreds : Creds := [("password", "s3cret"), ("username", "scan")]

def oneSpelling : StrMap Any :=
  [("allowed_cidrs", .slice [.string "10.0.0.0/8"]), ("known_hosts_file", .string "/etc/known")]

def siblingOf (config : StrMap Any) : Except String (DatasourceEntry × SshState) :=
  sshAccessSibling ⟨"scan", "discovery", "discovery-proxy", "scan", "local", ""⟩ config scanCreds
    true fun c cr => (sshConfigure willingEnv c cr).mapError fun _ => "refused"

open SiblingLemmas in
/-- One spelling: the sibling is built and admits the hosts that discovery admits. -/
theorem sibling_scope_one_spelling :
    let p := configure willingEnv.toConfigEnv oneSpelling scanCreds .new
    p.2 = .ok () ∧ ∃ entry q, siblingOf oneSpelling = .ok (entry, q) ∧
      ∀ host, host ≠ "" → ∀ lookupHost, isHostAllowed q.scope lookupHost host =
        isTargetAllowed p.1.scope lookupHost host := by
  have hconfigure : (configure willingEnv.toConfigEnv oneSpelling scanCreds .new).2 = .ok () := by
    decide +kernel
  have hbuilt : (siblingOf oneSpelling).toOption.isSome = true := by decide +kernel
  refine ⟨hconfigure, ?_⟩
  cases hsibling : siblingOf oneSpelling with
  | error err => simp [hsibling, Except.toOption] at hbuilt
  | ok built =>
    have hagree := (sibling_scope_iff willingEnv.toConfigEnv willingEnv _ oneSpelling scanCreds true
      .new _ built.1 built.2 hconfigure hsibling).mpr
      (spellingsAgree_of_one_key (by decide) (by decide) (by decide))
    exact ⟨built.1, built.2, rfl, hagree.2.2.2⟩

/-- The key a second time, with U+017F for its last letter. -/
def twoSpellings : StrMap Any :=
  [("allowed_cidrs", .slice [.string "0.0.0.0/0"]),
   ("allowed_cidrſ", .slice [.string "10.0.0.0/8"]),
   ("known_hosts_file", .string "/etc/known")]

/-- Discovery decodes the second spelling over the first and is restricted to
`10.0.0.0/8`. The sibling admits every IPv4 address. -/
theorem sibling_wider :
    let p := configure willingEnv.toConfigEnv twoSpellings scanCreds .new
    p.2 = .ok () ∧ isTargetAllowed p.1.scope (fun _ => none) "203.0.113.9" = false ∧
      ∃ entry q, siblingOf twoSpellings = .ok (entry, q) ∧
        isHostAllowed q.scope (fun _ => none) "203.0.113.9" = true := by
  refine ⟨by decide +kernel, by decide +kernel, ?_⟩
  have hadmits : (siblingOf twoSpellings).toOption.any (fun built =>
      isHostAllowed built.2.scope (fun _ => none) "203.0.113.9") = true := by decide +kernel
  cases hsibling : siblingOf twoSpellings with
  | error err => simp [hsibling, Except.toOption] at hadmits
  | ok built =>
    rw [hsibling] at hadmits
    exact ⟨built.1, built.2, rfl, hadmits⟩

end Forager
