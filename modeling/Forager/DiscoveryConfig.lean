import Forager.ConfigSync
import Forager.JsonDecode
import Forager.Pack
import Forager.Scope

/-!
# Configuring a discovery proxy

`Configure` of `pkg/proxy/discovery/proxy.go` with `applyConfigDefaults`,
`buildAuthMethods` and `hostKeyCallback`, and `ParsePublicKey` of
`pkg/signing/verify.go`. The configuration map is marshalled to JSON and decoded
into the `Config` struct. Files, keys of x/crypto and PEM blocks are answers of a
parameter. A call that fails keeps what it had already stored.
-/

namespace Forager

open Go GoJson GoNet JsonText
open GoText (Bytes)

/-! ## The configuration -/

structure LdapConfig where
  host : String
  port : Int
  tls : Bool
  startTLS : Bool
  skipVer : Bool
  baseDN : String
  timeoutS : Int
  pageSize : Nat
  bindDN : String
  bindPass : String
  maxResult : Int
deriving DecidableEq, Repr

def LdapConfig.zero : LdapConfig := ⟨"", 0, false, false, false, "", 0, 0, "", "", 0⟩

/-- The fields of `ldapConfig`; the credentials are not decoded. -/
def ldapFields : List (StructField LdapConfig) :=
  [field "host" (·.host) (fun s v => { s with host := v }) string,
   field "port" (·.port) (fun s v => { s with port := v }) int,
   field "tls" (·.tls) (fun s v => { s with tls := v }) bool,
   field "start_tls" (·.startTLS) (fun s v => { s with startTLS := v }) bool,
   field "insecure_skip_verify" (·.skipVer) (fun s v => { s with skipVer := v }) bool,
   field "base_dn" (·.baseDN) (fun s v => { s with baseDN := v }) string,
   field "timeout_seconds" (·.timeoutS) (fun s v => { s with timeoutS := v }) int,
   field "page_size" (·.pageSize) (fun s v => { s with pageSize := v }) (uint 32),
   field "max_results" (·.maxResult) (fun s v => { s with maxResult := v }) int]

structure DiscoveryConfig where
  port : Int
  concurrency : Int
  hostTimeoutS : Int
  commandTimeS : Int
  dialTimeoutS : Int
  maxOutputBytes : Int
  allowedCIDRs : Slice String
  packPublicKey : String
  packDir : String
  maxRatePPS : Int
  ldap : LdapConfig
  knownHostsFile : String
deriving DecidableEq, Repr

def DiscoveryConfig.zero : DiscoveryConfig := ⟨0, 0, 0, 0, 0, 0, .nil, "", "", 0, .zero, ""⟩

def discoveryFields : List (StructField DiscoveryConfig) :=
  [field "port" (·.port) (fun s v => { s with port := v }) int,
   field "concurrency" (·.concurrency) (fun s v => { s with concurrency := v }) int,
   field "host_timeout_seconds" (·.hostTimeoutS) (fun s v => { s with hostTimeoutS := v }) int,
   field "command_timeout_seconds" (·.commandTimeS) (fun s v => { s with commandTimeS := v }) int,
   field "dial_timeout_seconds" (·.dialTimeoutS) (fun s v => { s with dialTimeoutS := v }) int,
   field "max_output_bytes" (·.maxOutputBytes) (fun s v => { s with maxOutputBytes := v }) int,
   field "allowed_cidrs" (·.allowedCIDRs) (fun s v => { s with allowedCIDRs := v })
     (sliceOf "" string),
   field "pack_public_key" (·.packPublicKey) (fun s v => { s with packPublicKey := v }) string,
   field "pack_dir" (·.packDir) (fun s v => { s with packDir := v }) string,
   field "max_rate_pps" (·.maxRatePPS) (fun s v => { s with maxRatePPS := v }) int,
   field "ldap" (·.ldap) (fun s v => { s with ldap := v }) (struct ldapFields),
   field "known_hosts_file" (·.knownHostsFile) (fun s v => { s with knownHostsFile := v }) string]

/-- `v <= 0` takes the default. -/
def positiveOr (default v : Int) : Int := if v ≤ 0 then default else v

def applyConfigDefaults (cfg : DiscoveryConfig) : DiscoveryConfig :=
  { cfg with
    port := if cfg.port = 0 then 22 else cfg.port
    concurrency := min (positiveOr 25 cfg.concurrency) 200
    hostTimeoutS := positiveOr 120 cfg.hostTimeoutS
    commandTimeS := positiveOr 60 cfg.commandTimeS
    dialTimeoutS := positiveOr 10 cfg.dialTimeoutS
    maxOutputBytes := positiveOr (4 * 2 ^ 20) cfg.maxOutputBytes
    maxRatePPS := if cfg.maxRatePPS ≤ 0 ∨ cfg.maxRatePPS > rateCap then rateCap
      else cfg.maxRatePPS }

/-- `json.Unmarshal(json.Marshal(config))` into a struct with these fields. -/
def remarshal {σ : Type} (zero : σ) (fields : List (StructField σ)) (config : StrMap Any) :
    σ × Bool :=
  unmarshal zero (struct fields) (print (ofAny (.map config)))

/-! ## Keys and credentials -/

/-- What the code outside the repository answers during one `Configure`. -/
structure ConfigEnv where
  /-- The key of an OpenSSH line, with the errors of `ssh.ParseAuthorizedKey` and
  of the check that it is an Ed25519 key. -/
  authorizedKey : List Char → Except String Bytes
  /-- The key of a PEM block, if the text is one. -/
  pemKey : List Char → Option (Except String Bytes)
  /-- The error of `ssh.ParsePrivateKey`, or of `ParsePrivateKeyWithPassphrase`. -/
  privateKeyErr : String → Option String → Option String
  /-- The error of `knownhosts.New`. -/
  knownHostsErr : String → Option String

inductive KeyError
  | openSSH (err : String)
  | pem (err : String)
  | badBase64
  | badLength (n : Nat)
deriving DecidableEq, Repr

def parsePublicKey (env : ConfigEnv) (s : String) : Except KeyError Bytes :=
  let s := trimSpace s.toList
  if "ssh-ed25519 ".toList.isPrefixOf s then
    match env.authorizedKey s with
    | .error err => .error (.openSSH err)
    | .ok key => .ok key
  else match env.pemKey s with
    | some (.error err) => .error (.pem err)
    | some (.ok key) => .ok key
    | none => match Base64.decode s with
      | none => .error .badBase64
      | some key => if key.length ≠ 32 then .error (.badLength key.length) else .ok key

/-- `creds[key]`. -/
def credOf (creds : Creds) (key : String) : String := (creds.get key).getD ""

inductive ConfigError
  | parse
  | privateKey (err : String)
  | noAuthMethod
  | knownHosts (file err : String)
  | packKey (err : KeyError)
deriving DecidableEq, Repr

/-- `ssh.AuthMethod`: `ssh.PublicKeys`, with the key and its passphrase, or
`ssh.Password`. -/
inductive AuthMethod
  | publicKeys (key : String) (passphrase : Option String)
  | password (password : String)
deriving DecidableEq, Repr

/-- `buildAuthMethods`. Both packages have this function. -/
def buildAuthMethods (env : ConfigEnv) (creds : Creds) : Except ConfigError (List AuthMethod) :=
  let key := credOf creds "private_key"
  let passphrase := credOf creds "passphrase"
  let passphrase := if passphrase = "" then none else some passphrase
  let password := credOf creds "password"
  let passwords := if password = "" then [] else [AuthMethod.password password]
  if key = "" then
    if passwords.length = 0 then .error .noAuthMethod else .ok passwords
  else match env.privateKeyErr key passphrase with
    | some err => .error (.privateKey err)
    | none => .ok (.publicKeys key passphrase :: passwords)

/-- `ssh.HostKeyCallback`: `knownhosts.New`, `ssh.FixedHostKey` or
`ssh.InsecureIgnoreHostKey`. -/
inductive HostKeyCallback
  | knownHosts (file : String)
  | fixed (key : String)
  | insecure
deriving DecidableEq, Repr

structure ClientConfig where
  user : String
  auth : List AuthMethod
  hostKeyCallback : HostKeyCallback
  timeoutS : Int
deriving DecidableEq, Repr

def loadKnownHosts (env : ConfigEnv) (file : String) : Except ConfigError HostKeyCallback :=
  match env.knownHostsErr file with
  | some err => .error (.knownHosts file err)
  | none => .ok (.knownHosts file)

def hostKeyCallback (env : ConfigEnv) (cfg : DiscoveryConfig) :
    Except ConfigError HostKeyCallback :=
  if cfg.knownHostsFile ≠ "" then loadKnownHosts env cfg.knownHostsFile else .ok .insecure

/-- The SSH part of `Configure`: without a user name there is none. -/
def sshClientConfig (env : ConfigEnv) (cfg : DiscoveryConfig) (creds : Creds) :
    Except ConfigError (Option ClientConfig) :=
  let username := credOf creds "username"
  if username = "" then .ok none
  else do
    let authMethods ← buildAuthMethods env creds
    let callback ← hostKeyCallback env cfg
    return some ⟨username, authMethods, callback, cfg.dialTimeoutS⟩

/-! ## `Configure` -/

/-- `discovery.Proxy`, without lock and logger. -/
structure DiscoveryState where
  cfg : DiscoveryConfig
  sshConfig : Option ClientConfig
  packPubKey : Option Bytes
  allowedNets : List IPNet
  allowedHosts : List String
  ldapCfg : LdapConfig
  ldapConfigured : Bool
  packs : List (Int × Pack)
deriving DecidableEq, Repr

def DiscoveryState.new : DiscoveryState := ⟨.zero, none, none, [], [], .zero, false, []⟩

/-- What a scope check or a sweep reads. -/
def DiscoveryState.scope (p : DiscoveryState) : DiscoveryProxy :=
  ⟨p.allowedNets, p.allowedHosts, p.cfg.maxRatePPS⟩

/-- The text of the pack key: from the configuration, or else from the
credentials. -/
def packKeyText (cfg : DiscoveryConfig) (creds : Creds) : String :=
  if cfg.packPublicKey = "" then credOf creds "pack_public_key" else cfg.packPublicKey

/-- The part of `Configure` after the SSH credentials. -/
def configureRest (env : ConfigEnv) (cfg : DiscoveryConfig) (creds : Creds) (p : DiscoveryState) :
    DiscoveryState × Except ConfigError Unit :=
  let allowed := parseAllowedCIDRs (cfg.allowedCIDRs.elems.getD [])
  let p := { p with
    allowedNets := allowed.1
    allowedHosts := allowed.2
    ldapCfg := { cfg.ldap with
      bindDN := credOf creds "ldap_bind_dn"
      bindPass := credOf creds "ldap_bind_password" }
    ldapConfigured := cfg.ldap.host ≠ "" }
  let packKey := packKeyText cfg creds
  if packKey = "" then (p, .ok ())
  else match parsePublicKey env packKey with
    | .error err => (p, .error (.packKey err))
    | .ok pub => ({ p with packPubKey := some pub }, .ok ())

def configure (env : ConfigEnv) (config : StrMap Any) (creds : Creds) (p : DiscoveryState) :
    DiscoveryState × Except ConfigError Unit :=
  let (cfg, ok) := remarshal .zero discoveryFields config
  if ¬ ok then (p, .error .parse)
  else
    let cfg := applyConfigDefaults cfg
    let p := { p with cfg := cfg, sshConfig := none }
    match sshClientConfig env cfg creds with
    | .error err => (p, .error err)
    | .ok sshConfig => configureRest env cfg creds { p with sshConfig := sshConfig }

namespace ConfigureLemmas

/-! ## What a call does -/

theorem remarshal_eq {σ : Type} {zero : σ} {fields : List (StructField σ)} {config : StrMap Any}
    (h : (remarshal zero fields config).2 = true) :
    remarshal zero fields config = struct fields zero (ofAny (.map config)) := by
  unfold remarshal at h ⊢
  rw [unmarshal_print] at h ⊢
  split
  · rfl
  · next hdeep =>
    rw [if_neg hdeep] at h
    cases h

theorem decodes_allowedCIDRs :
    Decodes discoveryFields "allowed_cidrs" (·.allowedCIDRs) (sliceOf "" string) :=
  ⟨by decide, by decide, by simp [discoveryFields, field]⟩

theorem allowedCIDRs_decoded {config : StrMap Any}
    (h : (remarshal .zero discoveryFields config).2 = true) :
    (remarshal .zero discoveryFields config).1.allowedCIDRs =
      stored (sliceOf "" string) .nil (spelled "allowed_cidrs" (ofMembers config)) := by
  rw [remarshal_eq h]
  exact decodes_allowedCIDRs.struct_get _ _

theorem configure_cases (env : ConfigEnv) (config : StrMap Any) (creds : Creds)
    (p : DiscoveryState) :
    let p' := (configure env config creds p).1
    let decoded := remarshal .zero discoveryFields config
    let packKey := packKeyText decoded.1 creds
    p'.packs = p.packs ∧
      ((configure env config creds p).2 = .ok () ∧ decoded.2 = true ∧
          p'.scope = configureSweep (decoded.1.allowedCIDRs.elems.getD []) decoded.1.maxRatePPS ∧
          (packKey = "" ∧ p'.packPubKey = p.packPubKey ∨
            ∃ pub, packKey ≠ "" ∧ parsePublicKey env packKey = .ok pub ∧ p'.packPubKey = some pub) ∨
        (configure env config creds p).2 ≠ .ok () ∧ p'.packPubKey = p.packPubKey) := by
  unfold configure
  generalize remarshal .zero discoveryFields config = decoded
  obtain ⟨cfg, ok⟩ := decoded
  cases ok with
  | false => exact ⟨rfl, .inr ⟨by simp, rfl⟩⟩
  | true =>
    simp only [not_true_eq_false, if_false]
    cases sshClientConfig env (applyConfigDefaults cfg) creds with
    | error err => exact ⟨rfl, .inr ⟨by simp, rfl⟩⟩
    | ok sshConfig =>
      dsimp only
      unfold configureRest
      dsimp only
      have hkey : packKeyText (applyConfigDefaults cfg) creds = packKeyText cfg creds := rfl
      rw [hkey]
      by_cases hempty : packKeyText cfg creds = ""
      · rw [if_pos hempty]
        exact ⟨rfl, .inl ⟨rfl, trivial, rfl, .inl ⟨hempty, rfl⟩⟩⟩
      · rw [if_neg hempty]
        cases hpub : parsePublicKey env (packKeyText cfg creds) with
        | error err => exact ⟨rfl, .inr ⟨by simp, rfl⟩⟩
        | ok pub => exact ⟨rfl, .inl ⟨rfl, trivial, rfl, .inr ⟨pub, hempty, rfl, rfl⟩⟩⟩

end ConfigureLemmas

end Forager
