import Forager.GoValue
import Forager.Registry

/-!
# Datasource config sync

`handleConfigSync` of `pkg/ws/handler.go`, with the helpers it calls:
`normalizeConfigValues`, `newProxyByType`, `CloudPushStore.Set`/`Get`
(`pkg/secrets/cloud_push.go`) and the SSH access sibling of
`pkg/proxy/discovery/ssh_access.go`. The secret manager, the disk behind the
credential store, and the `Configure` and `Close` methods of the proxies are
given by a `SyncWorld`, one answer per datasource of the push.
-/

namespace Forager

open Go

/-! ## The data of a push -/

abbrev Creds := StrMap String

/-- One element of `datasources` in a `datasource_config_sync` message. A nil
map or slice is `none`. -/
structure Datasource where
  id : String
  type : String
  proxyType : String
  name : String
  config : Option (StrMap Any)
  credentials : Option Creds
  credentialSource : String
  credentialRef : String
  allowedHosts : Option (List String)
deriving DecidableEq

/-- The proxy module that `newProxyByType` instantiates. -/
inductive ProxyKind
  | http
  | db (dbType : String)
  | mcp
  | ssh
  | mongo
  | redis
  | kafka
  | discovery
deriving DecidableEq, Repr

def normalizeConfigValue : Any → Any
  | .string "true" => .bool true
  | .string "false" => .bool false
  | .string s => match atoi s with
    | some n => .int n
    | none => .string s
  | v => v

def normalizeConfigValues (config : StrMap Any) : StrMap Any :=
  StrMap.mapVals normalizeConfigValue config

/-- `newProxyByType`, with the config map as it leaves it. -/
def newProxyByType (proxyType dsType : String) (config : StrMap Any) (allowedHosts : List String) :
    Except String (ProxyKind × StrMap Any) :=
  match proxyType with
  | "http-proxy" => .ok (.http, config.insert "datasource_type" (.string dsType))
  | "db-proxy" =>
    let dbType := Any.asString (config.get "db_type")
    .ok (.db (if dbType = "" then dsType else dbType), config)
  | "mcp-proxy" => .ok (.mcp, config)
  | "ssh-proxy" =>
    .ok (.ssh, if allowedHosts.length > 0 then
      config.insert "allowed_hosts" (.strings allowedHosts) else config)
  | "mongo-proxy" => .ok (.mongo, config)
  | "redis-proxy" => .ok (.redis, config)
  | "kafka-proxy" => .ok (.kafka, config)
  | "discovery-proxy" =>
    .ok (.discovery, if allowedHosts.length > 0 ∧ (config.get "allowed_cidrs").isNone then
      config.insert "allowed_cidrs" (.strings allowedHosts) else config)
  | _ => .error ("unknown proxy type: " ++ proxyType)

/-- What the outside of the handler answers while one push is applied. The
first argument of an answer is the position of the datasource in the push. -/
structure SyncWorld (P : Type) where
  /-- `h.verifier.Enabled()`. -/
  signingEnabled : Bool
  /-- The error of `CloudPushStore.saveToDisk`. -/
  storeErr : Nat → Option String
  /-- `secretsMgr.Resolve(ctx, source, ref)`. -/
  resolve : Nat → String → String → Except String Creds
  /-- `Configure(config, creds)` of a new proxy of the given kind. -/
  configure : Nat → ProxyKind → StrMap Any → Creds → Except String P
  /-- The error of `Close` on the proxy registered under an id. -/
  closeErr : String → Option String

/-! ## The SSH access sibling -/

def sshAccessSuffix : String := ":ssh"

def sshAccessEnabled (cfg : StrMap Any) : Bool := Any.asBool (cfg.get "ssh_access")

def stringSlice : Option Any → List String
  | some (.strings s) => s.filter (· ≠ "")
  | some (.slice s) => s.filterMap fun
    | .string e => if e ≠ "" then some e else none
    | _ => none
  | _ => []

def sshAccessConfig (cfg : StrMap Any) (signingEnabled : Bool) : Except String (StrMap Any) :=
  if ¬ signingEnabled then
    .error "ssh_access requires signing_public_key so commands are verified"
  else
    let knownHosts := Any.asString (cfg.get "known_hosts_file")
    if knownHosts = "" then
      .error "ssh_access requires known_hosts_file so host keys are verified"
    else
      let cidrs := stringSlice (cfg.get "allowed_cidrs")
      if cidrs.length = 0 then
        .error "ssh_access requires a non-empty allowed_cidrs scope"
      else
        let out : StrMap Any := StrMap.ofEntries
          [("host", .string ""), ("allowed_hosts", .strings cidrs),
            ("known_hosts", .string knownHosts)]
        let out := match cfg.get "port" with
          | some port => out.insert "port" port
          | none => out
        .ok (match cfg.get "max_output_bytes" with
          | some n => out.insert "max_output_bytes" n
          | none => out)

/-- The entry of the sibling of `discovery`. `Type()` of an SSH proxy is
`"ssh-proxy"`. -/
def siblingEntry (discovery : DatasourceEntry) : DatasourceEntry :=
  { id := discovery.id ++ sshAccessSuffix
    type := "ssh"
    proxyType := "ssh-proxy"
    name := discovery.name ++ "-ssh"
    credentialSource := discovery.credentialSource
    credentialRef := discovery.credentialRef }

/-- `SSHAccessSibling`; `configure` is `Configure` of the new SSH proxy. -/
def sshAccessSibling {P : Type} (discovery : DatasourceEntry) (cfg : StrMap Any) (creds : Creds)
    (signingEnabled : Bool) (configure : StrMap Any → Creds → Except String P) :
    Except String (DatasourceEntry × P) :=
  match sshAccessConfig cfg signingEnabled with
  | .error err => .error err
  | .ok sshCfg =>
    match configure sshCfg creds with
    | .error err => .error ("configuring ssh access: " ++ err)
    | .ok p => .ok (siblingEntry discovery, p)

/-! ## The sync -/

/-- `CloudPushStore.creds`. -/
abbrev CredStore := GoMap Creds

structure SyncState (P : Type) where
  registry : Registry P
  credStore : CredStore
  newIDs : List String

/-- A proxy that `Configure` accepted, with the config and the credentials it
was given. -/
structure Configured (P : Type) where
  proxy : P
  config : StrMap Any
  creds : Creds

def Datasource.entry (ds : Datasource) : DatasourceEntry :=
  { id := ds.id
    type := ds.type
    proxyType := ds.proxyType
    name := ds.name
    credentialSource := ds.credentialSource
    credentialRef := ds.credentialRef }

section Sync

variable {P : Type}

/-- The credentials of one datasource. `Set` fills the memory store before it
writes the disk, so a disk error leaves the new credentials in place. -/
def resolveCreds (w : SyncWorld P) (i : Nat) (store : CredStore) (ds : Datasource) :
    CredStore × Except String Creds :=
  let creds := ds.credentials.getD []
  if ds.credentialSource = "cloud_push" ∧ creds.length > 0 then
    (store.insert ds.id creds,
      match w.storeErr i with
      | some err => .error err
      | none => .ok creds)
  else if ds.credentialSource = "cloud_push" then
    (store, .ok ((store.lookup ds.id).getD creds))
  else if ds.credentialSource ≠ "local" then
    (store, w.resolve i ds.credentialSource ds.credentialRef)
  else (store, .ok creds)

/-- One datasource of the push up to `Configure`. -/
def configureDatasource (w : SyncWorld P) (i : Nat) (store : CredStore) (ds : Datasource) :
    CredStore × Except String (Configured P) :=
  let (store, resolved) := resolveCreds w i store ds
  (store, do
    let creds ← resolved
    let config := normalizeConfigValues (ds.config.getD [])
    let (kind, config) ←
      newProxyByType ds.proxyType ds.type config (ds.allowedHosts.getD [])
    let p ← w.configure i kind config creds
    return ⟨p, config, creds⟩)

/-- The sibling that a configured datasource asks for: `none` if it asks for
none or `SSHAccessSibling` fails. -/
def buildSibling (w : SyncWorld P) (i : Nat) (ds : Datasource) (c : Configured P) :
    Option (DatasourceEntry × P) :=
  if ds.proxyType = "discovery-proxy" ∧ sshAccessEnabled c.config then
    (sshAccessSibling ds.entry c.config c.creds w.signingEnabled (w.configure i .ssh)).toOption
  else none

/-- The body of the loop of `handleConfigSync`. -/
def syncDatasource (w : SyncWorld P) (i : Nat) (s : SyncState P) (ds : Datasource) : SyncState P :=
  let s := { s with newIDs := ds.id :: s.newIDs }
  let (store, res) := configureDatasource w i s.credStore ds
  let s := { s with credStore := store }
  match res with
  | .error _ => s
  | .ok c =>
    let s := { s with registry := s.registry.register ds.id ds.entry c.proxy }
    match buildSibling w i ds c with
    | none => s
    | some (sibling, sp) =>
      { s with
        newIDs := sibling.id :: s.newIDs
        registry := s.registry.register sibling.id sibling sp }

/-- The loop over the datasources of the push, `i` of which are done. -/
def applyPush (w : SyncWorld P) : Nat → SyncState P → List Datasource → SyncState P
  | _, s, [] => s
  | i, s, ds :: rest => applyPush w (i + 1) (syncDatasource w i s ds) rest

/-- `strings.HasPrefix(id, "local:")`. -/
def isLocal (id : String) : Bool := hasPrefix id "local:"

/-- The body of the removal loop. -/
def removeIfStale (newIDs : List String) (closeErr : String → Option String) (r : Registry P)
    (id : String) : Registry P :=
  if id ∉ newIDs ∧ ¬ isLocal id then (r.remove id (closeErr id)).1 else r

def removeStale (newIDs : List String) (closeErr : String → Option String) (order : IterOrder)
    (r : Registry P) : Registry P :=
  (r.all order).foldl (removeIfStale newIDs closeErr) r

def syncAck (requestID : String) : StrMap Any :=
  StrMap.ofEntries [("action", .string "datasource_config_sync_ack"), ("status", .string "ok"),
    ("request_id", .string requestID)]

def handleConfigSync (w : SyncWorld P) (order : IterOrder) (r : Registry P) (store : CredStore)
    (push : List Datasource) (requestID : String) : SyncState P × StrMap Any :=
  let s := applyPush w 0 ⟨r, store, []⟩ push
  ({ s with registry := removeStale s.newIDs w.closeErr order s.registry }, syncAck requestID)

/-! ## Outcomes -/

/-- What became of one datasource of the push. -/
inductive Outcome (P : Type)
  | failed
  | configured (p : P)
  | withSibling (p : P) (sibling : DatasourceEntry) (sp : P)

/-- The outcome of one datasource, from the result of `configureDatasource`. -/
def outcome (w : SyncWorld P) (i : Nat) (ds : Datasource) :
    Except String (Configured P) → Outcome P
  | .error _ => .failed
  | .ok c => match buildSibling w i ds c with
    | none => .configured c.proxy
    | some (sibling, sp) => .withSibling c.proxy sibling sp

def syncOutcomes (w : SyncWorld P) : Nat → CredStore → List Datasource →
    List (Datasource × Outcome P)
  | _, _, [] => []
  | i, store, ds :: rest =>
    let (store', res) := configureDatasource w i store ds
    (ds, outcome w i ds res) :: syncOutcomes w (i + 1) store' rest

def Outcome.registrations (ds : Datasource) : Outcome P → List (DatasourceEntry × P)
  | .failed => []
  | .configured p => [(ds.entry, p)]
  | .withSibling p sibling sp => [(ds.entry, p), (sibling, sp)]

/-- The outcome without the proxies: whether the datasource was configured,
and whether its sibling was built. -/
def Outcome.shape : Outcome P → Option Bool
  | .failed => none
  | .configured _ => some false
  | .withSibling _ _ _ => some true

def registrations (os : List (Datasource × Outcome P)) : List (DatasourceEntry × P) :=
  os.flatMap fun o => o.2.registrations o.1

def registerAll (r : Registry P) (regs : List (DatasourceEntry × P)) : Registry P :=
  regs.foldl (fun r g => r.register g.1.id g.1 g.2) r

namespace ConfigSyncLemmas

variable {closeErr : String → Option String} {newIDs : List String}

/-! ## The loop -/

theorem entry_id (ds : Datasource) : ds.entry.id = ds.id := rfl

theorem buildSibling_entry {w : SyncWorld P} {i : Nat} {ds : Datasource} {c : Configured P}
    {sibling : DatasourceEntry} {sp : P} (h : buildSibling w i ds c = some (sibling, sp)) :
    sibling = siblingEntry ds.entry ∧ ds.proxyType = "discovery-proxy" := by
  unfold buildSibling at h
  split at h
  · next hd =>
    unfold sshAccessSibling at h
    split at h
    · cases h
    · split at h
      · cases h
      · cases h; exact ⟨rfl, hd.1⟩
  · cases h

theorem syncDatasource_eq (w : SyncWorld P) (i : Nat) (s : SyncState P) (ds : Datasource) :
    let o := outcome w i ds (configureDatasource w i s.credStore ds).2
    (syncDatasource w i s ds).registry = registerAll s.registry (o.registrations ds) ∧
    (syncDatasource w i s ds).credStore = (configureDatasource w i s.credStore ds).1 ∧
    ∀ id, id ∈ (syncDatasource w i s ds).newIDs ↔
      id ∈ s.newIDs ∨ id = ds.id ∨ id ∈ (o.registrations ds).map (·.1.id) := by
  unfold syncDatasource
  rcases hc : configureDatasource w i s.credStore ds with ⟨store, res⟩
  cases res with
  | error e =>
    simp only [hc, outcome, Outcome.registrations, List.map_nil, List.mem_cons, List.not_mem_nil]
    exact ⟨rfl, trivial, fun id => by tauto⟩
  | ok c =>
    cases hb : buildSibling w i ds c with
    | none =>
      simp only [hc, hb, outcome, Outcome.registrations, List.map_cons, List.map_nil,
        List.mem_cons, List.not_mem_nil, entry_id]
      exact ⟨rfl, trivial, fun id => by tauto⟩
    | some g =>
      simp only [hc, hb, outcome, Outcome.registrations, List.map_cons, List.map_nil,
        List.mem_cons, List.not_mem_nil, entry_id]
      exact ⟨rfl, trivial, fun id => by tauto⟩

theorem registerAll_append (r : Registry P) (as bs : List (DatasourceEntry × P)) :
    registerAll r (as ++ bs) = registerAll (registerAll r as) bs := List.foldl_append

/-- The loop registers exactly the registrations of its outcomes, and lists exactly the pushed
ids and the ids of the siblings that were built. -/
theorem applyPush_registry (w : SyncWorld P) (i : Nat) (s : SyncState P) (push : List Datasource) :
    (applyPush w i s push).registry =
      registerAll s.registry (registrations (syncOutcomes w i s.credStore push)) := by
  induction push generalizing i s with
  | nil => rfl
  | cons ds rest ih =>
    obtain ⟨hr, hc, -⟩ := syncDatasource_eq w i s ds
    rw [applyPush, ih, hr, hc, ← registerAll_append]
    rfl

theorem mem_applyPush_newIDs (w : SyncWorld P) (i : Nat) (s : SyncState P)
    (push : List Datasource) (id : String) :
    id ∈ (applyPush w i s push).newIDs ↔ id ∈ s.newIDs ∨ id ∈ push.map (·.id) ∨
      id ∈ (registrations (syncOutcomes w i s.credStore push)).map (·.1.id) := by
  induction push generalizing i s with
  | nil => simp [applyPush, syncOutcomes, registrations]
  | cons ds rest ih =>
    obtain ⟨-, hc, hn⟩ := syncDatasource_eq w i s ds
    rw [applyPush, ih, hn, hc]
    simp only [syncOutcomes, registrations, List.flatMap_cons, List.map_append, List.mem_append,
      List.map_cons, List.mem_cons]
    tauto

/-! ## What a run of registrations leaves -/

theorem registerAll_cons (r : Registry P) (g : DatasourceEntry × P)
    (regs : List (DatasourceEntry × P)) :
    registerAll r (g :: regs) = registerAll (r.register g.1.id g.1 g.2) regs := rfl

theorem mem_registerAll (r : Registry P) (regs : List (DatasourceEntry × P)) (id : String) :
    id ∈ (registerAll r regs).proxies ↔ id ∈ r.proxies ∨ id ∈ regs.map (·.1.id) := by
  induction regs generalizing r with
  | nil => simp [registerAll]
  | cons g regs ih =>
    rw [registerAll_cons, ih, Registry.mem_register, List.map_cons, List.mem_cons]
    tauto

theorem registerAll_frame (r : Registry P) (regs : List (DatasourceEntry × P)) (id : String)
    (h : id ∉ regs.map (·.1.id)) :
    (registerAll r regs).proxies.lookup id = r.proxies.lookup id ∧
    (registerAll r regs).configs.lookup id = r.configs.lookup id := by
  induction regs generalizing r with
  | nil => exact ⟨rfl, rfl⟩
  | cons g regs ih =>
    rw [List.map_cons, List.mem_cons, not_or] at h
    obtain ⟨hp, hc⟩ := ih (r.register g.1.id g.1 g.2) h.2
    rw [registerAll_cons]
    exact ⟨hp.trans (Registry.register_lookup_ne h.1), hc.trans (Registry.register_configs_ne h.1)⟩

def lastEntry (es : List DatasourceEntry) (id : String) : Option DatasourceEntry :=
  es.reverse.find? (·.id = id)

theorem registerAll_configs (r : Registry P) (regs : List (DatasourceEntry × P)) (id : String) :
    (registerAll r regs).configs.lookup id =
      (lastEntry (regs.map (·.1)) id).or (r.configs.lookup id) := by
  induction regs generalizing r with
  | nil => simp [registerAll, lastEntry]
  | cons g regs ih =>
    rw [registerAll_cons, ih]
    simp only [lastEntry, List.map_cons, List.reverse_cons, List.find?_append, Option.or_assoc]
    congr 1
    by_cases h : g.1.id = id
    · subst h; simp
    · rw [Registry.register_configs_ne (Ne.symm h)]; simp [h]

/-! ## The removal loop -/

theorem removeIfStale_frame (newIDs : List String) (closeErr : String → Option String)
    (r : Registry P) (id id' : String) (h : id' ≠ id ∨ id' ∈ newIDs ∨ isLocal id') :
    (removeIfStale newIDs closeErr r id).proxies.lookup id' = r.proxies.lookup id' ∧
    (removeIfStale newIDs closeErr r id).configs.lookup id' = r.configs.lookup id' := by
  unfold removeIfStale
  split
  · next hs =>
    have hne : id' ≠ id := by
      rcases h with h | h | h
      · exact h
      · rintro rfl; exact hs.1 h
      · rintro rfl; exact hs.2 h
    exact ⟨Registry.remove_lookup_ne hne, Registry.remove_configs_ne hne⟩
  · exact ⟨rfl, rfl⟩

theorem removeStale_kept (newIDs : List String) (closeErr : String → Option String)
    (order : IterOrder) (r : Registry P) (id : String) (h : id ∈ newIDs ∨ isLocal id) :
    (removeStale newIDs closeErr order r).proxies.lookup id = r.proxies.lookup id ∧
    (removeStale newIDs closeErr order r).configs.lookup id = r.configs.lookup id := by
  unfold removeStale
  generalize r.all order = ids
  induction ids generalizing r with
  | nil => exact ⟨rfl, rfl⟩
  | cons x ids ih =>
    obtain ⟨hp, hc⟩ := ih (removeIfStale newIDs closeErr r x)
    obtain ⟨hp', hc'⟩ := removeIfStale_frame newIDs closeErr r x id (.inr h)
    exact ⟨hp.trans hp', hc.trans hc'⟩

theorem mem_removeIfStale (hclose : ∀ id, closeErr id = none) (r : Registry P) (id id' : String) :
    id' ∈ (removeIfStale newIDs closeErr r id).proxies ↔
      id' ∈ r.proxies ∧ (id' = id → id' ∈ newIDs ∨ isLocal id') := by
  unfold removeIfStale
  rw [hclose]
  split
  · next hs =>
    rw [Registry.mem_remove_none]
    constructor
    · rintro ⟨hne, hm⟩; exact ⟨hm, fun h => absurd h hne⟩
    · rintro ⟨hm, hk⟩
      refine ⟨fun h => ?_, hm⟩
      subst h
      rcases hk rfl with h | h
      · exact hs.1 h
      · exact hs.2 h
  · next hs =>
    refine ⟨fun hm => ⟨hm, fun h => ?_⟩, fun h => h.1⟩
    subst h
    by_contra hk
    rw [not_or] at hk
    exact hs hk

theorem removeStale_mem (hclose : ∀ id, closeErr id = none) (order : IterOrder) (r : Registry P)
    (id : String) :
    id ∈ (removeStale newIDs closeErr order r).proxies ↔
      id ∈ r.proxies ∧ (id ∈ newIDs ∨ isLocal id) := by
  have hfold : ∀ (ids : List String) (r : Registry P),
      id ∈ (ids.foldl (removeIfStale newIDs closeErr) r).proxies ↔
        id ∈ r.proxies ∧ (id ∈ ids → id ∈ newIDs ∨ isLocal id) := by
    intro ids
    induction ids with
    | nil => simp
    | cons x ids ih =>
      intro r
      rw [List.foldl_cons, ih, mem_removeIfStale hclose, List.mem_cons]
      tauto
  have hall : id ∈ r.all order ↔ id ∈ r.proxies := (order.perm r.proxies.keys).mem_iff
  rw [removeStale, hfold, hall]
  tauto

theorem removeStale_noop (order : IterOrder) (r : Registry P)
    (h : ∀ id ∈ r.proxies, id ∈ newIDs ∨ isLocal id) : removeStale newIDs closeErr order r = r := by
  have hall : ∀ id ∈ r.all order, id ∈ newIDs ∨ isLocal id := fun id hid =>
    h id ((order.perm r.proxies.keys).mem_iff.mp hid)
  unfold removeStale
  generalize r.all order = ids at hall
  induction ids with
  | nil => rfl
  | cons x ids ih =>
    have hx : removeIfStale newIDs closeErr r x = r := by
      have hk := hall x List.mem_cons_self
      refine if_neg fun hs => ?_
      rcases hk with hk | hk
      · exact hs.1 hk
      · exact hs.2 hk
    rw [List.foldl_cons, hx]
    exact ih fun id hid => hall id (List.mem_cons_of_mem _ hid)

end ConfigSyncLemmas

/-! ## Exactness -/

/-- `id` was configured successfully in the push with outcomes `os`. -/
def ConfiguredIn (os : List (Datasource × Outcome P)) (id : String) : Prop :=
  ∃ o ∈ os, o.1.id = id ∧ o.2.shape.isSome

/-- `id` is the sibling id of a discovery datasource whose sibling was built. -/
def SiblingIn (os : List (Datasource × Outcome P)) (id : String) : Prop :=
  ∃ o ∈ os, o.1.proxyType = "discovery-proxy" ∧ o.2.shape = some true ∧
    id = o.1.id ++ sshAccessSuffix

instance (os : List (Datasource × Outcome P)) (id : String) : Decidable (ConfiguredIn os id) :=
  inferInstanceAs (Decidable (∃ o ∈ os, _ ∧ _))

instance (os : List (Datasource × Outcome P)) (id : String) : Decidable (SiblingIn os id) :=
  inferInstanceAs (Decidable (∃ o ∈ os, _ ∧ _))

namespace ConfigSyncLemmas

/-- The entries that a datasource with an outcome of this shape registers. -/
def shapeEntries (ds : Datasource) : Option Bool → List DatasourceEntry
  | none => []
  | some false => [ds.entry]
  | some true => [ds.entry, siblingEntry ds.entry]

theorem outcome_shape (w : SyncWorld P) (i : Nat) (ds : Datasource)
    (res : Except String (Configured P)) :
    ((outcome w i ds res).registrations ds).map (·.1) = shapeEntries ds (outcome w i ds res).shape ∧
    ((outcome w i ds res).shape = some true → ds.proxyType = "discovery-proxy") := by
  cases res with
  | error e => exact ⟨rfl, nofun⟩
  | ok c =>
    rcases hb : buildSibling w i ds c with _ | ⟨sibling, sp⟩
    · simp [outcome, hb, Outcome.registrations, Outcome.shape, shapeEntries]
    · obtain ⟨rfl, hd⟩ := buildSibling_entry hb
      simp [outcome, hb, Outcome.registrations, Outcome.shape, shapeEntries, hd]

variable {w : SyncWorld P} {i : Nat} {store : CredStore} {push : List Datasource}

theorem syncOutcomes_fst : (syncOutcomes w i store push).map (·.1) = push := by
  induction push generalizing i store with
  | nil => rfl
  | cons ds rest ih => simp [syncOutcomes, ih]

theorem registrations_entries :
    (registrations (syncOutcomes w i store push)).map (·.1) =
      (syncOutcomes w i store push).flatMap fun o => shapeEntries o.1 o.2.shape := by
  induction push generalizing i store with
  | nil => rfl
  | cons ds rest ih =>
    have hshape := (outcome_shape w i ds (configureDatasource w i store ds).2).1
    simp only [registrations] at ih
    simp only [syncOutcomes, registrations, List.flatMap_cons, List.map_append, hshape, ih]

theorem sibling_discovery {o : Datasource × Outcome P} (ho : o ∈ syncOutcomes w i store push)
    (hs : o.2.shape = some true) : o.1.proxyType = "discovery-proxy" := by
  induction push generalizing i store with
  | nil => cases ho
  | cons ds rest ih =>
    rcases List.mem_cons.mp ho with rfl | ho
    · exact (outcome_shape w i ds (configureDatasource w i store ds).2).2 hs
    · exact ih ho

theorem mem_registrations {id : String} :
    id ∈ (registrations (syncOutcomes w i store push)).map (·.1.id) ↔
      ConfiguredIn (syncOutcomes w i store push) id ∨
        SiblingIn (syncOutcomes w i store push) id := by
  have hmap : (registrations (syncOutcomes w i store push)).map (·.1.id) =
      ((registrations (syncOutcomes w i store push)).map (·.1)).map (·.id) := by
    rw [List.map_map]; rfl
  rw [hmap, registrations_entries, List.mem_map]
  constructor
  · rintro ⟨e, he, rfl⟩
    obtain ⟨o, ho, he⟩ := List.mem_flatMap.mp he
    rcases hs : o.2.shape with _ | _ | _ <;> rw [hs] at he
    · cases he
    · rw [List.mem_singleton.mp he]
      exact .inl ⟨o, ho, rfl, by simp [hs]⟩
    · rcases List.mem_cons.mp he with rfl | he
      · exact .inl ⟨o, ho, rfl, by simp [hs]⟩
      · rw [List.mem_singleton.mp he]
        exact .inr ⟨o, ho, sibling_discovery ho hs, hs, rfl⟩
  · rintro (⟨o, ho, rfl, hs⟩ | ⟨o, ho, -, hs, rfl⟩)
    · refine ⟨o.1.entry, List.mem_flatMap.mpr ⟨o, ho, ?_⟩, rfl⟩
      rcases h : o.2.shape with _ | _ | _ <;> simp [h, shapeEntries] at hs ⊢
    · exact ⟨siblingEntry o.1.entry, List.mem_flatMap.mpr ⟨o, ho, by simp [hs, shapeEntries]⟩, rfl⟩

theorem ConfiguredIn.pushed {id : String} (h : ConfiguredIn (syncOutcomes w i store push) id) :
    id ∈ push.map (·.id) := by
  obtain ⟨o, ho, rfl, -⟩ := h
  have : o.1 ∈ (syncOutcomes w i store push).map (·.1) := List.mem_map_of_mem ho
  rw [syncOutcomes_fst] at this
  exact List.mem_map_of_mem this

theorem entries_congr {w' : SyncWorld P} {store' : CredStore}
    (h : (syncOutcomes w' i store' push).map (·.2.shape) =
      (syncOutcomes w i store push).map (·.2.shape)) :
    (registrations (syncOutcomes w' i store' push)).map (·.1) =
      (registrations (syncOutcomes w i store push)).map (·.1) := by
  have hzip : ∀ os : List (Datasource × Outcome P),
      os.flatMap (fun o => shapeEntries o.1 o.2.shape) =
        ((os.map (·.1)).zip (os.map (·.2.shape))).flatMap fun o => shapeEntries o.1 o.2 := by
    intro os
    induction os with
    | nil => rfl
    | cons o os ih => simp [ih]
  rw [registrations_entries, registrations_entries, hzip, hzip, h, syncOutcomes_fst,
    syncOutcomes_fst]

variable {order : IterOrder} {r : Registry P} {requestID id : String}

theorem mem_newIDs : id ∈ (applyPush w 0 ⟨r, store, []⟩ push).newIDs ↔
    id ∈ push.map (·.id) ∨
      id ∈ (registrations (syncOutcomes w 0 store push)).map (·.1.id) := by
  simp [mem_applyPush_newIDs]

theorem mem_handleConfigSync (hclose : ∀ id, w.closeErr id = none) :
    id ∈ (handleConfigSync w order r store push requestID).1.registry.proxies ↔
      (id ∈ r.proxies ∨ id ∈ (registrations (syncOutcomes w 0 store push)).map (·.1.id)) ∧
      ((id ∈ push.map (·.id) ∨
        id ∈ (registrations (syncOutcomes w 0 store push)).map (·.1.id)) ∨ isLocal id) := by
  simp only [handleConfigSync]
  rw [removeStale_mem hclose, applyPush_registry, mem_registerAll, mem_newIDs]

theorem handleConfigSync_kept
    (h : id ∈ push.map (·.id) ∨
      id ∈ (registrations (syncOutcomes w 0 store push)).map (·.1.id) ∨ isLocal id) :
    let R := registerAll r (registrations (syncOutcomes w 0 store push))
    (handleConfigSync w order r store push requestID).1.registry.proxies.lookup id =
      R.proxies.lookup id ∧
    (handleConfigSync w order r store push requestID).1.registry.configs.lookup id =
      R.configs.lookup id := by
  simp only [handleConfigSync]
  have hk : id ∈ (applyPush w 0 ⟨r, store, []⟩ push).newIDs ∨ isLocal id := by
    rw [mem_newIDs]; tauto
  rw [← applyPush_registry w 0 ⟨r, store, []⟩ push]
  exact removeStale_kept _ _ _ _ _ hk

theorem handleConfigSync_again (hclose : ∀ id, w.closeErr id = none) {w' : SyncWorld P}
    {order' : IterOrder} {store' : CredStore} {requestID' : String}
    (hshape : (syncOutcomes w' 0 store' push).map (·.2.shape) =
      (syncOutcomes w 0 store push).map (·.2.shape)) :
    let s := (handleConfigSync w order r store push requestID).1
    let s' := (handleConfigSync w' order' s.registry store' push requestID').1
    (id ∈ s'.registry.proxies ↔ id ∈ s.registry.proxies) ∧
    s'.registry.configs.lookup id = s.registry.configs.lookup id := by
  intro s s'
  have hentries := entries_congr hshape
  have hids : (registrations (syncOutcomes w' 0 store' push)).map (·.1.id) =
      (registrations (syncOutcomes w 0 store push)).map (·.1.id) := by
    have h := congrArg (List.map DatasourceEntry.id) hentries
    rwa [List.map_map, List.map_map] at h
  have hmem : ∀ id, id ∈ s.registry.proxies ↔ _ := fun id => mem_handleConfigSync hclose
  have hs' : s'.registry =
      registerAll s.registry (registrations (syncOutcomes w' 0 store' push)) := by
    refine (removeStale_noop order' _ fun id hid => ?_).trans (applyPush_registry w' 0 _ push)
    rw [applyPush_registry, mem_registerAll] at hid
    rw [mem_newIDs, hids]
    rcases hid with hid | hid
    · exact ((hmem id).mp hid).2
    · exact .inl (.inr (hids ▸ hid))
  rw [hs']
  constructor
  · rw [mem_registerAll, hids, hmem]
    tauto
  · rw [registerAll_configs, hentries]
    cases hl : lastEntry ((registrations (syncOutcomes w 0 store push)).map (·.1)) id with
    | none => rfl
    | some e =>
      have hid : id ∈ (registrations (syncOutcomes w 0 store push)).map (·.1.id) := by
        have he := List.mem_reverse.mp (List.mem_of_find?_eq_some hl)
        have heid : e.id = id := by simpa using List.find?_some hl
        obtain ⟨g, hg, rfl⟩ := List.mem_map.mp he
        exact List.mem_map.mpr ⟨g, hg, heid⟩
      rw [(handleConfigSync_kept (.inr (.inl hid))).2, registerAll_configs, hl]
      rfl

end ConfigSyncLemmas

open ConfigSyncLemmas in
/-- What a config sync leaves in the registry when `Close` never fails. Of the
ids that are not local, exactly the pushed ones that were configured or already
there, and the siblings that were built. A pushed id that failed every time
keeps its proxy and entry. A second application with the same outcomes changes
no id and no entry. -/
theorem configSync_exact (w : SyncWorld P) (order : IterOrder) (r : Registry P)
    (store : CredStore) (push : List Datasource) (requestID : String)
    (hclose : ∀ id, w.closeErr id = none) :
    let os := syncOutcomes w 0 store push
    let s := (handleConfigSync w order r store push requestID).1
    (∀ id, ¬ isLocal id → (id ∈ s.registry.proxies ↔
      (id ∈ push.map (·.id) ∧ (ConfiguredIn os id ∨ id ∈ r.proxies)) ∨ SiblingIn os id)) ∧
    (∀ id ∈ push.map (·.id), ¬ ConfiguredIn os id → ¬ SiblingIn os id →
      s.registry.proxies.lookup id = r.proxies.lookup id ∧
      s.registry.configs.lookup id = r.configs.lookup id) ∧
    ∀ (w' : SyncWorld P) (order' : IterOrder) (store' : CredStore) (requestID' : String),
      (syncOutcomes w' 0 store' push).map (·.2.shape) = os.map (·.2.shape) →
      let s' := (handleConfigSync w' order' s.registry store' push requestID').1
      ∀ id, (id ∈ s'.registry.proxies ↔ id ∈ s.registry.proxies) ∧
        s'.registry.configs.lookup id = s.registry.configs.lookup id := by
  intro os s
  refine ⟨fun id hid => ?_, fun id hid hc hs => ?_, ?_⟩
  · rw [mem_handleConfigSync hclose, mem_registrations]
    have hpushed : ConfiguredIn os id → id ∈ push.map (·.id) := ConfiguredIn.pushed
    tauto
  · have hno : id ∉ (registrations os).map (·.1.id) := by
      rw [mem_registrations]; tauto
    obtain ⟨hp, hcfg⟩ := registerAll_frame r (registrations os) id hno
    exact ⟨(handleConfigSync_kept (.inl hid)).1.trans hp,
      (handleConfigSync_kept (.inl hid)).2.trans hcfg⟩
  · intro w' order' store' requestID' hshape s' id
    exact handleConfigSync_again hclose hshape

end Sync

/-- A discovery scope that opts into SSH access, and a database whose secret
cannot be fetched. -/
def scanPush : List Datasource :=
  [{ id := "scan", type := "discovery", proxyType := "discovery-proxy", name := "dc1"
     config := some (StrMap.ofEntries [("ssh_access", .string "true"),
       ("known_hosts_file", .string "/etc/forager/known_hosts")])
     credentials := none, credentialSource := "local", credentialRef := ""
     allowedHosts := some ["10.0.0.0/24"] },
   { id := "pg", type := "postgres", proxyType := "db-proxy", name := "orders"
     config := none, credentials := none, credentialSource := "vault"
     credentialRef := "db/orders", allowedHosts := none }]

/-- A world whose secret provider is down; a proxy is named by its kind. -/
def vaultDown : SyncWorld ProxyKind where
  signingEnabled := true
  storeErr _ := none
  resolve _ _ _ := .error "connection refused"
  configure _ kind _ _ := .ok kind
  closeErr _ := none

/-- The keys of a map in the order they are kept. -/
def IterOrder.asKept : IterOrder := ⟨id, fun _ => .refl _⟩

def beforeScan : Registry ProxyKind :=
  (Registry.new.register "pg" ⟨"pg", "postgres", "db-proxy", "orders", "vault", "db/orders"⟩
    (.db "postgres")).register "old" ⟨"old", "mcp", "mcp-proxy", "tools", "local", ""⟩ .mcp

theorem configSync_exact_scan :
    let s := (handleConfigSync vaultDown .asKept beforeScan ∅ scanPush "r1").1
    "scan:ssh" ∈ s.registry.proxies ∧ "old" ∉ s.registry.proxies ∧
    s.registry.proxies.lookup "pg" = some (.db "postgres") := by
  obtain ⟨hids, hkeep, -⟩ :=
    configSync_exact vaultDown .asKept beforeScan ∅ scanPush "r1" fun _ => rfl
  refine ⟨(hids "scan:ssh" (by decide)).mpr (.inr (by decide)), fun h => ?_, ?_⟩
  · exact absurd ((hids "old" (by decide)).mp h) (by decide)
  · rw [(hkeep "pg" (by decide) (by decide) (by decide)).1]
    decide

end Forager
