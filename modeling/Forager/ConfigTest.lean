import Forager.ConfigSync

/-!
# Testing a datasource before it is saved

`handleTestDatasourceConfig` of `pkg/ws/handler.go`, which configures a
temporary proxy for a datasource description, beside `handleConfigSync`, which
registers one. Both read credentials from `secrets.Manager`, whose `Resolve`
(`pkg/secrets/manager.go`) is modelled with its cache.
-/

namespace Forager

open Go

/-! ## The secret manager -/

structure CachedSecret where
  values : Creds
  expires : Int

/-- `Name()` of the providers that the agent passes to `NewManager`. -/
def providerNames : List String := ["aws_sm", "gcp_sm", "azure_kv"]

def secretKey (source ref : String) : String := source ++ ":" ++ ref

/-- `secrets.Manager`. A provider is its `GetSecret`. Only the providers that are
available are registered, and a cached secret came from one of them. -/
structure Manager where
  providers : GoMap (String → Except String Creds)
  cache : GoMap CachedSecret
  named : ∀ name ∈ providers, name ∈ providerNames
  fetched : ∀ key ∈ cache, ∃ name ∈ providers, ∃ ref, key = secretKey name ref

/-- What a call of `Resolve` gets from elsewhere: the clock when the cache is
read, the expiry of a new entry, the order of `availableProviders`, and `%q`. -/
structure ResolveEnv where
  now : Int
  expires : Int
  order : IterOrder
  formatQuoted : String → String

namespace Manager

def forget (m : Manager) (key : String) : Manager :=
  { m with
    cache := m.cache.erase key
    fetched := fun k hk => m.fetched k (AList.mem_erase.mp hk).2 }

/-- `m.cache.Store(source + ":" + ref, entry)` for a registered provider. -/
def remember (m : Manager) (source ref : String) (entry : CachedSecret)
    (h : source ∈ m.providers) : Manager :=
  { m with
    cache := m.cache.insert (secretKey source ref) entry
    fetched := fun k hk => by
      rcases AList.mem_insert _ |>.mp hk with rfl | hk
      · exact ⟨source, h, ref, rfl⟩
      · exact m.fetched k hk }

def fetch (m : Manager) (env : ResolveEnv) (source ref : String) :
    Manager × Except String Creds :=
  match h : m.providers.lookup source with
  | none =>
    (m, .error ("unknown credential source: " ++ env.formatQuoted source ++ " (available: [" ++
      " ".intercalate (env.order.visit m.providers.keys) ++ "])"))
  | some getSecret =>
    match getSecret ref with
    | .error err => (m, .error ("fetching secret from " ++ source ++ ": " ++ err))
    | .ok values =>
      (m.remember source ref ⟨values, env.expires⟩ (AList.lookup_isSome.mp (by rw [h]; rfl)),
        .ok values)

def resolve (m : Manager) (env : ResolveEnv) (source ref : String) :
    Manager × Except String Creds :=
  if source = "cloud_push" ∨ source = "local" then
    (m, .error ("source " ++ env.formatQuoted source ++
      " should be resolved by caller, not secret manager"))
  else
    match m.cache.lookup (secretKey source ref) with
    | none => m.fetch env source ref
    | some entry =>
      if env.now < entry.expires then (m, .ok entry.values)
      else (m.forget (secretKey source ref)).fetch env source ref

end Manager

/-! ## The test -/

section Test

variable {P : Type}

/-- The temporary proxy of a description, configured with `creds`. -/
def tryConfigure (configure : ProxyKind → StrMap Any → Creds → Except String P)
    (ds : Datasource) (creds : Creds) : Except String P := do
  let config := normalizeConfigValues (ds.config.getD [])
  let (kind, config) ← newProxyByType ds.proxyType ds.type config (ds.allowedHosts.getD [])
  configure kind config creds

/-- The response of `handleTestDatasourceConfig`, with an error text if there is
one. -/
def testResult (requestID : String) (err : Option String) : StrMap Any :=
  let resp : StrMap Any := StrMap.ofEntries
    [("action", .string "test_datasource_config_result"), ("request_id", .string requestID),
      ("success", .bool err.isNone)]
  match err with
  | some text => resp.insert "error" (.string text)
  | none => resp

/-- The credentials that `handleTestDatasourceConfig` tests with. -/
def testCreds (resolve : String → String → Except String Creds) (ds : Datasource) :
    Except String Creds :=
  if ds.credentialSource ≠ "local" ∧ ds.credentialSource ≠ "cloud_push" ∧
      ds.credentialSource ≠ "" then
    resolve ds.credentialSource ds.credentialRef
  else .ok (ds.credentials.getD [])

/-- `handleTestDatasourceConfig` on a decoded description. A test message has
no id and no name; the handler reads neither. -/
def handleTestDatasourceConfig (resolve : String → String → Except String Creds)
    (configure : ProxyKind → StrMap Any → Creds → Except String P) (ds : Datasource)
    (requestID : String) : StrMap Any :=
  match testCreds resolve ds with
  | .error err => testResult requestID (some ("failed to resolve credentials: " ++ err))
  | .ok creds =>
    match tryConfigure configure ds creds with
    | .error err => testResult requestID (some err)
    | .ok _ => testResult requestID none

def ReportsSuccess (resp : StrMap Any) : Prop := resp.get "success" = some (.bool true)

/-- A sync of `ds` alone calls `Register` for it, and it is registered when the
sync is done. -/
def Registers (w : SyncWorld P) (order : IterOrder) (r : Registry P) (store : CredStore)
    (ds : Datasource) (requestID : String) : Prop :=
  ∃ p, (ds.entry, p) ∈ registrations (syncOutcomes w 0 store [ds]) ∧
    (handleConfigSync w order r store [ds] requestID).1.registry.proxies.lookup ds.id = some p ∧
    (handleConfigSync w order r store [ds] requestID).1.registry.configs.lookup ds.id =
      some ds.entry

namespace ConfigTestLemmas

variable {ds : Datasource} {store : CredStore} {w : SyncWorld P}

open ConfigSyncLemmas

/-! ## The empty source -/

theorem secretKey_unnamed_notMem (m : Manager) (ref : String) : secretKey "" ref ∉ m.cache := by
  intro h
  obtain ⟨name, hname, ref', hkey⟩ := m.fetched _ h
  have hhead := congrArg (fun s : String => s.toList.head?) hkey
  have hnames := m.named name hname
  simp only [providerNames, List.mem_cons, List.not_mem_nil, or_false] at hnames
  -- A provider's name starts with a letter, the key of the empty source with a colon.
  rcases hnames with rfl | rfl | rfl <;> simp [secretKey] at hhead

/-- `Resolve` fails for the empty source. Nothing is registered under that name, and no cached
key belongs to it. -/
theorem resolve_unnamed (m : Manager) (env : ResolveEnv) (ref : String) :
    ∃ err, (m.resolve env "" ref).2 = .error err := by
  have hcache : m.cache.lookup (secretKey "" ref) = none :=
    AList.lookup_eq_none.mpr (secretKey_unnamed_notMem m ref)
  have hprovider : m.providers.lookup "" = none :=
    AList.lookup_eq_none.mpr fun h => absurd (m.named _ h) (by decide)
  rw [Manager.resolve, if_neg (by decide), hcache]
  show ∃ err, (m.fetch env "" ref).2 = .error err
  unfold Manager.fetch
  split
  · exact ⟨_, rfl⟩
  · next h => rw [hprovider] at h; cases h

/-! ## The response -/

theorem testResult_success (requestID : String) (err : Option String) :
    ReportsSuccess (testResult requestID err) ↔ err = none := by
  cases err with
  | none => exact ⟨fun _ => rfl, fun _ => by simp [ReportsSuccess, testResult, StrMap.ofEntries,
      StrMap.get_insert]⟩
  | some text => simp [ReportsSuccess, testResult, StrMap.ofEntries, StrMap.get_insert]

theorem test_succeeds_iff (resolve : String → String → Except String Creds)
    (configure : ProxyKind → StrMap Any → Creds → Except String P) (ds : Datasource)
    (requestID : String) :
    ReportsSuccess (handleTestDatasourceConfig resolve configure ds requestID) ↔
      ∃ creds p, testCreds resolve ds = .ok creds ∧ tryConfigure configure ds creds = .ok p := by
  unfold handleTestDatasourceConfig
  cases hcreds : testCreds resolve ds with
  | error err => simp [testResult_success]
  | ok creds =>
    cases hp : tryConfigure configure ds creds with
    | error err => simp [testResult_success, hp]
    | ok p => simp [testResult_success, hp]

/-! ## The sync of one datasource -/

theorem configureDatasource_ok_iff (w : SyncWorld P) (i : Nat) (store : CredStore)
    (ds : Datasource) :
    (∃ c, (configureDatasource w i store ds).2 = .ok c) ↔
      ∃ creds p, (resolveCreds w i store ds).2 = .ok creds ∧
        tryConfigure (w.configure i) ds creds = .ok p := by
  unfold configureDatasource tryConfigure
  rcases resolveCreds w i store ds with ⟨store', res⟩
  constructor
  · rintro ⟨c, hc⟩
    obtain ⟨creds, hres, hc⟩ := Go.bind_eq_ok.mp hc
    obtain ⟨⟨kind, config⟩, hkind, hc⟩ := Go.bind_eq_ok.mp hc
    obtain ⟨p, hp, -⟩ := Go.bind_eq_ok.mp hc
    exact ⟨creds, p, hres, Go.bind_eq_ok.mpr ⟨(kind, config), hkind, hp⟩⟩
  · rintro ⟨creds, p, rfl, hp⟩
    obtain ⟨⟨kind, config⟩, hkind, hp⟩ := Go.bind_eq_ok.mp hp
    exact ⟨⟨p, config, creds⟩, Go.bind_eq_ok.mpr ⟨creds, rfl, Go.bind_eq_ok.mpr
      ⟨(kind, config), hkind, Go.bind_eq_ok.mpr ⟨p, hp, rfl⟩⟩⟩⟩

theorem siblingEntry_id_ne (ds : Datasource) : ds.id ≠ (siblingEntry ds.entry).id := by
  intro h
  have hlength := congrArg String.length h
  simp [siblingEntry, sshAccessSuffix, Datasource.entry] at hlength

theorem registrations_ok {i : Nat} {c : Configured P}
    (h : (configureDatasource w i store ds).2 = .ok c) :
    ∃ rest, registrations (syncOutcomes w i store [ds]) = (ds.entry, c.proxy) :: rest ∧
      ds.id ∉ rest.map (·.1.id) := by
  simp only [syncOutcomes, registrations, List.flatMap_cons, List.flatMap_nil, h, outcome,
    List.append_nil]
  cases hb : buildSibling w i ds c with
  | none => exact ⟨[], rfl, List.not_mem_nil⟩
  | some g =>
    obtain ⟨hentry, -⟩ := buildSibling_entry hb
    refine ⟨[g], rfl, ?_⟩
    rw [List.map_singleton, List.mem_singleton, hentry]
    exact siblingEntry_id_ne ds

theorem registrations_error {i : Nat} {err : String}
    (h : (configureDatasource w i store ds).2 = .error err) :
    registrations (syncOutcomes w i store [ds]) = [] := by
  simp [syncOutcomes, registrations, h, outcome, Outcome.registrations]

theorem handleConfigSync_lookup (order : IterOrder) (r : Registry P) (requestID : String) {p : P}
    {rest : List (DatasourceEntry × P)}
    (h : registrations (syncOutcomes w 0 store [ds]) = (ds.entry, p) :: rest)
    (hrest : ds.id ∉ rest.map (·.1.id)) :
    let s := (handleConfigSync w order r store [ds] requestID).1
    s.registry.proxies.lookup ds.id = some p ∧ s.registry.configs.lookup ds.id = some ds.entry := by
  have hreg : (applyPush w 0 ⟨r, store, []⟩ [ds]).registry =
      registerAll (r.register ds.id ds.entry p) rest := by
    rw [applyPush_registry, h]
    rfl
  have hnew : ds.id ∈ (applyPush w 0 ⟨r, store, []⟩ [ds]).newIDs :=
    (mem_applyPush_newIDs w 0 ⟨r, store, []⟩ [ds] ds.id).mpr (.inr (.inl (by simp)))
  obtain ⟨hproxies, hconfigs⟩ := removeStale_kept _ w.closeErr order
    (applyPush w 0 ⟨r, store, []⟩ [ds]).registry ds.id (.inl hnew)
  obtain ⟨hp, hc⟩ := registerAll_frame (r.register ds.id ds.entry p) rest ds.id hrest
  rw [← hreg] at hp hc
  exact ⟨hproxies.trans (hp.trans Registry.register_lookup),
    hconfigs.trans (hc.trans Registry.register_configs)⟩

/-- A sync of one datasource registers it exactly when its credentials resolve and `Configure`
accepts them. -/
theorem registers_iff (w : SyncWorld P) (order : IterOrder) (r : Registry P) (store : CredStore)
    (ds : Datasource) (requestID : String) :
    Registers w order r store ds requestID ↔
      ∃ creds p, (resolveCreds w 0 store ds).2 = .ok creds ∧
        tryConfigure (w.configure 0) ds creds = .ok p := by
  rw [← configureDatasource_ok_iff]
  constructor
  · rintro ⟨p, hp, -⟩
    cases hc : (configureDatasource w 0 store ds).2 with
    | error err =>
      rw [registrations_error hc] at hp
      cases hp
    | ok c => exact ⟨c, rfl⟩
  · rintro ⟨c, hc⟩
    obtain ⟨rest, hreg, hrest⟩ := registrations_ok hc
    refine ⟨c.proxy, ?_, handleConfigSync_lookup order r requestID hreg hrest⟩
    rw [hreg]
    exact List.mem_cons_self

/-! ## The two credential paths -/

theorem resolveCreds_named (hsave : w.storeErr 0 = none)
    (hcreds : ds.credentials.getD [] ≠ [] ∨ store.lookup ds.id = none)
    (hsource : ds.credentialSource ≠ "") :
    (resolveCreds w 0 store ds).2 = testCreds (w.resolve 0) ds := by
  unfold resolveCreds testCreds
  by_cases hpush : ds.credentialSource = "cloud_push"
  · by_cases hinline : (ds.credentials.getD []).length > 0
    · simp [hpush, hinline, hsave]
    · have hnone : store.lookup ds.id = none :=
        hcreds.resolve_left fun h => hinline (List.length_pos_iff.mpr h)
      simp [hpush, hinline, hnone]
  · by_cases hlocal : ds.credentialSource = "local"
    · simp [hlocal]
    · simp [hpush, hlocal, hsource]

theorem resolveCreds_unnamed (w : SyncWorld P) (store : CredStore)
    (hsource : ds.credentialSource = "") :
    (resolveCreds w 0 store ds).2 = w.resolve 0 "" ds.credentialRef := by
  simp [resolveCreds, hsource]

theorem testCreds_unnamed (resolve : String → String → Except String Creds)
    (hsource : ds.credentialSource = "") : testCreds resolve ds = .ok (ds.credentials.getD []) := by
  simp [testCreds, hsource]

end ConfigTestLemmas

open ConfigTestLemmas in
/-- With the same answers of the secret manager and of `Configure`, and nothing
stored for a description without inline credentials, the test succeeds exactly
when a sync registers the description, except where it has no credential source
and would be configured with its inline credentials. -/
theorem test_predicts_sync_iff (w : SyncWorld P) (m : Manager) (env : ResolveEnv)
    (order : IterOrder) (r : Registry P) (store : CredStore) (ds : Datasource)
    (testID syncID : String)
    (hresolve : ∀ source ref, w.resolve 0 source ref = (m.resolve env source ref).2)
    (hsave : w.storeErr 0 = none)
    (hcreds : ds.credentials.getD [] ≠ [] ∨ store.lookup ds.id = none) :
    (ReportsSuccess (handleTestDatasourceConfig (w.resolve 0) (w.configure 0) ds testID) ↔
      Registers w order r store ds syncID) ↔
    (ds.credentialSource ≠ "" ∨
      ∃ err, tryConfigure (w.configure 0) ds (ds.credentials.getD []) = .error err) := by
  rw [test_succeeds_iff, registers_iff]
  by_cases hsource : ds.credentialSource = ""
  · -- The sync asks the secret manager, which knows no source of that name.
    obtain ⟨err, herr⟩ := resolve_unnamed m env ds.credentialRef
    rw [resolveCreds_unnamed w store hsource, testCreds_unnamed _ hsource, hresolve, herr]
    cases htry : tryConfigure (w.configure 0) ds (ds.credentials.getD []) with
    | error e => simp [htry]
    | ok p => simp [htry, hsource]
  · rw [resolveCreds_named hsave hcreds hsource]
    exact ⟨fun _ => .inl hsource, fun _ => Iff.rfl⟩

def Manager.empty : Manager where
  providers := ∅
  cache := ∅
  named := fun _ h => absurd h (AList.notMem_empty _)
  fetched := fun _ h => absurd h (AList.notMem_empty _)

def plainEnv : ResolveEnv := ⟨0, 300, .asKept, id⟩

def noProviders : SyncWorld Unit where
  signingEnabled := false
  storeErr := fun _ => none
  resolve := fun _ source ref => (Manager.empty.resolve plainEnv source ref).2
  configure := fun _ _ _ _ => .ok ()
  closeErr := fun _ => none

def inlineRedis (credentialSource : String) : Datasource where
  id := "cache"
  type := "redis"
  proxyType := "redis-proxy"
  name := "cache"
  config := some [("host", .string "10.0.0.5")]
  credentials := some [("password", "s3cret")]
  credentialSource := credentialSource
  credentialRef := ""
  allowedHosts := none

theorem test_predicts_sync_pushed :
    ReportsSuccess (handleTestDatasourceConfig (noProviders.resolve 0) (noProviders.configure 0)
      (inlineRedis "cloud_push") "t1") ↔
    Registers noProviders plainEnv.order Registry.new ∅ (inlineRedis "cloud_push") "s1" :=
  (test_predicts_sync_iff noProviders Manager.empty plainEnv plainEnv.order Registry.new ∅
    (inlineRedis "cloud_push") "t1" "s1" (fun _ _ => rfl) rfl (.inl (by decide))).mpr
    (.inl (by decide))

open ConfigTestLemmas in
/-- Not in general: without `credential_source` the test uses the inline
credentials and succeeds, and the sync drops the datasource. -/
theorem test_without_sync :
    ReportsSuccess (handleTestDatasourceConfig (noProviders.resolve 0) (noProviders.configure 0)
      (inlineRedis "") "t1") ∧
    ¬ Registers noProviders plainEnv.order Registry.new ∅ (inlineRedis "") "s1" := by
  refine ⟨(test_succeeds_iff _ _ _ _).mpr ⟨_, (), rfl, rfl⟩, fun h => ?_⟩
  obtain ⟨creds, p, hcreds, -⟩ := (registers_iff _ _ _ _ _ _).mp h
  obtain ⟨err, herr⟩ := resolve_unnamed Manager.empty plainEnv ""
  have hsync : (resolveCreds noProviders 0 ∅ (inlineRedis "")).2 = _ :=
    resolveCreds_unnamed noProviders ∅ rfl
  rw [hsync] at hcreds
  exact absurd (hcreds.symm.trans herr) nofun

end Test

end Forager
