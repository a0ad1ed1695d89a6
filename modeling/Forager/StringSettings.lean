import Forager.JsonMarshal
import Forager.ProxyConfigs

/-!
# Normalisation and string settings

`handleConfigSync` passes the pushed map through `normalizeConfigValues` before a proxy
decodes it. Strings that look like booleans or integers become booleans and integers,
also where the proxy has a setting of type string: a struct field then refuses the
value, and a type assertion drops it.
-/

namespace Forager

open Go GoJson JsonText
open GoText (utf8)

/-- A string that `normalizeConfigValues` replaces. -/
def coercible (s : String) : Bool := s = "true" ∨ s = "false" ∨ (atoi s).isSome

/-- The key is spelled like one of the tags, with letter case ignored. -/
def spelledLike (tags : List String) (key : String) : Bool := foldName key ∈ tags.map foldName

/-- The key that an MCP proxy with this transport cannot do without. -/
def mcpRequired (transport : String) : String := if transport = "stdio" then "command" else "url"

/-- The settings that an MCP proxy with this transport reads besides. -/
def mcpOptional (transport : String) : List String :=
  if transport = "stdio" then ["auth_type", "args", "working_dir"] else ["auth_type"]

/-- The entry under `key` decides whether the setting `name` keeps its string: the
entry of the setting itself, one that `Configure` cannot do without, and with a struct
the entry of every string field. -/
def decides (proxyType : String) (config : StrMap Any) (name key : String) : Bool :=
  match proxyType with
  | "http-proxy" => key = "base_url" ∨ key = "auth_type" ∧ key = name
  | "db-proxy" =>
    spelledLike ["host", "database", "ssl_mode"] key ∨ key = "service_name" ∧ key = name
  | "mcp-proxy" =>
    key = mcpRequired (mcpTransport config) ∨ key ∈ mcpOptional (mcpTransport config) ∧ key = name
  | "ssh-proxy" => spelledLike ["host", "known_hosts", "host_key"] key
  | "mongo-proxy" => spelledLike ["host", "database", "replica_set", "auth_source"] key
  | "redis-proxy" => spelledLike ["host"] key
  | "kafka-proxy" => spelledLike ["brokers", "sasl_mechanism"] key
  | "discovery-proxy" => spelledLike ["pack_public_key", "pack_dir", "known_hosts_file"] key
  | _ => false

/-- No entry that decides about the setting is a string that is replaced. -/
def SettingPlain (proxyType : String) (config : StrMap Any) (name : String) : Prop :=
  ∀ key s, config.get key = some (.string s) → decides proxyType config name key →
    coercible s = false

/-- The setting is decoded to the same string after `normalizeConfigValues`. -/
def SettingKept (proxyType dsType : String) (allowedHosts : List String) (config : StrMap Any)
    (setting : String × String) : Prop :=
  ∃ cfg, pushedConfig proxyType dsType allowedHosts (normalizeConfigValues config) = .ok cfg ∧
    setting ∈ cfg.strings

namespace StringSettingsLemmas

variable {config : StrMap Any} {key : String}

/-! ## One value -/

theorem coercible_eq_false {s : String} (h : coercible s = false) :
    s ≠ "true" ∧ s ≠ "false" ∧ atoi s = none := by
  simpa [coercible] using h

theorem not_coercible_empty : coercible "" = false := by decide

theorem normalizeConfigValue_kept {v : Any} (h : ∀ s, v = .string s → coercible s = false) :
    normalizeConfigValue v = v := by
  cases v with
  | string s =>
    obtain ⟨htrue, hfalse, hatoi⟩ := coercible_eq_false (h s rfl)
    unfold normalizeConfigValue
    split <;> simp_all
  | _ => rfl

theorem normalizeConfigValue_coerced {s : String} (h : coercible s = true) :
    (∃ b, normalizeConfigValue (.string s) = .bool b) ∨
      ∃ n, normalizeConfigValue (.string s) = .int n := by
  by_cases htrue : s = "true"
  · exact .inl ⟨true, by rw [htrue]; rfl⟩
  by_cases hfalse : s = "false"
  · exact .inl ⟨false, by rw [hfalse]; rfl⟩
  obtain ⟨n, hn⟩ : ∃ n, atoi s = some n := by
    simpa [coercible, htrue, hfalse, Option.isSome_iff_exists] using h
  refine .inr ⟨n, ?_⟩
  unfold normalizeConfigValue
  split <;> simp_all

/-! ## Single entries -/

theorem get_normalizeConfigValues (config : StrMap Any) (key : String) :
    (normalizeConfigValues config).get key = (config.get key).map normalizeConfigValue := by
  induction config with
  | nil => rfl
  | cons e config ih =>
    obtain ⟨k, v⟩ := e
    rw [StrMap.get_cons]
    have hcons : normalizeConfigValues ((k, v) :: config) =
        (k, normalizeConfigValue v) :: normalizeConfigValues config := rfl
    rw [hcons, StrMap.get_cons, ih]
    split <;> rfl

/-- The entry under `key` is not replaced. -/
def EntryPlain (config : StrMap Any) (key : String) : Prop :=
  ∀ s, config.get key = some (.string s) → coercible s = false

theorem get_kept (h : EntryPlain config key) :
    (normalizeConfigValues config).get key = config.get key := by
  rw [get_normalizeConfigValues]
  cases hget : config.get key with
  | none => rfl
  | some v => rw [Option.map_some, normalizeConfigValue_kept fun s hs => h s (by rw [hget, hs])]

theorem asString_coerced (h : ¬ EntryPlain config key) :
    Any.asString (config.get key) ≠ "" ∧
      Any.asString ((normalizeConfigValues config).get key) = "" := by
  obtain ⟨s, hget, hs⟩ : ∃ s, config.get key = some (.string s) ∧ coercible s = true := by
    simpa [EntryPlain] using h
  rw [get_normalizeConfigValues, hget]
  refine ⟨?_, ?_⟩
  · rintro (rfl : s = "")
    cases not_coercible_empty.symm.trans hs
  · obtain ⟨b, hb⟩ | ⟨n, hn⟩ := normalizeConfigValue_coerced hs
    · rw [Option.map_some, hb]; rfl
    · rw [Option.map_some, hn]; rfl

theorem asString_kept_iff :
    Any.asString ((normalizeConfigValues config).get key) = Any.asString (config.get key) ↔
      EntryPlain config key := by
  constructor
  · intro heq
    by_contra h
    obtain ⟨hne, hempty⟩ := asString_coerced h
    exact hne (heq.symm.trans hempty)
  · exact fun h => by rw [get_kept h]

/-! ## Structs -/

variable {σ : Type}

/-- The fields with these tags take strings, and the others do not. -/
structure StringFields (fields : List (StructField σ)) (tags : List String) : Prop where
  distinct : (fields.map (foldName ·.tag)).Nodup
  mem : ∀ t ∈ tags, t ∈ fields.map (·.tag)
  bools : ∀ f ∈ fields, f.tag ∈ tags → ∀ s b, (f.decode s (.bool b)).2 = false
  nums : ∀ f ∈ fields, f.tag ∈ tags → ∀ s n, (f.decode s (.num n)).2 = false
  others : ∀ f ∈ fields, f.tag ∉ tags → ∀ s l, (f.decode s (.str l)).2 = false

theorem decoded_of_ok {fields : List (StructField σ)} {ms : List (StrLit × Json)}
    {acc : σ × Bool} (h : (ms.foldl (structStep fields) acc).2 = true) :
    acc.2 = true ∧ ∀ e ∈ ms, ∀ f, findField fields (text e.1) = some f →
      ∃ s, (f.decode s e.2).2 = true := by
  induction ms generalizing acc with
  | nil => exact ⟨h, by simp⟩
  | cons e ms ih =>
    obtain ⟨hstep, hrest⟩ := ih h
    unfold structStep at hstep
    cases hfind : findField fields (text e.1) with
    | none =>
      rw [hfind] at hstep
      refine ⟨hstep, List.forall_mem_cons.mpr ⟨fun f hf => ?_, hrest⟩⟩
      cases hfind.symm.trans hf
    | some g =>
      rw [hfind] at hstep
      obtain ⟨hacc, hok⟩ := (Bool.and_eq_true_iff).mp hstep
      refine ⟨hacc, List.forall_mem_cons.mpr ⟨fun f hf => ?_, hrest⟩⟩
      obtain rfl : g = f := Option.some.inj (hfind.symm.trans hf)
      exact ⟨acc.1, hok⟩

theorem foldl_structStep_congr {α : Type} {fields : List (StructField σ)} {l : List α}
    {g g' : α → StrLit × Json}
    (h : ∀ a ∈ l, ∀ acc, structStep fields acc (g a) = structStep fields acc (g' a))
    (acc : σ × Bool) :
    (l.map g).foldl (structStep fields) acc = (l.map g').foldl (structStep fields) acc := by
  induction l generalizing acc with
  | nil => rfl
  | cons a l ih =>
    obtain ⟨ha, hl⟩ := List.forall_mem_cons.mp h
    rw [List.map_cons, List.map_cons, List.foldl_cons, List.foldl_cons, ha, ih hl]

theorem depth_normalizeConfigValue (v : Any) :
    depth (ofAny (normalizeConfigValue v)) = depth (ofAny v) := by
  cases v with
  | string s =>
    cases h : coercible s with
    | false =>
      rw [normalizeConfigValue_kept]
      intro s' hs
      rwa [← Any.string.inj hs]
    | true =>
      obtain ⟨b, hb⟩ | ⟨n, hn⟩ := normalizeConfigValue_coerced h
      · rw [hb]; rfl
      · rw [hn]; rfl
  | _ => rfl

theorem depth_normalizeConfigValues (config : StrMap Any) :
    depth (ofAny (.map (normalizeConfigValues config))) = depth (ofAny (.map config)) := by
  suffices h : depthMembers (ofMembers (normalizeConfigValues config)) =
      depthMembers (ofMembers config) from congrArg (· + 1) h
  induction config with
  | nil => rfl
  | cons e config ih =>
    exact congrArg₂ max (depth_normalizeConfigValue e.2) ih

theorem remarshal_eq_foldl (zero : σ) (fields : List (StructField σ)) (config : StrMap Any) :
    remarshal zero fields config =
      if depth (ofAny (.map config)) ≤ maxNestingDepth then
        (config.map fun e => (quote e.1, ofAny e.2)).foldl (structStep fields) (zero, true)
      else (zero, false) := by
  rw [remarshal, unmarshal_print, ← ofMembers_eq]
  rfl

/-- No key spelled like one of the tags has a string that is replaced. -/
def FieldsPlain (tags : List String) (config : StrMap Any) : Prop :=
  ∀ e ∈ config, spelledLike tags e.1 → ∀ s, e.2 = .string s → coercible s = false

section Struct

variable {what : String}

variable {fields : List (StructField σ)} {tags : List String} {zero : σ} {config : StrMap Any}

theorem findField_spelledLike (hf : StringFields fields tags) {key : String} {f : StructField σ}
    (hfind : findField fields key = some f) : spelledLike tags key = true ↔ f.tag ∈ tags := by
  obtain ⟨hmem, htag⟩ := findField_some hfind
  unfold spelledLike
  rw [decide_eq_true_iff, ← htag]
  constructor
  · intro h
    obtain ⟨t, ht, heq⟩ := List.mem_map.mp h
    obtain ⟨g, hg, rfl⟩ := List.mem_map.mp (hf.mem t ht)
    rwa [← List.inj_on_of_nodup_map hf.distinct hg hmem heq]
  · exact List.mem_map_of_mem

/-- A map that decodes into a struct still does, to the same struct, unless a key spelled like a
string field has such a string. -/
theorem remarshal_kept (hf : StringFields fields tags)
    (hok : (remarshal zero fields config).2 = true) (hplain : FieldsPlain tags config) :
    remarshal zero fields (normalizeConfigValues config) = remarshal zero fields config := by
  rw [remarshal_eq_foldl] at hok ⊢
  rw [remarshal_eq_foldl, depth_normalizeConfigValues]
  split at hok
  · next hdepth =>
    rw [if_pos hdepth, if_pos hdepth]
    obtain ⟨-, hdecoded⟩ := decoded_of_ok hok
    unfold normalizeConfigValues StrMap.mapVals
    rw [List.map_map]
    refine foldl_structStep_congr (fun e he acc => ?_) (zero, true)
    -- a member without a field does not count, and the others are not replaced
    cases hfind : findField fields e.1 with
    | none => simp [structStep, hfind]
    | some f =>
      have hkept : normalizeConfigValue e.2 = e.2 := by
        refine normalizeConfigValue_kept fun s hs => ?_
        refine hplain e he ((findField_spelledLike hf hfind).mpr ?_) s hs
        by_contra hnot
        obtain ⟨st, hst⟩ := hdecoded _ (List.mem_map_of_mem he) f (by simpa using hfind)
        rw [hs] at hst
        cases (hf.others f (findField_some hfind).1 hnot st _).symm.trans hst
      simp [hkept]
  · cases hok

theorem remarshal_refused (hf : StringFields fields tags) (hplain : ¬ FieldsPlain tags config) :
    (remarshal zero fields (normalizeConfigValues config)).2 = false := by
  obtain ⟨e, he, hspelled, s, hs, hcoercible⟩ : ∃ e ∈ config, spelledLike tags e.1 = true ∧
      ∃ s, e.2 = .string s ∧ coercible s = true := by
    simpa [FieldsPlain] using hplain
  rw [Bool.eq_false_iff]
  intro hok
  rw [remarshal_eq_foldl] at hok
  split at hok
  · obtain ⟨-, hdecoded⟩ := decoded_of_ok hok
    obtain ⟨t, ht, htag⟩ := List.mem_map.mp (of_decide_eq_true hspelled)
    obtain ⟨f, hmem, rfl⟩ := List.mem_map.mp (hf.mem t ht)
    have hfind := (findField_eq_iff hf.distinct hmem e.1).mpr htag.symm
    have hentry : (quote e.1, ofAny (normalizeConfigValue e.2)) ∈
        (normalizeConfigValues config).map fun e => (quote e.1, ofAny e.2) :=
      List.mem_map.mpr ⟨(e.1, normalizeConfigValue e.2), List.mem_map_of_mem he, rfl⟩
    obtain ⟨st, hst⟩ := hdecoded _ hentry f (by simpa using hfind)
    rw [hs] at hst
    obtain ⟨b, hb⟩ | ⟨n, hn⟩ := normalizeConfigValue_coerced hcoercible
    · rw [hb] at hst
      cases (hf.bools f hmem ht st b).symm.trans hst
    · rw [hn] at hst
      cases (hf.nums f hmem ht st _).symm.trans hst
  · cases hok

theorem decodeStruct_ok {c : σ} (h : decodeStruct what zero fields config = .ok c) :
    (remarshal zero fields config).2 = true ∧ (remarshal zero fields config).1 = c := by
  unfold decodeStruct at h
  dsimp only at h
  split at h
  · next hok => exact ⟨hok, Except.ok.inj h⟩
  · cases h

theorem decodeStruct_kept (hf : StringFields fields tags) {c : σ}
    (h : decodeStruct what zero fields config = .ok c) (hplain : FieldsPlain tags config) :
    decodeStruct what zero fields (normalizeConfigValues config) = .ok c := by
  rw [← h, decodeStruct, remarshal_kept hf (decodeStruct_ok h).1 hplain]
  rfl

theorem decodeStruct_refused (hf : StringFields fields tags) (what : String)
    (hplain : ¬ FieldsPlain tags config) :
    decodeStruct what zero fields (normalizeConfigValues config) = .error (.parsing what) := by
  unfold decodeStruct
  dsimp only
  rw [remarshal_refused hf hplain]
  rfl

theorem struct_setting_iff (hf : StringFields fields tags) {g : σ → Except DecodeError ProxyConfig}
    {cfg : ProxyConfig} {x : String × String}
    (h : (decodeStruct what zero fields config >>= g) = .ok cfg) (hx : x ∈ cfg.strings) :
    (∃ cfg', (decodeStruct what zero fields (normalizeConfigValues config) >>= g) = .ok cfg' ∧
      x ∈ cfg'.strings) ↔ FieldsPlain tags config := by
  obtain ⟨c, hc, hg⟩ := bind_eq_ok.mp h
  constructor
  · rintro ⟨cfg', h', -⟩
    by_contra hplain
    rw [decodeStruct_refused hf what hplain] at h'
    cases h'
  · intro hplain
    rw [decodeStruct_kept hf hc hplain]
    exact ⟨cfg, hg, hx⟩

theorem fieldsPlain_iff (hmap : config.Sorted) :
    FieldsPlain tags config ↔ ∀ key, spelledLike tags key → EntryPlain config key := by
  constructor
  · intro h key hkey s hget
    exact h (key, .string s) ((hmap.get_eq_some_iff _ _).mp hget) hkey s rfl
  · rintro h ⟨key, v⟩ he hkey s rfl
    exact h key hkey s ((hmap.get_eq_some_iff _ _).mpr he)

theorem fieldsPlain_insert (hmap : config.Sorted) (key : String) (v : Any)
    (hkey : spelledLike tags key = false) :
    FieldsPlain tags (config.insert key v) ↔ FieldsPlain tags config := by
  rw [fieldsPlain_iff hmap, fieldsPlain_iff (hmap.insert key v)]
  refine forall_congr' fun k => imp_congr_right fun hk => ?_
  have hne : k ≠ key := by
    rintro rfl
    cases hk.symm.trans hkey
  unfold EntryPlain
  rw [StrMap.get_insert, if_neg hne]

end Struct

/-! ## The structs of the proxies -/

theorem stringFields_sql : StringFields sqlFields ["host", "database", "ssl_mode"] :=
  ⟨by decide, by decide, by simp [sqlFields, field, string], by simp [sqlFields, field, string],
    by simp [sqlFields, field, int, GoJson.bool]⟩

theorem stringFields_ssh : StringFields sshFields ["host", "known_hosts", "host_key"] :=
  ⟨by decide, by decide, by simp [sshFields, field, string], by simp [sshFields, field, string],
    by simp [sshFields, field, int, sliceOf]⟩

theorem stringFields_mongo :
    StringFields mongoFields ["host", "database", "replica_set", "auth_source"] :=
  ⟨by decide, by decide, by simp [mongoFields, field, string],
    by simp [mongoFields, field, string], by simp [mongoFields, field, int, GoJson.bool]⟩

theorem stringFields_redis : StringFields redisFields ["host"] :=
  ⟨by decide, by decide, by simp [redisFields, field, string],
    by simp [redisFields, field, string], by simp [redisFields, field, int, GoJson.bool]⟩

theorem stringFields_kafka : StringFields kafkaFields ["brokers", "sasl_mechanism"] :=
  ⟨by decide, by decide, by simp [kafkaFields, field, string],
    by simp [kafkaFields, field, string], by simp [kafkaFields, field, GoJson.bool]⟩

theorem stringFields_discovery :
    StringFields discoveryFields ["pack_public_key", "pack_dir", "known_hosts_file"] :=
  ⟨by decide, by decide, by simp [discoveryFields, field, string],
    by simp [discoveryFields, field, string],
    by simp [discoveryFields, field, int, sliceOf, struct]⟩

section Pushed

variable {x : String × String} {m : StrMap Any}

variable {dsType : String} {allowedHosts : List String} {config : StrMap Any} {cfg : ProxyConfig}
  {name s : String}

theorem settingPlain_iff {proxyType : String} {required optional : String → Prop}
    (hdecides : ∀ key, decides proxyType config name key = true ↔
      required key ∨ optional key ∧ key = name) :
    SettingPlain proxyType config name ↔
      (∀ key, required key → EntryPlain config key) ∧ (optional name → EntryPlain config name) := by
  unfold SettingPlain
  simp only [hdecides]
  constructor
  · intro h
    exact ⟨fun key hkey s hget => h key s hget (.inl hkey),
      fun hname s hget => h name s hget (.inr ⟨hname, rfl⟩)⟩
  · rintro ⟨hrequired, hoptional⟩ key s hget (hkey | ⟨hkey, rfl⟩)
    · exact hrequired key hkey s hget
    · exact hoptional hkey s hget

theorem settingPlain_struct {proxyType : String} {tags : List String} (hmap : config.Sorted)
    (hdecides : ∀ key, decides proxyType config name key = spelledLike tags key) :
    SettingPlain proxyType config name ↔ FieldsPlain tags config := by
  rw [fieldsPlain_iff hmap, @settingPlain_iff _ _ _ (spelledLike tags · = true) fun _ => False]
  · simp
  · simp [hdecides]

/-! ### Structs into which `newProxyByType` puts the scope -/

theorem normalizeConfigValues_insert (config : StrMap Any) (key : String) (hosts : List String) :
    (normalizeConfigValues config).insert key (.strings hosts) =
      normalizeConfigValues (config.insert key (.strings hosts)) :=
  (StrMap.mapVals_insert normalizeConfigValue key (.strings hosts) config).symm

theorem scoped_setting_iff {σ : Type} {fields : List (StructField σ)} {tags : List String}
    {zero : σ} {what key : String} {g : σ → Except DecodeError ProxyConfig}
    (hf : StringFields fields tags) (hmap : config.Sorted) (hkey : spelledLike tags key = false)
    {b : Prop} [Decidable b] (h : (decodeStruct what zero fields
      (if b then config.insert key (.strings allowedHosts) else config) >>= g) = .ok cfg)
    (hx : x ∈ cfg.strings) :
    (∃ cfg', (decodeStruct what zero fields (if b then (normalizeConfigValues config).insert key
        (.strings allowedHosts) else normalizeConfigValues config) >>= g) = .ok cfg' ∧
      x ∈ cfg'.strings) ↔ FieldsPlain tags config := by
  split
  · next hb =>
    rw [if_pos hb] at h
    rw [normalizeConfigValues_insert, ← fieldsPlain_insert hmap key _ hkey]
    exact struct_setting_iff hf h hx
  · next hb =>
    rw [if_neg hb] at h
    exact struct_setting_iff hf h hx

theorem ssh_setting_iff (hmap : config.Sorted)
    (h : pushedConfig "ssh-proxy" dsType allowedHosts config = .ok cfg)
    (hx : (name, s) ∈ cfg.strings) :
    SettingKept "ssh-proxy" dsType allowedHosts config (name, s) ↔
      SettingPlain "ssh-proxy" config name := by
  rw [settingPlain_struct hmap fun _ => rfl]
  exact scoped_setting_iff stringFields_ssh hmap (by decide) h hx

theorem discovery_setting_iff (hmap : config.Sorted)
    (h : pushedConfig "discovery-proxy" dsType allowedHosts config = .ok cfg)
    (hx : (name, s) ∈ cfg.strings) :
    SettingKept "discovery-proxy" dsType allowedHosts config (name, s) ↔
      SettingPlain "discovery-proxy" config name := by
  have hpushed (m : StrMap Any) : pushedConfig "discovery-proxy" dsType allowedHosts m =
      decodeConfig .discovery
        (if allowedHosts.length > 0 ∧ (m.get "allowed_cidrs").isNone then
          m.insert "allowed_cidrs" (.strings allowedHosts) else m) := rfl
  unfold SettingKept
  rw [hpushed] at h ⊢
  rw [settingPlain_struct hmap fun _ => rfl, get_normalizeConfigValues, Option.isNone_map]
  exact scoped_setting_iff stringFields_discovery hmap (by decide) h hx

/-! ### The SQL proxy -/

def dbTypeOf (config : StrMap Any) (dsType : String) : String :=
  if Any.asString (config.get "db_type") = "" then dsType else Any.asString (config.get "db_type")

theorem mem_db_strings :
    (∃ cfg, pushedConfig "db-proxy" dsType allowedHosts m = .ok cfg ∧ x ∈ cfg.strings) ↔
      ∃ c, decodeStruct "parsing db config: " .zero sqlFields m = .ok c ∧
        (x ∈ [("host", c.host), ("database", c.database), ("ssl_mode", c.sslMode)] ∨
          dbTypeOf m dsType = "oracle" ∧
            x = ("service_name", Any.asString (m.get "service_name"))) := by
  have hpushed : pushedConfig "db-proxy" dsType allowedHosts m =
      decodeStruct "parsing db config: " .zero sqlFields m >>= fun c =>
        pure (.db (dbTypeOf m dsType) (applySqlDefaults (dbTypeOf m dsType) c)
          (Any.asString (m.get "service_name")) (Any.asBool (m.get "read_only"))) := rfl
  have hmem (c : SqlSettings) : x ∈ (ProxyConfig.db (dbTypeOf m dsType)
      (applySqlDefaults (dbTypeOf m dsType) c) (Any.asString (m.get "service_name"))
      (Any.asBool (m.get "read_only"))).strings ↔
      x ∈ [("host", c.host), ("database", c.database), ("ssl_mode", c.sslMode)] ∨
        dbTypeOf m dsType = "oracle" ∧
          x = ("service_name", Any.asString (m.get "service_name")) := by
    unfold ProxyConfig.strings
    rw [List.mem_append]
    split <;> simp_all [applySqlDefaults]
  rw [hpushed]
  constructor
  · rintro ⟨cfg, hcfg, hx⟩
    obtain ⟨c, hc, hg⟩ := bind_eq_ok.mp hcfg
    cases hg
    exact ⟨c, hc, (hmem c).mp hx⟩
  · rintro ⟨c, hc, hx⟩
    exact ⟨_, bind_eq_ok.mpr ⟨c, hc, rfl⟩, (hmem c).mpr hx⟩

theorem dbTypeOf_oracle (h : dbTypeOf config dsType = "oracle") :
    dbTypeOf (normalizeConfigValues config) dsType = "oracle" := by
  suffices hplain : EntryPlain config "db_type" by
    unfold dbTypeOf
    rwa [get_kept hplain]
  intro v hget
  unfold dbTypeOf at h
  rw [hget] at h
  change (if v = "" then dsType else v) = "oracle" at h
  rcases eq_or_ne v "" with rfl | hne
  · exact not_coercible_empty
  · rw [if_neg hne] at h
    rw [h]
    decide

theorem settingPlain_db (hmap : config.Sorted) : SettingPlain "db-proxy" config name ↔
    FieldsPlain ["host", "database", "ssl_mode"] config ∧
      (name = "service_name" → EntryPlain config name) := by
  rw [fieldsPlain_iff hmap]
  exact @settingPlain_iff _ _ _ _ (· = "service_name") fun key => decide_eq_true_iff

theorem db_setting_iff (hmap : config.Sorted)
    (h : pushedConfig "db-proxy" dsType allowedHosts config = .ok cfg)
    (hx : (name, s) ∈ cfg.strings) :
    SettingKept "db-proxy" dsType allowedHosts config (name, s) ↔
      SettingPlain "db-proxy" config name := by
  obtain ⟨c, hc, hx⟩ := mem_db_strings.mp ⟨cfg, h, hx⟩
  rw [settingPlain_db hmap]
  refine mem_db_strings.trans ⟨?_, ?_⟩
  · rintro ⟨c', hc', hx'⟩
    refine ⟨?_, ?_⟩
    · by_contra hplain
      cases (decodeStruct_refused stringFields_sql _ hplain).symm.trans hc'
    · rintro rfl
      simp only [List.mem_cons, Prod.mk.injEq, String.reduceEq, false_and, List.not_mem_nil,
        or_false, false_or, true_and] at hx hx'
      exact asString_kept_iff.mp (hx'.2.symm.trans hx.2)
  · rintro ⟨hplain, hservice⟩
    refine ⟨c, decodeStruct_kept stringFields_sql hc hplain, hx.imp_right ?_⟩
    rintro ⟨horacle, heq⟩
    obtain ⟨rfl, rfl⟩ := Prod.mk.inj heq
    exact ⟨dbTypeOf_oracle horacle, by rw [get_kept (hservice rfl)]⟩

/-! ### The HTTP proxy -/

theorem mem_http_strings :
    (∃ cfg, pushedConfig "http-proxy" dsType allowedHosts m = .ok cfg ∧ x ∈ cfg.strings) ↔
      (∃ base, configureBase (utf8 (Any.asString (m.get "base_url"))) = .ok base) ∧
        x ∈ [("base_url", Any.asString (m.get "base_url")),
          ("auth_type", Any.asString (m.get "auth_type")), ("datasource_type", dsType)] := by
  have hget (key : String) (hkey : key ≠ "datasource_type") :
      (m.insert "datasource_type" (.string dsType)).get key = m.get key := by
    rw [StrMap.get_insert, if_neg hkey]
  have htype : (m.insert "datasource_type" (.string dsType)).get "datasource_type" =
      some (.string dsType) := by
    rw [StrMap.get_insert, if_pos rfl]
  have hpushed : pushedConfig "http-proxy" dsType allowedHosts m =
      httpDecode (m.insert "datasource_type" (.string dsType)) >>= fun c => pure (.http c) := rfl
  rw [hpushed, httpDecode, hget "base_url" (by decide), hget "auth_type" (by decide), htype]
  cases configureBase (utf8 (Any.asString (m.get "base_url"))) with
  | error err =>
    refine iff_of_false ?_ ?_
    · rintro ⟨cfg, ⟨⟩, -⟩
    · rintro ⟨⟨base, ⟨⟩⟩, -⟩
  | ok base =>
    constructor
    · rintro ⟨cfg, hcfg, hx⟩
      cases hcfg
      exact ⟨⟨base, rfl⟩, hx⟩
    · rintro ⟨-, hx⟩
      exact ⟨_, rfl, hx⟩

theorem settingPlain_http : SettingPlain "http-proxy" config name ↔
    EntryPlain config "base_url" ∧ (name = "auth_type" → EntryPlain config name) := by
  refine (@settingPlain_iff _ _ "http-proxy" (· = "base_url") (· = "auth_type") fun key =>
    decide_eq_true_iff).trans ?_
  rw [forall_eq]

theorem http_setting_iff (h : pushedConfig "http-proxy" dsType allowedHosts config = .ok cfg)
    (hx : (name, s) ∈ cfg.strings) :
    SettingKept "http-proxy" dsType allowedHosts config (name, s) ↔
      SettingPlain "http-proxy" config name := by
  obtain ⟨hbase, hx⟩ := mem_http_strings.mp ⟨cfg, h, hx⟩
  rw [settingPlain_http]
  refine mem_http_strings.trans ⟨?_, ?_⟩
  · rintro ⟨⟨base, hbase'⟩, hx'⟩
    refine ⟨?_, ?_⟩
    · by_contra hplain
      rw [(asString_coerced hplain).2] at hbase'
      cases hbase'
    · rintro rfl
      simp only [List.mem_cons, Prod.mk.injEq, String.reduceEq, false_and, List.not_mem_nil,
        or_false, false_or, true_and] at hx hx'
      exact asString_kept_iff.mp (hx'.symm.trans hx)
  · rintro ⟨hurl, hauth⟩
    rw [get_kept hurl]
    refine ⟨hbase, ?_⟩
    simp only [List.mem_cons, Prod.mk.injEq, List.not_mem_nil, or_false] at hx ⊢
    refine hx.imp_right (Or.imp_left ?_)
    rintro ⟨hname, hs⟩
    exact ⟨hname, by rw [← hname, get_kept (hauth hname), hname, hs]⟩

/-! ### The MCP proxy -/

/-- The settings that an MCP proxy takes. -/
def mcpStrings (m : StrMap Any) : List (String × String) :=
  let text (key : String) := Any.asString (m.get key)
  if mcpTransport m = "stdio" then
    [("transport", "stdio"), ("auth_type", text "auth_type"), ("url", ""),
      ("command", text "command"), ("args", text "args"), ("working_dir", text "working_dir")]
  else
    [("transport", mcpTransport m), ("auth_type", text "auth_type"), ("url", text "url"),
      ("command", ""), ("args", ""), ("working_dir", "")]

theorem mem_mcp_strings :
    (∃ cfg, pushedConfig "mcp-proxy" dsType allowedHosts m = .ok cfg ∧ x ∈ cfg.strings) ↔
      mcpTransport m ∈ ["http", "sse", "stdio"] ∧
        Any.asString (m.get (mcpRequired (mcpTransport m))) ≠ "" ∧ x ∈ mcpStrings m := by
  have hpushed : pushedConfig "mcp-proxy" dsType allowedHosts m =
      mcpDecode m >>= fun c => pure (.mcp c) := rfl
  rw [hpushed]
  unfold mcpDecode mcpStrings mcpRequired
  generalize mcpTransport m = transport
  dsimp only
  split
  · next hhttp =>
    have hne : transport ≠ "stdio" := by rcases hhttp with rfl | rfl <;> decide
    rw [if_neg hne, if_neg hne]
    split
    · next hempty => exact iff_of_false (by rintro ⟨cfg, ⟨⟩, -⟩) fun h => h.2.1 hempty
    · next hurl =>
      constructor
      · rintro ⟨cfg, hcfg, hx⟩
        cases hcfg
        exact ⟨by simpa [or_assoc] using Or.inl hhttp, hurl, hx⟩
      · rintro ⟨-, -, hx⟩
        exact ⟨_, rfl, hx⟩
  · next hhttp =>
    split
    · next hstdio =>
      subst hstdio
      split
      · next hempty => exact iff_of_false (by rintro ⟨cfg, ⟨⟩, -⟩) fun h => h.2.1 hempty
      · next hcommand =>
        constructor
        · rintro ⟨cfg, hcfg, hx⟩
          cases hcfg
          exact ⟨by decide, hcommand, hx⟩
        · rintro ⟨-, -, hx⟩
          exact ⟨_, rfl, hx⟩
    · next hstdio =>
      refine iff_of_false (by rintro ⟨cfg, ⟨⟩, -⟩) fun h => ?_
      simp_all

theorem mcpTransport_kept (h : mcpTransport config ∈ ["http", "sse", "stdio"]) :
    mcpTransport (normalizeConfigValues config) = mcpTransport config := by
  suffices hplain : EntryPlain config "transport" by
    unfold mcpTransport
    rw [get_kept hplain]
  intro v hget
  unfold mcpTransport at h
  rw [hget] at h
  change (if v = "" ∨ v = "streamable_http" then "http" else v) ∈ ["http", "sse", "stdio"] at h
  split at h
  · next hdefault => rcases hdefault with rfl | rfl <;> decide
  · simp only [List.mem_cons, List.not_mem_nil, or_false] at h
    rcases h with rfl | rfl | rfl <;> decide

theorem settingPlain_mcp : SettingPlain "mcp-proxy" config name ↔
    EntryPlain config (mcpRequired (mcpTransport config)) ∧
      (name ∈ mcpOptional (mcpTransport config) → EntryPlain config name) := by
  refine (@settingPlain_iff _ _ "mcp-proxy" (· = mcpRequired (mcpTransport config))
    (· ∈ mcpOptional (mcpTransport config)) fun key => decide_eq_true_iff).trans ?_
  rw [forall_eq]

theorem mcp_setting_iff (h : pushedConfig "mcp-proxy" dsType allowedHosts config = .ok cfg)
    (hx : (name, s) ∈ cfg.strings) :
    SettingKept "mcp-proxy" dsType allowedHosts config (name, s) ↔
      SettingPlain "mcp-proxy" config name := by
  obtain ⟨htransport, hrequired, hx⟩ := mem_mcp_strings.mp ⟨cfg, h, hx⟩
  have hkept := mcpTransport_kept htransport
  rw [settingPlain_mcp]
  refine mem_mcp_strings.trans ⟨?_, ?_⟩
  · rw [hkept]
    rintro ⟨-, hrequired', hx'⟩
    refine ⟨by_contra fun hplain => hrequired' (asString_coerced hplain).2, fun hname => ?_⟩
    unfold mcpStrings at hx hx'
    rw [hkept] at hx'
    unfold mcpOptional at hname
    refine asString_kept_iff.mp ?_
    by_cases hstdio : mcpTransport config = "stdio"
    · simp only [hstdio, if_true, List.mem_cons, List.not_mem_nil, or_false] at hname
      rcases hname with rfl | rfl | rfl <;> simp_all
    · simp only [hstdio, if_false, List.mem_cons, List.not_mem_nil, or_false] at hname
      subst hname
      simp_all
  · rintro ⟨hplain, hoptional⟩
    rw [hkept, get_kept hplain]
    refine ⟨htransport, hrequired, ?_⟩
    unfold mcpStrings at hx ⊢
    rw [hkept]
    by_cases hstdio : mcpTransport config = "stdio"
    · have hcommand : EntryPlain config "command" := by rwa [hstdio] at hplain
      rw [hstdio] at hoptional
      simp only [if_pos hstdio, List.mem_cons, Prod.mk.injEq, List.not_mem_nil, or_false] at hx ⊢
      rcases hx with ⟨rfl, rfl⟩ | ⟨rfl, rfl⟩ | ⟨rfl, rfl⟩ | ⟨rfl, rfl⟩ | ⟨rfl, rfl⟩ | ⟨rfl, rfl⟩
      · simp
      · simp [get_kept (hoptional (by decide))]
      · simp
      · simp [get_kept hcommand]
      · simp [get_kept (hoptional (by decide))]
      · simp [get_kept (hoptional (by decide))]
    · have hurl : EntryPlain config "url" := by rwa [mcpRequired, if_neg hstdio] at hplain
      rw [mcpOptional, if_neg hstdio] at hoptional
      simp only [if_neg hstdio, List.mem_cons, Prod.mk.injEq, List.not_mem_nil, or_false] at hx ⊢
      rcases hx with ⟨rfl, rfl⟩ | ⟨rfl, rfl⟩ | hrest
      · simp
      · simp [get_kept (hoptional (by decide))]
      · rw [get_kept hurl]
        exact .inr (.inr hrest)

end Pushed

theorem proxyType_known {proxyType : String} {cfg : ProxyConfig} {dsType : String}
    {allowedHosts : List String} (h : pushedConfig proxyType dsType allowedHosts config = .ok cfg) :
    proxyType ∈ ["http-proxy", "db-proxy", "mcp-proxy", "ssh-proxy", "mongo-proxy",
      "redis-proxy", "kafka-proxy", "discovery-proxy"] := by
  by_contra hunknown
  have hnew : newProxyByType proxyType dsType config allowedHosts =
      .error ("unknown proxy type: " ++ proxyType) := by
    unfold newProxyByType
    split <;> simp_all
  rw [pushedConfig, hnew] at h
  cases h

end StringSettingsLemmas

open StringSettingsLemmas in
/-- A setting of type string that is decoded keeps its string through
`normalizeConfigValues` exactly if no entry that decides about it is a string that looks
like a boolean or an integer. -/
theorem string_settings_iff (proxyType dsType : String) (allowedHosts : List String)
    (config : StrMap Any) (hmap : config.Sorted) (cfg : ProxyConfig)
    (hdecoded : pushedConfig proxyType dsType allowedHosts config = .ok cfg)
    (name s : String) (hsetting : (name, s) ∈ cfg.strings) :
    SettingKept proxyType dsType allowedHosts config (name, s) ↔
      SettingPlain proxyType config name := by
  have hknown := proxyType_known hdecoded
  simp only [List.mem_cons, List.not_mem_nil, or_false] at hknown
  rcases hknown with rfl | rfl | rfl | rfl | rfl | rfl | rfl | rfl
  · exact http_setting_iff hdecoded hsetting
  · exact db_setting_iff hmap hdecoded hsetting
  · exact mcp_setting_iff hdecoded hsetting
  · exact ssh_setting_iff hmap hdecoded hsetting
  · exact (struct_setting_iff stringFields_mongo hdecoded hsetting).trans
      (settingPlain_struct hmap fun _ => rfl).symm
  · exact (struct_setting_iff stringFields_redis hdecoded hsetting).trans
      (settingPlain_struct hmap fun _ => rfl).symm
  · exact (struct_setting_iff stringFields_kafka hdecoded hsetting).trans
      (settingPlain_struct hmap fun _ => rfl).symm
  · exact discovery_setting_iff hmap hdecoded hsetting

def mongoPush (database : String) : StrMap Any :=
  StrMap.ofEntries [("host", .string "db.internal"), ("port", .float ⟨false, 27017 * 2 ^ 38, -38⟩),
    ("database", .string database)]

/-- A database with a word as its name keeps it. -/
theorem string_settings_of_name :
    SettingKept "mongo-proxy" "mongodb" [] (mongoPush "orders") ("database", "orders") := by
  have hmap : (mongoPush "orders").Sorted := by
    unfold StrMap.Sorted
    decide
  refine (string_settings_iff "mongo-proxy" "mongodb" [] (mongoPush "orders") hmap
    (.mongo ⟨"db.internal", 27017, "orders", "", "admin", false⟩) (by decide +kernel)
    "database" "orders" (by decide)).mpr fun key s hget _ => ?_
  have hentry : (key, Any.string s) ∈ [("database", Any.string "orders"),
      ("host", .string "db.internal"), ("port", .float ⟨false, 27017 * 2 ^ 38, -38⟩)] :=
    (hmap.get_eq_some_iff _ _).mp hget
  simp only [List.mem_cons, Prod.mk.injEq, Any.string.injEq, reduceCtorEq, and_false,
    List.not_mem_nil, or_false] at hentry
  rcases hentry with ⟨-, rfl⟩ | ⟨-, rfl⟩ <;> decide

def stdioPush : StrMap Any :=
  StrMap.ofEntries [("transport", .string "stdio"), ("command", .string "mcp-server"),
    ("args", .string "8080")]

/-- Not every string setting is kept: the arguments of the command are dropped. -/
theorem string_settings_lost :
    ¬ ∀ (proxyType dsType : String) (allowedHosts : List String) (config : StrMap Any),
        config.Sorted → ∀ cfg, pushedConfig proxyType dsType allowedHosts config = .ok cfg →
          ∀ setting ∈ cfg.strings, SettingKept proxyType dsType allowedHosts config setting := by
  intro hall
  have hmap : stdioPush.Sorted := by
    unfold StrMap.Sorted
    decide
  obtain ⟨cfg, hcfg, hargs⟩ := hall "mcp-proxy" "mcp" [] stdioPush hmap
    (.mcp { transport := "stdio", authType := "", command := "mcp-server", args := "8080" })
    (by decide +kernel) ("args", "8080") (by decide)
  have hpushed : pushedConfig "mcp-proxy" "mcp" [] (normalizeConfigValues stdioPush) =
      .ok (.mcp { transport := "stdio", authType := "", command := "mcp-server" }) := by
    decide +kernel
  cases hpushed.symm.trans hcfg
  revert hargs
  decide

/-- A database with a number as its name is refused. -/
example : pushedConfig "mongo-proxy" "mongodb" [] (mongoPush "2024") =
      .ok (.mongo ⟨"db.internal", 27017, "2024", "", "admin", false⟩) ∧
    pushedConfig "mongo-proxy" "mongodb" [] (normalizeConfigValues (mongoPush "2024")) =
      .error (.parsing "parsing mongo config: ") := by
  decide +kernel

end Forager
