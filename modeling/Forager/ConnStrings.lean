import Forager.ConnInfo
import Forager.JsonNumber
import Forager.UriParts

/-!
# Connection strings of the database proxies

`buildDSN` of the SQL proxy and `buildURI` of the MongoDB one put the configured
values into the text that the driver reads its settings from. The PostgreSQL text
and the MongoDB URI take every value as it is.
-/

namespace Forager

open GoUrl
open GoText (Bytes)

/-! ## Configurations -/

inductive DbType where
  | postgresql
  | mysql
  | mssql
  | clickhouse
  | oracle
  | other (name : Bytes)
deriving DecidableEq, Repr

/-- `Config` of the SQL proxy, with the `service_name` of the raw configuration. -/
structure DbConfig where
  host : Bytes
  port : Int
  database : Bytes
  sslMode : Bytes := []
  tlsEnabled : Bool := false
  serviceName : Bytes := []
deriving DecidableEq, Repr

/-- The port that `Configure` takes for a type when there is none. -/
def DbType.defaultPort : DbType → Int
  | .postgresql => 5432
  | .mysql => 3306
  | .mssql => 1433
  | .clickhouse => 9000
  | .oracle => 1521
  | .other _ => 0

/-- The defaults that `Configure` of the SQL proxy applies. -/
def DbConfig.configure (c : DbConfig) (t : DbType) : DbConfig :=
  { c with port := if c.port = 0 then t.defaultPort else c.port }

structure MongoConfig where
  host : Bytes
  port : Int
  database : Bytes
  replicaSet : Bytes := []
  authSource : Bytes := []
  tlsEnabled : Bool := false
deriving DecidableEq, Repr

/-- The defaults that `Configure` of the MongoDB proxy applies. -/
def MongoConfig.configure (c : MongoConfig) : MongoConfig :=
  { c with
    port := if c.port = 0 then 27017 else c.port
    authSource := if c.authSource = [] then chars "admin" else c.authSource }

/-! ## The strings -/

def decimal (n : Int) : Bytes :=
  (if n < 0 then chars "-" else []) ++
    (Nat.toDigits 10 n.natAbs).map fun c => UInt8.ofNat c.toNat

/-- `Encode` of URL values that are given in the order of their keys. -/
def encodeValues (kvs : List (Bytes × Bytes)) : Bytes :=
  (chars "&").intercalate (kvs.map fun kv =>
    escape .queryComponent kv.1 ++ chars "=" ++ escape .queryComponent kv.2)

/-- `fmt.Sprintf("%s:%d", host, port)`. -/
def DbConfig.address (c : DbConfig) : Bytes := c.host ++ chars ":" ++ decimal c.port

/-- The `sslmode` of the PostgreSQL text. -/
def DbConfig.effectiveSSLMode (c : DbConfig) : Bytes :=
  if c.sslMode = [] then chars "disable" else c.sslMode

/-- `buildOracleDSN`, of the build without the Oracle client. -/
def buildOracleDSN (c : DbConfig) (username password : Bytes) : Bytes × Bytes :=
  let serviceName := if c.serviceName = [] then c.database else c.serviceName
  (chars "oracle://" ++ escape .pathSegment username ++ chars ":" ++
    escape .pathSegment password ++ chars "@" ++ c.address ++ chars "/" ++ serviceName ++
    chars "?ENABLE_OOB=FALSE", chars "oracle")

def buildDSN (t : DbType) (c : DbConfig) (username password : Bytes) :
    Except Bytes (Bytes × Bytes) :=
  match t with
  | .postgresql =>
    .ok (chars "host=" ++ c.host ++ chars " port=" ++ decimal c.port ++ chars " user=" ++
      username ++ chars " password=" ++ password ++ chars " dbname=" ++ c.database ++
      chars " sslmode=" ++ c.effectiveSSLMode, chars "pgx")
  | .mysql =>
    .ok (username ++ chars ":" ++ password ++ chars "@tcp(" ++ c.address ++ chars ")/" ++
      c.database ++ (if c.tlsEnabled then chars "?tls=true" else []), chars "mysql")
  | .mssql =>
    .ok (URL.string {
      scheme := chars "sqlserver"
      user := some ⟨username, some password⟩
      host := c.address
      rawQuery := encodeValues [(chars "database", c.database),
        (chars "encrypt", if c.tlsEnabled then chars "true" else chars "disable")] },
      chars "sqlserver")
  | .clickhouse =>
    .ok (URL.string {
      scheme := chars "clickhouse"
      host := c.address
      rawQuery := encodeValues
        ((if c.database = [] then [] else [(chars "database", c.database)]) ++
         (if password = [] then [] else [(chars "password", password)]) ++
         (if c.tlsEnabled then [(chars "secure", chars "true")] else []) ++
         (if username = [] then [] else [(chars "username", username)])) },
      chars "clickhouse")
  | .oracle => .ok (buildOracleDSN c username password)
  | .other name => .error (chars "unsupported database type: " ++ name)

def MongoConfig.buildURI (c : MongoConfig) (username password : Bytes) : Bytes :=
  let userInfo := if username = [] then [] else username ++ chars ":" ++ password ++ chars "@"
  chars "mongodb://" ++ userInfo ++ c.host ++ chars ":" ++ decimal c.port ++ chars "/" ++
    c.database ++ chars "?authSource=" ++ c.authSource ++
    (if c.replicaSet = [] then [] else chars "&replicaSet=" ++ c.replicaSet) ++
    (if c.tlsEnabled then chars "&tls=true" else [])

/-! ## What they stand for -/

def DbConfig.settings (c : DbConfig) (username password : Bytes) : List ConnInfo.Setting :=
  [(chars "host", c.host), (chars "port", decimal c.port), (chars "user", username),
    (chars "password", password), (chars "dbname", c.database),
    (chars "sslmode", c.effectiveSSLMode)]

def MongoConfig.parts (c : MongoConfig) (username password : Bytes) : UriParts.Parts where
  username := username
  password := password
  host := c.host
  port := decimal c.port
  path := c.database
  options := (chars "authSource", c.authSource) ::
    ((if c.replicaSet = [] then [] else [(chars "replicaSet", c.replicaSet)]) ++
      if c.tlsEnabled then [(chars "tls", chars "true")] else [])

/-- The driver reads the configured settings and no others from the PostgreSQL text. -/
def DbConfig.ReadsBack (c : DbConfig) (username password : Bytes) : Prop :=
  ∃ dsn, buildDSN .postgresql c username password = .ok (dsn, chars "pgx") ∧
    ConnInfo.parse dsn = some (c.settings username password)

/-- The configured parts and no others are read from the URI. -/
def MongoConfig.ReadsBack (c : MongoConfig) (username password : Bytes) : Prop :=
  UriParts.read (chars "mongodb://") (c.buildURI username password) =
    some (c.parts username password)

def DbConfig.PlainValues (c : DbConfig) (username password : Bytes) : Prop :=
  ∀ v ∈ [c.host, username, password, c.database, c.effectiveSSLMode], ConnInfo.PlainValue v

def Avoids (s marks : Bytes) : Prop := ∀ b ∈ s, b ∉ marks

/-- No value of the URI has a mark that ends it. -/
structure MongoConfig.PlainValues (c : MongoConfig) (username password : Bytes) : Prop where
  password_nil : username = [] → password = []
  username_colon : colon ∉ username
  host_atSign : atSign ∉ c.host
  authority : ∀ v ∈ [username, password, c.host], Avoids v (chars "/?#%")
  database : Avoids c.database (chars "?#%")
  options : ∀ v ∈ [c.authSource, c.replicaSet], Avoids v (chars "&#%")

namespace ConnStringsLemmas

/-! ### Ports -/

theorem digitChar_toNat {c : Char} (h : c.isDigit) : 48 ≤ c.toNat ∧ c.toNat ≤ 57 := by
  simpa [Char.isDigit, UInt32.le_iff_toNat_le] using h

theorem mem_digits {n : Nat} {b : UInt8}
    (h : b ∈ (Nat.toDigits 10 n).map fun c => UInt8.ofNat c.toNat) : b ∈ chars "0123456789" := by
  obtain ⟨c, hc, rfl⟩ := List.mem_map.mp h
  obtain ⟨hlo, hhi⟩ := digitChar_toNat (Nat.isDigit_of_mem_toDigits (by decide) (by decide) hc)
  have hdigits : ∀ k ≤ 57, 48 ≤ k → UInt8.ofNat k ∈ chars "0123456789" := by decide
  exact hdigits c.toNat hhi hlo

theorem mem_decimal {n : Int} {b : UInt8} (h : b ∈ decimal n) : b ∈ chars "-0123456789" := by
  rcases List.mem_append.mp h with h | h
  · split at h
    · rw [List.mem_singleton.mp h]
      decide
    · cases h
  · exact List.mem_cons_of_mem _ (mem_digits h)

theorem decimal_ne_nil (n : Int) : decimal n ≠ [] := by
  intro h
  have hdigits := List.map_eq_nil_iff.mp (List.append_eq_nil_iff.mp h).2
  exact Nat.toDigits_ne_nil hdigits

theorem forall_mem_decimal {P : UInt8 → Prop} [DecidablePred P] (n : Int)
    (h : (chars "-0123456789").all fun b => P b) : ∀ b ∈ decimal n, P b := fun b hb => by
  simpa using List.all_eq_true.mp h b (mem_decimal hb)

theorem plainValue_decimal (n : Int) : ConnInfo.PlainValue (decimal n) where
  ne_nil := decimal_ne_nil n
  not_quoted h := by
    have hmem := List.mem_of_head? h
    exact forall_mem_decimal (P := (· ≠ ConnInfo.quote)) n (by decide) _ hmem rfl
  bytes := forall_mem_decimal n (by decide)

theorem plainPort_decimal (n : Int) : UriParts.PlainPort (decimal n) :=
  ⟨decimal_ne_nil n, forall_mem_decimal n (by decide)⟩

theorem digits_injective {m n : Nat}
    (h : (Nat.toDigits 10 m).map (fun c => UInt8.ofNat c.toNat) =
      (Nat.toDigits 10 n).map fun c => UInt8.ofNat c.toNat) : m = n := by
  have hback (k : Nat) : ((Nat.toDigits 10 k).map fun c => UInt8.ofNat c.toNat).map
      (fun b => Char.ofNat b.toNat) = Nat.toDigits 10 k := by
    rw [List.map_map]
    refine (List.map_congr_left fun c hc => ?_).trans (List.map_id _)
    obtain ⟨-, hhi⟩ :=
      digitChar_toNat (Nat.isDigit_of_mem_toDigits (by decide) (by decide) hc)
    have hbyte : (UInt8.ofNat c.toNat).toNat = c.toNat := Nat.mod_eq_of_lt (by omega)
    rw [Function.comp_apply, hbyte, Char.ofNat_toNat]
    rfl
  have hdigits := congrArg Go.digitsVal ((hback m).symm.trans ((congrArg _ h).trans (hback n)))
  rw [GoJson.digitsVal_toDigits, GoJson.digitsVal_toDigits] at hdigits
  exact Option.some_inj.mp hdigits

theorem decimal_neg {n : Int} (h : n < 0) : (decimal n).head? = some 0x2D := by
  rw [decimal, if_pos h]
  rfl

theorem decimal_nonneg {n : Int} (h : ¬ n < 0) : (decimal n).head? ≠ some 0x2D := by
  intro hhead
  rw [decimal, if_neg h, List.nil_append] at hhead
  exact absurd (mem_digits (List.mem_of_head? hhead)) (by decide)

theorem decimal_injective : Function.Injective decimal := by
  intro m n h
  have hsign : m < 0 ↔ n < 0 := by
    constructor
    · intro hm
      by_contra hn
      exact decimal_nonneg hn (h ▸ decimal_neg hm)
    · intro hn
      by_contra hm
      exact decimal_nonneg hm (h ▸ decimal_neg hn)
  have habs : m.natAbs = n.natAbs := by
    rw [decimal, decimal, if_congr hsign rfl rfl] at h
    exact digits_injective (List.append_cancel_left h)
  omega

/-! ### The PostgreSQL text -/

theorem render_settings (c : DbConfig) (username password : Bytes) :
    buildDSN .postgresql c username password =
      .ok (ConnInfo.render (c.settings username password), chars "pgx") := by
  simp [buildDSN, DbConfig.settings, ConnInfo.render, ConnInfo.assign, ConnInfo.equals,
    ConnInfo.space, chars]

theorem effectiveSSLMode_ne_nil (c : DbConfig) : c.effectiveSSLMode ≠ [] := by
  unfold DbConfig.effectiveSSLMode
  split
  · decide
  · assumption

theorem plainKey_settings (c : DbConfig) (username password : Bytes) :
    ∀ kv ∈ c.settings username password, ConnInfo.PlainKey kv.1 := by
  have hkeys : ∀ k ∈ [chars "host", chars "port", chars "user", chars "password",
      chars "dbname", chars "sslmode"], k ≠ [] ∧ k.all ConnInfo.isKeyByte = true := by decide
  intro kv hkv
  obtain ⟨hne, hall⟩ := hkeys kv.1 (List.mem_map_of_mem (f := Prod.fst) hkv)
  exact ⟨hne, List.all_eq_true.mp hall⟩

/-! ### The URI -/

theorem print_parts (c : MongoConfig) (username password : Bytes) :
    c.buildURI username password =
      UriParts.print (chars "mongodb://") (c.parts username password) := by
  by_cases hu : username = [] <;> by_cases hr : c.replicaSet = [] <;> cases ht : c.tlsEnabled <;>
    simp [MongoConfig.buildURI, MongoConfig.parts, UriParts.print, UriParts.Parts.authority,
      UriParts.Parts.userinfo, UriParts.Parts.credentials, UriParts.printOptions, hu, hr, ht,
      chars, UriParts.equals, UriParts.ampersand, colon, atSign, slash, question]

theorem mem_options {c : MongoConfig} {username password : Bytes} {kv : Bytes × Bytes} :
    kv ∈ (c.parts username password).options ↔ kv = (chars "authSource", c.authSource) ∨
      c.replicaSet ≠ [] ∧ kv = (chars "replicaSet", c.replicaSet) ∨
      c.tlsEnabled ∧ kv = (chars "tls", chars "true") := by
  simp only [MongoConfig.parts, List.mem_cons, List.mem_append]
  split <;> split <;> simp_all

theorem plainKey_options (c : MongoConfig) (username password : Bytes) :
    ∀ kv ∈ (c.parts username password).options, UriParts.PlainKey kv.1 := by
  have hkeys : ∀ k ∈ [chars "authSource", chars "replicaSet", chars "tls"],
      k.all (· ∉ chars "=&#%") = true := by decide
  intro kv hkv b hb
  have hmem : kv.1 ∈ [chars "authSource", chars "replicaSet", chars "tls"] := by
    rcases mem_options.mp hkv with rfl | ⟨-, rfl⟩ | ⟨-, rfl⟩ <;> simp
  have hmarks : b ∉ [UriParts.equals, UriParts.ampersand, hash, percent] :=
    of_decide_eq_true (List.all_eq_true.mp (hkeys _ hmem) b hb)
  simpa using hmarks

theorem avoids_iff {s marks : Bytes} {p : UInt8 → Prop}
    (h : ∀ b, b ∉ marks ↔ p b ∧ b ≠ percent) :
    Avoids s marks ↔ (∀ b ∈ s, p b) ∧ percent ∉ s := by
  simp only [Avoids, h, forall_and, ne_eq, List.forall_mem_ne']

theorem avoids_authority_iff {s : Bytes} : Avoids s (chars "/?#%") ↔
    (∀ b ∈ s, UriParts.isAuthorityByte b) ∧ percent ∉ s := by
  refine avoids_iff fun b => ?_
  show b ∉ [slash, question, hash, percent] ↔ _
  simp [UriParts.isAuthorityByte, and_assoc]

theorem avoids_path_iff {s : Bytes} : Avoids s (chars "?#%") ↔
    (∀ b ∈ s, UriParts.isPathByte b) ∧ percent ∉ s := by
  refine avoids_iff fun b => ?_
  show b ∉ [question, hash, percent] ↔ _
  simp [UriParts.isPathByte, and_assoc]

theorem avoids_option_iff {s : Bytes} : Avoids s (chars "&#%") ↔
    UriParts.ampersand ∉ s ∧ hash ∉ s ∧ percent ∉ s := by
  show Avoids s [UriParts.ampersand, hash, percent] ↔ _
  simp only [Avoids, List.mem_cons, List.not_mem_nil, or_false, not_or, forall_and,
    List.forall_mem_ne']

theorem isAuthorityByte_userinfo_iff {p : UriParts.Parts} (h : p.username = [] → p.password = []) :
    (∀ b ∈ p.userinfo, UriParts.isAuthorityByte b) ↔
      (∀ b ∈ p.username, UriParts.isAuthorityByte b) ∧
        ∀ b ∈ p.password, UriParts.isAuthorityByte b := by
  have hcolon : UriParts.isAuthorityByte colon = true := by decide
  have hat : UriParts.isAuthorityByte atSign = true := by decide
  rw [UriParts.Parts.userinfo, UriParts.Parts.credentials]
  split
  · next hu => simp [hu, h hu]
  · simp only [List.forall_mem_append, List.forall_mem_cons, hcolon, hat, true_and]
    simp

theorem plain_parts_iff (c : MongoConfig) (username password : Bytes) :
    (c.parts username password).Plain ↔ c.PlainValues username password := by
  constructor
  · intro h
    obtain ⟨huser, hhost⟩ := List.forall_mem_append.mp h.authority
    obtain ⟨hu, hw⟩ := (isAuthorityByte_userinfo_iff h.user.password_nil).mp huser
    refine ⟨h.user.password_nil, h.user.username_colon, h.host.1, ?_,
      avoids_path_iff.mpr h.path, ?_⟩
    · simp only [List.forall_mem_cons, avoids_authority_iff]
      exact ⟨⟨hu, h.user.username_percent⟩, ⟨hw, h.user.password_percent⟩, ⟨hhost, h.host.2⟩, nofun⟩
    · simp only [List.forall_mem_cons, avoids_option_iff]
      refine ⟨h.options _ (mem_options.mpr (.inl rfl)), ?_, nofun⟩
      by_cases hr : c.replicaSet = []
      · simp [hr]
      · exact h.options _ (mem_options.mpr (.inr (.inl ⟨hr, rfl⟩)))
  · intro h
    have hauthority := h.authority
    have hoptions := h.options
    simp only [List.forall_mem_cons, avoids_authority_iff, avoids_option_iff] at hauthority hoptions
    obtain ⟨⟨hu, hup⟩, ⟨hw, hwp⟩, ⟨hh, hhp⟩, -⟩ := hauthority
    refine ⟨⟨h.password_nil, h.username_colon, hup, hwp⟩, List.forall_mem_append.mpr ⟨?_, hh⟩,
      ⟨h.host_atSign, hhp⟩, avoids_path_iff.mp h.database, fun kv hkv => ?_⟩
    · exact (isAuthorityByte_userinfo_iff h.password_nil).mpr ⟨hu, hw⟩
    · rcases mem_options.mp hkv with rfl | ⟨-, rfl⟩ | ⟨-, rfl⟩
      · exact hoptions.1
      · exact hoptions.2.1
      · decide

theorem values_of_settings {c c' : DbConfig} {u w u' w' : Bytes}
    (h : c.settings u w = c'.settings u' w') :
    (c.host, c.port, u, w, c.database, c.effectiveSSLMode) =
      (c'.host, c'.port, u', w', c'.database, c'.effectiveSSLMode) := by
  simp only [DbConfig.settings, List.cons.injEq, Prod.mk.injEq, true_and, and_true] at h ⊢
  obtain ⟨hhost, hport, hrest⟩ := h
  exact ⟨hhost, decimal_injective hport, hrest⟩

theorem replicaSet_eq_lookup (c : MongoConfig) (u w : Bytes) :
    c.replicaSet = ((c.parts u w).options.lookup (chars "replicaSet")).getD [] := by
  have hsource : (chars "replicaSet" == chars "authSource") = false := by decide
  have htls : (chars "replicaSet" == chars "tls") = false := by decide
  by_cases hr : c.replicaSet = [] <;> cases ht : c.tlsEnabled <;>
    simp [MongoConfig.parts, List.lookup_cons, hr, ht, hsource, htls]

theorem tlsEnabled_eq_lookup (c : MongoConfig) (u w : Bytes) :
    c.tlsEnabled = ((c.parts u w).options.lookup (chars "tls")).isSome := by
  have hsource : (chars "tls" == chars "authSource") = false := by decide
  have hset : (chars "tls" == chars "replicaSet") = false := by decide
  by_cases hr : c.replicaSet = [] <;> cases ht : c.tlsEnabled <;>
    simp [MongoConfig.parts, List.lookup_cons, hr, ht, hsource, hset]

theorem config_of_parts {c c' : MongoConfig} {u w u' w' : Bytes}
    (h : c.parts u w = c'.parts u' w') : c = c' ∧ u = u' ∧ w = w' := by
  have hset : c.replicaSet = c'.replicaSet := by
    rw [replicaSet_eq_lookup c u w, h, ← replicaSet_eq_lookup c' u' w']
  have htls : c.tlsEnabled = c'.tlsEnabled := by
    rw [tlsEnabled_eq_lookup c u w, h, ← tlsEnabled_eq_lookup c' u' w']
  simp only [MongoConfig.parts, UriParts.Parts.mk.injEq, List.cons.injEq, Prod.mk.injEq,
    true_and] at h
  obtain ⟨hu, hw, hhost, hport, hdatabase, hsource, -⟩ := h
  refine ⟨?_, hu, hw⟩
  cases c
  cases c'
  simp only [MongoConfig.mk.injEq]
  exact ⟨hhost, decimal_injective hport, hdatabase, hset, hsource, htls⟩

end ConnStringsLemmas

open ConnStringsLemmas

/-- Reading the PostgreSQL text by the keyword/value rules gives the configured settings exactly
if every value is plain: not empty, not started by a quote, without blanks and backslashes. -/
theorem postgres_reads_back_iff (c : DbConfig) (username password : Bytes) :
    c.ReadsBack username password ↔ c.PlainValues username password := by
  have hlast : ∀ kv ∈ (c.settings username password).getLast?, kv.2 ≠ [] := by
    intro kv hkv
    cases hkv
    exact effectiveSSLMode_ne_nil c
  have hread : c.ReadsBack username password ↔
      ConnInfo.parse (ConnInfo.render (c.settings username password)) =
        some (c.settings username password) := by
    simp [DbConfig.ReadsBack, render_settings]
  rw [hread, ConnInfo.parse_render_iff (plainKey_settings c username password) hlast]
  simp [DbConfig.settings, DbConfig.PlainValues, plainValue_decimal]

/-- Reading the URI gives the configured parts exactly if no value has a mark that ends it or a
percent sign, and there is no password without a user. -/
theorem mongo_reads_back_iff (c : MongoConfig) (username password : Bytes) :
    c.ReadsBack username password ↔ c.PlainValues username password := by
  rw [MongoConfig.ReadsBack, print_parts, UriParts.read_print_iff (plainPort_decimal c.port)
    (List.cons_ne_nil _ _) (plainKey_options c username password), plain_parts_iff]

/-- For every configuration of either kind, with the defaults of `Configure`, and every user:
the configured values are read from the PostgreSQL text and from the MongoDB URI exactly if they
are plain, and no other plain values have the same string. -/
theorem connection_strings_iff (c : DbConfig) (m : MongoConfig) (username password : Bytes) :
    ((c.configure .postgresql).ReadsBack username password ↔
      (c.configure .postgresql).PlainValues username password) ∧
    (m.configure.ReadsBack username password ↔ m.configure.PlainValues username password) ∧
    (∀ (c' : DbConfig) (username' password' : Bytes),
      c.PlainValues username password → c'.PlainValues username' password' →
      buildDSN .postgresql c username password = buildDSN .postgresql c' username' password' →
      (c.host, c.port, username, password, c.database, c.effectiveSSLMode) =
        (c'.host, c'.port, username', password', c'.database, c'.effectiveSSLMode)) ∧
    ∀ (m' : MongoConfig) (username' password' : Bytes),
      m.PlainValues username password → m'.PlainValues username' password' →
      m.buildURI username password = m'.buildURI username' password' →
      m = m' ∧ username = username' ∧ password = password' := by
  refine ⟨postgres_reads_back_iff _ _ _, mongo_reads_back_iff _ _ _, ?_, ?_⟩
  · intro c' username' password' h h' heq
    obtain ⟨dsn, hdsn, hread⟩ := (postgres_reads_back_iff c username password).mpr h
    obtain ⟨dsn', hdsn', hread'⟩ := (postgres_reads_back_iff c' username' password').mpr h'
    rw [← heq, hdsn] at hdsn'
    cases hdsn'
    exact values_of_settings (Option.some_inj.mp (hread.symm.trans hread'))
  · intro m' username' password' h h' heq
    have hread := (mongo_reads_back_iff m username password).mpr h
    have hread' := (mongo_reads_back_iff m' username' password').mpr h'
    rw [MongoConfig.ReadsBack, heq] at hread
    exact config_of_parts (Option.some_inj.mp (hread.symm.trans hread'))

def orders : DbConfig := { host := chars "db", port := 5432, database := chars "app",
                           sslMode := chars "require" }

def events : MongoConfig := { host := chars "db", port := 27017, database := chars "app",
                              authSource := chars "admin" }

/-- A password with a space sets the host again, one with a slash ends the authority, and a
part of the password may as well be one of the database. -/
theorem values_introduce_settings :
    (∃ dsn, buildDSN .postgresql orders (chars "app") (chars "x host=evil") =
        .ok (dsn, chars "pgx") ∧
      ConnInfo.parse dsn = some [(chars "host", chars "db"), (chars "port", chars "5432"),
        (chars "user", chars "app"), (chars "password", chars "x"), (chars "host", chars "evil"),
        (chars "dbname", chars "app"), (chars "sslmode", chars "require")]) ∧
    (UriParts.read (chars "mongodb://") (events.buildURI (chars "app") (chars "p/w"))).map
      (fun p => (p.username, p.host, p.port, p.path)) =
        some ([], chars "app", chars "p", chars "w@db:27017/app") ∧
    buildDSN .postgresql orders (chars "app") (chars "x dbname=other") =
      buildDSN .postgresql { orders with database := chars "other dbname=app" } (chars "app")
        (chars "x") :=
  ⟨⟨_, rfl, by decide +kernel⟩, by decide +kernel, by decide +kernel⟩

end Forager
