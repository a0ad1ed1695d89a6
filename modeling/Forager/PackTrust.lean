import Forager.DiscoveryConfig
import Forager.Runs

/-!
# Content packs across reconfiguration

`resolvePack`, `verifyPack`, `Close` and the start of `handleInventory` of
`pkg/proxy/discovery/proxy.go`, with `Configure`, as operations on one proxy.
Verified packs are cached by version. `Configure` neither drops them nor, without
a key in the new configuration, the key of the old one.
-/

namespace Forager

open Go GoJson GoNet
open GoText (Bytes ascii)

/-! ## Resolving a pack -/

def intParam (params : StrMap Any) (key : String) : Option Int :=
  match params.get key with
  | some (.float f) => some f.toInt
  | some (.int n) => some n
  | _ => none

inductive ResolveError
  | versionRequired
  | versionNotPositive (version : Int)
  | noPackDir (version : Int)
  | load (version : Int) (err : String)
  | noPackKey
  | verify (err : PackError)
  | versionMismatch (requested declared : Int)
deriving DecidableEq, Repr

def verifyPack (tools : PackTools) (p : DiscoveryState) (raw : Bytes) :
    Except ResolveError Pack :=
  match p.packPubKey with
  | none => .error .noPackKey
  | some pubKey => match parseAndVerify tools raw pubKey with
    | .error err => .error (.verify err)
    | .ok pack => .ok pack

/-- `resolvePack`: the proxy afterwards, and the pack. `readFile` reads the pack
file of a version in a directory. -/
def resolvePack (tools : PackTools) (readFile : String → Int → Except String Bytes)
    (params : StrMap Any) (p : DiscoveryState) : DiscoveryState × Except ResolveError Pack :=
  match intParam params "content_pack_version" with
  | none => (p, .error .versionRequired)
  | some version =>
    if version ≤ 0 then (p, .error (.versionNotPositive version))
    else match p.packs.lookup version with
      | some cached => (p, .ok cached)
      | none =>
        if p.cfg.packDir = "" then (p, .error (.noPackDir version))
        else match readFile p.cfg.packDir version with
          | .error err => (p, .error (.load version err))
          | .ok raw => match verifyPack tools p raw with
            | .error err => (p, .error err)
            | .ok pack =>
              if pack.version ≠ version then
                (p, .error (.versionMismatch version pack.version))
              else ({ p with packs := (version, pack) :: p.packs }, .ok pack)

inductive InventoryError
  | targets (err : SweepError)
  | noTargets
  | tooManyTargets (n : Nat)
  | pack (err : ResolveError)
  | noSshCredentials
deriving DecidableEq, Repr

def maxTargetsPerRequest : Nat := 5000

/-- What `handleInventory` runs: the pack, on the targets in scope, with the
client configuration. -/
structure InventoryRun where
  pack : Pack
  allowed : List String
  rejected : List String
  sshConfig : ClientConfig
  concurrency : Int
deriving DecidableEq, Repr

def effectiveConcurrency (cfg : DiscoveryConfig) (params : StrMap Any) : Int :=
  match intParam params "concurrency" with
  | some v => if v > 0 ∧ v ≤ 200 then v else cfg.concurrency
  | none => cfg.concurrency

def handleInventory (tools : PackTools) (readFile : String → Int → Except String Bytes)
    (lookupHost : String → Option (List String)) (params : StrMap Any) (p : DiscoveryState) :
    DiscoveryState × Except InventoryError InventoryRun :=
  match stringSliceParam params "targets" with
  | .error err => (p, .error (.targets err))
  | .ok targets =>
    if targets.length = 0 then (p, .error .noTargets)
    else if targets.length > maxTargetsPerRequest then (p, .error (.tooManyTargets targets.length))
    else match resolvePack tools readFile params p with
      | (p, .error err) => (p, .error (.pack err))
      | (p, .ok pack) => match p.sshConfig with
        | none => (p, .error .noSshCredentials)
        | some sshConfig =>
          let allowed := isTargetAllowed p.scope lookupHost
          (p, .ok {
            pack := pack
            allowed := targets.filter allowed
            rejected := targets.filter (¬ allowed ·)
            sshConfig := sshConfig
            concurrency := effectiveConcurrency p.cfg params })

def DiscoveryState.close (p : DiscoveryState) : DiscoveryState := { p with packs := [] }

/-! ## Runs of one proxy -/

/-- A call of `Configure`, `discovery_inventory` or `Close`, with what the
outside answers meanwhile. -/
inductive ProxyOp
  | configure (env : ConfigEnv) (config : StrMap Any) (creds : Creds)
  | inventory (readFile : String → Int → Except String Bytes)
      (lookupHost : String → Option (List String)) (params : StrMap Any)
  | close

/-- The key that a configuration supplies: `none` without one. A configuration
that does not decode, or with a key that does not parse, supplies nothing. -/
def suppliedKey (env : ConfigEnv) (config : StrMap Any) (creds : Creds) : Option (Option Bytes) :=
  let decoded := remarshal .zero discoveryFields config
  let packKey := packKeyText decoded.1 creds
  if ¬ decoded.2 then none
  else if packKey = "" then some none
  else (parsePublicKey env packKey).toOption.map some

/-- A proxy, and the key supplied by the last `Configure` that succeeded. -/
structure History where
  proxy : DiscoveryState
  lastKey : Option (Option Bytes)

def History.start : History := ⟨.new, none⟩

def History.step (tools : PackTools) (h : History) : ProxyOp → History
  | .configure env config creds =>
    let r := configure env config creds h.proxy
    ⟨r.1, match r.2 with
      | .ok () => suppliedKey env config creds
      | .error _ => h.lastKey⟩
  | .inventory readFile lookupHost params =>
    ⟨(handleInventory tools readFile lookupHost params h.proxy).1, h.lastKey⟩
  | .close => ⟨h.proxy.close, h.lastKey⟩

def History.run (tools : PackTools) (ops : List ProxyOp) : History :=
  Runs.Run (History.step tools) .start ops

/-- A configuration supplies what the proxy already has, the same key or none,
or it brings a key while no pack is cached. -/
def KeepsTrust (p : DiscoveryState) : ProxyOp → Prop
  | .configure env config creds => ∀ key, suppliedKey env config creds = some key →
      key = p.packPubKey ∨ key.isSome = true ∧ p.packs = []
  | _ => True

namespace PackTrustLemmas

variable {tools : PackTools} {h : History} {pack : Pack}

open ConfigureLemmas

/-- The pack declares the version and verified under the key. -/
def VerifiedFor (tools : PackTools) (key : Option Bytes) (version : Int) (pack : Pack) : Prop :=
  pack.version = version ∧ ∃ k raw, key = some k ∧ parseAndVerify tools raw k = .ok pack

/-- The proxy holds the key of the last configuration, and its packs verified
under that key. -/
structure Trusted (tools : PackTools) (h : History) : Prop where
  key : h.lastKey.join = h.proxy.packPubKey
  packs : ∀ e ∈ h.proxy.packs, VerifiedFor tools h.proxy.packPubKey e.1 e.2

theorem verifyPack_ok {p : DiscoveryState} {raw : Bytes} (h : verifyPack tools p raw = .ok pack) :
    ∃ k, p.packPubKey = some k ∧ parseAndVerify tools raw k = .ok pack := by
  unfold verifyPack at h
  split at h
  · cases h
  · next k hk =>
    split at h
    · cases h
    · next hpack =>
      cases h
      exact ⟨k, hk, hpack⟩

/-- A pack that is returned comes from the cache, or verified under the key the proxy holds. -/
theorem resolvePack_ok {readFile : String → Int → Except String Bytes} {params : StrMap Any}
    {p : DiscoveryState} (h : (resolvePack tools readFile params p).2 = .ok pack) :
    ∃ version, intParam params "content_pack_version" = some version ∧
      ((version, pack) ∈ p.packs ∨ VerifiedFor tools p.packPubKey version pack) := by
  unfold resolvePack at h
  split at h
  · cases h
  · next version hversion =>
    refine ⟨version, hversion, ?_⟩
    split at h
    · cases h
    · split at h
      · next cached hcached =>
        cases h
        obtain ⟨l₁, l₂, hl, -⟩ := List.lookup_eq_some_iff.mp hcached
        exact .inl (hl ▸ by simp)
      · split at h
        · cases h
        · split at h
          · cases h
          · next raw _ =>
            split at h
            · cases h
            · next hverify =>
              split at h
              · cases h
              · next hdeclared =>
                cases h
                obtain ⟨k, hk, hpack⟩ := verifyPack_ok hverify
                exact .inr ⟨not_not.mp hdeclared, k, raw, hk, hpack⟩

theorem resolvePack_state (tools : PackTools) (readFile : String → Int → Except String Bytes)
    (params : StrMap Any) (p : DiscoveryState) :
    (resolvePack tools readFile params p).1 = p ∨
      ∃ version pack, VerifiedFor tools p.packPubKey version pack ∧
        (resolvePack tools readFile params p).1 =
          { p with packs := (version, pack) :: p.packs } := by
  unfold resolvePack
  split
  · exact .inl rfl
  · next version _ =>
    split
    · exact .inl rfl
    · split
      · exact .inl rfl
      · split
        · exact .inl rfl
        · split
          · exact .inl rfl
          · next raw _ =>
            split
            · exact .inl rfl
            · next pack hverify =>
              split
              · exact .inl rfl
              · next hdeclared =>
                obtain ⟨k, hk, hpack⟩ := verifyPack_ok hverify
                exact .inr ⟨version, pack, ⟨not_not.mp hdeclared, k, raw, hk, hpack⟩, rfl⟩

theorem handleInventory_state (tools : PackTools) (readFile : String → Int → Except String Bytes)
    (lookupHost : String → Option (List String)) (params : StrMap Any) (p : DiscoveryState) :
    (handleInventory tools readFile lookupHost params p).1 = p ∨
      (handleInventory tools readFile lookupHost params p).1 =
        (resolvePack tools readFile params p).1 := by
  unfold handleInventory
  split
  · exact .inl rfl
  · split
    · exact .inl rfl
    · split
      · exact .inl rfl
      · right
        split
        · next heq => rw [heq]
        · next heq =>
          split <;> rw [heq]

theorem trusted_cache (ht : Trusted tools h) {version : Int}
    (hpack : VerifiedFor tools h.proxy.packPubKey version pack) :
    Trusted tools ⟨{ h.proxy with packs := (version, pack) :: h.proxy.packs }, h.lastKey⟩ where
  key := ht.key
  packs := by
    intro e he
    rcases List.mem_cons.mp he with rfl | he
    · exact hpack
    · exact ht.packs e he

theorem trusted_inventory (ht : Trusted tools h) (readFile : String → Int → Except String Bytes)
    (lookupHost : String → Option (List String)) (params : StrMap Any) :
    Trusted tools (h.step tools (.inventory readFile lookupHost params)) := by
  show Trusted tools ⟨(handleInventory tools readFile lookupHost params h.proxy).1, h.lastKey⟩
  rcases handleInventory_state tools readFile lookupHost params h.proxy with heq | heq
  · rw [heq]
    exact ht
  · rw [heq]
    rcases resolvePack_state tools readFile params h.proxy with heq' | ⟨version, pack, hpack, heq'⟩
    · rw [heq']
      exact ht
    · rw [heq']
      exact trusted_cache ht hpack

theorem packPubKey_configure (env : ConfigEnv) (config : StrMap Any) (creds : Creds)
    (p : DiscoveryState) (h : (configure env config creds p).2 = .ok ()) :
    ∃ key, suppliedKey env config creds = some key ∧
      (configure env config creds p).1.packPubKey = key.or p.packPubKey := by
  obtain ⟨-, ⟨-, hdecoded, -, hkey⟩ | ⟨hfailed, -⟩⟩ := configure_cases env config creds p
  · unfold suppliedKey
    rcases hkey with ⟨hempty, hsame⟩ | ⟨pub, hne, hpub, hnew⟩
    · exact ⟨none, by simp [hdecoded, hempty], hsame⟩
    · exact ⟨some pub, by simp [hdecoded, hne, hpub, Except.toOption], hnew⟩
  · exact absurd h hfailed

theorem trusted_configure (ht : Trusted tools h) (env : ConfigEnv) (config : StrMap Any)
    (creds : Creds) (hkeeps : KeepsTrust h.proxy (.configure env config creds)) :
    Trusted tools (h.step tools (.configure env config creds)) := by
  obtain ⟨hpacks, hcases⟩ := configure_cases env config creds h.proxy
  have hkey := packPubKey_configure env config creds h.proxy
  unfold History.step
  dsimp only at hpacks hcases ⊢
  generalize configure env config creds h.proxy = r at hpacks hcases hkey ⊢
  obtain ⟨p', res⟩ := r
  cases res with
  | error err =>
    obtain ⟨hok, -⟩ | ⟨-, hsame⟩ := hcases
    · cases hok
    · exact ⟨ht.key.trans hsame.symm, fun e he => hsame ▸ ht.packs e (hpacks ▸ he)⟩
  | ok u =>
    obtain ⟨key, hsupplied, hnew⟩ := hkey rfl
    dsimp only at hpacks hnew ⊢
    rw [hsupplied]
    rcases hkeeps key hsupplied with rfl | ⟨hsome, hempty⟩
    · -- the key that is held already
      have hsame : p'.packPubKey = h.proxy.packPubKey := by simpa using hnew
      exact ⟨hsame.symm, fun e he => hsame ▸ ht.packs e (hpacks ▸ he)⟩
    · -- a key, and no pack to verify under it
      obtain ⟨k, rfl⟩ := Option.isSome_iff_exists.mp hsome
      refine ⟨hnew.symm, fun e he => ?_⟩
      rw [hpacks, hempty] at he
      cases he

theorem step_trusted (ht : Trusted tools h) {op : ProxyOp} (hkeeps : KeepsTrust h.proxy op) :
    Trusted tools (h.step tools op) := by
  cases op with
  | configure env config creds => exact trusted_configure ht env config creds hkeeps
  | inventory readFile lookupHost params => exact trusted_inventory ht readFile lookupHost params
  | close => exact ⟨ht.key, fun e he => by cases he⟩

theorem run_trusted {ops : List ProxyOp}
    (hkeeps : ∀ pre op, pre ++ [op] <+: ops → KeepsTrust (History.run tools pre).proxy op) :
    Trusted tools (History.run tools ops) := by
  refine Runs.run_invariant (fun ops => Trusted tools (History.run tools ops))
    (fun pre op => KeepsTrust (History.run tools pre).proxy op) ?_ ?_ hkeeps
  · exact ⟨rfl, fun e he => by cases he⟩
  · intro pre op hop ht
    rw [History.run, Runs.run_snoc]
    exact step_trusted ht hop

end PackTrustLemmas

/-! ## Results -/

open PackTrustLemmas in
/-- After every run whose configurations keep trust, a pack that `resolvePack`
returns declares the version asked for, and verified under the key of the last
successful `Configure`, which supplied one. -/
theorem resolved_pack_trusted (tools : PackTools) (ops : List ProxyOp)
    (hkeeps : ∀ pre op, pre ++ [op] <+: ops → KeepsTrust (History.run tools pre).proxy op)
    (readFile : String → Int → Except String Bytes) (params : StrMap Any) (pack : Pack)
    (h : (resolvePack tools readFile params (History.run tools ops).proxy).2 = .ok pack) :
    ∃ version key raw, intParam params "content_pack_version" = some version ∧
      pack.version = version ∧ (History.run tools ops).lastKey = some (some key) ∧
      parseAndVerify tools raw key = .ok pack := by
  have ht := run_trusted hkeeps
  obtain ⟨version, hversion, hpack⟩ := resolvePack_ok h
  obtain ⟨hdeclared, key, raw, hkey, hverified⟩ :
      VerifiedFor tools (History.run tools ops).proxy.packPubKey version pack := by
    rcases hpack with hcached | hverified
    · exact ht.packs _ hcached
    · exact hverified
  refine ⟨version, key, raw, hversion, hdeclared, ?_, hverified⟩
  rw [← ht.key] at hkey
  exact Option.join_eq_some_iff.mp hkey

def firstKey : Bytes := List.replicate 32 1
def secondKey : Bytes := List.replicate 32 2

/-- A parser that reads `osPack`, whose signature is one of the first key. -/
def firstKeyTools : PackTools where
  unmarshal _ := .ok osPack
  verify key _ _ := key = firstKey

/-- Keys are given in base64, and the pack file holds `plainPack`. -/
def base64Env : ConfigEnv where
  authorizedKey _ := .error "unknown key"
  pemKey _ := none
  privateKeyErr _ _ := none
  knownHostsErr _ := none

def keyConfig (key : Bytes) : StrMap Any :=
  [("pack_dir", .string "/packs"), ("pack_public_key", .string (String.ofList (Base64.encode key)))]

def keylessConfig : StrMap Any := [("pack_dir", .string "/packs")]

def versionOne : StrMap Any :=
  [("content_pack_version", .int 1), ("targets", .strings ["10.0.0.5"])]

/-- The pack that an inventory cached, after a second `Configure` with the same key; the
file is gone. -/
theorem resolved_pack_trusted_cached :
    let ops : List ProxyOp := [.configure base64Env (keyConfig firstKey) [],
      .inventory (fun _ _ => .ok plainPack) (fun _ => none) versionOne,
      .configure base64Env (keyConfig firstKey) []]
    ∃ version key raw, intParam versionOne "content_pack_version" = some version ∧
      osPack.version = version ∧ (History.run firstKeyTools ops).lastKey = some (some key) ∧
      parseAndVerify firstKeyTools raw key = .ok osPack := by
  intro ops
  refine resolved_pack_trusted firstKeyTools ops ?_ (fun _ _ => .error "no such file") versionOne
    osPack (by decide +kernel)
  intro pre op hpre
  have hsupplied : suppliedKey base64Env (keyConfig firstKey) [] = some (some firstKey) := by
    decide +kernel
  obtain ⟨n, hn, hop, rfl⟩ := Runs.snoc_prefix_take hpre
  replace hn : n < 3 := hn
  obtain rfl | rfl | rfl : n = 0 ∨ n = 1 ∨ n = 2 := by omega
  all_goals cases hop
  · intro key hkey
    cases hsupplied.symm.trans hkey
    exact .inr ⟨rfl, rfl⟩
  · trivial
  · intro key hkey
    cases hsupplied.symm.trans hkey
    exact .inl (by decide +kernel)

/-- A pack cached under the first key is returned although the last `Configure`
supplied the second, under which nothing verifies; and a pack is returned
although the last `Configure` supplied no key. -/
theorem stale_pack_returned :
    let read : String → Int → Except String Bytes := fun _ _ => .ok plainPack
    let replaced := History.run firstKeyTools [.configure base64Env (keyConfig firstKey) [],
      .inventory read (fun _ => none) versionOne, .configure base64Env (keyConfig secondKey) []]
    let dropped := History.run firstKeyTools [.configure base64Env (keyConfig firstKey) [],
      .configure base64Env keylessConfig []]
    ((resolvePack firstKeyTools read versionOne replaced.proxy).2 = .ok osPack ∧
      replaced.lastKey = some (some secondKey) ∧
      ∀ raw, parseAndVerify firstKeyTools raw secondKey ≠ .ok osPack) ∧
    (resolvePack firstKeyTools read versionOne dropped.proxy).2 = .ok osPack ∧
      dropped.lastKey = some none := by
  refine ⟨⟨by decide +kernel, by decide +kernel, fun raw => ?_⟩, by decide +kernel,
    by decide +kernel⟩
  have hverify : ∀ body sig, firstKeyTools.verify secondKey body sig = false := by
    intro body sig
    exact decide_eq_false (show secondKey ≠ firstKey by decide)
  have hunmarshal : firstKeyTools.unmarshal raw = .ok osPack := rfl
  have hsig : Base64.decode osPack.signature.toList = some (ascii "sig") := by decide
  unfold parseAndVerify
  split
  · simp
  · split
    · simp
    · simp only [hunmarshal, hverify]
      split
      · simp
      · split
        · simp
        · split
          · simp
          · rw [hsig]
            simp

end Forager
