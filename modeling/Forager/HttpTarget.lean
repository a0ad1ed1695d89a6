import Forager.GoUrlPrint

/-!
# The target of a proxied HTTP request

`resolveTargetURL` of `pkg/proxy/http/proxy.go`: the path, query and fragment of
the request are put on the scheme, user and host of the `base_url` that
`Configure` accepted, the URL is printed, and the HTTP client parses the text
again.
-/

namespace Forager

open GoUrl

/-- Why `Configure` rejects a `base_url`. -/
inductive BaseError
  | required
  | invalid (err : UrlError)
  | scheme (scheme : List UInt8)
  | host
deriving DecidableEq, Repr

/-- `Configure` up to the base: `baseURL` is empty if the config has no `base_url`. -/
def configureBase (baseURL : List UInt8) : Except BaseError URL :=
  if baseURL = [] then .error .required
  else match parse baseURL with
    | .error err => .error (.invalid err)
    | .ok base =>
      if base.scheme ≠ chars "http" ∧ base.scheme ≠ chars "https" then .error (.scheme base.scheme)
      else if base.hostname = [] then .error .host
      else .ok base

inductive TargetError
  | notConfigured
  | invalid (err : UrlError)
  | notRelative
deriving DecidableEq, Repr

def targetURL (base ref : URL) : URL :=
  let refPath := if base.path.getLast? = some slash ∧ ref.path.head? = some slash
    then ref.path.drop 1 else ref.path
  { scheme := base.scheme
    user := base.user
    host := base.host
    path := base.path ++ refPath
    rawQuery := ref.rawQuery
    fragment := ref.fragment }

def resolveTargetURL (base : Option URL) (reqURL : List UInt8) : Except TargetError (List UInt8) :=
  match base with
  | none => .error .notConfigured
  | some base =>
    match parse reqURL with
    | .error err => .error (.invalid err)
    | .ok ref =>
      if ref.scheme ≠ [] ∨ ref.host ≠ [] then .error .notRelative
      else .ok (targetURL base ref).string

namespace HttpTargetLemmas

theorem configureBase_ok {baseURL : List UInt8} {base : URL}
    (h : configureBase baseURL = .ok base) :
    parse baseURL = .ok base ∧ (base.scheme = chars "http" ∨ base.scheme = chars "https") ∧
      base.host ≠ [] := by
  unfold configureBase at h
  split at h
  · cases h
  · split at h
    · cases h
    · next parsed hparse =>
      split at h
      · cases h
      · next hscheme =>
        split at h
        · cases h
        · next hhost =>
          cases h
          refine ⟨hparse, ?_, ?_⟩
          · rwa [ne_eq, ne_eq, not_and_or, not_not, not_not] at hscheme
          · intro hnil
            refine hhost ?_
            rw [URL.hostname, hnil]
            rfl

theorem resolveTargetURL_ok {base : URL} {reqURL t : List UInt8}
    (h : resolveTargetURL (some base) reqURL = .ok t) :
    ∃ ref, parse reqURL = .ok ref ∧ t = (targetURL base ref).string := by
  unfold resolveTargetURL at h
  dsimp only at h
  split at h
  · cases h
  · next ref href =>
    split at h
    · cases h
    · cases h
      exact ⟨ref, href, rfl⟩

theorem plainScheme_web {scheme : List UInt8}
    (h : scheme = chars "http" ∨ scheme = chars "https") :
    PlainScheme scheme ∧ scheme ∉ hostListSchemes := by
  rcases h with rfl | rfl
  · exact ⟨⟨by decide, fun _ => rfl, by decide +kernel, List.all_iff_forall_prop.mp (by decide)⟩,
      by decide⟩
  · exact ⟨⟨by decide, fun _ => rfl, by decide +kernel, List.all_iff_forall_prop.mp (by decide)⟩,
      by decide⟩

/-- The URL that is printed has the scheme, user and host of the base and no hints on its
encoding. -/
theorem target_plain {baseURL reqURL : List UInt8} {base ref : URL}
    (hbase : configureBase baseURL = .ok base) (href : parse reqURL = .ok ref) :
    Plain (targetURL base ref) := by
  obtain ⟨-, hscheme, hhost⟩ := configureBase_ok hbase
  exact ⟨(plainScheme_web hscheme).1, hhost, rfl, rfl, rfl, (parse_ok href).2⟩

theorem origin_iff {t : List UInt8} {base : URL} :
    (∃ u, parse t = .ok u ∧ u.scheme = base.scheme ∧ u.user = base.user ∧ u.host = base.host) ↔
      (parse t).map URL.origin = .ok (base.scheme, base.user, base.host) := by
  cases parse t with
  | error e => simp [Except.map]
  | ok u => simp [Except.map, URL.origin]

end HttpTargetLemmas

open HttpTargetLemmas in
/-- A target leads to the scheme, user and host of the base exactly when the host of the
base is no bracketed address with a zone outside plain ASCII. -/
theorem target_keeps_base_iff (baseURL reqURL t : List UInt8) (base : URL)
    (hbase : configureBase baseURL = .ok base)
    (ht : resolveTargetURL (some base) reqURL = .ok t) :
    (∃ u, parse t = .ok u ∧ u.scheme = base.scheme ∧ u.user = base.user ∧ u.host = base.host) ↔
      PlainZone base.host := by
  obtain ⟨hparse, hscheme, hhost⟩ := configureBase_ok hbase
  obtain ⟨hplain, hlist⟩ := plainScheme_web hscheme
  obtain ⟨ref, href, rfl⟩ := resolveTargetURL_ok ht
  obtain ⟨raw, hraw⟩ := (parse_ok hparse).1 hhost
  rw [origin_iff, parse_string (target_plain hbase href),
    ← parseHost_escape_iff hlist (parseHost_parsed hlist hraw)]
  show (parseHost base.scheme (escape .host base.host)).map _ = _ ↔ _
  cases parseHost base.scheme (escape .host base.host) with
  | error e => simp [Except.map]
  | ok h => simp [Except.map, targetURL]

def plainBase : List UInt8 := chars "http://u:p@10.0.0.5:8080/api/"

def plainBaseURL : URL :=
  { scheme := chars "http"
    user := some ⟨chars "u", some (chars "p")⟩
    host := chars "10.0.0.5:8080"
    path := chars "/api/" }

theorem target_keeps_plainBase :
    ∃ u, parse (chars "http://u:p@10.0.0.5:8080/api/@evil.com//x%3F?q=//evil.com%23f") = .ok u ∧
      u.scheme = chars "http" ∧ u.user = some ⟨chars "u", some (chars "p")⟩ ∧
      u.host = chars "10.0.0.5:8080" :=
  (target_keeps_base_iff plainBase (chars "/@evil.com//x%3f?q=//evil.com%23f") _ plainBaseURL
    (by decide +kernel) (by decide +kernel)).mpr (by decide +kernel)

def zonedBase : List UInt8 := chars "http://[fe80::1%25" ++ [0xC3, 0xA9] ++ chars "]/"

def zonedBaseURL : URL :=
  { scheme := chars "http"
    host := chars "[fe80::1%" ++ [0xC3, 0xA9] ++ chars "]"
    path := chars "/" }

/-- Not in general: the zone is accepted as it stands in `base_url`, and not in the escaped
form it is printed in. -/
theorem target_unreadable :
    configureBase zonedBase = .ok zonedBaseURL ∧
    resolveTargetURL (some zonedBaseURL) (chars "/x") = .ok (chars "http://[fe80::1%25%C3%A9]/x") ∧
    parse (chars "http://[fe80::1%25%C3%A9]/x") = .error (.escape (chars "%C3")) := by
  decide +kernel

end Forager
