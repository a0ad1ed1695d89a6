import Forager.GoUrlPath
import Forager.HttpTarget

/-!
# The path of a proxied HTTP request

`resolveTargetURL` of `pkg/proxy/http/proxy.go` joins the decoded paths of `base_url`
and of the request, and the URL it prints encodes the result anew.
-/

namespace Forager

open GoUrl
open GoText (Bytes)

/-- The path of a request after that of the base: where both have a slash, one is dropped. -/
def afterBase (base ref : Bytes) : Bytes :=
  if base.getLast? = some slash ∧ ref.head? = some slash then ref.drop 1 else ref

/-- A path next to a host, with a slash in front if it has none. -/
def withRoot (path : Bytes) : Bytes :=
  if path ≠ [] ∧ path.head? ≠ some slash then slash :: path else path

def joinPath (base ref : Bytes) : Bytes := withRoot (base ++ afterBase base ref)

/-- What the target of a request is to be: its escaped path is the joined text of the
escaped paths of the base and of the request. -/
def PathForwarded (base ref : URL) (t : Bytes) : Prop :=
  ∃ u, parse t = .ok u ∧ u.escapedPath = joinPath base.escapedPath ref.escapedPath

/-- Two requests and their targets. -/
structure PathsVerbatim (base ref₁ ref₂ : URL) (t₁ t₂ : Bytes) : Prop where
  first : PathForwarded base ref₁ t₁
  second : PathForwarded base ref₂ t₂
  apart : ref₁.escapedPath ≠ ref₂.escapedPath → t₁ ≠ t₂

/-- Both paths have the default encoding. The one path that has another when it stands
alone is `*`. -/
def DefaultPaths (base ref : URL) : Prop :=
  (base.escapedPath = escape .path base.path ∧ ref.escapedPath = escape .path ref.path) ∨
    (base.path = [] ∧ ref.escapedPath = chars "*")

/-- The requests differ only in the slash that is dropped or put in. -/
def SlashApart (base ref₁ ref₂ : URL) : Prop :=
  ref₁.escapedPath ≠ ref₂.escapedPath ∧
    joinPath base.escapedPath ref₁.escapedPath = joinPath base.escapedPath ref₂.escapedPath ∧
    ref₁.rawQuery = ref₂.rawQuery ∧ ref₁.fragment = ref₂.fragment

namespace HttpPathLemmas

open HttpTargetLemmas

variable {base ref ref₁ ref₂ : URL} {p : Bytes}

theorem printedPath_eq (u : URL) : u.printedPath = withRoot u.escapedPath := by
  unfold URL.printedPath withRoot
  split <;> rfl

theorem withRoot_of_head {path : Bytes} (h : path.head? = some slash) : withRoot path = path :=
  if_neg fun hne => hne.2 h

theorem withRoot_inj {x y r : Bytes} (hx : unescape .path x = .ok r) (hy : unescape .path y = .ok r)
    (h : withRoot x = withRoot y) : x = y := by
  have hslash : ∀ {a b : Bytes}, unescape .path a = .ok r → unescape .path b = .ok r →
      slash :: a ≠ b := by
    rintro a b ha hb rfl
    rw [unescape_slash_cons, ha] at hb
    exact List.cons_ne_self _ _ (Except.ok.inj hb)
  unfold withRoot at h
  split at h <;> split at h
  · exact (List.cons.inj h).2
  · exact absurd h (hslash hx hy)
  · exact absurd h.symm (hslash hy hx)
  · exact h

theorem escape_head (s : Bytes) : (escape .path s).head? = some slash ↔ s.head? = some slash := by
  cases s with
  | nil => simp [escape]
  | cons c s =>
    have hbyte : ∀ c, escapeByte .path c ≠ [] ∧
        ((escapeByte .path c).head? = some slash ↔ c = slash) := forall_byte (by decide +kernel)
    rw [escape_cons, List.head?_append_of_ne_nil _ (hbyte c).1, (hbyte c).2]
    simp

theorem escape_getLast (s : Bytes) :
    (escape .path s).getLast? = some slash ↔ s.getLast? = some slash := by
  induction s using List.reverseRecOn with
  | nil => simp [escape]
  | append_singleton s c =>
    have hbyte : ∀ c, escapeByte .path c ≠ [] ∧
        ((escapeByte .path c).getLast? = some slash ↔ c = slash) := forall_byte (by decide +kernel)
    have hsingle : escape .path [c] = escapeByte .path c := List.flatMap_singleton ..
    rw [escape_append, hsingle, List.getLast?_append_of_ne_nil _ (hbyte c).1, (hbyte c).2]
    simp

theorem afterBase_escape (b r : Bytes) :
    afterBase (escape .path b) (escape .path r) = escape .path (afterBase b r) := by
  unfold afterBase
  simp only [escape_getLast, escape_head]
  split
  · next h =>
    obtain ⟨r', rfl⟩ := List.head?_eq_some_iff.mp h.2
    rfl
  · rfl

theorem unescape_escape_path (s : Bytes) : unescape .path (escape .path s) = .ok s :=
  unescape_escape (by decide) (by decide) fun b _ => survives_self (by decide) (by decide) b

theorem default_of_afterBase {e x r r' : Bytes} (hx : unescape .path x = .ok r)
    (h : escape .path r' = afterBase e x) : x = escape .path r := by
  have hread := unescape_escape_path r'
  rw [h] at hread
  unfold afterBase at h hread
  split at h
  · next hdrop =>
    obtain ⟨y, rfl⟩ := List.head?_eq_some_iff.mp hdrop.2
    rw [if_pos hdrop] at hread
    have hy : unescape .path y = .ok r' := hread
    rw [unescape_slash_cons, hy] at hx
    cases hx
    rw [escape_slash_cons, h]
    rfl
  · next hkeep =>
    rw [if_neg hkeep, hx] at hread
    cases hread
    exact h.symm

theorem printedPath_eq_iff_nil (hp : ReadPath ref p) (hb : base.path = [])
    (he : base.escapedPath = []) :
    (targetURL base ref).printedPath = joinPath base.escapedPath ref.escapedPath ↔
      DefaultPaths base ref := by
  have hpath : (targetURL base ref).path = ref.path := by
    show base.path ++ afterBase base.path ref.path = _
    rw [hb]
    rfl
  have hread := unescape_escapedPath (targetURL base ref)
  rw [hpath] at hread
  have hjoin : joinPath base.escapedPath ref.escapedPath = withRoot ref.escapedPath := by
    rw [he]
    rfl
  have hdefault : DefaultPaths base ref ↔
      ref.escapedPath = escape .path ref.path ∨ ref.escapedPath = chars "*" := by
    unfold DefaultPaths
    rw [hb, he]
    exact or_congr (and_iff_right rfl) (and_iff_right rfl)
  rw [printedPath_eq, hjoin, hdefault]
  rcases escapedPath_cases (targetURL base ref) with ⟨hne, -⟩ | ⟨hstar, htarget⟩ | ⟨hstar, htarget⟩
  · exact absurd rfl hne
  · rw [hpath] at hstar
    constructor
    · intro h
      exact .inr ((withRoot_inj hread (unescape_escapedPath ref) h).symm.trans htarget)
    · rintro (h | h)
      · exact absurd hstar (hp.ne_star h)
      · rw [h, htarget]
  · rw [hpath] at hstar htarget
    constructor
    · intro h
      exact .inl ((withRoot_inj hread (unescape_escapedPath ref) h).symm.trans htarget)
    · rintro (h | h)
      · rw [h, htarget]
      · have hr := unescape_escapedPath ref
        rw [h] at hr
        exact absurd (Except.ok.inj hr).symm hstar

theorem printedPath_eq_iff_root (hb : base.path.head? = some slash)
    (he : base.escapedPath.head? = some slash) :
    (targetURL base ref).printedPath = joinPath base.escapedPath ref.escapedPath ↔
      DefaultPaths base ref := by
  obtain ⟨b, hb⟩ := List.head?_eq_some_iff.mp hb
  obtain ⟨e, he⟩ := List.head?_eq_some_iff.mp he
  have htarget : (targetURL base ref).printedPath =
      escape .path base.path ++ escape .path (afterBase base.path ref.path) := by
    have hpath : (targetURL base ref).path = base.path ++ afterBase base.path ref.path := rfl
    rw [printedPath_eq]
    rcases escapedPath_cases (targetURL base ref) with ⟨hne, -⟩ | ⟨hstar, -⟩ | ⟨-, h⟩
    · exact absurd rfl hne
    · rw [hpath, hb] at hstar
      cases hstar
    · rw [h, hpath, escape_append]
      exact withRoot_of_head (by rw [hb]; rfl)
  have hjoin : joinPath base.escapedPath ref.escapedPath =
      base.escapedPath ++ afterBase base.escapedPath ref.escapedPath :=
    withRoot_of_head (by rw [he]; rfl)
  rw [htarget, hjoin]
  constructor
  · intro h
    obtain ⟨hbase, href⟩ := append_eq_of_unescape (by decide) (unescape_escape_path base.path)
      (unescape_escapedPath base) h
    exact .inl ⟨hbase.symm, default_of_afterBase (unescape_escapedPath ref) href⟩
  · rintro (⟨hbase, href⟩ | ⟨hnil, -⟩)
    · rw [hbase, href, afterBase_escape]
    · rw [hb] at hnil
      cases hnil

theorem printedPath_eq_iff {baseURL reqURL : Bytes} (hbase : configureBase baseURL = .ok base)
    (href : parse reqURL = .ok ref) :
    (targetURL base ref).printedPath = joinPath base.escapedPath ref.escapedPath ↔
      DefaultPaths base ref := by
  obtain ⟨hparse, -, hhost⟩ := configureBase_ok hbase
  obtain ⟨p, hp⟩ := exists_readPath hparse
  obtain ⟨q, hq⟩ := exists_readPath href
  rcases hp.shape hhost with ⟨hb, he⟩ | ⟨hb, he⟩
  · exact printedPath_eq_iff_nil hq hb he
  · exact printedPath_eq_iff_root hb he

/-! ## Two targets -/

theorem append_inj_of_notMem {c : UInt8} {x x' y y' : Bytes} (hx : c ∉ x) (hx' : c ∉ x')
    (hy : y = [] ∨ ∃ t, y = c :: t) (hy' : y' = [] ∨ ∃ t, y' = c :: t)
    (h : x ++ y = x' ++ y') : x = x' ∧ y = y' := by
  have hcut : ∀ {z w : Bytes}, c ∉ z → (w = [] ∨ ∃ t, w = c :: t) → (cut c (z ++ w)).1 = z := by
    rintro z w hz (rfl | ⟨t, rfl⟩)
    · rw [List.append_nil, cut_none hz]
    · rw [cut_append hz]
  have hfst : x = x' := by rw [← hcut hx hy, h, hcut hx' hy']
  subst hfst
  exact ⟨rfl, List.append_cancel_left h⟩

def printedQuery (query : Bytes) : Bytes := if query ≠ [] then question :: query else []

def printedFragment (fragment : Bytes) : Bytes :=
  if fragment ≠ [] then hash :: escape .fragment fragment else []

theorem printedQuery_shape (q : Bytes) :
    printedQuery q = [] ∨ ∃ t, printedQuery q = question :: t := by
  unfold printedQuery
  split
  · exact .inr ⟨q, rfl⟩
  · exact .inl rfl

theorem printedFragment_shape (f : Bytes) :
    printedFragment f = [] ∨ ∃ t, printedFragment f = hash :: t := by
  unfold printedFragment
  split
  · exact .inr ⟨_, rfl⟩
  · exact .inl rfl

theorem printedQuery_inj {q q' : Bytes} (h : printedQuery q = printedQuery q') : q = q' := by
  unfold printedQuery at h
  split at h <;> split at h
  · exact (List.cons.inj h).2
  · cases h
  · cases h
  · next hq hq' => rw [not_not.mp hq, not_not.mp hq']

theorem printedFragment_inj {f f' : Bytes} (h : printedFragment f = printedFragment f') :
    f = f' := by
  have hread : ∀ s : Bytes, unescape .fragment (escape .fragment s) = .ok s := fun s =>
    unescape_escape (by decide) (by decide) fun b _ => survives_self (by decide) (by decide) b
  unfold printedFragment at h
  split at h <;> split at h
  · have he := (List.cons.inj h).2
    exact Except.ok.inj ((hread f).symm.trans (he ▸ hread f'))
  · cases h
  · cases h
  · next hf hf' => rw [not_not.mp hf, not_not.mp hf']

theorem target_string (hplain : Plain (targetURL base ref)) :
    (targetURL base ref).string =
      (base.scheme ++ colon :: slash :: slash :: base.authority) ++
        (((targetURL base ref).printedPath ++ printedQuery ref.rawQuery) ++
          printedFragment ref.fragment) := by
  have hforce : (targetURL base ref).forceQuery = false := rfl
  have hscheme : (targetURL base ref).scheme = base.scheme := rfl
  have hauthority : (targetURL base ref).authority = base.authority := rfl
  have hquery : (targetURL base ref).rawQuery = ref.rawQuery := rfl
  have hfragment : (targetURL base ref).fragment = ref.fragment := rfl
  unfold URL.string printedQuery printedFragment
  rw [beforeQuery_eq hplain, escapedFragment_eq hplain, hscheme, hauthority, hquery, hfragment,
    hforce]
  simp

theorem quiet_target (hplain : Plain (targetURL base ref)) :
    question ∉ (targetURL base ref).printedPath ∧
      hash ∉ (targetURL base ref).printedPath ++ printedQuery ref.rawQuery := by
  refine ⟨notMem_printedPath hplain (by decide +kernel) (by decide) (by decide), ?_⟩
  rw [List.mem_append, not_or]
  refine ⟨notMem_printedPath hplain (by decide +kernel) (by decide) (by decide), ?_⟩
  unfold printedQuery
  split
  · rw [List.mem_cons, not_or]
    exact ⟨by decide, fun hmem => (hplain.query hash hmem).1 rfl⟩
  · exact List.not_mem_nil

theorem target_eq_iff (h₁ : Plain (targetURL base ref₁)) (h₂ : Plain (targetURL base ref₂)) :
    (targetURL base ref₁).string = (targetURL base ref₂).string ↔
      (targetURL base ref₁).printedPath = (targetURL base ref₂).printedPath ∧
        ref₁.rawQuery = ref₂.rawQuery ∧ ref₁.fragment = ref₂.fragment := by
  rw [target_string h₁, target_string h₂]
  constructor
  · intro h
    obtain ⟨hbody, hfragment⟩ := append_inj_of_notMem (quiet_target h₁).2 (quiet_target h₂).2
      (printedFragment_shape _) (printedFragment_shape _) (List.append_cancel_left h)
    obtain ⟨hpath, hquery⟩ := append_inj_of_notMem (quiet_target h₁).1 (quiet_target h₂).1
      (printedQuery_shape _) (printedQuery_shape _) hbody
    exact ⟨hpath, printedQuery_inj hquery, printedFragment_inj hfragment⟩
  · rintro ⟨hpath, hquery, hfragment⟩
    rw [hpath, hquery, hfragment]

theorem pathForwarded_iff {baseURL reqURL : Bytes} (hbase : configureBase baseURL = .ok base)
    (href : parse reqURL = .ok ref) :
    PathForwarded base ref (targetURL base ref).string ↔
      PlainZone base.host ∧ DefaultPaths base ref := by
  obtain ⟨hparse, hscheme, hhost⟩ := configureBase_ok hbase
  obtain ⟨-, hlist⟩ := plainScheme_web hscheme
  obtain ⟨raw, hraw⟩ := (parse_ok hparse).1 hhost
  have hroute : (parse (targetURL base ref).string).map URL.route =
      (parseHost base.scheme (escape .host base.host)).map fun h =>
        ((base.scheme, base.user, h), (targetURL base ref).printedPath) :=
    parse_string_route (target_plain hbase href)
  unfold PathForwarded
  rw [← printedPath_eq_iff hbase href]
  rcases parseHost_escape_cases hlist (parseHost_parsed hlist hraw) with
    ⟨hok, hzone⟩ | ⟨⟨e, he⟩, hzone⟩
  · rw [hok] at hroute
    cases hread : parse (targetURL base ref).string with
    | error e =>
      rw [hread] at hroute
      cases hroute
    | ok u =>
      rw [hread] at hroute
      have hpath : u.escapedPath = (targetURL base ref).printedPath :=
        congrArg Prod.snd (Except.ok.inj hroute)
      simp [hzone, hpath]
  · rw [he] at hroute
    cases hread : parse (targetURL base ref).string with
    | error e => simp [hzone]
    | ok u =>
      rw [hread] at hroute
      cases hroute

end HttpPathLemmas

open HttpPathLemmas HttpTargetLemmas in
/-- Two requests are forwarded with their escaped paths as they are exactly if the base
leads somewhere, all paths have the default encoding, and the requests do not differ
only in the slash between the base and the request. -/
theorem paths_verbatim_iff (baseURL req₁ req₂ t₁ t₂ : Bytes) (base ref₁ ref₂ : URL)
    (hbase : configureBase baseURL = .ok base)
    (href₁ : parse req₁ = .ok ref₁) (ht₁ : resolveTargetURL (some base) req₁ = .ok t₁)
    (href₂ : parse req₂ = .ok ref₂) (ht₂ : resolveTargetURL (some base) req₂ = .ok t₂) :
    PathsVerbatim base ref₁ ref₂ t₁ t₂ ↔
      PlainZone base.host ∧ DefaultPaths base ref₁ ∧ DefaultPaths base ref₂ ∧
        ¬ SlashApart base ref₁ ref₂ := by
  have htarget : ∀ {req t : Bytes} {ref : URL}, parse req = .ok ref →
      resolveTargetURL (some base) req = .ok t → t = (targetURL base ref).string := by
    intro req t ref href ht
    obtain ⟨ref', href', rfl⟩ := resolveTargetURL_ok ht
    rw [Except.ok.inj (href.symm.trans href')]
  obtain rfl := htarget href₁ ht₁
  obtain rfl := htarget href₂ ht₂
  have hiff₁ := pathForwarded_iff hbase href₁
  have hiff₂ := pathForwarded_iff hbase href₂
  have happart : DefaultPaths base ref₁ → DefaultPaths base ref₂ →
      ((ref₁.escapedPath ≠ ref₂.escapedPath →
        (targetURL base ref₁).string ≠ (targetURL base ref₂).string) ↔
          ¬ SlashApart base ref₁ ref₂) := by
    intro h₁ h₂
    rw [ne_eq, ne_eq, target_eq_iff (target_plain hbase href₁) (target_plain hbase href₂),
      (printedPath_eq_iff hbase href₁).mpr h₁, (printedPath_eq_iff hbase href₂).mpr h₂]
    exact not_and.symm
  constructor
  · rintro ⟨h₁, h₂, hne⟩
    obtain ⟨hzone, hdefault₁⟩ := hiff₁.mp h₁
    obtain ⟨-, hdefault₂⟩ := hiff₂.mp h₂
    exact ⟨hzone, hdefault₁, hdefault₂, (happart hdefault₁ hdefault₂).mp hne⟩
  · rintro ⟨hzone, hdefault₁, hdefault₂, hslash⟩
    exact ⟨hiff₁.mpr ⟨hzone, hdefault₁⟩, hiff₂.mpr ⟨hzone, hdefault₂⟩,
      (happart hdefault₁ hdefault₂).mpr hslash⟩

def spacedRequest : URL := { path := chars "/v1/a b", rawQuery := chars "limit=5" }

def plainRequest : URL := { path := chars "v2" }

theorem paths_verbatim_plainBase :
    PathsVerbatim plainBaseURL spacedRequest plainRequest
      (chars "http://u:p@10.0.0.5:8080/api/v1/a%20b?limit=5")
      (chars "http://u:p@10.0.0.5:8080/api/v2") :=
  (paths_verbatim_iff plainBase (chars "/v1/a%20b?limit=5") (chars "v2") _ _ plainBaseURL
    spacedRequest plainRequest (by decide +kernel) (by decide +kernel) (by decide +kernel)
    (by decide +kernel) (by decide +kernel)).mpr
    ⟨by decide +kernel, .inl (by decide +kernel), .inl (by decide +kernel),
      fun h => absurd h.2.1 (by decide +kernel)⟩

def encodedSlash : URL := { path := chars "/a/b", rawPath := chars "/a%2Fb" }

def plainSlash : URL := { path := chars "/a/b" }

/-- Not in general: `/a%2Fb` names one segment and `/a/b` names two, and both are
forwarded as `/a/b`. -/
theorem encoded_slash_lost :
    configureBase plainBase = .ok plainBaseURL ∧
    parse (chars "/a%2Fb") = .ok encodedSlash ∧ parse (chars "/a/b") = .ok plainSlash ∧
    encodedSlash.escapedPath = chars "/a%2Fb" ∧ plainSlash.escapedPath = chars "/a/b" ∧
    resolveTargetURL (some plainBaseURL) (chars "/a%2Fb") =
      .ok (chars "http://u:p@10.0.0.5:8080/api/a/b") ∧
    resolveTargetURL (some plainBaseURL) (chars "/a/b") =
      .ok (chars "http://u:p@10.0.0.5:8080/api/a/b") ∧
    ¬ PathsVerbatim plainBaseURL encodedSlash plainSlash
      (chars "http://u:p@10.0.0.5:8080/api/a/b") (chars "http://u:p@10.0.0.5:8080/api/a/b") := by
  refine ⟨by decide +kernel, by decide +kernel, by decide +kernel, by decide +kernel,
    by decide +kernel, by decide +kernel, by decide +kernel, fun h => ?_⟩
  exact h.apart (by decide +kernel) rfl

end Forager
