import Forager.GoCase
import Forager.GoNet
import Forager.GoValue

/-!
# URLs of the Go standard library

`net/url`: `Parse`, `URL.String` and the escaping they use, on byte strings.
Errors keep the text that they quote.

* `unescape_escape`, `survives_of_unescape_escape`: printed in one mode and read
  in another, a text comes back exactly if each of its bytes survives.
* `mem_unescape`, `unescape_split`: what an unescaped text is made of.
-/

namespace GoUrl

open GoText

/-! ## Escaping -/

def chars (s : String) : Bytes := s.toList.map fun c => UInt8.ofNat c.toNat

def percent : UInt8 := 0x25
def slash : UInt8 := 0x2F
def question : UInt8 := 0x3F
def hash : UInt8 := 0x23
def atSign : UInt8 := 0x40
def colon : UInt8 := 0x3A
def lbracket : UInt8 := 0x5B
def rbracket : UInt8 := 0x5D
def space : UInt8 := 0x20
def plus : UInt8 := 0x2B

/-- The part of a URL that a text is escaped for. -/
inductive Encoding
  | path
  | pathSegment
  | host
  | zone
  | userPassword
  | queryComponent
  | fragment
deriving DecidableEq, Repr

variable {m r : Encoding} {c : UInt8} {s t : Bytes}

def isDigit (c : UInt8) : Bool := 0x30 ≤ c ∧ c ≤ 0x39

def isLetter (c : UInt8) : Bool := (0x61 ≤ c ∧ c ≤ 0x7A) ∨ (0x41 ≤ c ∧ c ≤ 0x5A)

/-- `shouldEscape` for a reserved character. -/
def reservedEscape (c : UInt8) : Encoding → Bool
  | .path => c = question
  | .pathSegment => c ∈ chars "/;,?"
  | .userPassword => c ∈ chars "@/?:"
  | .fragment => false
  | .queryComponent | .host | .zone => true

def shouldEscape (c : UInt8) (mode : Encoding) : Bool :=
  if isLetter c ∨ isDigit c then false
  else if (mode = .host ∨ mode = .zone) ∧ c ∈ chars "!$&'()*+,;=:[]<>\"" then false
  else if c ∈ chars "-_.~" then false
  else if c ∈ chars "$&+,/:;=?@" then reservedEscape c mode
  else if mode = .fragment ∧ c ∈ chars "!()*" then false
  else true

def unhex (c : UInt8) : Option Nat :=
  if isDigit c then some (c.toNat - 0x30)
  else if 0x61 ≤ c ∧ c ≤ 0x66 then some (c.toNat - 0x61 + 10)
  else if 0x41 ≤ c ∧ c ≤ 0x46 then some (c.toNat - 0x41 + 10)
  else none

def upperhex (n : Nat) : UInt8 := if n < 10 then .ofNat (0x30 + n) else .ofNat (0x41 + (n - 10))

def escapeByte (mode : Encoding) (c : UInt8) : Bytes :=
  if shouldEscape c mode then
    if c = space ∧ mode = .queryComponent then [plus]
    else [percent, upperhex (c.toNat / 16), upperhex (c.toNat % 16)]
  else [c]

def escape (mode : Encoding) (s : Bytes) : Bytes := s.flatMap (escapeByte mode)

inductive UrlError
  | escape (text : Bytes)
  | invalidHost (text : Bytes)
  | invalidPort (text : Bytes)
  | missingBracket
  | invalidLiteral
  | invalidUserinfo
  | controlCharacter
  | missingScheme
  | firstSegmentColon
deriving DecidableEq, Repr

/-- The values that `unescape` accepts in escaped form. In a host they are those outside
ASCII and the percent sign, which has the one spelling `%25`. -/
def escapedAllowed (mode : Encoding) (v : UInt8) : Bool :=
  match mode with
  | .host => 0x80 ≤ v ∨ v = percent
  | .zone => v = percent ∨ v = space ∨ ¬ shouldEscape v .host
  | _ => true

/-- The bytes that `unescape` accepts as they are. -/
def rawAllowed (mode : Encoding) (c : UInt8) : Bool :=
  match mode with
  | .host | .zone => 0x80 ≤ c ∨ ¬ shouldEscape c mode
  | _ => true

def unescape (mode : Encoding) : Bytes → Except UrlError Bytes
  | [] => .ok []
  | c :: s =>
    if c = percent then
      match s with
      | a :: b :: t =>
        match unhex a, unhex b with
        | some hi, some lo =>
          if escapedAllowed mode (.ofNat (hi * 16 + lo)) then
            (unescape mode t).map (UInt8.ofNat (hi * 16 + lo) :: ·)
          else .error (.escape [c, a, b])
        | _, _ => .error (.escape [c, a, b])
      | _ => .error (.escape (c :: s))
    else if rawAllowed mode c then
      (unescape mode s).map ((if c = plus ∧ mode = .queryComponent then space else c) :: ·)
    else .error (.invalidHost [c])

/-! ## Hosts -/

def cut (sep : UInt8) (s : Bytes) : Bytes × Bytes :=
  match index s [sep] with
  | some i => (s.take i, s.drop (i + 1))
  | none => (s, [])

def validOptionalPort : Bytes → Bool
  | [] => true
  | c :: digits => c = colon ∧ digits.all isDigit

/-- `netip.ParseAddr`, as far as it gives an address that is not an IPv4 one. -/
def isIPv6 (s : Bytes) : Bool :=
  let cs := s.map fun b => Char.ofNat b.toNat
  match cs.find? fun c => c = '.' ∨ c = ':' ∨ c = '%' with
  | some ':' => (GoNet.parseIPv6 cs).isSome
  | _ => false

/-- The text between the brackets of a host, unescaped. A zone starts at the first `%25`. -/
def unescapeLiteral (hostname : Bytes) : Except UrlError Bytes :=
  match index hostname (chars "%25") with
  | some zoneIdx => do
    let hostPart ← unescape .host (hostname.take zoneIdx)
    let zonePart ← unescape .zone (hostname.drop zoneIdx)
    return hostPart ++ zonePart
  | none => unescape .host hostname

def hostListSchemes : List Bytes := [chars "postgres", chars "postgresql"]

/-- The text that has to be the port of a host without brackets. -/
def portText (scheme host : Bytes) : Bytes :=
  match index host [colon], lastIndex host [colon] with
  | some i, some j => host.drop (if scheme ∈ hostListSchemes then j else i)
  | _, _ => []

def parseHost (scheme host : Bytes) : Except UrlError Bytes :=
  match lastIndex host [lbracket] with
  | some 0 =>
    match lastIndex host [rbracket] with
    | none => .error .missingBracket
    | some close =>
      let colonPort := host.drop (close + 1)
      if validOptionalPort colonPort then do
        let port ← unescape .host colonPort
        let hostname ← unescapeLiteral ((host.take close).drop 1)
        if isIPv6 hostname then .ok (lbracket :: hostname ++ rbracket :: port)
        else .error .invalidLiteral
      else .error (.invalidPort colonPort)
  | some (_ + 1) => .error .invalidLiteral
  | none =>
    if validOptionalPort (portText scheme host) then unescape .host host
    else .error (.invalidPort (portText scheme host))

/-! ## Parsing -/

/-- `Userinfo`; the password is there if it is set. -/
structure Userinfo where
  username : Bytes
  password : Option Bytes
deriving DecidableEq, Repr

structure URL where
  scheme : Bytes := []
  opaquePart : Bytes := []
  user : Option Userinfo := none
  host : Bytes := []
  path : Bytes := []
  rawPath : Bytes := []
  omitHost : Bool := false
  forceQuery : Bool := false
  rawQuery : Bytes := []
  fragment : Bytes := []
  rawFragment : Bytes := []
deriving DecidableEq, Repr

def validUserinfo (s : Bytes) : Bool :=
  s.all fun c => isLetter c ∨ isDigit c ∨ c ∈ chars "-._:~!$&'()*+,;=%@"

def parseUserinfo (userinfo : Bytes) : Except UrlError Userinfo :=
  if validUserinfo userinfo then
    if colon ∈ userinfo then do
      let username ← unescape .userPassword (cut colon userinfo).1
      let password ← unescape .userPassword (cut colon userinfo).2
      return ⟨username, some password⟩
    else do
      let username ← unescape .userPassword userinfo
      return ⟨username, none⟩
  else .error .invalidUserinfo

def parseAuthority (scheme authority : Bytes) : Except UrlError (Option Userinfo × Bytes) :=
  match lastIndex authority [atSign] with
  | none => do
    let host ← parseHost scheme authority
    return (none, host)
  | some i => do
    let host ← parseHost scheme (authority.drop (i + 1))
    let user ← parseUserinfo (authority.take i)
    return (some user, host)

def isCTL (b : UInt8) : Bool := b < 0x20 ∨ b = 0x7F

def getSchemeFrom (rawURL seen : Bytes) : Bytes → Except UrlError (Bytes × Bytes)
  | [] => .ok ([], rawURL)
  | c :: rest =>
    if isLetter c then getSchemeFrom rawURL (seen ++ [c]) rest
    else if isDigit c ∨ c ∈ chars "+-." then
      if seen = [] then .ok ([], rawURL) else getSchemeFrom rawURL (seen ++ [c]) rest
    else if c = colon then
      if seen = [] then .error .missingScheme else .ok (seen, rest)
    else .ok ([], rawURL)

def getScheme (rawURL : Bytes) : Except UrlError (Bytes × Bytes) := getSchemeFrom rawURL [] rawURL

def setPath (u : URL) (p : Bytes) : Except UrlError URL := do
  let path ← unescape .path p
  return { u with path := path, rawPath := if p = escape .path path then [] else p }

def setFragment (u : URL) (f : Bytes) : Except UrlError URL := do
  let frag ← unescape .fragment f
  return { u with fragment := frag, rawFragment := if f = escape .fragment frag then [] else f }

def splitQuery (rest : Bytes) : Bytes × Bytes × Bool :=
  if rest.getLast? = some question ∧ rest.count question = 1 then (rest.dropLast, [], true)
  else ((cut question rest).1, (cut question rest).2, false)

/-- An authority and the path after it. -/
def splitAuthority (rest : Bytes) : Bytes × Bytes :=
  match index rest [slash] with
  | some i => (rest.take i, rest.drop i)
  | none => (rest, [])

def parseHierarchy (u : URL) (rest : Bytes) : Except UrlError URL :=
  if (u.scheme ≠ [] ∨ ¬ chars "///" <+: rest) ∧ chars "//" <+: rest then do
    let (authority, rest) := splitAuthority (rest.drop 2)
    let (user, host) ← parseAuthority u.scheme authority
    setPath { u with user := user, host := host } rest
  else setPath { u with omitHost := u.scheme ≠ [] ∧ [slash] <+: rest } rest

def parseAfterScheme (scheme rest : Bytes) : Except UrlError URL :=
  let (rest, rawQuery, forceQuery) := splitQuery rest
  let u : URL := { scheme := scheme, rawQuery := rawQuery, forceQuery := forceQuery }
  if [slash] <+: rest then parseHierarchy u rest
  else if scheme ≠ [] then .ok { u with opaquePart := rest }
  else if colon ∈ (cut slash rest).1 then .error .firstSegmentColon
  else parseHierarchy u rest

def parseBody (rawURL : Bytes) : Except UrlError URL :=
  if rawURL.any isCTL then .error .controlCharacter
  else if rawURL = chars "*" then .ok { path := chars "*" }
  else do
    let (scheme, rest) ← getScheme rawURL
    parseAfterScheme (lower.map scheme) rest

def parse (rawURL : Bytes) : Except UrlError URL := do
  let url ← parseBody (cut hash rawURL).1
  let frag := (cut hash rawURL).2
  if frag = [] then return url else setFragment url frag

/-! ## Printing -/

def validEncoded (mode : Encoding) (s : Bytes) : Bool :=
  s.all fun c => c ∈ chars "!$&'()*+,;=:@[]%" ∨ ¬ shouldEscape c mode

/-- The hint `raw` if it is an encoding of `s`. -/
def encodingHint (mode : Encoding) (raw s : Bytes) : Option Bytes :=
  if raw ≠ [] ∧ validEncoded mode raw ∧ unescape mode raw = .ok s then some raw else none

def URL.escapedPath (u : URL) : Bytes :=
  (encodingHint .path u.rawPath u.path).getD
    (if u.path = chars "*" then chars "*" else escape .path u.path)

def URL.escapedFragment (u : URL) : Bytes :=
  (encodingHint .fragment u.rawFragment u.fragment).getD (escape .fragment u.fragment)

def Userinfo.string (u : Userinfo) : Bytes :=
  escape .userPassword u.username ++
    match u.password with
    | some password => colon :: escape .userPassword password
    | none => []

/-- The user and the host of a printed URL. -/
def URL.authority (u : URL) : Bytes :=
  (match u.user with
    | some ui => ui.string ++ [atSign]
    | none => []) ++ escape .host u.host

def URL.beforePath (u : URL) : Bytes :=
  (if u.scheme = [] then [] else u.scheme ++ [colon]) ++
  (if (u.scheme = [] ∧ u.host = [] ∧ u.user = none) ∨
      (u.omitHost ∧ u.host = [] ∧ u.user = none) then []
    else (if u.host ≠ [] ∨ u.path ≠ [] ∨ u.user.isSome then chars "//" else []) ++ u.authority) ++
  if u.escapedPath ≠ [] ∧ u.escapedPath.head? ≠ some slash ∧ u.host ≠ [] then [slash] else []

def URL.beforeQuery (u : URL) : Bytes :=
  if u.opaquePart ≠ [] then (if u.scheme = [] then [] else u.scheme ++ [colon]) ++ u.opaquePart
  else u.beforePath ++
    (if u.beforePath = [] ∧ colon ∈ (cut slash u.escapedPath).1 then chars "./" else []) ++
    u.escapedPath

def URL.string (u : URL) : Bytes :=
  u.beforeQuery ++
  (if u.forceQuery ∨ u.rawQuery ≠ [] then question :: u.rawQuery else []) ++
  if u.fragment ≠ [] then hash :: u.escapedFragment else []

/-- `splitHostPort` without the port. -/
def stripPort (hostPort : Bytes) : Bytes :=
  match lastIndex hostPort [colon] with
  | some i => if validOptionalPort (hostPort.drop i) then hostPort.take i else hostPort
  | none => hostPort

def URL.hostname (u : URL) : Bytes :=
  let host := stripPort u.host
  if host.head? = some lbracket ∧ host.getLast? = some rbracket then (host.drop 1).dropLast
  else host

/-! ## One byte -/

theorem forall_byte {P : UInt8 → Prop} (h : ∀ n < 256, P (.ofNat n)) (b : UInt8) : P b := by
  have := h b.toNat b.toNat_lt
  rwa [UInt8.ofNat_toNat] at this

theorem unhex_upperhex : ∀ n < 16, unhex (upperhex n) = some n := by decide

theorem unhex_lt {v : Nat} (h : unhex c = some v) : v < 16 :=
  forall_byte (P := fun c => ∀ v ∈ unhex c, v < 16) (by decide +kernel) c v h

theorem unhex_two : ∀ c, unhex c = some 2 → c = 0x32 := forall_byte (by decide +kernel)

theorem unhex_five : ∀ c, unhex c = some 5 → c = 0x35 := forall_byte (by decide +kernel)

theorem shouldEscape_percent (mode : Encoding) : shouldEscape percent mode = true := by
  cases mode <;> decide +kernel

theorem shouldEscape_zone (b : UInt8) : shouldEscape b .zone = shouldEscape b .host := by
  simp [shouldEscape, reservedEscape]

theorem shouldEscape_high {b : UInt8} (hb : ¬ IsAscii b) (mode : Encoding) :
    shouldEscape b mode = true := by
  have hlist : ∀ s ∈ ["!$&'()*+,;=:[]<>\"", "-_.~", "$&+,/:;=?@", "!()*"], b ∉ chars s := by
    have hascii : ∀ c ∈ ["!$&'()*+,;=:[]<>\"", "-_.~", "$&+,/:;=?@", "!()*"].flatMap chars,
        IsAscii c := List.all_iff_forall_prop.mp (by decide +kernel)
    exact fun s hs hmem => hb (hascii b (List.mem_flatMap.mpr ⟨s, hs, hmem⟩))
  simp only [List.forall_mem_cons] at hlist
  have halnum : ¬ (isLetter b ∨ isDigit b) := by
    simp only [IsAscii, Nat.not_lt] at hb
    simp only [isLetter, isDigit, decide_eq_true_eq, UInt8.le_iff_toNat_le]
    rintro ((h | h) | h)
    · exact absurd (h.2.trans (by decide)) (Nat.not_le.mpr hb)
    · exact absurd (h.2.trans (by decide)) (Nat.not_le.mpr hb)
    · exact absurd (h.2.trans (by decide)) (Nat.not_le.mpr hb)
  rw [shouldEscape, if_neg halnum, if_neg fun h => hlist.1 h.2, if_neg hlist.2.1,
    if_neg hlist.2.2.1, if_neg fun h => hlist.2.2.2.1 h.2]

/-- A byte printed for mode `m` is accepted in mode `r`. -/
def Survives (m r : Encoding) (b : UInt8) : Bool :=
  if shouldEscape b m then escapedAllowed r b else rawAllowed r b

theorem survives_self (hhost : m ≠ .host) (hzone : m ≠ .zone) (b : UInt8) : Survives m m b := by
  unfold Survives
  cases m <;> simp_all [escapedAllowed, rawAllowed]

theorem mem_escapeByte (hm : m ≠ .queryComponent) {b c : UInt8} (h : c ∈ escapeByte m b) :
    (c = b ∧ shouldEscape b m = false) ∨ c = percent ∨ c ∈ chars "0123456789ABCDEF" := by
  unfold escapeByte at h
  have hdigit : ∀ n < 16, upperhex n ∈ chars "0123456789ABCDEF" := by decide
  have hb := b.toNat_lt
  split at h
  · rw [if_neg fun h => hm h.2, List.mem_cons, List.mem_cons, List.mem_singleton] at h
    rcases h with rfl | rfl | rfl
    · exact .inr (.inl rfl)
    · exact .inr (.inr (hdigit _ (by omega)))
    · exact .inr (.inr (hdigit _ (by omega)))
  · next hkeep => exact .inl ⟨List.mem_singleton.mp h, by simpa using hkeep⟩

theorem notMem_escape (hm : m ≠ .queryComponent) (hc : shouldEscape c m = true) (hp : c ≠ percent)
    (hd : c ∉ chars "0123456789ABCDEF") (s : Bytes) : c ∉ escape m s := by
  intro h
  obtain ⟨b, -, hb⟩ := List.mem_flatMap.mp h
  rcases mem_escapeByte hm hb with ⟨rfl, hkeep⟩ | hpercent | hdigit
  · rw [hc] at hkeep
    cases hkeep
  · exact hp hpercent
  · exact hd hdigit

theorem mem_escape_iff (hm : m ≠ .queryComponent) (hc : shouldEscape c m = false)
    (hd : c ∉ chars "0123456789ABCDEF") (s : Bytes) : c ∈ escape m s ↔ c ∈ s := by
  constructor
  · intro h
    obtain ⟨b, hb, hmem⟩ := List.mem_flatMap.mp h
    rcases mem_escapeByte hm hmem with ⟨rfl, -⟩ | rfl | hdigit
    · exact hb
    · rw [shouldEscape_percent] at hc
      cases hc
    · exact absurd hdigit hd
  · intro h
    refine List.mem_flatMap.mpr ⟨c, h, ?_⟩
    rw [escapeByte, hc]
    exact List.mem_singleton.mpr rfl

theorem escape_cons (m : Encoding) (b : UInt8) (s : Bytes) :
    escape m (b :: s) = escapeByte m b ++ escape m s := List.flatMap_cons

theorem escape_append (m : Encoding) (s t : Bytes) :
    escape m (s ++ t) = escape m s ++ escape m t := List.flatMap_append

theorem escape_of_kept {s : Bytes} (h : ∀ b ∈ s, shouldEscape b m = false) : escape m s = s := by
  refine (List.flatMap_congr fun b hb => ?_).trans (List.flatMap_singleton' s)
  rw [escapeByte, h b hb]
  rfl

/-! ## Reading escaped text -/

theorem unescape_cons_raw (hr : r ≠ .queryComponent) (hc : c ≠ percent) (s : Bytes) :
    unescape r (c :: s) =
      if rawAllowed r c then (unescape r s).map (c :: ·) else .error (.invalidHost [c]) := by
  rw [unescape.eq_def]
  dsimp only
  rw [if_neg hc, if_neg (fun h => hr h.2 : ¬ (c = plus ∧ r = .queryComponent))]

theorem unescape_escapeByte {m r : Encoding} (hm : m ≠ .queryComponent) (hr : r ≠ .queryComponent)
    (b : UInt8) (s : Bytes) :
    unescape r (escapeByte m b ++ s) =
      if Survives m r b then (unescape r s).map (b :: ·)
      else .error (if shouldEscape b m then
        .escape [percent, upperhex (b.toNat / 16), upperhex (b.toNat % 16)]
        else .invalidHost [b]) := by
  unfold escapeByte Survives
  cases hb : shouldEscape b m with
  | true =>
    have hlt := b.toNat_lt
    have hvalue : UInt8.ofNat (b.toNat / 16 * 16 + b.toNat % 16) = b := by
      rw [Nat.div_add_mod', UInt8.ofNat_toNat]
    rw [if_pos rfl, if_pos rfl, if_pos rfl, if_neg fun h => hm h.2]
    simp only [List.cons_append, List.nil_append, unescape, if_pos,
      unhex_upperhex _ (show b.toNat / 16 < 16 by omega),
      unhex_upperhex _ (show b.toNat % 16 < 16 by omega), hvalue]
  | false =>
    have hne : b ≠ percent := by
      rintro rfl
      rw [shouldEscape_percent] at hb
      cases hb
    simpa using unescape_cons_raw hr hne s

theorem unescape_escape {m r : Encoding} (hm : m ≠ .queryComponent) (hr : r ≠ .queryComponent)
    {s : Bytes} (h : ∀ b ∈ s, Survives m r b) : unescape r (escape m s) = .ok s := by
  induction s with
  | nil => rfl
  | cons b s ih =>
    obtain ⟨hb, hs⟩ := List.forall_mem_cons.mp h
    rw [escape_cons, unescape_escapeByte hm hr, if_pos hb, ih hs]
    rfl

theorem survives_of_unescape_escape {m r : Encoding} (hm : m ≠ .queryComponent)
    (hr : r ≠ .queryComponent) (h : unescape r (escape m s) = .ok t) : ∀ b ∈ s, Survives m r b := by
  induction s generalizing t with
  | nil => exact fun b hb => absurd hb List.not_mem_nil
  | cons b s ih =>
    rw [escape_cons, unescape_escapeByte hm hr] at h
    split at h
    · next hb =>
      cases hs : unescape r (escape m s) with
      | error e =>
        rw [hs] at h
        cases h
      | ok t' => exact List.forall_mem_cons.mpr ⟨hb, ih hs⟩
    · cases h

theorem unescape_cons_ok (hr : r ≠ .queryComponent) (h : unescape r (c :: s) = .ok t) :
    (∃ t', c ≠ percent ∧ rawAllowed r c ∧ unescape r s = .ok t' ∧ t = c :: t') ∨
    ∃ a b s' hi lo t', c = percent ∧ s = a :: b :: s' ∧ unhex a = some hi ∧ unhex b = some lo ∧
      escapedAllowed r (.ofNat (hi * 16 + lo)) ∧ unescape r s' = .ok t' ∧
      t = .ofNat (hi * 16 + lo) :: t' := by
  by_cases hc : c = percent
  · subst hc
    right
    rw [unescape.eq_def] at h
    dsimp only at h
    rw [if_pos rfl] at h
    split at h
    · next a b s' =>
      split at h
      · next hi lo ha hb =>
        split at h
        · next hallowed =>
          cases hs : unescape r s' with
          | error e =>
            rw [hs] at h
            cases h
          | ok t' =>
            rw [hs] at h
            cases h
            exact ⟨a, b, s', hi, lo, t', rfl, rfl, ha, hb, hallowed, hs, rfl⟩
        · cases h
      · cases h
    · cases h
  · left
    rw [unescape_cons_raw hr hc] at h
    split at h
    · next hraw =>
      cases hs : unescape r s with
      | error e =>
        rw [hs] at h
        cases h
      | ok t' =>
        rw [hs] at h
        cases h
        exact ⟨t', hc, hraw, rfl, rfl⟩
    · cases h

theorem mem_unescape (hr : r ≠ .queryComponent) (h : unescape r s = .ok t) :
    ∀ b ∈ t, (b ∈ s ∧ b ≠ percent ∧ rawAllowed r b) ∨ escapedAllowed r b := by
  induction hn : s.length using Nat.strong_induction_on generalizing s t with
  | _ n ih =>
    cases s with
    | nil =>
      cases h
      exact fun b hb => absurd hb List.not_mem_nil
    | cons c s =>
      rcases unescape_cons_ok hr h with ⟨t', hc, hraw, hs, rfl⟩ |
        ⟨a, b, s', hi, lo, t', rfl, rfl, -, -, hallowed, hs, rfl⟩
      · have hrest := ih s.length (by simp [← hn]) hs rfl
        refine List.forall_mem_cons.mpr ⟨.inl ⟨List.mem_cons_self, hc, hraw⟩, fun b hb => ?_⟩
        exact (hrest b hb).imp_left fun hmem => ⟨List.mem_cons_of_mem _ hmem.1, hmem.2⟩
      · have hrest := ih s'.length (by rw [← hn]; simp; omega) hs rfl
        refine List.forall_mem_cons.mpr ⟨.inr hallowed, fun d hd => ?_⟩
        refine (hrest d hd).imp_left fun hmem => ⟨?_, hmem.2⟩
        exact List.mem_cons_of_mem _ (List.mem_cons_of_mem _ (List.mem_cons_of_mem _ hmem.1))

theorem unescape_split (hr : r ≠ .queryComponent) {d : UInt8} (hd : unhex d = none) {x y t : Bytes}
    (h : unescape r (x ++ d :: y) = .ok t) :
    ∃ x' y', unescape r x = .ok x' ∧ unescape r (d :: y) = .ok y' ∧ t = x' ++ y' := by
  induction hn : x.length using Nat.strong_induction_on generalizing x t with
  | _ n ih =>
    cases x with
    | nil => exact ⟨[], t, rfl, h, rfl⟩
    | cons c x =>
      rcases unescape_cons_ok hr h with ⟨t', hc, hraw, hs, rfl⟩ |
        ⟨a, b, s', hi, lo, t', rfl, hsplit, ha, hb, hallowed, hs, rfl⟩
      · obtain ⟨x', y', hx, hy, rfl⟩ := ih x.length (by simp [← hn]) hs rfl
        refine ⟨c :: x', y', ?_, hy, rfl⟩
        rw [unescape_cons_raw hr hc, if_pos hraw, hx]
        rfl
      · -- The digits of the escape are before the separator.
        rcases x with _ | ⟨a', _ | ⟨b', x⟩⟩
        · cases hsplit
          rw [hd] at ha
          cases ha
        · cases hsplit
          rw [hd] at hb
          cases hb
        · cases hsplit
          obtain ⟨x', y', hx, hy, rfl⟩ := ih x.length (by rw [← hn]; simp; omega) hs rfl
          refine ⟨.ofNat (hi * 16 + lo) :: x', y', ?_, hy, rfl⟩
          simp only [unescape, if_pos, ha, hb, hallowed, hx]
          rfl

theorem unescape_self (hr : r ≠ .queryComponent) {s : Bytes}
    (h : ∀ b ∈ s, b ≠ percent ∧ rawAllowed r b) : unescape r s = .ok s := by
  induction s with
  | nil => rfl
  | cons c s ih =>
    obtain ⟨hc, hs⟩ := List.forall_mem_cons.mp h
    rw [unescape_cons_raw hr hc.1, if_pos hc.2, ih hs]
    rfl

theorem occurs_of_percent (h : unescape .host s = .ok t) (hp : percent ∈ t) :
    ∃ i, OccursAt s (chars "%25") i := by
  induction hn : s.length using Nat.strong_induction_on generalizing s t with
  | _ n ih =>
    cases s with
    | nil =>
      cases h
      exact absurd hp List.not_mem_nil
    | cons c s =>
      rcases unescape_cons_ok (by decide) h with ⟨t', hc, hraw, hs, rfl⟩ |
        ⟨a, b, s', hi, lo, t', rfl, rfl, ha, hb, -, hs, rfl⟩
      · have hp' : percent ∈ t' := (List.mem_cons.mp hp).resolve_left (Ne.symm hc)
        obtain ⟨i, hi⟩ := ih s.length (by simp [← hn]) hs hp' rfl
        exact ⟨i + 1, occursAt_cons_succ.mpr hi⟩
      · rcases List.mem_cons.mp hp with heq | hp'
        · refine ⟨0, occursAt_zero.mpr ?_⟩
          have hnat : 37 = (hi * 16 + lo) % 256 := by simpa [percent] using congrArg UInt8.toNat heq
          have hhi := unhex_lt ha
          have hlo := unhex_lt hb
          obtain rfl : hi = 2 := by omega
          obtain rfl : lo = 5 := by omega
          rw [unhex_two a ha, unhex_five b hb]
          exact List.prefix_append (chars "%25") s'
        · obtain ⟨i, hi⟩ := ih s'.length (by rw [← hn]; simp; omega) hs hp' rfl
          exact ⟨i + 3, occursAt_cons_succ.mpr (occursAt_cons_succ.mpr
            (occursAt_cons_succ.mpr hi))⟩

end GoUrl
