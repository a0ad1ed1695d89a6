import Forager.GoUrlPrint
import Forager.Lines

/-!
# URIs written from their parts

A URI with a user, a host, a port, a path and options, as the generic syntax
reads it: the authority ends at the first `/`, `?` or `#`, the user at the last
`@` in it and the port starts at the last `:`; options are separated by `&`, and
every part is percent-decoded. `read` reads such a text and `print` writes one
with every part as it is.

Decoding never makes a text longer, and leaves its length only if there was
nothing to decode. A part that is read back as it was written was therefore read
from the very bytes that were written for it.
-/

namespace UriParts

open GoUrl GoText

def ampersand : UInt8 := 0x26
def equals : UInt8 := 0x3D

/-- The parts of a URI; no user is the empty one. -/
structure Parts where
  username : Bytes
  password : Bytes
  host : Bytes
  port : Bytes
  path : Bytes
  options : List (Bytes × Bytes)
deriving DecidableEq, Repr

variable {kvs : List (Bytes × Bytes)} {p : Parts} {kv : Bytes × Bytes} {s t w : Bytes}

/-! ## Reading -/

def decode (s : Bytes) : Option Bytes := (unescape .pathSegment s).toOption

def isAuthorityByte (b : UInt8) : Bool := b ≠ slash ∧ b ≠ question ∧ b ≠ hash

def isPathByte (b : UInt8) : Bool := b ≠ question ∧ b ≠ hash

def splitUser (a : Bytes) : Bytes × Bytes :=
  match lastIndex a [atSign] with
  | some i => (a.take i, a.drop (i + 1))
  | none => ([], a)

def splitPort (s : Bytes) : Bytes × Bytes :=
  match lastIndex s [colon] with
  | some i => (s.take i, s.drop (i + 1))
  | none => (s, [])

def readAuthority (a : Bytes) : Option (Bytes × Bytes × Bytes × Bytes) := do
  let username ← decode (cut colon (splitUser a).1).1
  let password ← decode (cut colon (splitUser a).1).2
  let host ← decode (splitPort (splitUser a).2).1
  return (username, password, host, (splitPort (splitUser a).2).2)

def readPath (s : Bytes) : Option Bytes := decode ((s.takeWhile isPathByte).drop 1)

def readOption (p : Bytes) : Option (Bytes × Bytes) := do
  let key ← decode (cut equals p).1
  let value ← decode (cut equals p).2
  return (key, value)

def readOptions (q : Bytes) : Option (List (Bytes × Bytes)) :=
  (Lines.split [[ampersand]] q).mapM readOption

/-- The options of the query, from the question mark to the fragment. -/
def readQuery : Bytes → Option (List (Bytes × Bytes))
  | [] => some []
  | c :: s => if c = question then readOptions (s.takeWhile (· ≠ hash)) else some []

def readBody (s : Bytes) : Option Parts := do
  let (username, password, host, port) ← readAuthority (s.takeWhile isAuthorityByte)
  let path ← readPath (s.dropWhile isAuthorityByte)
  let options ← readQuery ((s.dropWhile isAuthorityByte).dropWhile isPathByte)
  return ⟨username, password, host, port, path, options⟩

def read (scheme s : Bytes) : Option Parts :=
  if scheme <+: s then readBody (s.drop scheme.length) else none

/-! ## Writing -/

namespace Parts

def credentials (p : Parts) : Bytes :=
  if p.username = [] then [] else p.username ++ colon :: p.password

def userinfo (p : Parts) : Bytes :=
  if p.username = [] then [] else p.credentials ++ [atSign]

def authority (p : Parts) : Bytes := p.userinfo ++ p.host ++ colon :: p.port

end Parts

def printOptions : List (Bytes × Bytes) → Bytes
  | [] => []
  | [kv] => kv.1 ++ equals :: kv.2
  | kv :: kvs => kv.1 ++ equals :: (kv.2 ++ ampersand :: printOptions kvs)

def print (scheme : Bytes) (p : Parts) : Bytes :=
  scheme ++ (p.authority ++ slash :: (p.path ++ question :: printOptions p.options))

/-- A port that is read as it is. -/
def PlainPort (port : Bytes) : Prop :=
  port ≠ [] ∧ ∀ b ∈ port, isAuthorityByte b ∧ b ≠ colon ∧ b ≠ atSign

/-- A key that is read as it is. -/
def PlainKey (k : Bytes) : Prop :=
  ∀ b ∈ k, b ≠ equals ∧ b ≠ ampersand ∧ b ≠ hash ∧ b ≠ percent

/-- A user that is read as it is. -/
structure PlainUser (username password : Bytes) : Prop where
  password_nil : username = [] → password = []
  username_colon : colon ∉ username
  username_percent : percent ∉ username
  password_percent : percent ∉ password

structure Parts.Plain (p : Parts) : Prop where
  user : PlainUser p.username p.password
  authority : ∀ b ∈ p.userinfo ++ p.host, isAuthorityByte b
  host : atSign ∉ p.host ∧ percent ∉ p.host
  path : (∀ b ∈ p.path, isPathByte b) ∧ percent ∉ p.path
  options : ∀ kv ∈ p.options, ampersand ∉ kv.2 ∧ hash ∉ kv.2 ∧ percent ∉ kv.2

/-! ## Decoding -/

theorem decode_eq_some : decode s = some t ↔ unescape .pathSegment s = .ok t := by
  unfold decode
  cases unescape .pathSegment s <;> simp [Except.toOption]

theorem length_unescape (h : unescape .pathSegment s = .ok t) :
    t.length ≤ s.length ∧ (percent ∈ s → t.length < s.length) := by
  induction hn : s.length using Nat.strong_induction_on generalizing s t with
  | _ n ih =>
    cases s with
    | nil =>
      cases h
      simp
    | cons c s =>
      rw [List.length_cons] at hn
      rcases unescape_cons_ok (by decide) h with ⟨t', hc, -, hs, rfl⟩ |
        ⟨a, b, s', hi, lo, t', rfl, rfl, -, -, -, hs, rfl⟩
      · have hrest := ih s.length (by omega) hs rfl
        rw [List.length_cons]
        refine ⟨by omega, fun hmem => ?_⟩
        have := hrest.2 (List.mem_of_ne_of_mem hc.symm hmem)
        omega
      · have hrest := (ih s'.length (by simp only [List.length_cons] at hn; omega) hs rfl).1
        simp only [List.length_cons] at hn ⊢
        exact ⟨by omega, fun _ => by omega⟩

theorem length_decode_le (h : decode s = some t) : t.length ≤ s.length :=
  (length_unescape (decode_eq_some.mp h)).1

theorem decode_self_iff {s : Bytes} : decode s = some s ↔ percent ∉ s := by
  rw [decode_eq_some]
  constructor
  · exact fun h hmem => Nat.lt_irrefl _ ((length_unescape h).2 hmem)
  · exact fun h => unescape_self (by decide) fun b hb => ⟨fun hb' => h (hb' ▸ hb), rfl⟩

theorem length_takeWhile_lt {p : UInt8 → Bool} {v : Bytes} (h : ¬ ∀ b ∈ v, p b) (t : Bytes) :
    ((v ++ t).takeWhile p).length < v.length := by
  induction v with
  | nil => exact absurd (by simp) h
  | cons c v ih =>
    rw [List.cons_append, List.takeWhile_cons, List.length_cons]
    split
    · next hc =>
      refine Nat.succ_lt_succ (ih fun hv => h ?_)
      exact List.forall_mem_cons.mpr ⟨hc, hv⟩
    · exact Nat.succ_pos _

theorem takeWhile_append_stop {p : UInt8 → Bool} {v t : Bytes} (hv : ∀ b ∈ v, p b)
    (ht : ∀ c ∈ t.head?, p c = false) : (v ++ t).takeWhile p = v := by
  rw [List.takeWhile_append_of_pos hv]
  cases t with
  | nil => simp
  | cons c t => rw [List.takeWhile_cons_of_neg (by simp [ht c rfl]), List.append_nil]

theorem decode_takeWhile_iff {p : UInt8 → Bool} {v t : Bytes} (ht : ∀ c ∈ t.head?, p c = false) :
    decode ((v ++ t).takeWhile p) = some v ↔ (∀ b ∈ v, p b) ∧ percent ∉ v := by
  by_cases hv : ∀ b ∈ v, p b
  · rw [takeWhile_append_stop hv ht, decode_self_iff]
    exact (and_iff_right hv).symm
  · refine iff_of_false (fun h => ?_) fun h => hv h.1
    exact absurd (length_decode_le h) (Nat.not_le.mpr (length_takeWhile_lt hv t))

/-! ## The authority -/

theorem splitPort_append {port : Bytes} (h : colon ∉ port) (host : Bytes) :
    splitPort (host ++ colon :: port) = (host, port) := by
  rw [splitPort, lastIndex_letter h]
  simp

theorem splitPort_eq {s : Bytes} (h : (splitPort s).2 ≠ []) :
    s = (splitPort s).1 ++ colon :: (splitPort s).2 := by
  cases hi : lastIndex s [colon] with
  | none =>
    rw [splitPort, hi] at h
    exact absurd rfl h
  | some i =>
    obtain ⟨w, t, rfl, ht, -⟩ := lastIndex_letter_some hi
    rw [splitPort_append ht]

theorem splitUser_append {t : Bytes} (h : atSign ∉ t) (w : Bytes) :
    splitUser (w ++ atSign :: t) = (w, t) := by
  rw [splitUser, lastIndex_letter h]
  simp

theorem splitUser_none {a : Bytes} (h : atSign ∉ a) : splitUser a = ([], a) := by
  rw [splitUser, lastIndex_letter_none h]

theorem readAuthority_eq_some {a u w h p : Bytes} : readAuthority a = some (u, w, h, p) ↔
    decode (cut colon (splitUser a).1).1 = some u ∧ decode (cut colon (splitUser a).1).2 = some w ∧
    decode (splitPort (splitUser a).2).1 = some h ∧ (splitPort (splitUser a).2).2 = p := by
  simp only [readAuthority, Option.bind_eq_bind, Option.bind_eq_some_iff, Option.pure_def,
    Option.some.injEq, Prod.mk.injEq]
  constructor
  · rintro ⟨_, hu, _, hw, _, hh, rfl, rfl, rfl, hp⟩
    exact ⟨hu, hw, hh, hp⟩
  · rintro ⟨hu, hw, hh, hp⟩
    exact ⟨u, hu, w, hw, h, hh, rfl, rfl, rfl, hp⟩

theorem length_cut_le {c : UInt8} (s : Bytes) :
    (cut c s).1.length + (cut c s).2.length ≤ s.length := by
  by_cases hs : c ∈ s
  · obtain ⟨w, t, rfl, hw⟩ := List.eq_append_cons_of_mem hs
    rw [cut_append hw]
    simp
  · rw [cut_none hs]
    simp

theorem length_authority_le {a : Bytes}
    (h : readAuthority a = some (p.username, p.password, p.host, p.port)) (hport : p.port ≠ []) :
    p.authority.length ≤ a.length + 1 := by
  obtain ⟨hu, hw, hh, hp⟩ := readAuthority_eq_some.mp h
  have hsplit := splitPort_eq (s := (splitUser a).2) (by rwa [hp])
  rw [hp] at hsplit
  have hplace := congrArg List.length hsplit
  have hu := length_decode_le hu
  have hw := length_decode_le hw
  have hh := length_decode_le hh
  have hcut := length_cut_le (c := colon) (splitUser a).1
  simp only [List.length_append, List.length_cons] at hplace
  simp only [Parts.authority, Parts.userinfo, Parts.credentials, List.length_append,
    List.length_cons]
  by_cases hat : atSign ∈ a
  · obtain ⟨w, t, rfl, ht⟩ := eq_append_cons_of_last hat
    simp only [splitUser_append ht] at hu hw hh hcut hplace
    simp only [List.length_append, List.length_cons]
    split <;> simp only [List.length_append, List.length_cons, List.length_nil] <;> omega
  · simp only [splitUser_none hat] at hu hh hplace
    have hnil : p.username = [] := List.eq_nil_of_length_eq_zero (Nat.le_zero.mp hu)
    rw [if_pos hnil, List.length_nil]
    omega

theorem isAuthorityByte_of_read (hport : PlainPort p.port) {t : Bytes}
    (h : readAuthority ((p.authority ++ t).takeWhile isAuthorityByte) = some (p.username,
      p.password, p.host, p.port)) : ∀ b ∈ p.userinfo ++ p.host, isAuthorityByte b := by
  by_contra hbad
  have hlen := length_authority_le h hport.1
  have hsplit : p.authority ++ t = (p.userinfo ++ p.host) ++ (colon :: p.port ++ t) := by
    simp [Parts.authority]
  have hlt := length_takeWhile_lt hbad (colon :: p.port ++ t)
  have hpos := List.length_pos_iff.mpr hport.1
  rw [hsplit] at hlen
  simp only [Parts.authority, List.length_append, List.length_cons] at hlen hlt
  omega

theorem isAuthorityByte_authority (hport : PlainPort p.port)
    (h : ∀ b ∈ p.userinfo ++ p.host, isAuthorityByte b) : ∀ b ∈ p.authority, isAuthorityByte b := by
  intro b hb
  rcases List.mem_append.mp hb with hb | hb
  · exact h b hb
  · rcases List.mem_cons.mp hb with rfl | hb
    · decide
    · exact (hport.2 b hb).1

theorem PlainPort.colon_notMem {port : Bytes} (h : PlainPort port) : colon ∉ port :=
  fun hmem => (h.2 _ hmem).2.1 rfl

theorem PlainPort.atSign_notMem {port t : Bytes} (h : PlainPort port) (ht : atSign ∉ t) :
    atSign ∉ t ++ colon :: port := by
  intro hmem
  rcases List.mem_append.mp hmem with hmem | hmem
  · exact ht hmem
  · exact (h.2 _ (List.mem_of_ne_of_mem (by decide) hmem)).2.2 rfl

theorem decode_credentials_iff (p : Parts) :
    decode (cut colon p.credentials).1 = some p.username ∧
      decode (cut colon p.credentials).2 = some p.password ↔
    PlainUser p.username p.password := by
  by_cases hu : p.username = []
  · rw [Parts.credentials, if_pos hu, cut_none List.not_mem_nil, hu]
    constructor
    · rintro ⟨-, hw⟩
      have hnil : p.password = [] := (Option.some_inj.mp hw).symm
      rw [hnil]
      exact ⟨fun _ => rfl, List.not_mem_nil, List.not_mem_nil, List.not_mem_nil⟩
    · intro h
      rw [h.password_nil rfl]
      exact ⟨rfl, rfl⟩
  · rw [Parts.credentials, if_neg hu]
    by_cases hcolon : colon ∈ p.username
    · -- The name would be read from what stands before its first colon.
      refine iff_of_false (fun h => ?_) fun h => h.username_colon hcolon
      obtain ⟨w, t, hw, hnot⟩ := List.eq_append_cons_of_mem hcolon
      have hcut := length_decode_le h.1
      rw [hw, List.append_assoc, List.cons_append, cut_append hnot] at hcut
      simp at hcut
    · rw [cut_append hcolon, decode_self_iff, decode_self_iff]
      exact ⟨fun h => ⟨fun hnil => absurd hnil hu, hcolon, h.1, h.2⟩,
        fun h => ⟨h.username_percent, h.password_percent⟩⟩

theorem splitUser_authority (hport : PlainPort p.port) (hat : atSign ∉ p.host) :
    splitUser p.authority = (p.credentials, p.host ++ colon :: p.port) := by
  have hplace := hport.atSign_notMem hat
  by_cases hu : p.username = []
  · rw [Parts.authority, Parts.userinfo, Parts.credentials, if_pos hu, if_pos hu, List.nil_append]
    exact splitUser_none hplace
  · rw [Parts.authority, Parts.userinfo, if_neg hu]
    simpa using splitUser_append hplace p.credentials

theorem atSign_notMem_host (hport : PlainPort p.port)
    (h : decode (splitPort (splitUser p.authority).2).1 = some p.host) : atSign ∉ p.host := by
  intro hat
  obtain ⟨w, t, hhost, ht⟩ := eq_append_cons_of_last hat
  have hsplit : p.authority = (p.userinfo ++ w) ++ atSign :: (t ++ colon :: p.port) := by
    simp [Parts.authority, hhost]
  rw [hsplit, splitUser_append (hport.atSign_notMem ht), splitPort_append hport.colon_notMem,
    hhost] at h
  have := length_decode_le h
  simp at this
  omega

theorem readAuthority_print_iff (hport : PlainPort p.port) :
    readAuthority p.authority = some (p.username, p.password, p.host, p.port) ↔
    PlainUser p.username p.password ∧ atSign ∉ p.host ∧ percent ∉ p.host := by
  rw [readAuthority_eq_some]
  by_cases hat : atSign ∈ p.host
  · exact iff_of_false (fun h => atSign_notMem_host hport h.2.2.1 hat) fun h => h.2.1 hat
  · rw [splitUser_authority hport hat, splitPort_append hport.colon_notMem,
      ← decode_credentials_iff, decode_self_iff]
    simp only [hat, not_false_eq_true, true_and, and_true, and_assoc]

/-! ## The options -/

theorem readOption_append {k : Bytes} (hk : PlainKey k) (v : Bytes) :
    readOption (k ++ equals :: v) = (decode v).map (k, ·) := by
  have hequals : equals ∉ k := fun h => (hk _ h).1 rfl
  have hdecode : decode k = some k := decode_self_iff.mpr fun h => (hk _ h).2.2.2 rfl
  rw [readOption, cut_append hequals, hdecode]
  cases decode v <;> rfl

theorem split_of_notMem (hw : ampersand ∉ w) : Lines.split [[ampersand]] w = [w] :=
  Lines.split_of_not_infix fun h => hw (h.subset (List.mem_singleton_self _))

theorem readOptions_append (hw : ampersand ∉ w) (t : Bytes) :
    readOptions (w ++ ampersand :: t) =
      (readOption w).bind fun kv => (readOptions t).map (kv :: ·) := by
  rw [readOptions, Lines.split_letter_append, split_of_notMem hw, List.singleton_append,
    List.mapM_cons]
  cases readOption w with
  | none => rfl
  | some kv =>
    change (readOptions t).bind _ = Option.map _ (readOptions t)
    cases readOptions t <;> rfl

theorem readOptions_one (hw : ampersand ∉ w) : readOptions w = (readOption w).map ([·]) := by
  rw [readOptions, split_of_notMem hw, List.mapM_cons, List.mapM_nil]
  cases readOption w <;> rfl

theorem readOption_of_readOptions {q : Bytes} (h : readOptions q = some (kv :: kvs)) :
    readOption (q.takeWhile (· ≠ ampersand)) = some kv := by
  have hkeep {w : Bytes} (hw : ampersand ∉ w) : ∀ b ∈ w, decide (b ≠ ampersand) = true :=
    fun b hb => decide_eq_true fun hb' => hw (hb' ▸ hb)
  by_cases hq : ampersand ∈ q
  · obtain ⟨w, t, rfl, hw⟩ := List.eq_append_cons_of_mem hq
    rw [readOptions_append hw] at h
    obtain ⟨kv', hkv, hmap⟩ := Option.bind_eq_some_iff.mp h
    obtain ⟨_, -, heq⟩ := Option.map_eq_some_iff.mp hmap
    cases heq
    rw [takeWhile_append_stop (hkeep hw) (by simp), hkv]
  · rw [readOptions_one hq] at h
    obtain ⟨kv', hkv, heq⟩ := Option.map_eq_some_iff.mp h
    cases heq
    rw [← List.append_nil q, takeWhile_append_stop (hkeep hq) (by simp), hkv]

def moreOptions : List (Bytes × Bytes) → Bytes
  | [] => []
  | kvs => ampersand :: printOptions kvs

theorem printOptions_cons (kv : Bytes × Bytes) (kvs : List (Bytes × Bytes)) :
    printOptions (kv :: kvs) = kv.1 ++ equals :: (kv.2 ++ moreOptions kvs) := by
  cases kvs <;> simp [printOptions, moreOptions]

theorem value_of_readOptions (hk : PlainKey kv.1)
    (h : readOptions ((printOptions (kv :: kvs)).takeWhile (· ≠ hash)) = some (kv :: kvs)) :
    ampersand ∉ kv.2 ∧ hash ∉ kv.2 ∧ percent ∉ kv.2 := by
  have hfirst := readOption_of_readOptions h
  have hkeep : ∀ b ∈ kv.1 ++ [equals], (decide (b ≠ ampersand) && decide (b ≠ hash)) = true := by
    intro b hb
    rcases List.mem_append.mp hb with hb | hb
    · simp [(hk b hb).2.1, (hk b hb).2.2.1]
    · rw [List.mem_singleton.mp hb]
      decide
  have hsplit : printOptions (kv :: kvs) = (kv.1 ++ [equals]) ++ (kv.2 ++ moreOptions kvs) := by
    simp [printOptions_cons]
  rw [List.takeWhile_takeWhile, hsplit, List.takeWhile_append_of_pos (by simpa using hkeep),
    List.append_assoc, List.singleton_append, readOption_append hk] at hfirst
  obtain ⟨v, hv, heq⟩ := Option.map_eq_some_iff.mp hfirst
  have hv' : v = kv.2 := congrArg Prod.snd heq
  rw [hv', decode_takeWhile_iff] at hv
  · refine ⟨fun hmem => ?_, fun hmem => ?_, hv.2⟩
    · simpa using hv.1 _ hmem
    · simpa using hv.1 _ hmem
  · cases kvs with
    | nil => simp [moreOptions]
    | cons kv' kvs => simp [moreOptions]

theorem notMem_assign {c : UInt8} (hc : c ≠ equals) (hk : c ∉ kv.1) (hv : c ∉ kv.2) :
    c ∉ kv.1 ++ equals :: kv.2 := by
  simp [hc, hk, hv]

theorem readOptions_print_iff (hne : kvs ≠ []) (hkeys : ∀ kv ∈ kvs, PlainKey kv.1) :
    readOptions ((printOptions kvs).takeWhile (· ≠ hash)) = some kvs ↔
    ∀ kv ∈ kvs, ampersand ∉ kv.2 ∧ hash ∉ kv.2 ∧ percent ∉ kv.2 := by
  induction kvs with
  | nil => exact absurd rfl hne
  | cons kv kvs ih =>
    obtain ⟨hk, hkeys⟩ := List.forall_mem_cons.mp hkeys
    rw [List.forall_mem_cons]
    by_cases hv : ampersand ∉ kv.2 ∧ hash ∉ kv.2 ∧ percent ∉ kv.2
    · rw [and_iff_right hv]
      have hamp : ampersand ∉ kv.1 ++ equals :: kv.2 :=
        notMem_assign (by decide) (fun h => (hk _ h).2.1 rfl) hv.1
      have hhash : ∀ b ∈ kv.1 ++ equals :: kv.2, decide (b ≠ hash) = true := by
        intro b hb
        refine decide_eq_true fun hb' => ?_
        exact notMem_assign (by decide) (fun h => (hk _ h).2.2.1 rfl) hv.2.1 (hb' ▸ hb)
      have hread : readOption (kv.1 ++ equals :: kv.2) = some kv := by
        rw [readOption_append hk, decode_self_iff.mpr hv.2.2]
        rfl
      cases kvs with
      | nil =>
        have htake := takeWhile_append_stop (t := []) hhash (by simp)
        rw [List.append_nil] at htake
        rw [printOptions, htake, readOptions_one hamp, hread]
        simp
      | cons kv' kvs =>
        have hsplit : printOptions (kv :: kv' :: kvs) =
            (kv.1 ++ equals :: kv.2) ++ ampersand :: printOptions (kv' :: kvs) := by
          simp [printOptions_cons, moreOptions]
        rw [hsplit, List.takeWhile_append_of_pos hhash, List.takeWhile_cons_of_pos (by decide),
          readOptions_append hamp, hread, Option.bind_some, ← ih (List.cons_ne_nil _ _) hkeys]
        simp
    · exact iff_of_false (fun h => hv (value_of_readOptions hk h)) fun h => hv h.1

/-! ## The whole text -/

theorem readBody_eq_some {s : Bytes} : readBody s = some p ↔
    readAuthority (s.takeWhile isAuthorityByte) =
      some (p.username, p.password, p.host, p.port) ∧
    readPath (s.dropWhile isAuthorityByte) = some p.path ∧
    readQuery ((s.dropWhile isAuthorityByte).dropWhile isPathByte) = some p.options := by
  simp only [readBody, Option.bind_eq_bind, Option.bind_eq_some_iff, Option.pure_def,
    Option.some.injEq]
  constructor
  · rintro ⟨⟨_, _, _, _⟩, ha, _, hp, _, ho, rfl⟩
    exact ⟨ha, hp, ho⟩
  · rintro ⟨ha, hp, ho⟩
    exact ⟨_, ha, _, hp, _, ho, rfl⟩

theorem readTail_iff {path : Bytes} (hne : kvs ≠ []) (hkeys : ∀ kv ∈ kvs, PlainKey kv.1) :
    readPath (slash :: (path ++ question :: printOptions kvs)) = some path ∧
      readQuery ((slash :: (path ++ question :: printOptions kvs)).dropWhile isPathByte) =
        some kvs ↔
    ((∀ b ∈ path, isPathByte b) ∧ percent ∉ path) ∧
      ∀ kv ∈ kvs, ampersand ∉ kv.2 ∧ hash ∉ kv.2 ∧ percent ∉ kv.2 := by
  have hslash : isPathByte slash = true := by decide
  have hquestion : isPathByte question = false := by decide
  rw [readPath, List.takeWhile_cons_of_pos hslash, List.drop_one, List.tail_cons,
    decode_takeWhile_iff (by simp [hquestion])]
  refine and_congr_right fun hpath => ?_
  rw [List.dropWhile_cons_of_pos hslash, List.dropWhile_append_of_pos hpath.1,
    List.dropWhile_cons_of_neg (by simp [hquestion]), readQuery, if_pos rfl,
    readOptions_print_iff hne hkeys]

theorem read_print_iff {scheme : Bytes} (hport : PlainPort p.port) (hne : p.options ≠ [])
    (hkeys : ∀ kv ∈ p.options, PlainKey kv.1) :
    read scheme (print scheme p) = some p ↔ p.Plain := by
  have hslash : isAuthorityByte slash = false := by decide
  rw [read, print, if_pos (List.prefix_append _ _), List.drop_left, readBody_eq_some]
  by_cases hbytes : ∀ b ∈ p.userinfo ++ p.host, isAuthorityByte b
  · have hall := isAuthorityByte_authority hport hbytes
    rw [takeWhile_append_stop hall (by simp [hslash]), List.dropWhile_append_of_pos hall,
      List.dropWhile_cons_of_neg (by simp [hslash]), readAuthority_print_iff hport,
      readTail_iff hne hkeys]
    constructor
    · rintro ⟨⟨huser, hhost⟩, hpath, hoptions⟩
      exact ⟨huser, hbytes, hhost, hpath, hoptions⟩
    · intro h
      exact ⟨⟨h.user, h.host⟩, h.path, h.options⟩
  · exact iff_of_false (fun h => hbytes (isAuthorityByte_of_read hport h.1))
      fun h => hbytes h.authority

end UriParts
