import Mathlib.Data.List.Basic
import Mathlib.Data.List.Infix
import Mathlib.Data.List.TakeWhile
import Mathlib.Tactic.Common

/-!
# Keyword/value connection strings

The `keyword=value` texts that `libpq` reads: settings separated by blanks, a
value either up to the next blank or between single quotes, and a backslash in
it standing for the byte that follows. `parse` reads one, as `conninfo_parse`
does, and `render` writes settings without any quoting.

Reading a setting takes at least the bytes that `render` writes for it, and just
as many only if the value stood there as it is. As a text has no bytes to spare
when it is read back as what it was rendered from, every value was plain.
-/

namespace ConnInfo

/-! ## Reading -/

/-- The bytes that `isspace` accepts. -/
def blanks : List UInt8 := [0x20, 0x09, 0x0A, 0x0B, 0x0C, 0x0D]

def isBlank (b : UInt8) : Bool := b ∈ blanks

def space : UInt8 := 0x20
def equals : UInt8 := 0x3D
def quote : UInt8 := 0x27
def backslash : UInt8 := 0x5C

abbrev Setting := List UInt8 × List UInt8

variable {s : List UInt8} {kvs : List Setting} {n : Nat} {c : UInt8} {kv : Setting}

def skipBlanks (s : List UInt8) : List UInt8 := s.dropWhile isBlank

def unquoted : List UInt8 → List UInt8 × List UInt8
  | [] => ([], [])
  | c :: s =>
    if isBlank c then ([], s)
    else if c = backslash then
      match s with
      | [] => ([], [])
      | d :: s => (d :: (unquoted s).1, (unquoted s).2)
    else (c :: (unquoted s).1, (unquoted s).2)

def quoted : List UInt8 → Option (List UInt8 × List UInt8)
  | [] => none
  | c :: s =>
    if c = quote then some ([], s)
    else if c = backslash then
      match s with
      | [] => none
      | d :: s => (quoted s).map fun r => (d :: r.1, r.2)
    else (quoted s).map fun r => (c :: r.1, r.2)

/-- The value after an equals sign. Blanks may stand before it, so that the value of a
keyword with nothing behind it is the next word. -/
def readValue (s : List UInt8) : Option (List UInt8 × List UInt8) :=
  match skipBlanks s with
  | [] => some ([], [])
  | c :: s => if c = quote then quoted s else some (unquoted (c :: s))

def isKeyByte (b : UInt8) : Bool := b ≠ equals ∧ ¬ isBlank b

/-- A keyword, its value and the text after them, if an equals sign is there. -/
def readSetting (s : List UInt8) : Option (Setting × List UInt8) :=
  match skipBlanks (s.dropWhile isKeyByte) with
  | [] => none
  | c :: rest =>
    if c = equals then (readValue rest).map fun r => ((s.takeWhile isKeyByte, r.1), r.2) else none

/-- The settings of a text, each read after the blanks before it. -/
def parseFrom : Nat → List UInt8 → Option (List Setting)
  | 0, _ => none
  | n + 1, s =>
    match skipBlanks s with
    | [] => some []
    | c :: s => (readSetting (c :: s)).bind fun r => (parseFrom n r.2).map (r.1 :: ·)

/-- `conninfo_parse`. Every setting takes a byte, so that the length of the text is fuel
enough. -/
def parse (s : List UInt8) : Option (List Setting) := parseFrom (s.length + 1) s

/-! ## Writing -/

def assign (kv : Setting) : List UInt8 := kv.1 ++ equals :: kv.2

def render : List Setting → List UInt8
  | [] => []
  | [kv] => assign kv
  | kv :: kvs => assign kv ++ space :: render kvs

/-- A keyword that is read as it is. -/
def PlainKey (k : List UInt8) : Prop := k ≠ [] ∧ ∀ b ∈ k, isKeyByte b

/-- A value that is read as it is. -/
structure PlainValue (v : List UInt8) : Prop where
  ne_nil : v ≠ []
  not_quoted : v.head? ≠ some quote
  bytes : ∀ b ∈ v, isBlank b = false ∧ b ≠ backslash

theorem render_cons_of_ne_nil (kv : Setting) (h : kvs ≠ []) :
    render (kv :: kvs) = assign kv ++ space :: render kvs := by
  cases kvs with
  | nil => exact absurd rfl h
  | cons => rfl

/-! ## What reading takes -/

/-- The bytes that the end of a value takes when there is text after it. -/
def gap (rest : List UInt8) : Nat := if rest = [] then 0 else 1

theorem gap_le (rest : List UInt8) : gap rest ≤ 1 := by
  unfold gap
  split <;> decide

theorem length_unquoted (s : List UInt8) :
    (unquoted s).1.length + gap (unquoted s).2 + (unquoted s).2.length ≤ s.length := by
  fun_induction unquoted s with
  | case1 => simp [gap]
  | case2 c s =>
    have := gap_le s
    simp only [List.length_nil, List.length_cons]
    omega
  | case3 => simp [gap]
  | case4 d s _ ih =>
    simp only [List.length_cons]
    omega
  | case5 c s _ _ ih =>
    simp only [List.length_cons]
    omega

theorem unquoted_bytes
    (h : s.length ≤ (unquoted s).1.length + gap (unquoted s).2 + (unquoted s).2.length) :
    ∀ b ∈ (unquoted s).1, isBlank b = false ∧ b ≠ backslash := by
  fun_induction unquoted s with
  | case1 => simp
  | case2 => simp
  | case3 => simp
  | case4 d s _ ih =>
    have hle := length_unquoted s
    simp only [List.length_cons] at h
    omega
  | case5 c s hblank hslash ih =>
    simp only [List.length_cons] at h
    exact List.forall_mem_cons.mpr ⟨⟨by simpa using hblank, hslash⟩, ih (by omega)⟩

theorem unquoted_head (hc : isBlank c = false)
    (h : (c :: s).length ≤ (unquoted (c :: s)).1.length + gap (unquoted (c :: s)).2 + (unquoted (c
      :: s)).2.length) : (unquoted (c :: s)).1.head? = some c := by
  have hle := length_unquoted
  rw [unquoted.eq_def] at h ⊢
  simp only [hc, Bool.false_eq_true, if_false] at h ⊢
  split
  · split at h
    · cases s with
      | nil => simp [gap] at h
      | cons d s =>
        have := hle s
        simp only [List.length_cons] at h
        omega
    · contradiction
  · rfl

theorem length_quoted {r : List UInt8 × List UInt8} (h : quoted s = some r) :
    r.1.length + 1 + r.2.length ≤ s.length := by
  fun_induction quoted s generalizing r with
  | case1 => cases h
  | case2 s =>
    cases h
    simp
    omega
  | case3 => cases h
  | case4 d s _ ih =>
    obtain ⟨r, hr, rfl⟩ := Option.map_eq_some_iff.mp h
    have := ih hr
    simp only [List.length_cons]
    omega
  | case5 c s _ _ ih =>
    obtain ⟨r, hr, rfl⟩ := Option.map_eq_some_iff.mp h
    have := ih hr
    simp only [List.length_cons]
    omega

theorem length_skipBlanks_le (s : List UInt8) : (skipBlanks s).length ≤ s.length :=
  List.length_dropWhile_le _ _

theorem not_isBlank_of_skipBlanks {s t : List UInt8} (h : skipBlanks s = c :: t) :
    isBlank c = false := by
  have hne : s.dropWhile isBlank ≠ [] := by
    rw [show s.dropWhile isBlank = c :: t from h]
    exact List.cons_ne_nil _ _
  have hhead := List.head_dropWhile_not isBlank hne
  simpa [show s.dropWhile isBlank = c :: t from h] using hhead

theorem readValue_cost {r : List UInt8 × List UInt8} (h : readValue s = some r) :
    r.1.length + gap r.2 + r.2.length ≤ s.length ∧
    (s.length ≤ r.1.length + gap r.2 + r.2.length → r = ([], []) ∨ PlainValue r.1) := by
  have hskip := length_skipBlanks_le s
  unfold readValue at h
  split at h
  · cases h
    exact ⟨by simp [gap], fun _ => .inl rfl⟩
  · next c t ht =>
    rw [ht, List.length_cons] at hskip
    split at h
    · have hr := length_quoted h
      have hg := gap_le r.2
      exact ⟨by omega, fun hle => by omega⟩
    · next hquote =>
      cases h
      have hlen := length_unquoted (c :: t)
      rw [List.length_cons] at hlen
      refine ⟨by omega, fun hle => .inr ?_⟩
      have htight : (c :: t).length ≤ (unquoted (c :: t)).1.length +
          gap (unquoted (c :: t)).2 + (unquoted (c :: t)).2.length := by
        rw [List.length_cons]
        omega
      have hhead := unquoted_head (not_isBlank_of_skipBlanks ht) htight
      refine ⟨fun hnil => ?_, fun hq => ?_, unquoted_bytes htight⟩
      · rw [hnil] at hhead
        cases hhead
      · rw [hhead] at hq
        exact hquote (Option.some_inj.mp hq)

theorem readSetting_cost {rest : List UInt8} (h : readSetting s = some (kv, rest)) :
    (assign kv).length + gap rest + rest.length ≤ s.length ∧
    (s.length ≤ (assign kv).length + gap rest + rest.length →
      kv.2 = [] ∧ rest = [] ∨ PlainValue kv.2) := by
  have hsplit : (s.takeWhile isKeyByte).length + (s.dropWhile isKeyByte).length = s.length := by
    rw [← List.length_append, List.takeWhile_append_dropWhile]
  have hskip := length_skipBlanks_le (s.dropWhile isKeyByte)
  unfold readSetting at h
  split at h
  · cases h
  · next c t ht =>
    rw [ht, List.length_cons] at hskip
    split at h
    · obtain ⟨r, hr, heq⟩ := Option.map_eq_some_iff.mp h
      cases heq
      obtain ⟨hle, htight⟩ := readValue_cost hr
      simp only [assign, List.length_append, List.length_cons]
      refine ⟨by omega, fun hs => ?_⟩
      refine (htight (by omega)).imp_left fun hnil => ?_
      rw [hnil]
      exact ⟨rfl, rfl⟩
    · cases h

theorem ne_nil_of_parseFrom (h : parseFrom n s = some (kv :: kvs)) : s ≠ [] := by
  rintro rfl
  cases n with
  | zero => cases h
  | succ n => cases h

theorem parseFrom_cons (h : parseFrom n s = some (kv :: kvs)) :
    ∃ m c t rest, n = m + 1 ∧ skipBlanks s = c :: t ∧ readSetting (c :: t) = some (kv, rest) ∧
      parseFrom m rest = some kvs := by
  cases n with
  | zero => cases h
  | succ m =>
    unfold parseFrom at h
    split at h
    · cases h
    · next c t ht =>
      obtain ⟨⟨kv', rest⟩, hr, hmap⟩ := Option.bind_eq_some_iff.mp h
      obtain ⟨kvs', hkvs, heq⟩ := Option.map_eq_some_iff.mp hmap
      cases heq
      exact ⟨m, c, t, rest, rfl, ht, hr, hkvs⟩

theorem length_render_le (h : parseFrom n s = some kvs) : (render kvs).length ≤ s.length := by
  induction kvs generalizing n s with
  | nil => exact Nat.zero_le _
  | cons kv kvs ih =>
    obtain ⟨m, c, t, rest, rfl, ht, hr, hkvs⟩ := parseFrom_cons h
    have hskip := length_skipBlanks_le s
    have hcost := (readSetting_cost hr).1
    have hrest := ih hkvs
    rw [ht] at hskip
    cases kvs with
    | nil =>
      simp only [render]
      omega
    | cons kv' kvs =>
      have hne := ne_nil_of_parseFrom hkvs
      rw [gap, if_neg hne] at hcost
      rw [render_cons_of_ne_nil kv (List.cons_ne_nil _ _), List.length_append, List.length_cons]
      omega

theorem plain_of_length_le (h : parseFrom n s = some kvs) (hle : s.length ≤ (render kvs).length) :
    ∀ kv ∈ kvs, kv.2 = [] ∧ kvs.getLast? = some kv ∨ PlainValue kv.2 := by
  induction kvs generalizing n s with
  | nil => simp
  | cons kv kvs ih =>
    obtain ⟨m, c, t, rest, rfl, ht, hr, hkvs⟩ := parseFrom_cons h
    have hskip := length_skipBlanks_le s
    obtain ⟨hcost, htight⟩ := readSetting_cost hr
    have hrest := length_render_le hkvs
    rw [ht] at hskip
    cases kvs with
    | nil =>
      simp only [render] at hle
      refine List.forall_mem_cons.mpr ⟨?_, by simp⟩
      exact (htight (by omega)).imp_left fun hnil => ⟨hnil.1, rfl⟩
    | cons kv' kvs =>
      have hne := ne_nil_of_parseFrom hkvs
      rw [gap, if_neg hne] at hcost htight
      rw [render_cons_of_ne_nil kv (List.cons_ne_nil _ _), List.length_append,
        List.length_cons] at hle
      refine List.forall_mem_cons.mpr ⟨.inr ?_, fun kv'' hmem => ?_⟩
      · exact (htight (by omega)).resolve_left fun hnil => hne hnil.2
      · rw [List.getLast?_cons_cons]
        exact ih hkvs (by omega) kv'' hmem

/-! ## Reading what was written -/

theorem unquoted_append {v : List UInt8} (hv : ∀ b ∈ v, isBlank b = false ∧ b ≠ backslash)
    (t : List UInt8) : unquoted (v ++ t) = (v ++ (unquoted t).1, (unquoted t).2) := by
  induction v with
  | nil => rfl
  | cons c v ih =>
    obtain ⟨hc, hv⟩ := List.forall_mem_cons.mp hv
    rw [List.cons_append, unquoted.eq_def]
    simp [hc.1, hc.2, ih hv]

theorem unquoted_blank (hc : isBlank c = true) (s : List UInt8) : unquoted (c :: s) = ([], s) := by
  rw [unquoted.eq_def]
  exact if_pos hc

theorem skipBlanks_cons (hc : isBlank c = false) (s : List UInt8) :
    skipBlanks (c :: s) = c :: s := List.dropWhile_cons_of_neg (by simp [hc])

theorem readValue_append {v : List UInt8} (hv : PlainValue v) (t : List UInt8) :
    readValue (v ++ t) = some (v ++ (unquoted t).1, (unquoted t).2) := by
  cases v with
  | nil => exact absurd rfl hv.ne_nil
  | cons c v =>
    have hc : c ≠ quote := fun h => hv.not_quoted (by rw [h]; rfl)
    have hblank := (List.forall_mem_cons.mp hv.bytes).1.1
    rw [← unquoted_append hv.bytes, readValue, List.cons_append, skipBlanks_cons hblank]
    exact if_neg hc

theorem readSetting_append {k v : List UInt8} (hk : PlainKey k) (hv : PlainValue v)
    (t : List UInt8) : readSetting (assign (k, v) ++ t) =
      some ((k, v ++ (unquoted t).1), (unquoted t).2) := by
  have hequals : isKeyByte equals = false := by decide
  have hassign : assign (k, v) ++ t = k ++ equals :: (v ++ t) := by simp [assign]
  have htake : (assign (k, v) ++ t).takeWhile isKeyByte = k := by
    rw [hassign, List.takeWhile_append_of_pos hk.2,
      List.takeWhile_cons_of_neg (by simp [hequals]), List.append_nil]
  have hdrop : (assign (k, v) ++ t).dropWhile isKeyByte = equals :: (v ++ t) := by
    rw [hassign, List.dropWhile_append_of_pos hk.2,
      List.dropWhile_cons_of_neg (by simp [hequals])]
  rw [readSetting, htake, hdrop, skipBlanks_cons (by decide)]
  simp [readValue_append hv]

theorem parseFrom_succ {k v t : List UInt8} (hk : PlainKey k) (hv : PlainValue v) :
    parseFrom (n + 1) (assign (k, v) ++ t) =
      (parseFrom n (unquoted t).2).map ((k, v ++ (unquoted t).1) :: ·) := by
  obtain ⟨hne, hbytes⟩ := hk
  cases k with
  | nil => exact absurd rfl hne
  | cons c k =>
    have hc : isBlank c = false := by
      have := (List.forall_mem_cons.mp hbytes).1
      simp only [isKeyByte, decide_eq_true_eq] at this
      simpa using this.2
    have hread := readSetting_append ⟨hne, hbytes⟩ hv t
    have hcons : assign (c :: k, v) ++ t = c :: (k ++ equals :: v ++ t) := by simp [assign]
    rw [hcons] at hread ⊢
    rw [parseFrom, skipBlanks_cons hc]
    simp only [hread, Option.bind_some]

theorem parseFrom_render (hn : kvs.length < n) (hkeys : ∀ kv ∈ kvs, PlainKey kv.1)
    (hvalues : ∀ kv ∈ kvs, PlainValue kv.2) : parseFrom n (render kvs) = some kvs := by
  induction kvs generalizing n with
  | nil =>
    cases n with
    | zero => exact absurd hn (Nat.not_lt_zero _)
    | succ n => rfl
  | cons kv kvs ih =>
    obtain ⟨hk, hkeys⟩ := List.forall_mem_cons.mp hkeys
    obtain ⟨hv, hvalues⟩ := List.forall_mem_cons.mp hvalues
    cases n with
    | zero => exact absurd hn (Nat.not_lt_zero _)
    | succ n =>
      have hrest := ih (Nat.lt_of_succ_lt_succ hn) hkeys hvalues
      cases kvs with
      | nil =>
        have hstep := parseFrom_succ (n := n) (t := []) hk hv
        rw [List.append_nil] at hstep
        have hend : unquoted [] = ([], []) := by rw [unquoted]
        rw [render, hstep, hend, List.append_nil]
        exact congrArg (Option.map _) hrest
      | cons kv' kvs =>
        rw [render_cons_of_ne_nil kv (List.cons_ne_nil _ _), parseFrom_succ hk hv]
        rw [unquoted_blank (by decide), hrest, List.append_nil]
        rfl

theorem length_le_render (kvs : List Setting) : kvs.length ≤ (render kvs).length := by
  induction kvs with
  | nil => exact Nat.le_refl _
  | cons kv kvs ih =>
    cases kvs with
    | nil =>
      simp only [render, assign, List.length_append, List.length_cons, List.length_nil]
      omega
    | cons kv' kvs =>
      rw [render_cons_of_ne_nil kv (List.cons_ne_nil _ _)]
      simp only [List.length_append, List.length_cons] at ih ⊢
      omega

theorem parse_render_iff (hkeys : ∀ kv ∈ kvs, PlainKey kv.1)
    (hlast : ∀ kv ∈ kvs.getLast?, kv.2 ≠ []) :
    parse (render kvs) = some kvs ↔ ∀ kv ∈ kvs, PlainValue kv.2 := by
  constructor
  · intro h kv hmem
    refine (plain_of_length_le h (Nat.le_refl _) kv hmem).resolve_left fun hnil => ?_
    exact hlast kv hnil.2 hnil.1
  · exact parseFrom_render (Nat.lt_succ_of_le (length_le_render kvs)) hkeys

end ConnInfo
