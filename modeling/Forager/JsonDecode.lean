import Mathlib.Data.List.Nodup
import Forager.GoValue
import Forager.Json
import Forager.JsonNumber

/-!
# Decoding JSON into Go values

`json.Unmarshal` as the decoder of `encoding/json` works: a value is stored
into a variable that already has one, a value of the wrong type is an error
that the decoder records before it goes on, and what is already there matters.
A `null` leaves strings and structs alone and empties maps and slices; an
object is added to the map that is there; an array is decoded over the elements
that are there, also over those cut off by an earlier, shorter array.

A struct takes a member for the field whose tag is the key, or else for the one
whose tag is the key with letter case ignored. A `map[string]T` takes every
member under its exact key.
-/

namespace GoJson

open JsonText Go

/-! ## Strings -/

def hexVal (h : Hex) : Nat :=
  let n := h.char.toNat
  if n < 0x41 then n - 0x30 else if n < 0x61 then n - 0x41 + 10 else n - 0x61 + 10

/-- The UTF-16 unit of a `\u` escape. -/
def unit (a b c d : Hex) : Nat := ((hexVal a * 16 + hexVal b) * 16 + hexVal c) * 16 + hexVal d

def isSurrogate (u : Nat) : Bool := 0xD800 ≤ u ∧ u < 0xE000

/-- `utf16.DecodeRune`: the character of a surrogate pair. -/
def surrogatePair (u v : Nat) : Option Char :=
  if u < 0xDC00 ∧ 0xDC00 ≤ v ∧ v < 0xE000 then
    some (Char.ofNat ((u - 0xD800) * 0x400 + (v - 0xDC00) + 0x10000))
  else none

def replacementChar : Char := Char.ofNat 0xFFFD

def escValue : Esc → Char
  | .quote => dquote
  | .backslash => backslash
  | .slash => '/'
  | .b => Char.ofNat 0x08
  | .f => Char.ofNat 0x0C
  | .n => '\n'
  | .r => '\r'
  | .t => '\t'

def unquote : StrLit → List Char
  | [] => []
  | .plain c _ :: s => c :: unquote s
  | .esc e :: s => escValue e :: unquote s
  | .unicode a b c d :: s =>
    if isSurrogate (unit a b c d) then
      match s with
      | .unicode a' b' c' d' :: s' =>
        match surrogatePair (unit a b c d) (unit a' b' c' d') with
        | some c => c :: unquote s'
        | none => replacementChar :: unquote (.unicode a' b' c' d' :: s')
      | s => replacementChar :: unquote s
    else Char.ofNat (unit a b c d) :: unquote s

def text (s : StrLit) : String := String.ofList (unquote s)

def hexDigit (n : Fin 16) : Hex := ⟨Nat.digitChar n, by revert n; decide⟩

/-- The `\u` escape for a UTF-16 unit. -/
def unicodeItem (n : Nat) : StrItem :=
  .unicode (hexDigit (Fin.ofNat 16 (n / 4096))) (hexDigit (Fin.ofNat 16 (n / 256)))
    (hexDigit (Fin.ofNat 16 (n / 16))) (hexDigit (Fin.ofNat 16 n))

def isHTML (c : Char) : Bool := c ∈ ['<', '>', '&', Char.ofNat 0x2028, Char.ofNat 0x2029]

def quoteChar (c : Char) : StrItem :=
  if c = dquote then .esc .quote
  else if c = backslash then .esc .backslash
  else if c = Char.ofNat 0x08 then .esc .b
  else if c = Char.ofNat 0x0C then .esc .f
  else if c = '\n' then .esc .n
  else if c = '\r' then .esc .r
  else if c = '\t' then .esc .t
  else if h : isPlain c = true ∧ isHTML c = false then .plain c h.1
  else unicodeItem c.toNat

def quote (s : String) : StrLit := s.toList.map quoteChar

/-- What `json.Marshal` makes of a string literal inside a `json.RawMessage`. -/
def htmlEscapeItem : StrItem → StrItem
  | .plain c h => if isHTML c then unicodeItem c.toNat else .plain c h
  | item => item

mutual
/-- What `json.Marshal` makes of a `json.RawMessage`. -/
def htmlEscape : Json → Json
  | .str s => .str (s.map htmlEscapeItem)
  | .arr xs => .arr (htmlEscapeElements xs)
  | .obj ms => .obj (htmlEscapeMembers ms)
  | j => j

def htmlEscapeElements : List Json → List Json
  | [] => []
  | x :: xs => htmlEscape x :: htmlEscapeElements xs

def htmlEscapeMembers : List (StrLit × Json) → List (StrLit × Json)
  | [] => []
  | (k, x) :: ms => (k.map htmlEscapeItem, htmlEscape x) :: htmlEscapeMembers ms
end

/-! ## `any` -/

mutual
/-- The value of type `any`, and whether every number was in range. -/
def anyOf : Json → Any × Bool
  | .null => (.nil, true)
  | .bool b => (.bool b, true)
  | .num n => match toFloat n with
    | some f => (.float f, true)
    | none => (.nil, false)
  | .str s => (.string (text s), true)
  | .arr xs => let r := anyElements xs; (.slice r.1, r.2)
  | .obj ms => let r := anyMembers ([], true) ms; (.map r.1, r.2)

def anyElements : List Json → List Any × Bool
  | [] => ([], true)
  | x :: xs =>
    let r := anyOf x
    let rs := anyElements xs
    (r.1 :: rs.1, r.2 && rs.2)

def anyMembers (acc : StrMap Any × Bool) : List (StrLit × Json) → StrMap Any × Bool
  | [] => acc
  | (k, x) :: ms =>
    let r := anyOf x
    anyMembers (acc.1.insert (text k) r.1, acc.2 && r.2) ms
end

mutual
def ofAny : Any → Json
  | .nil => .null
  | .bool b => .bool b
  | .float f => .num (floatLit f)
  | .int n => .num (intLit n)
  | .string s => .str (quote s)
  | .slice xs => .arr (ofElements xs)
  | .strings xs => .arr (xs.map fun s => .str (quote s))
  | .map ms => .obj (ofMembers ms)

def ofElements : List Any → List Json
  | [] => []
  | x :: xs => ofAny x :: ofElements xs

def ofMembers : List (String × Any) → List (StrLit × Json)
  | [] => []
  | (k, x) :: ms => (quote k, ofAny x) :: ofMembers ms
end

/-! ## Decoders -/

/-- Stores a JSON value into a variable; the flag is `false` after an error. -/
abbrev Decoder (α : Type) := α → Json → α × Bool

variable {α β σ τ : Type}

def string : Decoder String
  | _, .str s => (text s, true)
  | v, .null => (v, true)
  | v, _ => (v, false)

def bool : Decoder Bool
  | _, .bool b => (b, true)
  | v, .null => (v, true)
  | v, _ => (v, false)

/-- `int`, of 64 bits. -/
def int : Decoder Int
  | v, .num n => match toInt n with
    | some i => (i, true)
    | none => (v, false)
  | v, .null => (v, true)
  | v, _ => (v, false)

/-- `uint32` and the like, of `w` bits. -/
def uint (w : Nat) : Decoder Nat
  | v, .num n => match toUint w n with
    | some i => (i, true)
    | none => (v, false)
  | v, .null => (v, true)
  | v, _ => (v, false)

def any : Decoder Any := fun _ j => anyOf j

def raw : Decoder Json := fun _ j => (j, true)

def mapOf (zero : β) (d : Decoder β) : Decoder (Option (StrMap β))
  | _, .null => (none, true)
  | m, .obj ms =>
    let r := ms.foldl (fun acc e =>
      let v := d zero e.2
      (acc.1.insert (text e.1) v.1, acc.2 && v.2)) (m.getD [], true)
    (some r.1, r.2)
  | m, _ => (m, false)

/-- A slice with the elements behind its end that its backing array still has;
`none` is the nil slice. -/
structure Slice (α : Type) where
  elems : Option (List α)
  spare : List α
deriving DecidableEq, Repr

def Slice.nil : Slice α := ⟨none, []⟩

/-- The elements decoded over the cells that are there, and the cells left. -/
def overCells (zero : α) (d : Decoder α) : List Json → List α → (List α × List α) × Bool
  | [], cells => (([], cells), true)
  | j :: js, cells =>
    let v := d (cells.headD zero) j
    let r := overCells zero d js cells.tail
    ((v.1 :: r.1.1, r.1.2), v.2 && r.2)

/-- `[]T`. -/
def sliceOf (zero : α) (d : Decoder α) : Decoder (Slice α)
  | _, .null => (.nil, true)
  | _, .arr [] => (⟨some [], []⟩, true)
  | s, .arr js =>
    let r := overCells zero d js (s.elems.getD [] ++ s.spare)
    (⟨some r.1.1, r.1.2⟩, r.2)
  | s, _ => (s, false)

def freshSliceOf (zero : α) (d : Decoder α) : Decoder (Option (List α)) :=
  fun _ j => let r := sliceOf zero d .nil j; (r.1.elems, r.2)

/-! ## Structs -/

/-- A field of a struct, decoded in place. -/
structure StructField (σ : Type) where
  tag : String
  decode : Decoder σ

/-- The field `tag` that `get` and `set` reach. -/
def field (tag : String) (get : σ → τ) (set : σ → τ → σ) (d : Decoder τ) : StructField σ where
  tag := tag
  decode s j := let v := d (get s) j; (set s v.1, v.2)

/-- `foldRune` as far as a name can equal an ASCII tag: two letters outside
ASCII fold to one. -/
def foldChar (c : Char) : Char :=
  if 'a' ≤ c ∧ c ≤ 'z' then Char.ofNat (c.toNat - 0x20)
  else if c = Char.ofNat 0x017F then 'S'
  else if c = Char.ofNat 0x212A then 'K'
  else c

def foldName (s : String) : List Char := s.toList.map foldChar

def findField (fields : List (StructField σ)) (key : String) : Option (StructField σ) :=
  (fields.find? (·.tag = key)).or (fields.find? (foldName ·.tag = foldName key))

def struct (fields : List (StructField σ)) : Decoder σ
  | s, .null => (s, true)
  | s, .obj ms => ms.foldl (fun acc e =>
      match findField fields (text e.1) with
      | none => acc
      | some f => let v := f.decode acc.1 e.2; (v.1, acc.2 && v.2)) (s, true)
  | s, _ => (s, false)

def structStep (fields : List (StructField σ)) (acc : σ × Bool) (e : StrLit × Json) : σ × Bool :=
  match findField fields (text e.1) with
  | none => acc
  | some f => let v := f.decode acc.1 e.2; (v.1, acc.2 && v.2)

theorem struct_obj (fields : List (StructField σ)) (s : σ) (ms : List (StrLit × Json)) :
    struct fields s (.obj ms) = ms.foldl (structStep fields) (s, true) := rfl

def unmarshal (zero : α) (d : Decoder α) (msg : List Char) : α × Bool :=
  match parse msg with
  | none => (zero, false)
  | some j => d zero j

theorem unmarshal_print (zero : α) (d : Decoder α) (j : Json) :
    unmarshal zero d (print j) =
      if depth j ≤ maxNestingDepth then d zero j else (zero, false) := by
  unfold unmarshal
  rw [parse_print]
  by_cases h : depth j ≤ maxNestingDepth
  · rw [if_pos h, if_pos h]
  · rw [if_neg h, if_neg h]

/-! ## Quoting -/

theorem unquote_unicode {a b c d : Hex} (h : isSurrogate (unit a b c d) = false) (s : StrLit) :
    unquote (.unicode a b c d :: s) = Char.ofNat (unit a b c d) :: unquote s := by
  rw [unquote.eq_def]
  simp [h]

theorem hexVal_hexDigit : ∀ k : Fin 16, hexVal (hexDigit k) = k := by decide

theorem unquote_unicodeItem {n : Nat} (h : n < 0x10000) (hs : isSurrogate n = false)
    (s : StrLit) : unquote (unicodeItem n :: s) = Char.ofNat n :: unquote s := by
  have hunit : unit (hexDigit (Fin.ofNat 16 (n / 4096))) (hexDigit (Fin.ofNat 16 (n / 256)))
      (hexDigit (Fin.ofNat 16 (n / 16))) (hexDigit (Fin.ofNat 16 n)) = n := by
    simp only [unit, hexVal_hexDigit, Fin.ofNat]
    omega
  rw [unicodeItem, unquote_unicode, hunit]
  rw [hunit, hs]

theorem isSurrogate_toNat (c : Char) : isSurrogate c.toNat = false := by
  obtain h | ⟨h, -⟩ := c.valid
  · exact decide_eq_false fun hs => absurd hs.1 (Nat.not_le_of_lt h)
  · exact decide_eq_false fun hs => absurd hs.2 (Nat.not_lt_of_le h)

theorem toNat_lt_of_escaped {c : Char} (hq : c ≠ dquote) (hb : c ≠ backslash)
    (h : ¬ (isPlain c = true ∧ isHTML c = false)) : c.toNat < 0xD800 := by
  by_contra hge
  refine h ⟨by simp [isPlain, hq, hb]; omega, ?_⟩
  by_contra hhtml
  simp only [isHTML, List.mem_cons, List.not_mem_nil, or_false, Bool.not_eq_false,
    decide_eq_true_eq] at hhtml
  rcases hhtml with rfl | rfl | rfl | rfl | rfl <;> exact hge (by decide)

theorem unquote_quoteChar (c : Char) (s : StrLit) :
    unquote (quoteChar c :: s) = c :: unquote s := by
  unfold quoteChar
  split
  · next h => rw [h]; rfl
  · next hq =>
    split
    · next h => rw [h]; rfl
    · next hb =>
      repeat' split
      case isFalse.isFalse.isFalse.isFalse.isFalse.isFalse h =>
        rw [unquote_unicodeItem ((toNat_lt_of_escaped hq hb h).trans (by decide))
          (isSurrogate_toNat c), Char.ofNat_toNat]
      all_goals first | rfl | (next h => rw [h]; rfl)

theorem unquote_quote (cs : List Char) : unquote (cs.map quoteChar) = cs := by
  induction cs with
  | nil => rfl
  | cons c cs ih => rw [List.map_cons, unquote_quoteChar, ih]

@[simp] theorem text_quote (s : String) : text (quote s) = s := by
  rw [text, quote, unquote_quote, String.ofList_toList]

/-! ## The fields of a struct -/

def spells (tag : String) (k : StrLit) : Bool := foldName (text k) = foldName tag

/-- The values under keys spelled like the tag, in order. -/
def spelled (tag : String) (ms : List (StrLit × Json)) : List Json :=
  (ms.filter (spells tag ·.1)).map (·.2)

def members : Json → List (StrLit × Json)
  | .obj ms => ms
  | _ => []

/-- A variable after values were stored into it one after another. -/
def stored (d : Decoder τ) (v : τ) (js : List Json) : τ := js.foldl (fun v j => (d v j).1) v

theorem findField_some {fields : List (StructField σ)} {key : String} {f : StructField σ}
    (h : findField fields key = some f) : f ∈ fields ∧ foldName f.tag = foldName key := by
  rcases Option.or_eq_some_iff.mp h with h | ⟨-, h⟩
  · have htag : f.tag = key := by simpa using List.find?_some h
    exact ⟨List.mem_of_find?_eq_some h, congrArg foldName htag⟩
  · exact ⟨List.mem_of_find?_eq_some h, by simpa using List.find?_some h⟩

theorem findField_eq_iff {fields : List (StructField σ)} (hnd : (fields.map (foldName ·.tag)).Nodup)
    {f : StructField σ} (hf : f ∈ fields) (key : String) :
    findField fields key = some f ↔ foldName key = foldName f.tag := by
  constructor
  · exact fun h => (findField_some h).2.symm
  · intro hkey
    cases h : findField fields key with
    | none =>
      have hnone := (Option.or_eq_none_iff.mp h).2
      have hne := List.find?_eq_none.mp hnone f hf
      simp [hkey] at hne
    | some g =>
      obtain ⟨hg, htag⟩ := findField_some h
      rw [List.inj_on_of_nodup_map hnd hg hf (htag.trans hkey)]

/-- The part `get` of a struct is decoded by `d` under the tag `tag`, and by no
other field. -/
structure Decodes (fields : List (StructField σ)) (tag : String) (get : σ → τ) (d : Decoder τ) :
    Prop where
  distinct : (fields.map (foldName ·.tag)).Nodup
  mem : tag ∈ fields.map (·.tag)
  step : ∀ f ∈ fields, ∀ s j,
    get (f.decode s j).1 = if f.tag = tag then (d (get s) j).1 else get s

theorem Decodes.struct_get {fields : List (StructField σ)} {tag : String} {get : σ → τ}
    {d : Decoder τ} (h : Decodes fields tag get d) (s : σ) (j : Json) :
    get (struct fields s j).1 = stored d (get s) (spelled tag (members j)) := by
  suffices hfold : ∀ (ms : List (StrLit × Json)) (acc : σ × Bool),
      get (ms.foldl (fun acc e => match findField fields (text e.1) with
        | none => acc
        | some f => let v := f.decode acc.1 e.2; (v.1, acc.2 && v.2)) acc).1 =
        stored d (get acc.1) (spelled tag ms) by
    cases j with
    | obj ms => exact hfold ms (s, true)
    | _ => rfl
  obtain ⟨f, hf, rfl⟩ := List.mem_map.mp h.mem
  intro ms
  induction ms with
  | nil => intro acc; rfl
  | cons e ms ih =>
    intro acc
    have hfind := findField_eq_iff h.distinct hf (text e.1)
    rw [List.foldl_cons, ih]
    by_cases hs : foldName (text e.1) = foldName f.tag
    · have hsp : spelled f.tag (e :: ms) = e.2 :: spelled f.tag ms := by simp [spelled, spells, hs]
      rw [hfind.mpr hs, hsp]
      simp [stored, h.step f hf]
    · have hsp : spelled f.tag (e :: ms) = spelled f.tag ms := by simp [spelled, spells, hs]
      rw [hsp]
      cases hg : findField fields (text e.1) with
      | none => rfl
      | some g =>
        obtain ⟨hmem, htag⟩ := findField_some hg
        have hne : g.tag ≠ f.tag := fun h => hs (htag.symm.trans (congrArg foldName h))
        simp only [h.step g hmem, if_neg hne]

def membersOf (msg : List Char) : List (StrLit × Json) := (parse msg).elim [] members

theorem Decodes.unmarshal_get {fields : List (StructField σ)} {tag : String} {get : σ → τ}
    {d : Decoder τ} (h : Decodes fields tag get d) (zero : σ) (msg : List Char) :
    get (unmarshal zero (struct fields) msg).1 =
      stored d (get zero) (spelled tag (membersOf msg)) := by
  unfold unmarshal membersOf
  cases parse msg with
  | none => rfl
  | some j => exact h.struct_get zero j

theorem stored_append (d : Decoder τ) (v : τ) (js ks : List Json) :
    stored d v (js ++ ks) = stored d (stored d v js) ks := List.foldl_append

theorem Decodes.stored_get {fields : List (StructField σ)} {tag : String} {get : σ → τ}
    {d : Decoder τ} (h : Decodes fields tag get d) (s : σ) (js : List Json) :
    get (stored (struct fields) s js) =
      stored d (get s) (js.flatMap fun j => spelled tag (members j)) := by
  induction js generalizing s with
  | nil => rfl
  | cons j js ih =>
    rw [List.flatMap_cons, stored_append, ← h.struct_get s j]
    exact ih _

/-! ## Members that were marshalled -/

theorem spelled_ofMembers_cons (tag k : String) (v : Any) (m : StrMap Any) :
    spelled tag (ofMembers ((k, v) :: m)) =
      if foldName k = foldName tag then ofAny v :: spelled tag (ofMembers m)
      else spelled tag (ofMembers m) := by
  by_cases h : foldName k = foldName tag <;> simp [spelled, spells, ofMembers, h]

theorem spelled_ofMembers_insert {tag k : String} (h : foldName k ≠ foldName tag) (v : Any)
    (m : StrMap Any) : spelled tag (ofMembers (m.insert k v)) = spelled tag (ofMembers m) := by
  induction m with
  | nil => rw [StrMap.insert, spelled_ofMembers_cons, if_neg h]
  | cons e m ih =>
    obtain ⟨k', v'⟩ := e
    unfold StrMap.insert
    split
    · next heq => rw [spelled_ofMembers_cons, spelled_ofMembers_cons, ← heq, if_neg h, if_neg h]
    · split
      · rw [spelled_ofMembers_cons, if_neg h]
      · rw [spelled_ofMembers_cons, spelled_ofMembers_cons, ih]

/-! ## Decoding through `any` -/

theorem anyMembers_eq (acc : StrMap Any × Bool) (ms : List (StrLit × Json)) :
    anyMembers acc ms = ms.foldl (fun acc e =>
      (acc.1.insert (text e.1) (anyOf e.2).1, acc.2 && (anyOf e.2).2)) acc := by
  induction ms generalizing acc with
  | nil => rfl
  | cons e ms ih =>
    obtain ⟨k, x⟩ := e
    rw [anyMembers, ih]
    rfl

theorem anyElements_fst (xs : List Json) : (anyElements xs).1 = xs.map fun x => (anyOf x).1 := by
  induction xs with
  | nil => rfl
  | cons x xs ih => simp [anyElements, ih]

def anyString : Any → String
  | .string s => s
  | _ => ""

def anyMap (conv : Any → β) : Any → Option (StrMap β)
  | .map m => some (StrMap.mapVals conv m)
  | _ => none

def anySlice (conv : Any → α) : Any → Option (List α)
  | .slice xs => some (xs.map conv)
  | _ => none

theorem string_fresh (j : Json) : (string "" j).1 = anyString (anyOf j).1 := by
  cases j with
  | num n =>
    simp only [anyOf]
    split <;> rfl
  | _ => rfl

theorem mapOf_fresh {zero : β} {d : Decoder β} {conv : Any → β}
    (h : ∀ j, (d zero j).1 = conv (anyOf j).1) (j : Json) :
    (mapOf zero d none j).1 = anyMap conv (anyOf j).1 := by
  cases j with
  | num n =>
    simp only [anyOf]
    split <;> rfl
  | obj ms =>
    suffices hfold : ∀ (m : StrMap Any) (ok ok' : Bool),
        (ms.foldl (fun acc e => (acc.1.insert (text e.1) (d zero e.2).1, acc.2 && (d zero e.2).2))
          (StrMap.mapVals conv m, ok)).1 =
        StrMap.mapVals conv (ms.foldl (fun acc e =>
          (acc.1.insert (text e.1) (anyOf e.2).1, acc.2 && (anyOf e.2).2)) (m, ok')).1 by
      have hm := hfold [] true true
      rw [← anyMembers_eq] at hm
      exact congrArg some hm
    induction ms with
    | nil => intro m ok ok'; rfl
    | cons e ms ih =>
      intro m ok ok'
      rw [List.foldl_cons, List.foldl_cons, h, ← StrMap.mapVals_insert]
      exact ih _ _ _
  | _ => rfl

theorem freshSliceOf_fresh {zero : α} {d : Decoder α} {conv : Any → α}
    (h : ∀ j, (d zero j).1 = conv (anyOf j).1) (v : Option (List α)) (j : Json) :
    (freshSliceOf zero d v j).1 = anySlice conv (anyOf j).1 := by
  have hcells : ∀ xs, (overCells zero d xs []).1.1 = xs.map fun x => conv (anyOf x).1 := by
    intro xs
    induction xs with
    | nil => rfl
    | cons x xs ih => simp [overCells, h, ih]
  cases j with
  | num n =>
    simp only [anyOf]
    split <;> rfl
  | arr xs =>
    cases xs with
    | nil => rfl
    | cons x xs =>
      simp only [anyOf, anySlice, anyElements_fst, List.map_map]
      exact congrArg some (hcells (x :: xs))
  | _ => rfl

end GoJson
