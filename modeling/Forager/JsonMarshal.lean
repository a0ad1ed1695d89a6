import Forager.JsonRaw

/-!
# What is marshalled is decoded

`json.Marshal` of maps, slices, structs and values of type `any`, and that
decoding into a fresh variable gives back what was marshalled.
-/

namespace GoJson

open JsonText Go

variable {α β σ τ : Type}
variable {fields : List (StructField σ)} {tag : String} {m : StrMap β} {enc : β → Json} {ok : Bool}
  {s s' : σ}

/-! ## Maps and slices -/

theorem insert_last {k : String} (h : ∀ e ∈ m, e.1 < k) (v : β) : m.insert k v = m ++ [(k, v)] := by
  induction m with
  | nil => rfl
  | cons e m ih =>
    obtain ⟨hlt, hrest⟩ := List.forall_mem_cons.mp h
    unfold StrMap.insert
    rw [if_neg hlt.ne', if_neg (not_lt.mpr hlt.le), ih hrest]
    rfl

theorem ofEntries_sorted (h : m.Sorted) : StrMap.ofEntries m = m := by
  suffices hacc : ∀ acc : StrMap β, (acc ++ m).Pairwise (·.1 < ·.1) →
      m.foldl (fun acc e => StrMap.insert e.1 e.2 acc) acc = acc ++ m from hacc [] h
  clear h
  induction m with
  | nil => exact fun acc _ => (List.append_nil acc).symm
  | cons e m ih =>
    intro acc hacc
    have hlast : ∀ e' ∈ acc, e'.1 < e.1 := fun e' he' =>
      (List.pairwise_append.mp hacc).2.2 e' he' e List.mem_cons_self
    rw [List.foldl_cons, insert_last hlast, ih _ (by rwa [List.append_assoc]), List.append_assoc]
    rfl

theorem foldl_marshalled {d : Json → β × Bool} (hs : m.Sorted)
    (h : ∀ e ∈ m, d (enc e.2) = (e.2, true)) :
    (m.map fun e => (quote e.1, enc e.2)).foldl (fun acc e =>
      (StrMap.insert (text e.1) (d e.2).1 acc.1, acc.2 && (d e.2).2)) ([], true) = (m, true) := by
  suffices hacc : ∀ acc : StrMap β, (m.map fun e => (quote e.1, enc e.2)).foldl (fun acc e =>
      (StrMap.insert (text e.1) (d e.2).1 acc.1, acc.2 && (d e.2).2)) (acc, true) =
      (m.foldl (fun acc e => StrMap.insert e.1 e.2 acc) acc, true) from
    (hacc []).trans (Prod.ext (ofEntries_sorted hs) rfl)
  clear hs
  induction m with
  | nil => exact fun _ => rfl
  | cons e m ih =>
    intro acc
    obtain ⟨he, hm⟩ := List.forall_mem_cons.mp h
    simp only [List.map_cons, List.foldl_cons, text_quote, he, Bool.and_true]
    exact ih hm _

theorem mapOf_marshalled {zero : β} {d : Decoder β} (hs : m.Sorted)
    (h : ∀ e ∈ m, d zero (enc e.2) = (e.2, true)) :
    mapOf zero d none (.obj (m.map fun e => (quote e.1, enc e.2))) = (some m, true) := by
  have hfold := foldl_marshalled hs h
  unfold mapOf
  dsimp only [Option.getD_none]
  rw [hfold]

theorem freshSliceOf_marshalled {zero : α} {d : Decoder α} {enc : α → Json} {xs : List α}
    (h : ∀ x ∈ xs, d zero (enc x) = (x, true)) (v : Option (List α)) :
    freshSliceOf zero d v (.arr (xs.map enc)) = (some xs, true) := by
  have hcells : ∀ xs : List α, (∀ x ∈ xs, d zero (enc x) = (x, true)) →
      overCells zero d (xs.map enc) [] = ((xs, []), true) := by
    intro xs
    induction xs with
    | nil => exact fun _ => rfl
    | cons x xs ih =>
      intro hxs
      obtain ⟨hx, hrest⟩ := List.forall_mem_cons.mp hxs
      simp [overCells, hx, ih hrest]
  cases xs with
  | nil => rfl
  | cons x xs =>
    have hx := hcells (x :: xs) h
    simp only [List.map_cons] at hx
    simp [freshSliceOf, sliceOf, Slice.nil, hx]

/-! ## Values of type `any` -/

mutual
/-- A value that `encoding/json` produces. -/
def IsJson : Any → Prop
  | .nil | .bool _ | .string _ => True
  | .float f => f.Canonical
  | .slice xs => AreJson xs
  | .map ms => StrMap.Sorted ms ∧ HaveJson ms
  | .int _ | .strings _ => False

def AreJson : List Any → Prop
  | [] => True
  | x :: xs => IsJson x ∧ AreJson xs

def HaveJson : List (String × Any) → Prop
  | [] => True
  | (_, x) :: ms => IsJson x ∧ HaveJson ms
end

theorem ofMembers_eq (m : StrMap Any) :
    ofMembers m = m.map fun e => (quote e.1, ofAny e.2) := by
  induction m with
  | nil => rfl
  | cons e m ih => rw [ofMembers, ih]; rfl

mutual
theorem anyOf_ofAny : ∀ a : Any, IsJson a → anyOf (ofAny a) = (a, true)
  | .nil, _ | .bool _, _ => rfl
  | .float f, h => by rw [ofAny, anyOf, toFloat_floatLit h]
  | .string s, _ => by rw [ofAny, anyOf, text_quote]
  | .slice xs, h => by
    rw [IsJson] at h
    rw [ofAny, anyOf, anyElements_ofElements xs h]
  | .map ms, h => by
    rw [IsJson] at h
    rw [ofAny, anyOf, anyMembers_eq, ofMembers_eq,
      foldl_marshalled h.1 (haveJson_forall ms h.2)]

theorem anyElements_ofElements : ∀ xs : List Any, AreJson xs →
    anyElements (ofElements xs) = (xs, true)
  | [], _ => rfl
  | x :: xs, h => by
    rw [AreJson] at h
    simp [ofElements, anyElements, anyOf_ofAny x h.1, anyElements_ofElements xs h.2]

theorem haveJson_forall : ∀ ms : List (String × Any), HaveJson ms →
    ∀ e ∈ ms, anyOf (ofAny e.2) = (e.2, true)
  | [], _ => by simp
  | (k, x) :: ms, h => by
    rw [HaveJson] at h
    exact List.forall_mem_cons.mpr ⟨anyOf_ofAny x h.1, haveJson_forall ms h.2⟩
end

/-! ## Structs -/

/-- `json.Marshal` of a struct: its members in order, `none` for those that
`omitempty` leaves out. -/
def marshalStruct (ms : List (String × Option Json)) : Json :=
  .obj (ms.flatMap fun e => e.2.toList.map fun j => (quote e.1, j))

def omitEmpty (s : String) : Option Json := if s = "" then none else some (.str (quote s))

def memberStep (fields : List (StructField σ)) (acc : σ × Bool) (e : String × Option Json) :
    σ × Bool :=
  match e.2, findField fields e.1 with
  | some j, some f => ((f.decode acc.1 j).1, acc.2 && (f.decode acc.1 j).2)
  | _, _ => acc

theorem struct_marshalStruct (fields : List (StructField σ)) (s : σ)
    (ms : List (String × Option Json)) :
    struct fields s (marshalStruct ms) = ms.foldl (memberStep fields) (s, true) := by
  rw [marshalStruct, struct_obj]
  suffices hfold : ∀ acc : σ × Bool, (ms.flatMap fun e => e.2.toList.map fun j =>
      (quote e.1, j)).foldl (structStep fields) acc = ms.foldl (memberStep fields) acc from
    hfold (s, true)
  induction ms with
  | nil => exact fun _ => rfl
  | cons e ms ih =>
    intro acc
    rw [List.flatMap_cons, List.foldl_append, List.foldl_cons, ih]
    congr 1
    obtain ⟨k, _ | j⟩ := e
    · simp [memberStep]
    · simp only [memberStep, structStep, Option.toList_some, List.map_singleton, List.foldl_cons,
        List.foldl_nil, text_quote]
      cases findField fields k <;> rfl

theorem step_none (h : findField fields tag = none) (acc : σ × Bool) (v : Option Json) :
    memberStep fields acc (tag, v) = acc := by
  unfold memberStep
  rw [h]
  cases v <;> rfl

theorem step_field {get : σ → τ} {set : σ → τ → σ} {d : Decoder τ}
    (h : findField fields tag = some (field tag get set d)) {v : Option Json} {x : τ}
    (hset : set s x = s') (hnone : v = none → s' = s)
    (hsome : ∀ j, v = some j → d (get s) j = (x, true)) :
    memberStep fields (s, ok) (tag, v) = (s', ok) := by
  unfold memberStep
  rw [h]
  cases v with
  | none => rw [hnone rfl]
  | some j => simp [field, hsome j rfl, hset]

theorem string_quote (v s : String) : string v (.str (quote s)) = (s, true) := by
  rw [string, text_quote]

theorem step_string {get : σ → String} {set : σ → String → σ}
    (h : findField fields tag = some (field tag get set string)) {x : String}
    (hset : set s x = s') :
    memberStep fields (s, ok) (tag, some (.str (quote x))) = (s', ok) := by
  refine step_field h hset (by simp) (fun j hj => ?_)
  obtain rfl := Option.some.inj hj
  exact string_quote _ x

theorem step_omitEmpty {get : σ → String} {set : σ → String → σ}
    (h : findField fields tag = some (field tag get set string)) {x : String} (hset : set s x = s')
    (hs : set s "" = s) : memberStep fields (s, ok) (tag, omitEmpty x) = (s', ok) := by
  unfold omitEmpty
  split
  · next hx =>
    subst hx
    exact step_field h hset (fun _ => hset.symm.trans hs) (by simp)
  · exact step_string h hset

def omitEmptyMap (enc : β → Json) : Option (StrMap β) → Option Json
  | none | some [] => none
  | some m => some (.obj (m.map fun e => (quote e.1, enc e.2)))

/-- A map that is nil if it is empty. -/
def dropEmpty : Option (StrMap β) → Option (StrMap β)
  | some [] => none
  | m => m

theorem step_omitEmptyMap {get : σ → Option (StrMap β)} {set : σ → Option (StrMap β) → σ} {zero : β}
    {d : Decoder β} (h : findField fields tag = some (field tag get set (mapOf zero d)))
    {m : Option (StrMap β)} (hset : set s (dropEmpty m) = s') (hget : get s = none)
    (hs : set s none = s)
    (hm : ∀ m', m = some m' → m'.Sorted ∧ ∀ e ∈ m', d zero (enc e.2) = (e.2, true)) :
    memberStep fields (s, ok) (tag, omitEmptyMap enc m) = (s', ok) := by
  match m with
  | none | some [] =>
    exact step_field h hset (fun _ => hset.symm.trans hs) (by simp [omitEmptyMap])
  | some (e :: m) =>
    obtain ⟨hsorted, hdec⟩ := hm _ rfl
    refine step_field h hset (by simp [omitEmptyMap]) (fun j hj => ?_)
    obtain rfl := Option.some.inj hj
    rw [hget]
    exact mapOf_marshalled hsorted hdec

end GoJson
