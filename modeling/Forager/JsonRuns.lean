import Forager.JsonDecode
import Mathlib.Data.List.Induction

/-!
# Values stored one after another

A member that is repeated, or that is spelled in several ways, is decoded into
one variable every time. What the variable holds at the end is said here in
terms of the values: a string variable keeps the last string, a map collects
the members of the objects since the last `null`, a slice takes every array
over the elements it has. Two runs of values that agree in these terms leave
the same.
-/

namespace GoJson

open JsonText Go

variable {α β γ : Type}

/-! ## Strings -/

def lastText (js : List Json) : String :=
  js.foldl (fun v j => match j with
    | .str s => text s
    | _ => v) ""

def TextAgree (js ks : List Json) : Prop := lastText js = lastText ks

theorem stored_string (js : List Json) : stored string "" js = lastText js := by
  unfold stored lastText
  congr 1
  funext v j
  cases j <;> rfl

theorem stored_string_eq_iff (js ks : List Json) :
    stored string "" js = stored string "" ks ↔ TextAgree js ks := by
  rw [stored_string, stored_string]
  rfl

/-! ## Maps -/

/-- An object adds its members, `null` drops all, other values add nothing. -/
def addMembers (run : Option (List (StrLit × Json))) : Json → Option (List (StrLit × Json))
  | .null => none
  | .obj ms => some (run.getD [] ++ ms)
  | _ => run

/-- The members of the objects among the values, from the last `null` on;
`none` if no object follows it. -/
def objectRun (js : List Json) : Option (List (StrLit × Json)) := js.foldl addMembers none

theorem objectRun_snoc (js : List Json) (j : Json) :
    objectRun (js ++ [j]) = addMembers (objectRun js) j := by
  simp [objectRun]

def lastUnder (name : String) (ms : List (StrLit × Json)) : Option Json :=
  ms.foldl (fun v e => if name = text e.1 then some e.2 else v) none

/-- The values leave nil both, or have the same names, and under each name
last values that `val` maps to the same. -/
def MapAgree (val : Json → β) (js ks : List Json) : Prop :=
  (objectRun js).isSome = (objectRun ks).isSome ∧
    ∀ name, ((objectRun js).bind (lastUnder name)).map val =
      ((objectRun ks).bind (lastUnder name)).map val

def mapFrom (val : Json → β) (ms : List (StrLit × Json)) : StrMap β :=
  ms.foldl (fun m e => m.insert (text e.1) (val e.2)) []

theorem mapFrom_snoc (val : Json → β) (ms : List (StrLit × Json)) (e : StrLit × Json) :
    mapFrom val (ms ++ [e]) = (mapFrom val ms).insert (text e.1) (val e.2) := by
  simp [mapFrom]

theorem sorted_mapFrom (val : Json → β) (ms : List (StrLit × Json)) : (mapFrom val ms).Sorted := by
  induction ms using List.reverseRecOn with
  | nil => exact List.Pairwise.nil
  | append_singleton ms e ih =>
    rw [mapFrom_snoc]
    exact ih.insert _ _

theorem get_mapFrom (val : Json → β) (ms : List (StrLit × Json)) (name : String) :
    (mapFrom val ms).get name = (lastUnder name ms).map val := by
  induction ms using List.reverseRecOn with
  | nil => rfl
  | append_singleton ms e ih =>
    simp only [lastUnder, List.foldl_append, List.foldl_cons, List.foldl_nil] at ih ⊢
    rw [mapFrom_snoc, StrMap.get_insert, ih]
    split <;> rfl

theorem mapFrom_eq_iff (val : Json → β) (ms ns : List (StrLit × Json)) :
    mapFrom val ms = mapFrom val ns ↔
      ∀ name, (lastUnder name ms).map val = (lastUnder name ns).map val := by
  simp only [← get_mapFrom]
  exact ⟨fun h name => by rw [h], (sorted_mapFrom val ms).ext (sorted_mapFrom val ns)⟩

theorem mapOf_obj (zero : β) (d : Decoder β) (m : Option (StrMap β)) (ms : List (StrLit × Json)) :
    (mapOf zero d m (.obj ms)).1 =
      some (ms.foldl (fun m e => m.insert (text e.1) (d zero e.2).1) (m.getD [])) := by
  suffices hfold : ∀ (m : StrMap β) (ok : Bool),
      (ms.foldl (fun acc e => (acc.1.insert (text e.1) (d zero e.2).1, acc.2 && (d zero e.2).2))
        (m, ok)).1 = ms.foldl (fun m e => m.insert (text e.1) (d zero e.2).1) m from
    congrArg some (hfold (m.getD []) true)
  induction ms with
  | nil => exact fun _ _ => rfl
  | cons e ms ih => exact fun m ok => ih _ _

theorem stored_mapOf (zero : β) (d : Decoder β) (js : List Json) :
    stored (mapOf zero d) none js = (objectRun js).map (mapFrom fun j => (d zero j).1) := by
  induction js using List.reverseRecOn with
  | nil => rfl
  | append_singleton js j ih =>
    rw [stored_append, ih, objectRun_snoc]
    match j with
    | .null => rfl
    | .obj ms =>
      show (mapOf zero d _ (.obj ms)).1 = _
      rw [mapOf_obj]
      cases objectRun js <;> simp [addMembers, mapFrom]
    | .bool _ | .num _ | .str _ | .arr _ => rfl

theorem stored_mapOf_eq_iff (zero : β) (d : Decoder β) (js ks : List Json) :
    stored (mapOf zero d) none js = stored (mapOf zero d) none ks ↔
      MapAgree (fun j => (d zero j).1) js ks := by
  rw [stored_mapOf, stored_mapOf]
  unfold MapAgree
  cases objectRun js with
  | none => cases objectRun ks with
    | none => simp
    | some ns => simp
  | some ms => cases objectRun ks with
    | none => simp
    | some ns => simpa using mapFrom_eq_iff (fun j => (d zero j).1) ms ns

/-! ## Slices -/

/-- The length of a slice after values were stored into it; `none` for nil. -/
def sliceLen (js : List Json) : Option Nat :=
  js.foldl (fun n j => match j with
    | .null => none
    | .arr xs => some xs.length
    | _ => n) none

/-- The values that were stored into cell `i`. An empty array and `null` start
a new backing array. -/
def cellRun (js : List Json) (i : Nat) : List Json :=
  js.foldl (fun run j => match j with
    | .null | .arr [] => []
    | .arr xs => run ++ xs[i]?.toList
    | _ => run) []

/-- The values leave slices of the same length, nil both or none, and in each
cell values that agree. -/
def SliceAgree (agree : List Json → List Json → Prop) (js ks : List Json) : Prop :=
  sliceLen js = sliceLen ks ∧
    ∀ n, sliceLen ks = some n → ∀ i < n, agree (cellRun js i) (cellRun ks i)

theorem overCells_length (zero : α) (d : Decoder α) (js : List Json) (cells : List α) :
    (overCells zero d js cells).1.1.length = js.length := by
  induction js generalizing cells with
  | nil => rfl
  | cons j js ih => simp [overCells, ih]

theorem overCells_getD (zero : α) (d : Decoder α) (js : List Json) (cells : List α) (i : Nat) :
    let r := (overCells zero d js cells).1
    (r.1 ++ r.2)[i]?.getD zero = stored d (cells[i]?.getD zero) js[i]?.toList := by
  induction js generalizing cells i with
  | nil => rfl
  | cons j js ih =>
    cases i with
    | zero => cases cells <;> rfl
    | succ i =>
      have h := ih cells.tail i
      simp only [overCells, List.cons_append, List.getElem?_cons_succ] at h ⊢
      rw [h]
      cases cells <;> rfl

/-- The cells of a slice, those behind its end included. -/
def Slice.cells (s : Slice α) : List α := s.elems.getD [] ++ s.spare

theorem stored_slice (zero : α) (d : Decoder α) (js : List Json) :
    let s := stored (sliceOf zero d) .nil js
    s.elems.map List.length = sliceLen js ∧
      ∀ i, s.cells[i]?.getD zero = stored d zero (cellRun js i) := by
  induction js using List.reverseRecOn with
  | nil => exact ⟨rfl, fun i => rfl⟩
  | append_singleton js j ih =>
    obtain ⟨hlen, hcells⟩ := ih
    simp only [stored_append, sliceLen, cellRun, List.foldl_append, List.foldl_cons,
      List.foldl_nil] at hlen hcells ⊢
    generalize hs : stored (sliceOf zero d) .nil js = s at hlen hcells
    match j with
    | .null | .arr [] => exact ⟨rfl, fun i => rfl⟩
    | .arr (x :: xs) =>
      have hget := overCells_getD zero d (x :: xs) s.cells
      refine ⟨congrArg some (overCells_length zero d (x :: xs) s.cells), fun i => ?_⟩
      rw [stored_append, ← hcells i]
      exact hget i
    | .bool _ | .num _ | .str _ | .obj _ => exact ⟨hlen, hcells⟩

theorem stored_slice_elems (zero : α) (d : Decoder α) (js : List Json) :
    (stored (sliceOf zero d) .nil js).elems =
      (sliceLen js).map fun n => (List.range n).map fun i => stored d zero (cellRun js i) := by
  obtain ⟨hlen, hcells⟩ := stored_slice zero d js
  rw [← hlen]
  generalize stored (sliceOf zero d) .nil js = s at hcells
  cases he : s.elems with
  | none => rfl
  | some l =>
    refine congrArg some (List.ext_getElem (by simp) fun i hi _ => ?_)
    have hcell := hcells i
    rw [Slice.cells, he, Option.getD_some, List.getElem?_append_left hi,
      List.getElem?_eq_getElem hi] at hcell
    simpa using hcell

theorem map_range_eq_iff {β : Type} {a b : Option Nat} {f g : Nat → β} :
    (a.map fun n => (List.range n).map f) = (b.map fun n => (List.range n).map g) ↔
      a = b ∧ ∀ n, b = some n → ∀ i < n, f i = g i := by
  constructor
  · intro h
    cases a with
    | none => cases b with
      | none => exact ⟨rfl, by simp⟩
      | some n => cases h
    | some m => cases b with
      | none => cases h
      | some n =>
        have heq := Option.some.inj h
        obtain rfl : m = n := by simpa using congrArg List.length heq
        refine ⟨rfl, fun n hn i hi => ?_⟩
        obtain rfl := Option.some.inj hn
        exact List.map_inj_left.mp heq i (List.mem_range.mpr hi)
  · rintro ⟨rfl, h⟩
    cases a with
    | none => rfl
    | some n =>
      exact congrArg some (List.map_congr_left fun i hi => h n rfl i (List.mem_range.mp hi))

theorem stored_slice_eq_iff {zero : α} {d : Decoder α} {val : α → γ}
    {agree : List Json → List Json → Prop}
    (hagree : ∀ js ks, val (stored d zero js) = val (stored d zero ks) ↔ agree js ks)
    (js ks : List Json) :
    (stored (sliceOf zero d) .nil js).elems.map (·.map val) =
      (stored (sliceOf zero d) .nil ks).elems.map (·.map val) ↔ SliceAgree agree js ks := by
  simp only [stored_slice_elems, Option.map_map, Function.comp_def, List.map_map]
  rw [map_range_eq_iff]
  simp only [hagree]
  rfl

end GoJson
