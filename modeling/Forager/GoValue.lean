import Mathlib.Algebra.Ring.Int.Defs
import Mathlib.Data.List.Basic
import Mathlib.Data.List.Forall2
import Mathlib.Data.String.Basic

/-!
# Values of a dynamically typed Go program

The universe `Any` of values that a Go `any` holds in configuration and
request maps, with string-keyed maps kept in key order, so that two maps with
the same contents are the same list.
-/

namespace Go

/-! ## Maps with string keys -/

/-- A `map[string]β` as the list of its entries in key order. -/
abbrev StrMap (β : Type) := List (String × β)

namespace StrMap

variable {β γ : Type}
variable {m : StrMap β}

/-- `m[k]`, with `none` for an absent key. -/
def get (m : StrMap β) (k : String) : Option β := m.lookup k

def insert (k : String) (v : β) : StrMap β → StrMap β
  | [] => [(k, v)]
  | (k', v') :: m =>
    if k = k' then (k, v) :: m
    else if k < k' then (k, v) :: (k', v') :: m
    else (k', v') :: insert k v m

def mapVals (f : β → γ) (m : StrMap β) : StrMap γ := m.map fun e => (e.1, f e.2)

@[simp] theorem get_nil (k : String) : get ([] : StrMap β) k = none := rfl

theorem get_cons (k k' : String) (v : β) (m : StrMap β) :
    get ((k', v) :: m) k = if k = k' then some v else get m k := by
  by_cases h : k = k'
  · subst h; simp [get]
  · simp [get, List.lookup_cons, h, beq_false_of_ne]

theorem get_insert (k k' : String) (v : β) (m : StrMap β) :
    get (insert k v m) k' = if k' = k then some v else get m k' := by
  induction m with
  | nil => simp [insert, get_cons]
  | cons e m ih =>
    obtain ⟨l, w⟩ := e
    unfold insert
    split
    · next h =>
      subst h
      rw [get_cons, get_cons]
      split <;> rfl
    · next h =>
      split
      · rw [get_cons]
      · rw [get_cons, get_cons, ih]
        by_cases h1 : k' = l
        · subst h1; simp [Ne.symm h]
        · simp [h1]

theorem mapVals_insert (f : β → γ) (k : String) (v : β) (m : StrMap β) :
    mapVals f (insert k v m) = insert k (f v) (mapVals f m) := by
  induction m with
  | nil => rfl
  | cons e m ih =>
    obtain ⟨l, w⟩ := e
    simp only [insert, mapVals, List.map_cons] at ih ⊢
    split
    · rfl
    · split
      · rfl
      · simp [ih]

def Sorted (m : StrMap β) : Prop := m.Pairwise (·.1 < ·.1)

theorem mem_insert {k : String} {v : β} {e : String × β} (h : e ∈ insert k v m) :
    e = (k, v) ∨ e ∈ m := by
  induction m with
  | nil => simpa [insert] using h
  | cons e' m ih =>
    unfold insert at h
    split at h
    · exact (List.mem_cons.mp h).imp_right (List.mem_cons_of_mem _)
    · split at h
      · exact List.mem_cons.mp h
      · rcases List.mem_cons.mp h with rfl | h
        · exact .inr List.mem_cons_self
        · exact (ih h).imp_right (List.mem_cons_of_mem _)

theorem Sorted.insert (h : Sorted m) (k : String) (v : β) : Sorted (m.insert k v) := by
  induction m with
  | nil => exact List.pairwise_singleton _ _
  | cons e m ih =>
    obtain ⟨hhead, htail⟩ := List.pairwise_cons.mp h
    unfold StrMap.insert
    split
    · next heq => exact List.pairwise_cons.mpr ⟨heq ▸ hhead, htail⟩
    · next hne =>
      split
      · next hlt =>
        refine List.pairwise_cons.mpr ⟨fun e' he' => ?_, h⟩
        rcases List.mem_cons.mp he' with rfl | he'
        · exact hlt
        · exact hlt.trans (hhead e' he')
      · next hnlt =>
        refine List.pairwise_cons.mpr ⟨fun e' he' => ?_, ih htail⟩
        rcases mem_insert he' with rfl | he'
        · exact lt_of_le_of_ne (not_lt.mp hnlt) (Ne.symm hne)
        · exact hhead e' he'

theorem Sorted.get_eq_some_iff (h : Sorted m) (k : String) (v : β) :
    get m k = some v ↔ (k, v) ∈ m := by
  induction m with
  | nil => simp
  | cons e m ih =>
    obtain ⟨l, w⟩ := e
    obtain ⟨hhead, htail⟩ := List.pairwise_cons.mp h
    rw [get_cons, List.mem_cons, Prod.mk.injEq]
    split
    · next heq =>
      have hnot : (k, v) ∉ m := fun hmem => (hhead _ hmem).ne heq.symm
      simp [heq, heq ▸ hnot, eq_comm]
    · next hne => simp [hne, ih htail]

theorem Sorted.nodup (h : Sorted m) : m.Nodup :=
  h.imp fun hlt heq => hlt.ne (congrArg Prod.fst heq)

theorem Sorted.ext {m m' : StrMap β} (h : Sorted m) (h' : Sorted m')
    (hget : ∀ k, get m k = get m' k) : m = m' := by
  have hperm : m.Perm m' := by
    refine (List.perm_ext_iff_of_nodup h.nodup h'.nodup).mpr fun ⟨k, v⟩ => ?_
    rw [← h.get_eq_some_iff, ← h'.get_eq_some_iff, hget]
  exact hperm.eq_of_pairwise (fun _ _ _ _ hab hba => absurd hab hba.not_gt) h h'

def ofEntries (entries : List (String × β)) : StrMap β :=
  entries.foldl (fun m e => insert e.1 e.2 m) []

end StrMap

/-! ## Doubles -/

/-- A finite double: `± mant · 2 ^ exp`. Rounding produces `mant < 2 ^ 53`, with
`exp = -1074` or `2 ^ 52 ≤ mant`, so equal doubles are equal records. -/
structure Float64 where
  neg : Bool
  mant : Nat
  exp : Int
deriving DecidableEq, Repr

namespace Float64

def log2Ratio (p q : Nat) : Int :=
  let e : Int := (p.log2 : Int) - q.log2
  if q * 2 ^ e.toNat ≤ p * 2 ^ (-e).toNat then e else e - 1

def roundHalfEven (num den : Nat) : Nat :=
  let d := num / den
  let r := num % den
  if 2 * r > den ∨ (2 * r = den ∧ d % 2 = 1) then d + 1 else d

/-- The double nearest to the ratio `p / q`, ties to even; `none` if it would be
infinite. -/
def ofRatio (neg : Bool) (p q : Nat) : Option Float64 :=
  if p = 0 then some ⟨neg, 0, -1074⟩
  else
    let k := max (log2Ratio p q - 52) (-1074)
    let m := roundHalfEven (p * 2 ^ (-k).toNat) (q * 2 ^ k.toNat)
    let (m, k) := if m = 2 ^ 53 then (2 ^ 52, k + 1) else (m, k)
    if k > 971 then none else some ⟨neg, m, k⟩

/-- `strconv.ParseFloat` on the decimal `± digits · 10 ^ exp10`. -/
def ofDecimal (neg : Bool) (digits : Nat) (exp10 : Int) : Option Float64 :=
  ofRatio neg (digits * 10 ^ exp10.toNat) (10 ^ (-exp10).toNat)

def toInt (f : Float64) : Int :=
  let a : Nat := f.mant * 2 ^ f.exp.toNat / 2 ^ (-f.exp).toNat
  if f.neg then -(a : Int) else a

end Float64

/-! ## `any` -/

/-- A value of type `any`: what `encoding/json` produces, and the `int` and
`[]string` that Go code puts into the same maps. -/
inductive Any
  | nil
  | bool (b : Bool)
  | float (f : Float64)
  | int (n : Int)
  | string (s : String)
  | slice (xs : List Any)
  | strings (xs : List String)
  | map (ms : List (String × Any))

namespace Any

mutual
def beq : Any → Any → Bool
  | .nil, .nil => true
  | .bool a, .bool b => a == b
  | .float a, .float b => a == b
  | .int a, .int b => a == b
  | .string a, .string b => a == b
  | .slice a, .slice b => beqSlice a b
  | .strings a, .strings b => a == b
  | .map a, .map b => beqMap a b
  | _, _ => false

def beqSlice : List Any → List Any → Bool
  | [], [] => true
  | a :: as, b :: bs => beq a b && beqSlice as bs
  | _, _ => false

def beqMap : List (String × Any) → List (String × Any) → Bool
  | [], [] => true
  | (k, a) :: as, (l, b) :: bs => k == l && beq a b && beqMap as bs
  | _, _ => false
end

mutual
theorem beq_iff : ∀ a b : Any, beq a b = true ↔ a = b
  | a, b => by
    cases a <;> cases b <;> simp [beq]
    case slice.slice xs ys => exact beqSlice_iff xs ys
    case map.map xs ys => exact beqMap_iff xs ys

theorem beqSlice_iff : ∀ as bs : List Any, beqSlice as bs = true ↔ as = bs
  | [], [] => by simp [beqSlice]
  | [], _ :: _ => by simp [beqSlice]
  | _ :: _, [] => by simp [beqSlice]
  | a :: as, b :: bs => by simp [beqSlice, beq_iff a b, beqSlice_iff as bs]

theorem beqMap_iff : ∀ as bs : List (String × Any), beqMap as bs = true ↔ as = bs
  | [], [] => by simp [beqMap]
  | [], _ :: _ => by simp [beqMap]
  | _ :: _, [] => by simp [beqMap]
  | (k, a) :: as, (l, b) :: bs => by simp [beqMap, beq_iff a b, beqMap_iff as bs]
end

instance : DecidableEq Any := fun a b => decidable_of_iff _ (beq_iff a b)

/-- `v, _ := x.(string)` on a possibly absent map entry. -/
def asString : Option Any → String
  | some (.string s) => s
  | _ => ""

/-- `v, _ := x.(bool)` on a possibly absent map entry. -/
def asBool : Option Any → Bool
  | some (.bool b) => b
  | _ => false

end Any

/-! ## Strings -/

def hasPrefix (s p : String) : Bool := p.toList.isPrefixOf s.toList

/-- The value of a run of decimal digits; `none` if a character is not a digit. -/
def digitsVal (cs : List Char) : Option Nat :=
  cs.foldl (fun acc c => acc.bind fun n =>
    if '0' ≤ c ∧ c ≤ '9' then some (n * 10 + (c.toNat - '0'.toNat)) else none) (some 0)

def atoi (s : String) : Option Int :=
  let (neg, ds) := match s.toList with
    | '-' :: ds => (true, ds)
    | '+' :: ds => (false, ds)
    | ds => (false, ds)
  if ds = [] then none
  else (digitsVal ds).bind fun n =>
    let v : Int := if neg then -(n : Int) else n
    if -(2 ^ 63) ≤ v ∧ v < 2 ^ 63 then some v else none

example : atoi "-5432" = some (-5432) := by decide

example : Float64.ofDecimal false 9007199254740993 0 =
    Float64.ofDecimal false 9007199254740992 0 := by
  decide

/-! ## Errors -/

theorem bind_eq_ok {α β ε : Type} {x : Except ε α} {f : α → Except ε β} {r : β} :
    x >>= f = .ok r ↔ ∃ a, x = .ok a ∧ f a = .ok r := by
  cases x with
  | error e => exact ⟨fun h => (by cases h), fun ⟨_, h, _⟩ => by cases h⟩
  | ok a => exact ⟨fun h => ⟨a, rfl, h⟩, fun ⟨_, h, hf⟩ => Except.ok.inj h ▸ hf⟩

theorem exists_right {α β : Type} {R : α → β → Prop} {l : List α} {m : List β}
    (h : List.Forall₂ R l m) {a : α} (ha : a ∈ l) : ∃ b ∈ m, R a b := by
  induction h with
  | nil => cases ha
  | cons hab _ ih =>
    rcases List.mem_cons.mp ha with rfl | ha
    · exact ⟨_, List.mem_cons_self, hab⟩
    · obtain ⟨b, hb, hR⟩ := ih ha
      exact ⟨b, List.mem_cons_of_mem _ hb, hR⟩

theorem mapM_eq_ok_iff {α β ε : Type} {f : α → Except ε β} {as : List α} {bs : List β} :
    as.mapM f = .ok bs ↔ List.Forall₂ (fun a b => f a = .ok b) as bs := by
  induction as generalizing bs with
  | nil =>
    rw [List.forall₂_nil_left_iff]
    exact ⟨fun h => (Except.ok.inj h).symm, fun h => h ▸ rfl⟩
  | cons a as ih =>
    rw [List.mapM_cons, bind_eq_ok, List.forall₂_cons_left_iff]
    refine exists_congr fun b => ?_
    rw [bind_eq_ok]
    constructor
    · rintro ⟨ha, bs', has, hbs⟩
      exact ⟨bs', ha, ih.mp has, (Except.ok.inj hbs).symm⟩
    · rintro ⟨bs', ha, has, rfl⟩
      exact ⟨ha, bs', ih.mpr has, rfl⟩

theorem mapM_ok_forall {α β ε : Type} {f : α → Except ε β} {p : β → Prop}
    (hf : ∀ a b, f a = .ok b → p b) {as : List α} {bs : List β} (h : as.mapM f = .ok bs) :
    ∀ b ∈ bs, p b := by
  rw [mapM_eq_ok_iff] at h
  induction h with
  | nil => simp
  | cons hab _ ih => exact List.forall_mem_cons.mpr ⟨hf _ _ hab, ih⟩

end Go
