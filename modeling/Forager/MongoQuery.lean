import Forager.GoRange
import Forager.JsonMarshal

/-!
# Documents of the MongoDB proxy

`handleQuery`, `handleAggregate` and `mapToBsonD` of `pkg/proxy/mongodb/proxy.go`. The
objects of a request are Go maps, which have no order; the documents that are sent to
the server are lists, whose order is the order of the sort keys.
-/

namespace Forager

open Go GoRange GoJson

/-- The value of a document element: `bson.D`, or a value that was not converted. -/
inductive BsonValue
  | doc (elements : List (String × BsonValue))
  | value (v : Any)

abbrev BsonD := List (String × BsonValue)

/-- The order in which the `range` over the map at each place of an object visits its keys.
A place is the list of the keys that lead to it. -/
abbrev MapOrders := List String → Visit String

/-- The elements in the order of a visit of their keys. -/
def inOrder (v : Visit String) (elements : BsonD) : BsonD :=
  (v.visit (elements.map (·.1))).filterMap fun k => (elements.lookup k).map (k, ·)

mutual
/-- The value of an element: a nested map is converted, anything else is kept. -/
def bsonValue (orders : MapOrders) (place : List String) : Any → BsonValue
  | .map ms => .doc (inOrder (orders place) (bsonElements orders place ms))
  | .nil => .value .nil
  | .bool b => .value (.bool b)
  | .float f => .value (.float f)
  | .int n => .value (.int n)
  | .string s => .value (.string s)
  | .slice xs => .value (.slice xs)
  | .strings xs => .value (.strings xs)

def bsonElements (orders : MapOrders) (place : List String) : List (String × Any) → BsonD
  | [] => []
  | (k, v) :: ms => (k, bsonValue orders (place ++ [k]) v) :: bsonElements orders place ms
end

def mapToBsonD (orders : MapOrders) (m : StrMap Any) : BsonD :=
  inOrder (orders []) (bsonElements orders [] m)

/-! ## Requests -/

mutual
/-- At most one key on every level that `mapToBsonD` converts. -/
def Narrow : Any → Prop
  | .map ms => ms.length ≤ 1 ∧ NarrowEntries ms
  | .nil | .bool _ | .float _ | .int _ | .string _ | .slice _ | .strings _ => True

def NarrowEntries : List (String × Any) → Prop
  | [] => True
  | (_, v) :: ms => Narrow v ∧ NarrowEntries ms
end

namespace MongoLemmas

theorem bsonElements_keys (orders : MapOrders) (place : List String) (ms : List (String × Any)) :
    (bsonElements orders place ms).map (·.1) = ms.map (·.1) := by
  induction ms with
  | nil => rfl
  | cons e ms ih =>
    rw [bsonElements, List.map_cons, List.map_cons, ih]

theorem inOrder_of_length_le {elements : BsonD} (h : elements.length ≤ 1) (v : Visit String) :
    inOrder v elements = elements := by
  match elements, h with
  | [], _ =>
    have hvisit : v.visit [] = [] := (v.perm []).eq_nil
    simp [inOrder, hvisit]
  | [(k, b)], _ =>
    have hvisit : v.visit [k] = [k] := List.perm_singleton.mp (v.perm [k])
    simp [inOrder, hvisit]

theorem inOrder_keys (v : Visit String) (elements : BsonD) :
    (inOrder v elements).map (·.1) = v.visit (elements.map (·.1)) := by
  have hfound : ∀ k ∈ v.visit (elements.map (·.1)), ∃ b, elements.lookup k = some b := by
    intro k hk
    obtain ⟨e, he, rfl⟩ := List.mem_map.mp (v.mem_visit.mp hk)
    cases hlookup : elements.lookup e.1 with
    | some b => exact ⟨b, rfl⟩
    | none => exact absurd rfl (bne_iff_ne.mp (List.lookup_eq_none_iff.mp hlookup e he))
  unfold inOrder
  generalize v.visit (elements.map (·.1)) = ks at hfound
  induction ks with
  | nil => rfl
  | cons k ks ih =>
    obtain ⟨hk, hks⟩ := List.forall_mem_cons.mp hfound
    obtain ⟨b, hb⟩ := hk
    rw [List.filterMap_cons, hb, Option.map_some, List.map_cons, ih hks]

mutual
theorem bsonValue_narrow {orders orders' : MapOrders} :
    ∀ (v : Any) (place : List String), Narrow v →
      bsonValue orders place v = bsonValue orders' place v
  | .map ms, place, h => by
    rw [Narrow] at h
    have hlength : ∀ o : MapOrders, (bsonElements o place ms).length ≤ 1 := by
      intro o
      rw [← List.length_map (·.1), bsonElements_keys, List.length_map]
      exact h.1
    rw [bsonValue, bsonValue, inOrder_of_length_le (hlength _), inOrder_of_length_le (hlength _),
      bsonElements_narrow ms place h.2]
  | .nil, _, _ | .bool _, _, _ | .float _, _, _ | .int _, _, _ | .string _, _, _ | .slice _, _, _
  | .strings _, _, _ => rfl

theorem bsonElements_narrow {orders orders' : MapOrders} :
    ∀ (ms : List (String × Any)) (place : List String), NarrowEntries ms →
      bsonElements orders place ms = bsonElements orders' place ms
  | [], _, _ => rfl
  | (k, v) :: ms, place, h => by
    rw [NarrowEntries] at h
    rw [bsonElements, bsonElements, bsonValue_narrow v (place ++ [k]) h.1,
      bsonElements_narrow ms place h.2]
end

/-- Distinct keys that read the same from both ends are at most one. -/
theorem length_le_of_reverse {ks : List String} (hnodup : ks.Nodup) (h : ks.reverse = ks) :
    ks.length ≤ 1 := by
  match ks, hnodup, h with
  | [], _, _ => exact Nat.zero_le 1
  | [_], _, _ => exact le_rfl
  | k :: l :: ks, hnodup, h =>
    -- the last key is the first one
    have hlast : k ∈ l :: ks := by
      have hmem : (k :: l :: ks).getLast? = some k := by
        rw [← List.head?_reverse, h]
        rfl
      rw [List.getLast?_cons_cons] at hmem
      exact List.mem_of_mem_getLast? hmem
    exact absurd hlast (List.nodup_cons.mp hnodup).1

theorem keys_nodup {ms : StrMap Any} (h : StrMap.Sorted ms) : (ms.map (·.1)).Nodup :=
  (List.pairwise_map.mpr h).imp fun hlt => hlt.ne

/-- A map whose conversion does not depend on the orders has one key at most. -/
theorem length_le_of_same {ms : StrMap Any} {place : List String} (hs : StrMap.Sorted ms)
    (h : ∀ o o' : MapOrders, inOrder (o place) (bsonElements o place ms) =
      inOrder (o' place) (bsonElements o' place ms)) : ms.length ≤ 1 := by
  have hkeys := congrArg (List.map (·.1)) (h (fun _ => .reversed) fun _ => .stored)
  rw [inOrder_keys, inOrder_keys, bsonElements_keys, bsonElements_keys] at hkeys
  have hle := length_le_of_reverse (keys_nodup hs) hkeys
  rwa [List.length_map] at hle

mutual
theorem narrow_of_same : ∀ (v : Any) (place : List String), IsJson v →
    (∀ o o' : MapOrders, bsonValue o place v = bsonValue o' place v) → Narrow v
  | .map ms, place, hv, h => by
    rw [IsJson] at hv
    have hdoc : ∀ o o' : MapOrders, inOrder (o place) (bsonElements o place ms) =
        inOrder (o' place) (bsonElements o' place ms) := by
      intro o o'
      have hvalue := h o o'
      rw [bsonValue, bsonValue] at hvalue
      exact BsonValue.doc.inj hvalue
    have hle := length_le_of_same hv.1 hdoc
    rw [Narrow]
    refine ⟨hle, narrowEntries_of_same ms place hv.2 fun o o' => ?_⟩
    have hlength : ∀ o : MapOrders, (bsonElements o place ms).length ≤ 1 := by
      intro o
      rw [← List.length_map (·.1), bsonElements_keys, List.length_map]
      exact hle
    rw [← inOrder_of_length_le (hlength o) (o place), hdoc o o',
      inOrder_of_length_le (hlength o') (o' place)]
  | .nil, _, _, _ | .bool _, _, _, _ | .float _, _, _, _ | .int _, _, _, _ | .string _, _, _, _
  | .slice _, _, _, _ | .strings _, _, _, _ => by rw [Narrow]; trivial

theorem narrowEntries_of_same : ∀ (ms : List (String × Any)) (place : List String), HaveJson ms →
    (∀ o o' : MapOrders, bsonElements o place ms = bsonElements o' place ms) → NarrowEntries ms
  | [], _, _, _ => by rw [NarrowEntries]; trivial
  | (k, v) :: ms, place, hms, h => by
    rw [HaveJson] at hms
    rw [NarrowEntries]
    have hcons : ∀ o o' : MapOrders, bsonValue o (place ++ [k]) v = bsonValue o' (place ++ [k]) v ∧
        bsonElements o place ms = bsonElements o' place ms := by
      intro o o'
      have helements := h o o'
      rw [bsonElements, bsonElements] at helements
      obtain ⟨he, hrest⟩ := List.cons.inj helements
      exact ⟨(Prod.mk.inj he).2, hrest⟩
    exact ⟨narrow_of_same v _ hms.1 fun o o' => (hcons o o').1,
      narrowEntries_of_same ms place hms.2 fun o o' => (hcons o o').2⟩
end

/-- An object with at most one key on every level gives one document. -/
theorem mapToBsonD_narrow {m : StrMap Any} (h : Narrow (.map m)) (o o' : MapOrders) :
    mapToBsonD o m = mapToBsonD o' m := by
  have hvalue : bsonValue o [] (.map m) = bsonValue o' [] (.map m) := bsonValue_narrow (.map m) [] h
  rw [bsonValue, bsonValue] at hvalue
  exact BsonValue.doc.inj hvalue

/-- Any other object gives several. -/
theorem narrow_of_mapToBsonD {m : StrMap Any} (hm : IsJson (.map m))
    (h : ∀ o o' : MapOrders, mapToBsonD o m = mapToBsonD o' m) : Narrow (.map m) := by
  refine narrow_of_same _ [] hm fun o o' => ?_
  rw [bsonValue, bsonValue]
  exact congrArg BsonValue.doc (h o o')

end MongoLemmas

open MongoLemmas in
/-- An object of a request gives the same document under any two iteration orders exactly
if it has at most one key on every level. -/
theorem document_order_iff (m : StrMap Any) (hm : IsJson (.map m)) :
    (∀ o o' : MapOrders, mapToBsonD o m = mapToBsonD o' m) ↔ Narrow (.map m) :=
  ⟨narrow_of_mapToBsonD hm, mapToBsonD_narrow⟩

def olderThan : StrMap Any := [("age", .map [("$gt", .bool true)])]

theorem olderThan_one_document :
    IsJson (.map olderThan) ∧
    ∀ o o' : MapOrders, mapToBsonD o olderThan = mapToBsonD o' olderThan := by
  have hjson : IsJson (.map olderThan) := by
    simp [olderThan, IsJson, HaveJson, StrMap.Sorted]
  refine ⟨hjson, (document_order_iff olderThan hjson).mpr ?_⟩
  simp [olderThan, Narrow, NarrowEntries]

def ageThenName : StrMap Any :=
  [("age", .float ⟨true, 2 ^ 52, -52⟩), ("name", .float ⟨false, 2 ^ 52, -52⟩)]

/-- Not for two keys: by age and then by name, or by name and then by age. -/
theorem sort_order_open :
    IsJson (.map ageThenName) ∧
    (mapToBsonD (fun _ => .stored) ageThenName).map (·.1) = ["age", "name"] ∧
    (mapToBsonD (fun _ => .reversed) ageThenName).map (·.1) = ["name", "age"] := by
  have hkeys : "age" < "name" := by decide
  refine ⟨?_, rfl, rfl⟩
  rw [ageThenName, IsJson, HaveJson, HaveJson, HaveJson, IsJson, IsJson]
  exact ⟨List.pairwise_pair.mpr hkeys, by decide, by decide, trivial⟩

end Forager
