import Forager.JsonRuns

/-!
# Raw messages

A map of `json.RawMessage`s that is marshalled and read again. `json.Marshal`
writes the values as they are, with the HTML characters of their strings
escaped; this changes neither how deep a value is nested nor whether its
numbers are in range. A struct that is decoded from such members sees those
whose key is spelled like one of its tags.
-/

namespace GoJson

open JsonText Go

variable {β σ : Type}
variable {ms : List (StrLit × Json)}

/-! ## Escapes -/

theorem htmlEscapeItem_quoteChar (c : Char) : htmlEscapeItem (quoteChar c) = quoteChar c := by
  unfold quoteChar
  repeat' split
  case isFalse.isFalse.isFalse.isFalse.isFalse.isFalse.isFalse.isTrue h =>
    simp [htmlEscapeItem, h.2]
  all_goals rfl

@[simp] theorem htmlEscape_quote (s : String) : htmlEscape (.str (quote s)) = .str (quote s) := by
  simp [htmlEscape, quote, Function.comp_def, htmlEscapeItem_quoteChar]

mutual
theorem depth_htmlEscape : ∀ j : Json, depth (htmlEscape j) = depth j
  | .null | .bool _ | .num _ | .str _ => rfl
  | .arr xs => congrArg (· + 1) (depthElements_htmlEscape xs)
  | .obj ms => congrArg (· + 1) (depthMembers_htmlEscape ms)

theorem depthElements_htmlEscape : ∀ xs : List Json,
    depthElements (htmlEscapeElements xs) = depthElements xs
  | [] => rfl
  | x :: xs => congrArg₂ max (depth_htmlEscape x) (depthElements_htmlEscape xs)

theorem depthMembers_htmlEscape : ∀ ms : List (StrLit × Json),
    depthMembers (htmlEscapeMembers ms) = depthMembers ms
  | [] => rfl
  | (_, x) :: ms => congrArg₂ max (depth_htmlEscape x) (depthMembers_htmlEscape ms)
end

theorem depthMembers_le_iff (ms : List (StrLit × Json)) (n : Nat) :
    depthMembers ms ≤ n ↔ ∀ e ∈ ms, depth e.2 ≤ n := by
  induction ms with
  | nil => simp [depthMembers]
  | cons e ms ih => simp [depthMembers, ih]

theorem depth_le_of_parse {s : List Char} {j : Json} (h : parse s = some j) :
    depth j ≤ maxNestingDepth := by
  unfold parse at h
  obtain ⟨r, -, h⟩ := Option.bind_eq_some_iff.mp h
  dsimp only at h
  split at h
  · next hd =>
    obtain rfl := Option.some.inj h
    exact hd.2
  · cases h

/-! ## Numbers in range -/

/-- Every number in the value is a float64. -/
def InRange (j : Json) : Prop := (anyOf j).2 = true

instance : DecidablePred InRange := fun j => inferInstanceAs (Decidable ((anyOf j).2 = true))

theorem anyElements_snd (xs : List Json) : (anyElements xs).2 = xs.all fun x => (anyOf x).2 := by
  induction xs with
  | nil => rfl
  | cons x xs ih => simp [anyElements, ih]

theorem anyMembers_snd (acc : StrMap Any × Bool) (ms : List (StrLit × Json)) :
    (anyMembers acc ms).2 = (acc.2 && ms.all fun e => (anyOf e.2).2) := by
  induction ms generalizing acc with
  | nil => simp [anyMembers]
  | cons e ms ih => simp [anyMembers, ih, Bool.and_assoc]

theorem inRange_arr (xs : List Json) : InRange (.arr xs) ↔ ∀ x ∈ xs, InRange x := by
  simp [InRange, anyOf, anyElements_snd]

theorem inRange_obj (ms : List (StrLit × Json)) : InRange (.obj ms) ↔ ∀ e ∈ ms, InRange e.2 := by
  simp [InRange, anyOf, anyMembers_snd]

mutual
theorem inRange_htmlEscape : ∀ j : Json, InRange j → InRange (htmlEscape j)
  | .null, h | .bool _, h | .num _, h | .str _, h => h
  | .arr xs, h => (inRange_arr _).mpr (inRange_elements xs ((inRange_arr xs).mp h))
  | .obj ms, h => (inRange_obj _).mpr (inRange_members ms ((inRange_obj ms).mp h))

theorem inRange_elements : ∀ xs : List Json, (∀ x ∈ xs, InRange x) →
    ∀ x ∈ htmlEscapeElements xs, InRange x
  | [], h => h
  | x :: xs, h => List.forall_mem_cons.mpr
    ⟨inRange_htmlEscape x (h x List.mem_cons_self),
      inRange_elements xs fun y hy => h y (List.mem_cons_of_mem _ hy)⟩

theorem inRange_members : ∀ ms : List (StrLit × Json), (∀ e ∈ ms, InRange e.2) →
    ∀ e ∈ htmlEscapeMembers ms, InRange e.2
  | [], h => h
  | (k, x) :: ms, h => List.forall_mem_cons.mpr
    ⟨inRange_htmlEscape x (h (k, x) List.mem_cons_self),
      inRange_members ms fun e he => h e (List.mem_cons_of_mem _ he)⟩
end

/-! ## The entries that a struct field takes -/

/-- The values under keys spelled like the tag. -/
def folded (tag : String) (m : StrMap β) : List β :=
  (m.filter (foldName ·.1 = foldName tag)).map (·.2)

theorem folded_cons (tag k : String) (v : β) (m : StrMap β) :
    folded tag ((k, v) :: m) =
      if foldName k = foldName tag then v :: folded tag m else folded tag m := by
  by_cases h : foldName k = foldName tag <;> simp [folded, h]

theorem folded_insert_ne {tag k : String} (h : foldName k ≠ foldName tag) (v : β) (m : StrMap β) :
    folded tag (m.insert k v) = folded tag m := by
  induction m with
  | nil => rw [StrMap.insert, folded_cons, if_neg h]
  | cons e m ih =>
    obtain ⟨k', v'⟩ := e
    unfold StrMap.insert
    split
    · next heq => rw [folded_cons, folded_cons, ← heq, if_neg h, if_neg h]
    · split
      · rw [folded_cons, if_neg h]
      · rw [folded_cons, folded_cons, ih]

theorem folded_insert_of_nil {tag k : String} (h : foldName k = foldName tag) (v : β)
    {m : StrMap β} (hm : folded tag m = []) : folded tag (m.insert k v) = [v] := by
  induction m with
  | nil => rw [StrMap.insert, folded_cons, if_pos h, hm]
  | cons e m ih =>
    obtain ⟨k', v'⟩ := e
    have hne : foldName k' ≠ foldName tag := by
      intro heq
      rw [folded_cons, if_pos heq] at hm
      cases hm
    rw [folded_cons, if_neg hne] at hm
    unfold StrMap.insert
    split
    · rw [folded_cons, if_pos h, hm]
    · split
      · rw [folded_cons, if_pos h, folded_cons, if_neg hne, hm]
      · rw [folded_cons, if_neg hne, ih hm]

theorem spelled_marshalled (tag : String) (f : β → Json) (m : StrMap β) :
    spelled tag (m.map fun e => (quote e.1, f e.2)) = (folded tag m).map f := by
  simp [spelled, folded, spells, List.filter_map, Function.comp_def]

/-! ## The map that is read back -/

theorem mapOf_raw (ms : List (StrLit × Json)) :
    mapOf .null raw none (.obj ms) = (some (mapFrom id ms), true) := by
  refine Prod.ext (mapOf_obj _ _ _ _) ?_
  suffices hfold : ∀ (m : StrMap Json), (ms.foldl (fun acc e =>
      (acc.1.insert (text e.1) (raw .null e.2).1, acc.2 && (raw .null e.2).2)) (m, true)).2 = true
    from hfold _
  induction ms with
  | nil => exact fun _ => rfl
  | cons e ms ih => exact fun m => ih _

theorem lastUnder_eq (name : String) (ms : List (StrLit × Json)) :
    lastUnder name ms = ((ms.filter (text ·.1 = name)).map (·.2)).getLast? := by
  induction ms using List.reverseRecOn with
  | nil => rfl
  | append_singleton ms e ih =>
    have hsnoc : lastUnder name (ms ++ [e]) =
        if name = text e.1 then some e.2 else lastUnder name ms := by
      simp [lastUnder]
    rw [hsnoc, ih, List.filter_append, List.map_append]
    split
    · next h => simp [h]
    · next h => simp [Ne.symm h]

theorem mem_of_lastUnder {name : String} {j : Json} (h : lastUnder name ms = some j) :
    ∃ e ∈ ms, text e.1 = name ∧ e.2 = j := by
  rw [lastUnder_eq] at h
  obtain ⟨e, he, rfl⟩ := List.mem_map.mp (List.mem_of_getLast? h)
  obtain ⟨hmem, hname⟩ := List.mem_filter.mp he
  exact ⟨e, hmem, of_decide_eq_true hname, rfl⟩

theorem mem_of_mapFrom {e : String × Json} (h : e ∈ mapFrom id ms) :
    ∃ e' ∈ ms, text e'.1 = e.1 ∧ e'.2 = e.2 := by
  have hget := ((sorted_mapFrom id ms).get_eq_some_iff e.1 e.2).mpr h
  rw [get_mapFrom, Option.map_id] at hget
  exact mem_of_lastUnder hget

theorem filter_key {m : StrMap β} (hs : m.Sorted) {k : String} {v : β} (h : m.get k = some v) :
    m.filter (·.1 = k) = [(k, v)] := by
  induction m with
  | nil => cases h
  | cons e m ih =>
    obtain ⟨l, w⟩ := e
    obtain ⟨hhead, htail⟩ := List.pairwise_cons.mp hs
    rw [StrMap.get_cons] at h
    split at h
    · next heq =>
      subst heq
      obtain rfl := Option.some.inj h
      have hnone : m.filter (·.1 = k) = [] :=
        List.filter_eq_nil_iff.mpr fun e he => by simpa using (hhead e he).ne'
      simp [hnone]
    · next hne => rw [List.filter_cons_of_neg (by simpa using Ne.symm hne), ih htail h]

/-! ## The order of members -/

/-- The members of objects are in another order, at any level. Objects with two members of one
name stay as they are. -/
inductive Reordered : Json → Json → Prop
  | refl (j : Json) : Reordered j j
  | trans {j₁ j₂ j₃ : Json} : Reordered j₁ j₂ → Reordered j₂ j₃ → Reordered j₁ j₃
  | members {ms ms' : List (StrLit × Json)} : ms.Perm ms' → (ms.map (text ·.1)).Nodup →
      Reordered (.obj ms) (.obj ms')
  | inObject {j j' : Json} (pre post : List (StrLit × Json)) (k : StrLit) : Reordered j j' →
      Reordered (.obj (pre ++ (k, j) :: post)) (.obj (pre ++ (k, j') :: post))
  | inArray {j j' : Json} (pre post : List Json) : Reordered j j' →
      Reordered (.arr (pre ++ j :: post)) (.arr (pre ++ j' :: post))

theorem anyOf_obj (ms : List (StrLit × Json)) : anyOf (.obj ms) =
    (.map (mapFrom (fun j => (anyOf j).1) ms), ms.all fun e => (anyOf e.2).2) := by
  have hfst : ∀ acc, (anyMembers acc ms).1 =
      ms.foldl (fun m e => m.insert (text e.1) (anyOf e.2).1) acc.1 := by
    induction ms with
    | nil => exact fun _ => rfl
    | cons e ms ih => exact fun acc => ih _
  have hsnd := anyMembers_snd ([], true) ms
  rw [Bool.true_and] at hsnd
  exact Prod.ext (congrArg Any.map (hfst _)) hsnd

theorem lastUnder_perm {ms' : List (StrLit × Json)} (h : ms.Perm ms')
    (hnd : (ms.map (text ·.1)).Nodup) (name : String) : lastUnder name ms = lastUnder name ms' := by
  have hfilter := h.filter (text ·.1 = name)
  have hone : (ms.filter (text ·.1 = name)).length ≤ 1 := by
    rw [← List.countP_eq_length_filter]
    have hcount := List.nodup_iff_count_le_one.mp hnd name
    rwa [List.count_eq_countP, List.countP_map] at hcount
  rw [lastUnder_eq, lastUnder_eq]
  obtain hzero | hone := Nat.le_one_iff_eq_zero_or_eq_one.mp hone
  · rw [List.length_eq_zero_iff.mp hzero] at hfilter ⊢
    rw [hfilter.nil_eq]
  · obtain ⟨e, he⟩ := List.length_eq_one_iff.mp hone
    rw [he] at hfilter ⊢
    rw [List.singleton_perm.mp hfilter]

/-- The order of members does not matter for the value. -/
theorem Reordered.anyOf_eq {j j' : Json} (h : Reordered j j') : anyOf j' = anyOf j := by
  induction h with
  | refl => rfl
  | trans _ _ ih₁ ih₂ => rw [ih₂, ih₁]
  | members hperm hnd =>
    have hmap := (mapFrom_eq_iff (fun j => (anyOf j).1) _ _).mpr fun name =>
      congrArg (Option.map _) (lastUnder_perm hperm hnd name)
    rw [anyOf_obj, anyOf_obj, hmap, hperm.all_eq]
  | inObject pre post k _ ih => simp [anyOf_obj, mapFrom, ih]
  | inArray pre post _ ih => simp [anyOf, anyElements_fst, anyElements_snd, ih]

theorem Reordered.members_perm {j j' : Json} (h : Reordered j j') :
    ((GoJson.members j').map fun e => (text e.1, anyOf e.2)).Perm
      ((GoJson.members j).map fun e => (text e.1, anyOf e.2)) := by
  induction h with
  | refl => exact .refl _
  | trans _ _ ih₁ ih₂ => exact ih₂.trans ih₁
  | members hperm _ => exact hperm.symm.map _
  | inObject pre post k h _ => simp [GoJson.members, h.anyOf_eq]
  | inArray => exact .refl _

theorem Reordered.isObject {j : Json} {ms : List (StrLit × Json)} (h : Reordered (.obj ms) j) :
    ∃ ms', j = .obj ms' := by
  generalize hj : Json.obj ms = j₀ at h
  induction h generalizing ms with
  | refl => exact ⟨ms, hj.symm⟩
  | trans _ _ ih₁ ih₂ =>
    obtain ⟨ms', rfl⟩ := ih₁ hj
    exact ih₂ rfl
  | members | inObject => exact ⟨_, rfl⟩
  | inArray => cases hj

/-! ## Structs -/

theorem struct_ok {fields : List (StructField σ)}
    (h : ∀ e ∈ ms, ∀ f ∈ fields, spells f.tag e.1 = true → ∀ s, (f.decode s e.2).2 = true) (s : σ) :
    (struct fields s (.obj ms)).2 = true := by
  rw [struct_obj]
  suffices hfold : ∀ acc : σ × Bool, acc.2 = true → (ms.foldl (structStep fields) acc).2 = true from
    hfold (s, true) rfl
  induction ms with
  | nil => exact fun _ hacc => hacc
  | cons e ms ih =>
    intro acc hacc
    rw [List.foldl_cons]
    refine ih (fun e' he' => h e' (List.mem_cons_of_mem _ he')) _ ?_
    rw [structStep]
    cases hf : findField fields (text e.1) with
    | none => exact hacc
    | some f =>
      obtain ⟨hmem, htag⟩ := findField_some hf
      have hd := h e List.mem_cons_self f hmem (by simp [spells, htag]) acc.1
      simp [hacc, hd]

end GoJson
