import Mathlib.Data.List.Induction
import Forager.GoRange

/-!
# Pools of connections

A map from keys to open connections, each with the time it was last handed out,
next to the connections that have been closed. Connections are numbered in the
order in which they were dialed. A loop over the map visits the keys in any
order, and may remove the entry it is at.

* `removeWhere`: a loop that closes and removes some entries (`get_removeWhere`,
  `mem_closed_removeWhere`).
* `oldest`: a loop that looks for the entry used least recently (`oldest_spec`);
  of several such entries any can be found (`exists_oldest`).
* `Filed`: pooled connections are open and under the key they were dialed for.
* `Kept`: no connection is open and lost.
-/

namespace ConnPool

open GoRange

variable {κ : Type}

structure Entry where
  client : Nat
  lastUsed : Int
deriving DecidableEq, Repr

/-- The pooled connections, and those that were closed. -/
structure Pool (κ : Type) where
  entries : AList fun _ : κ => Entry
  closed : List Nat

namespace Pool

def clear (s : Pool κ) : Pool κ := { s with entries := ∅ }

def close (s : Pool κ) (c : Nat) : Pool κ := { s with closed := c :: s.closed }

def size (s : Pool κ) : Nat := s.entries.keys.length

variable [DecidableEq κ]

def get (s : Pool κ) (k : κ) : Option Entry := s.entries.lookup k

def put (s : Pool κ) (k : κ) (e : Entry) : Pool κ := { s with entries := s.entries.insert k e }

def remove (s : Pool κ) (k : κ) (e : Entry) : Pool κ :=
  ⟨s.entries.erase k, e.client :: s.closed⟩

/-! ## Loops over the pool -/

/-- The body of a loop that removes some entries. -/
def removeStep (p : Entry → Bool) (s : Pool κ) (k : κ) : Pool κ :=
  match s.get k with
  | none => s
  | some e => if p e then s.remove k e else s

def removeWhere (p : Entry → Bool) (v : Visit κ) (s : Pool κ) : Pool κ :=
  (v.visit s.entries.keys).foldl (removeStep p) s

/-- The body of a loop that looks for the oldest entry; it keeps the key and the
time of the oldest one so far. -/
def olderStep (s : Pool κ) (best : Option (κ × Int)) (k : κ) : Option (κ × Int) :=
  match s.get k, best with
  | none, best => best
  | some e, none => some (k, e.lastUsed)
  | some e, some (k₀, t) => if e.lastUsed < t then some (k, e.lastUsed) else some (k₀, t)

def oldest (v : Visit κ) (s : Pool κ) : Option κ :=
  ((v.visit s.entries.keys).foldl (olderStep s) none).map (·.1)

end Pool

open Pool

variable [DecidableEq κ] {s : Pool κ} {k k' : κ} {e : Entry}

/-! ## Lookups -/

theorem get_remove (s : Pool κ) (k k' : κ) (e : Entry) :
    (s.remove k e).get k' = if k' = k then none else s.get k' := by
  split
  · next h =>
    rw [h]
    exact AList.lookup_erase k s.entries
  · next h => exact AList.lookup_erase_ne h

theorem get_put (s : Pool κ) (k k' : κ) (e : Entry) :
    (s.put k e).get k' = if k' = k then some e else s.get k' := by
  split
  · next h =>
    rw [h]
    exact AList.lookup_insert s.entries
  · next h => exact AList.lookup_insert_ne h

@[simp] theorem get_clear (s : Pool κ) (k : κ) : s.clear.get k = none := rfl

@[simp] theorem get_close (s : Pool κ) (c : Nat) (k : κ) : (s.close c).get k = s.get k := rfl

theorem mem_keys_iff : k ∈ s.entries.keys ↔ ∃ e, s.get k = some e := by
  rw [← AList.mem_keys, ← AList.lookup_isSome, Option.isSome_iff_exists]
  rfl

theorem size_eq_zero_iff : s.size = 0 ↔ ∀ k, s.get k = none := by
  rw [size, List.length_eq_zero_iff, List.eq_nil_iff_forall_not_mem]
  refine forall_congr' fun k => ?_
  rw [mem_keys_iff, Option.eq_none_iff_forall_ne_some]
  exact not_exists

theorem size_remove (h : s.get k = some e) : (s.remove k e).size + 1 = s.size := by
  have hmem : k ∈ s.entries.keys := mem_keys_iff.mpr ⟨e, h⟩
  rw [size, remove, AList.keys_erase, List.length_erase_of_mem hmem, size]
  exact Nat.sub_add_cancel (List.length_pos_of_mem hmem)

theorem size_put_le (s : Pool κ) (k : κ) (e : Entry) : (s.put k e).size ≤ s.size + 1 := by
  rw [size, put, AList.keys_insert, List.length_cons, size]
  exact Nat.succ_le_succ List.length_erase_le

theorem size_put (h : s.get k = some e) (e' : Entry) : (s.put k e').size = s.size := by
  have hmem : k ∈ s.entries.keys := mem_keys_iff.mpr ⟨e, h⟩
  rw [size, put, AList.keys_insert, List.length_cons, List.length_erase_of_mem hmem, size]
  exact Nat.sub_add_cancel (List.length_pos_of_mem hmem)

/-! ## Removing -/

section Remove

variable (p : Entry → Bool)

theorem removeStep_cases (s : Pool κ) (k : κ) :
    (removeStep p s k = s ∧ ∀ e, s.get k = some e → p e = false) ∨
      ∃ e, s.get k = some e ∧ p e = true ∧ removeStep p s k = s.remove k e := by
  unfold removeStep
  split
  · next hk => exact .inl ⟨rfl, fun e he => by rw [hk] at he; cases he⟩
  · next e hk =>
    split
    · next hp => exact .inr ⟨e, hk, hp, rfl⟩
    · next hp =>
      refine .inl ⟨rfl, fun e' he' => ?_⟩
      rw [hk] at he'
      exact Option.some.inj he' ▸ Bool.eq_false_iff.mpr hp

theorem get_removeStep (s : Pool κ) (k k' : κ) :
    (removeStep p s k).get k' = if k' = k then (s.get k').filter (!p ·) else s.get k' := by
  obtain ⟨hs, hp⟩ | ⟨e, hk, hp, hs⟩ := removeStep_cases p s k
  · rw [hs]
    split
    · next h =>
      rw [h]
      cases hk : s.get k with
      | none => rfl
      | some e => simp [Option.filter_some, hp e hk]
    · rfl
  · rw [hs, get_remove]
    split
    · next h => simp [h, hk, Option.filter_some, hp]
    · rfl

theorem mem_closed_removeStep (s : Pool κ) (k : κ) (c : Nat) :
    c ∈ (removeStep p s k).closed ↔
      c ∈ s.closed ∨ ∃ e, s.get k = some e ∧ p e = true ∧ e.client = c := by
  obtain ⟨hs, hp⟩ | ⟨e, hk, hp, hs⟩ := removeStep_cases p s k
  · rw [hs]
    refine (or_iff_left ?_).symm
    rintro ⟨e, hk, hpe, -⟩
    rw [hp e hk] at hpe
    cases hpe
  · have hent : (∃ e', s.get k = some e' ∧ p e' = true ∧ e'.client = c) ↔ e.client = c := by
      constructor
      · rintro ⟨e', hk', -, hc⟩
        rw [hk] at hk'
        exact Option.some.inj hk' ▸ hc
      · exact fun hc => ⟨e, hk, hp, hc⟩
    rw [hs, hent, remove, List.mem_cons, or_comm, eq_comm]

theorem size_removeStep_le (s : Pool κ) (k : κ) : (removeStep p s k).size ≤ s.size := by
  obtain ⟨hs, -⟩ | ⟨e, hk, -, hs⟩ := removeStep_cases p s k
  · rw [hs]
  · rw [hs]
    exact (Nat.le_succ _).trans (size_remove hk).le

theorem get_foldl_removeStep (ks : List κ) (s : Pool κ) (k : κ) :
    (ks.foldl (removeStep p) s).get k = if k ∈ ks then (s.get k).filter (!p ·) else s.get k := by
  induction ks generalizing s with
  | nil => simp
  | cons k₀ ks ih =>
    rw [List.foldl_cons, ih, get_removeStep]
    by_cases h₀ : k = k₀
    · -- a second visit would find nothing more to remove
      rw [if_pos h₀, if_pos (List.mem_cons.mpr (.inl h₀))]
      split
      · rw [Option.filter_filter]
        simp
      · rfl
    · simp only [h₀, if_false, List.mem_cons, false_or]

theorem mem_closed_foldl_removeStep (ks : List κ) (s : Pool κ) (c : Nat) :
    c ∈ (ks.foldl (removeStep p) s).closed ↔
      c ∈ s.closed ∨ ∃ k ∈ ks, ∃ e, s.get k = some e ∧ p e = true ∧ e.client = c := by
  induction ks generalizing s with
  | nil => simp
  | cons k₀ ks ih =>
    rw [List.foldl_cons, ih, mem_closed_removeStep]
    constructor
    · rintro ((h | h) | ⟨k, hk, e, he, hp, hc⟩)
      · exact .inl h
      · exact .inr ⟨k₀, List.mem_cons_self, h⟩
      · rw [get_removeStep] at he
        refine .inr ⟨k, List.mem_cons_of_mem _ hk, e, ?_, hp, hc⟩
        split at he
        · exact (Option.filter_eq_some_iff.mp he).1
        · exact he
    · rintro (h | ⟨k, hk, e, he, hp, hc⟩)
      · exact .inl (.inl h)
      · rcases eq_or_ne k k₀ with rfl | hne
        · exact .inl (.inr ⟨e, he, hp, hc⟩)
        · refine .inr ⟨k, (List.mem_cons.mp hk).resolve_left hne, e, ?_, hp, hc⟩
          rw [get_removeStep, if_neg hne, he]

theorem get_removeWhere (v : Visit κ) (s : Pool κ) (k : κ) :
    (removeWhere p v s).get k = (s.get k).filter (!p ·) := by
  rw [removeWhere, get_foldl_removeStep]
  split
  · rfl
  · next h =>
    rw [Visit.mem_visit] at h
    cases hk : s.get k with
    | none => rfl
    | some e => exact absurd (mem_keys_iff.mpr ⟨e, hk⟩) h

theorem mem_closed_removeWhere (v : Visit κ) (s : Pool κ) (c : Nat) :
    c ∈ (removeWhere p v s).closed ↔
      c ∈ s.closed ∨ ∃ k e, s.get k = some e ∧ p e = true ∧ e.client = c := by
  rw [removeWhere, mem_closed_foldl_removeStep]
  refine or_congr_right (exists_congr fun k => ?_)
  rw [Visit.mem_visit, mem_keys_iff]
  exact ⟨fun h => h.2, fun h => ⟨h.imp fun _ => And.left, h⟩⟩

theorem size_removeWhere_le (v : Visit κ) (s : Pool κ) : (removeWhere p v s).size ≤ s.size := by
  unfold removeWhere
  generalize v.visit s.entries.keys = ks
  induction ks generalizing s with
  | nil => exact le_rfl
  | cons k ks ih => exact (ih (removeStep p s k)).trans (size_removeStep_le p s k)

end Remove

/-! ## The oldest entry -/

/-- The best so far is an entry, and none of the visited ones is older. -/
def Best (s : Pool κ) (ks : List κ) : Option (κ × Int) → Prop
  | none => ∀ k ∈ ks, s.get k = none
  | some (k₀, t) => (∃ e, s.get k₀ = some e ∧ e.lastUsed = t) ∧
      ∀ k ∈ ks, ∀ e, s.get k = some e → t ≤ e.lastUsed

theorem best_olderStep {ks : List κ} {best : Option (κ × Int)} (h : Best s ks best) (k : κ) :
    Best s (ks ++ [k]) (olderStep s best k) := by
  unfold olderStep
  cases hk : s.get k with
  | none =>
    cases best with
    | none =>
      intro k' hk'
      rcases List.mem_append.mp hk' with hk' | hk'
      · exact h k' hk'
      · rw [List.mem_singleton.mp hk', hk]
    | some b =>
      refine ⟨h.1, fun k' hk' e he => ?_⟩
      rcases List.mem_append.mp hk' with hk' | hk'
      · exact h.2 k' hk' e he
      · rw [List.mem_singleton.mp hk', hk] at he
        cases he
  | some e =>
    cases best with
    | none =>
      refine ⟨⟨e, hk, rfl⟩, fun k' hk' e' he' => ?_⟩
      rcases List.mem_append.mp hk' with hk' | hk'
      · rw [h k' hk'] at he'
        cases he'
      · rw [List.mem_singleton.mp hk', hk] at he'
        exact (congrArg Entry.lastUsed (Option.some.inj he')).le
    | some b =>
      dsimp only
      split
      · next hlt =>
        refine ⟨⟨e, hk, rfl⟩, fun k' hk' e' he' => ?_⟩
        rcases List.mem_append.mp hk' with hk' | hk'
        · exact hlt.le.trans (h.2 k' hk' e' he')
        · rw [List.mem_singleton.mp hk', hk] at he'
          exact (congrArg Entry.lastUsed (Option.some.inj he')).le
      · next hge =>
        refine ⟨h.1, fun k' hk' e' he' => ?_⟩
        rcases List.mem_append.mp hk' with hk' | hk'
        · exact h.2 k' hk' e' he'
        · rw [List.mem_singleton.mp hk', hk] at he'
          obtain rfl := Option.some.inj he'
          exact not_lt.mp hge

theorem best_foldl (s : Pool κ) (ks : List κ) : Best s ks (ks.foldl (olderStep s) none) := by
  induction ks using List.reverseRecOn with
  | nil => exact fun k hk => absurd hk List.not_mem_nil
  | append_singleton ks k ih =>
    rw [List.foldl_append]
    exact best_olderStep ih k

theorem oldest_spec {v : Visit κ} (h : oldest v s = some k) :
    ∃ e, s.get k = some e ∧ ∀ k' e', s.get k' = some e' → e.lastUsed ≤ e'.lastUsed := by
  have hbest := best_foldl s (v.visit s.entries.keys)
  obtain ⟨⟨k₀, t⟩, hfold, rfl⟩ := Option.map_eq_some_iff.mp h
  rw [hfold] at hbest
  obtain ⟨⟨e, he, rfl⟩, hmin⟩ := hbest
  refine ⟨e, he, fun k' e' he' => hmin k' ?_ e' he'⟩
  exact (v.mem_visit).mpr (mem_keys_iff.mpr ⟨e', he'⟩)

theorem oldest_eq_none_iff {v : Visit κ} : oldest v s = none ↔ ∀ k, s.get k = none := by
  constructor
  · intro h k
    have hbest := best_foldl s (v.visit s.entries.keys)
    rw [Option.map_eq_none_iff.mp h] at hbest
    by_contra hk
    obtain ⟨e, he⟩ := Option.ne_none_iff_exists'.mp hk
    exact hk (hbest k ((v.mem_visit).mpr (mem_keys_iff.mpr ⟨e, he⟩)))
  · intro h
    by_contra hsome
    obtain ⟨k, hk⟩ := Option.ne_none_iff_exists'.mp hsome
    obtain ⟨e, he, -⟩ := oldest_spec hk
    rw [h k] at he
    cases he

theorem exists_oldest (hk : s.get k = some e)
    (hmin : ∀ k' e', s.get k' = some e' → e.lastUsed ≤ e'.lastUsed) :
    oldest (.first k) s = some k := by
  have hstay (ks : List κ) :
      ks.foldl (olderStep s) (some (k, e.lastUsed)) = some (k, e.lastUsed) := by
    induction ks with
    | nil => rfl
    | cons k' ks ih =>
      have hstep : olderStep s (some (k, e.lastUsed)) k' = some (k, e.lastUsed) := by
        unfold olderStep
        cases hk' : s.get k' with
        | none => rfl
        | some e' => exact if_neg (not_lt.mpr (hmin k' e' hk'))
      rw [List.foldl_cons, hstep, ih]
  have hfirst : olderStep s none k = some (k, e.lastUsed) := by
    unfold olderStep
    rw [hk]
  rw [oldest, Visit.first_visit (mem_keys_iff.mpr ⟨e, hk⟩), List.foldl_cons, hfirst, hstay]
  rfl

/-! ## Accounts -/

/-- The pooled connections are open, each under the key it was dialed for. -/
structure Filed (dialed : List κ) (s : Pool κ) : Prop where
  key : ∀ {k e}, s.get k = some e → dialed[e.client]? = some k
  isOpen : ∀ {k e}, s.get k = some e → e.client ∉ s.closed
  known : ∀ {c}, c ∈ s.closed → c < dialed.length

/-- Every connection that was dialed and not closed is pooled under its key, or
is one of those held elsewhere. -/
def Kept (dialed : List κ) (held : Nat → Prop) (s : Pool κ) : Prop :=
  ∀ ⦃c k⦄, dialed[c]? = some k → c ∉ s.closed → held c ∨ ∃ e, s.get k = some e ∧ e.client = c

variable {dialed : List κ} {held : Nat → Prop} {c : Nat} {t : Int}
variable {held' : Nat → Prop}

theorem Kept.mono (h : Kept dialed held s) (hheld : ∀ c, held c → held' c) : Kept dialed held' s :=
  fun _ _ hd hc => (h hd hc).imp_left (hheld _)

theorem Filed.key_eq (h : Filed dialed s) {e' : Entry} (hk : s.get k = some e)
    (hk' : s.get k' = some e') (hc : e.client = e'.client) : k = k' := by
  have hd := h.key hk
  rw [hc, h.key hk'] at hd
  exact (Option.some.inj hd).symm

theorem Filed.lt (h : Filed dialed s) (hk : s.get k = some e) : e.client < dialed.length :=
  (List.getElem?_eq_some_iff.mp (h.key hk)).1

theorem Filed.removeWhere (h : Filed dialed s) (p : Entry → Bool) (v : Visit κ) :
    Filed dialed (s.removeWhere p v) where
  key hk := by
    rw [get_removeWhere] at hk
    exact h.key (Option.filter_eq_some_iff.mp hk).1
  isOpen hk := by
    rw [get_removeWhere] at hk
    obtain ⟨hk, hp⟩ := Option.filter_eq_some_iff.mp hk
    rw [mem_closed_removeWhere]
    rintro (hc | ⟨k', e', hk', hp', hc⟩)
    · exact h.isOpen hk hc
    · obtain rfl := h.key_eq hk' hk hc
      rw [hk] at hk'
      rw [Option.some.inj hk', hp'] at hp
      cases hp
  known hc := by
    rw [mem_closed_removeWhere] at hc
    obtain hc | ⟨k', e', hk', -, rfl⟩ := hc
    · exact h.known hc
    · exact h.lt hk'

theorem Kept.removeWhere (h : Kept dialed held s) (p : Entry → Bool) (v : Visit κ) :
    Kept dialed held (s.removeWhere p v) := by
  intro c k hd hc
  rw [mem_closed_removeWhere, not_or] at hc
  obtain hheld | ⟨e, hk, rfl⟩ := h hd hc.1
  · exact .inl hheld
  · refine .inr ⟨e, ?_, rfl⟩
    rw [get_removeWhere, hk, Option.filter_some]
    refine if_pos ?_
    by_contra hp
    exact hc.2 ⟨k, e, hk, by simpa using hp, rfl⟩

theorem Filed.remove (h : Filed dialed s) (hk : s.get k = some e) :
    Filed dialed (s.remove k e) where
  key hk' := by
    rw [get_remove] at hk'
    split at hk'
    · cases hk'
    · exact h.key hk'
  isOpen hk' := by
    rw [get_remove] at hk'
    split at hk'
    · cases hk'
    · next hne =>
      rw [Pool.remove, List.mem_cons, not_or]
      exact ⟨fun hc => hne (h.key_eq hk' hk hc), h.isOpen hk'⟩
  known hc := by
    rcases List.mem_cons.mp hc with rfl | hc
    · exact h.lt hk
    · exact h.known hc

theorem Kept.remove (h : Kept dialed held s) (hk : s.get k = some e) :
    Kept dialed held (s.remove k e) := by
  intro c k' hd hc
  rw [Pool.remove, List.mem_cons, not_or] at hc
  obtain hheld | ⟨e', hk', rfl⟩ := h hd hc.2
  · exact .inl hheld
  · refine .inr ⟨e', ?_, rfl⟩
    rw [get_remove, if_neg]
    · exact hk'
    · rintro rfl
      rw [hk] at hk'
      exact hc.1 (congrArg Entry.client (Option.some.inj hk')).symm

theorem Filed.put (h : Filed dialed s) (hd : dialed[c]? = some k) (hc : c ∉ s.closed) :
    Filed dialed (s.put k ⟨c, t⟩) where
  key hk' := by
    rw [get_put] at hk'
    split at hk'
    · next heq =>
      rw [← Option.some.inj hk', heq]
      exact hd
    · exact h.key hk'
  isOpen hk' := by
    rw [get_put] at hk'
    split at hk'
    · rw [← Option.some.inj hk']
      exact hc
    · exact h.isOpen hk'
  known := h.known

theorem Kept.put (h : Kept dialed held s) (hd : dialed[c]? = some k)
    (hheld : ∀ c', held c' → c' = c ∨ held' c') (hk : ∀ e, s.get k = some e → e.client = c) :
    Kept dialed held' (s.put k ⟨c, t⟩) := by
  intro c' k' hd' hc'
  rcases eq_or_ne c' c with rfl | hne
  · rw [hd] at hd'
    refine .inr ⟨⟨c', t⟩, ?_, rfl⟩
    rw [get_put, if_pos (Option.some.inj hd').symm]
  · obtain hh | ⟨e, hk', rfl⟩ := h hd' hc'
    · exact .inl ((hheld c' hh).resolve_left hne)
    · refine .inr ⟨e, ?_, rfl⟩
      rw [get_put, if_neg]
      · exact hk'
      · rintro rfl
        exact hne (hk e hk')

theorem Filed.dial (h : Filed dialed s) (k : κ) : Filed (dialed ++ [k]) s where
  key hk := by rw [List.getElem?_append_left (h.lt hk), h.key hk]
  isOpen := h.isOpen
  known hc := (h.known hc).trans (by simp)

theorem Kept.dial (h : Kept dialed held s) (k : κ) (hnew : held' dialed.length)
    (hheld : ∀ c, held c → held' c) : Kept (dialed ++ [k]) held' s := by
  intro c k' hd hc
  rcases Nat.lt_or_ge c dialed.length with hlt | hge
  · rw [List.getElem?_append_left hlt] at hd
    exact (h hd hc).imp_left (hheld c)
  · have hlt := (List.getElem?_eq_some_iff.mp hd).1
    rw [List.length_append, List.length_singleton] at hlt
    obtain rfl : c = dialed.length := by omega
    exact .inl hnew

theorem Filed.close (h : Filed dialed s) (hc : c < dialed.length)
    (hout : ∀ k e, s.get k = some e → e.client ≠ c) : Filed dialed (s.close c) where
  key := h.key
  isOpen {k e} hk := by
    rw [Pool.close, List.mem_cons, not_or]
    exact ⟨hout k e hk, h.isOpen hk⟩
  known hc' := by
    rcases List.mem_cons.mp hc' with rfl | hc'
    · exact hc
    · exact h.known hc'

theorem Kept.close (h : Kept dialed held s) (hheld : ∀ c', held c' → c' = c ∨ held' c') :
    Kept dialed held' (s.close c) := by
  intro c' k hd hc'
  rw [Pool.close, List.mem_cons, not_or] at hc'
  exact (h hd hc'.2).imp_left fun hh => (hheld c' hh).resolve_left hc'.1

theorem Filed.clear (h : Filed dialed s) : Filed dialed s.clear where
  key hk := by cases hk
  isOpen hk := by cases hk
  known := h.known

theorem Kept.clear (h : Kept dialed held s) (hs : ∀ k, s.get k = none) :
    Kept dialed held s.clear := by
  intro c k hd hc
  obtain hh | ⟨e, hk, -⟩ := h hd hc
  · exact .inl hh
  · rw [hs k] at hk
    cases hk

end ConnPool
