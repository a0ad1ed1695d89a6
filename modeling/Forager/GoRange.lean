import Mathlib.Data.List.AList
import Mathlib.Data.List.Sort
import Mathlib.Data.Prod.Lex

/-!
# Maps that are ranged over and slices that are sorted

Two things of Go that leave an order open: a `range` over a map, which visits the keys in
any order, and `sort.Slice`, which puts elements its comparator does not tell apart in any
order. Both are values here (`Visit`, `Sorter`), so that a function of the source takes
the orders it meets as arguments and two of its runs can be compared.

Results:
* A sorted list is determined by its keys (`take_map_eq`): two sorted lists with the same
  keys agree on what is read off the first `n` elements, if elements with the same key do.
* Some sorter puts a chosen element before everything it ties with
  (`Sorter.favouring_getElem?`).
* A loop that updates one entry of a map for each element leaves at a key what the
  elements with that key do to it (`at_foldl_upd`).
-/

namespace GoRange

variable {α β γ κ : Type}

/-! ## The orders of a `range` -/

/-- One choice of the order in which a `range` visits the keys of a map. -/
structure Visit (κ : Type) where
  visit : List κ → List κ
  perm : ∀ ks, (visit ks).Perm ks

namespace Visit

def stored : Visit κ := ⟨id, fun _ => .rfl⟩

def reversed : Visit κ := ⟨List.reverse, List.reverse_perm⟩

def first [DecidableEq κ] (k : κ) : Visit κ where
  visit ks := if k ∈ ks then k :: ks.erase k else ks
  perm ks := by
    split
    next h => exact (List.perm_cons_erase h).symm
    next => exact .rfl

theorem first_visit [DecidableEq κ] {k : κ} {ks : List κ} (h : k ∈ ks) :
    (first k).visit ks = k :: ks.erase k := if_pos h

@[simp] theorem mem_visit (v : Visit κ) {k : κ} {ks : List κ} : k ∈ v.visit ks ↔ k ∈ ks :=
  (v.perm ks).mem_iff

theorem nodup_visit (v : Visit κ) {ks : List κ} (h : ks.Nodup) : (v.visit ks).Nodup :=
  (v.perm ks).nodup_iff.mpr h

theorem perm_visit (v v' : Visit κ) (ks : List κ) : (v.visit ks).Perm (v'.visit ks) :=
  (v.perm ks).trans (v'.perm ks).symm

end Visit

/-! ## The orders of a sort -/

/-- One choice of the order in which `sort.Slice` leaves a slice under `less`. -/
structure Sorter (less : α → α → Bool) where
  sort : List α → List α
  perm : ∀ l, (sort l).Perm l
  sorted : ∀ l, (sort l).Pairwise fun a b => less b a = false

variable [LinearOrder γ]

/-- The comparator compares a key. -/
def Compares (less : α → α → Bool) (key : α → γ) : Prop := ∀ a b, less a b = true ↔ key a < key b

/-- `sort.Strings`, and any sort of values that are their own key: equal values cannot be
told apart, so the order is not open. -/
def sortValues (l : List γ) : List γ := l.insertionSort (· ≤ ·)

theorem sortValues_eq_iff {l l' : List γ} : sortValues l = sortValues l' ↔ l.Perm l' := by
  have hp (l : List γ) : (sortValues l).Perm l := List.perm_insertionSort _ l
  constructor
  · intro h
    exact (hp l).symm.trans (h ▸ hp l')
  · intro h
    exact List.Perm.eq_of_pairwise (fun a b _ _ => le_antisymm) (List.pairwise_insertionSort _ _)
      (List.pairwise_insertionSort _ _) ((hp l).trans (h.trans (hp l').symm))

section Sorted

variable {less : α → α → Bool} {key : α → γ}

def KeyLe (key : α → γ) (a b : α) : Prop := key a ≤ key b

instance (key : α → γ) : DecidableRel (KeyLe key) := fun _ _ =>
  inferInstanceAs (Decidable (_ ≤ _))
instance (key : α → γ) : Std.Total (KeyLe key) := ⟨fun a b => le_total (key a) (key b)⟩
instance (key : α → γ) : IsTrans α (KeyLe key) := ⟨fun _ _ _ => le_trans⟩

theorem Sorter.pairwise_key (s : Sorter less) (hk : Compares less key) (l : List α) :
    (s.sort l).Pairwise (KeyLe key) := by
  refine (s.sorted l).imp fun {a b} h => ?_
  have hlt : ¬ key b < key a := fun hba => by simp [(hk b a).mpr hba] at h
  exact not_lt.mp hlt

def Sorter.refined {δ : Type} [LinearOrder δ] (fine : α → δ)
    (h : ∀ a b, less a b = true → fine a < fine b) : Sorter less where
  sort l := l.insertionSort (KeyLe fine)
  perm l := List.perm_insertionSort _ l
  sorted l := by
    refine (List.pairwise_insertionSort (KeyLe fine) l).imp fun {a b} hab => ?_
    exact Bool.eq_false_iff.mpr fun hba => absurd (h b a hba) (not_lt.mpr hab)

def Sorter.stable (hk : Compares less key) : Sorter less :=
  .refined key fun a b => (hk a b).mp

/-- The key that puts `x` before what it ties with. -/
def favour [DecidableEq α] (key : α → γ) (x a : α) : Lex (γ × ℕ) :=
  toLex (key a, if a = x then 0 else 1)

/-- The sorter that puts `x` before what it ties with. -/
def Sorter.favouring [DecidableEq α] (hk : Compares less key) (x : α) : Sorter less :=
  .refined (favour key x) fun a b hab => Prod.Lex.toLex_lt_toLex.mpr (.inl ((hk a b).mp hab))

theorem countP_lt_head {a : α} {t : List α} (hs : (a :: t).Pairwise (KeyLe key)) :
    (a :: t).countP (key · < key a) = 0 := by
  refine List.countP_eq_zero.mpr fun c hc => ?_
  rcases List.mem_cons.mp hc with rfl | hc
  · simp
  · have hac : key a ≤ key c := (List.pairwise_cons.mp hs).1 c hc
    simpa using hac

theorem countP_lt_le {l : List α} (hs : l.Pairwise (KeyLe key)) {i : ℕ} {a : α}
    (ha : l[i]? = some a) : l.countP (key · < key a) ≤ i := by
  induction l generalizing i with
  | nil => simp at ha
  | cons b t ih =>
    cases i with
    | zero =>
      obtain rfl : b = a := by simpa using ha
      exact (countP_lt_head hs).le
    | succ i =>
      have hle := ih hs.of_cons (by simpa using ha)
      rw [List.countP_cons]
      split <;> omega

theorem getElem?_countP_lt {l : List α} (hs : l.Pairwise (KeyLe key)) {x : α} (hx : x ∈ l)
    (huniq : ∀ a ∈ l, key a = key x → a = x) : l[l.countP (key · < key x)]? = some x := by
  induction l with
  | nil => simp at hx
  | cons b t ih =>
    obtain ⟨hb, ht⟩ := List.pairwise_cons.mp hs
    rcases lt_or_ge (key b) (key x) with hlt | hge
    · have hxt : x ∈ t := (List.mem_cons.mp hx).resolve_left fun h => absurd hlt (h ▸ lt_irrefl _)
      have hrec := ih ht hxt fun a ha => huniq a (List.mem_cons_of_mem _ ha)
      rw [List.countP_cons_of_pos (by simpa using hlt), List.getElem?_cons_succ]
      exact hrec
    · -- the head is not before `x`, and `x` is in the list: the head is `x`
      have hle : key b ≤ key x := by
        rcases List.mem_cons.mp hx with rfl | hx
        · exact le_rfl
        · exact hb x hx
      obtain rfl : b = x := huniq b (List.mem_cons_self ..) (le_antisymm hle hge)
      rw [countP_lt_head hs, List.getElem?_cons_zero]

theorem Sorter.favouring_getElem? [DecidableEq α] (hk : Compares less key) {x : α} {l : List α}
    (hx : x ∈ l) : ((favouring hk x).sort l)[l.countP (key · < key x)]? = some x := by
  have hperm := (favouring hk x).perm l
  have hcount : l.countP (key · < key x)
      = ((favouring hk x).sort l).countP (favour key x · < favour key x x) := by
    rw [hperm.countP_eq]
    congr 1
    funext a
    by_cases ha : a = x <;> simp [favour, Prod.Lex.toLex_lt_toLex, ha]
  rw [hcount]
  refine getElem?_countP_lt (List.pairwise_insertionSort _ l) (hperm.mem_iff.mpr hx) ?_
  intro a _ ha
  by_contra hne
  have hsnd := congrArg (fun p => (ofLex p).2) ha
  simp [favour, hne] at hsnd

theorem take_map_eq {δ : Type} {l₁ l₂ : List α} (h₁ : l₁.Pairwise (KeyLe key))
    (h₂ : l₂.Pairwise (KeyLe key)) (hp : (l₁.map key).Perm (l₂.map key)) (g : α → δ) (n : ℕ)
    (hg : ∀ a ∈ l₁, ∀ b ∈ l₂, key a = key b → l₁.countP (key · < key a) < n → g a = g b) :
    (l₁.map g).take n = (l₂.map g).take n := by
  have hkeys : l₁.map key = l₂.map key :=
    List.Perm.eq_of_pairwise (fun a b _ _ => le_antisymm) (List.pairwise_map.mpr h₁)
      (List.pairwise_map.mpr h₂) hp
  refine List.ext_getElem? fun i => ?_
  rw [List.getElem?_take, List.getElem?_take]
  split
  next hi =>
    have hkey : (l₁[i]?).map key = (l₂[i]?).map key := by
      rw [← List.getElem?_map, hkeys, List.getElem?_map]
    rw [List.getElem?_map, List.getElem?_map]
    rcases ha : l₁[i]? with _ | a <;> rcases hb : l₂[i]? with _ | b <;>
      simp only [ha, hb, Option.map_none, Option.map_some, reduceCtorEq, Option.some.injEq]
        at hkey ⊢
    exact hg a (List.mem_of_getElem? ha) b (List.mem_of_getElem? hb) hkey
      ((countP_lt_le h₁ ha).trans_lt hi)
  next => rfl

theorem take_sort_iff [DecidableEq α] {ι δ : Type} (hk : Compares less key) {l : ι → List α}
    (hl : ∀ i j, ((l i).map key).Perm ((l j).map key)) (g : α → δ) (n : ℕ) :
    (∀ i j (s s' : Sorter less),
      ((s.sort (l i)).map g).take n = ((s'.sort (l j)).map g).take n) ↔
    ∀ i j, ∀ a ∈ l i, ∀ b ∈ l j, key a = key b → (l i).countP (key · < key a) < n → g a = g b := by
  have hcount (i j : ι) (c : γ) : (l i).countP (key · < c) = (l j).countP (key · < c) := by
    have h := (hl i j).countP_eq (· < c)
    rwa [List.countP_map, List.countP_map] at h
  have hread {i : ι} {a : α} (ha : a ∈ l i) (hn : (l i).countP (key · < key a) < n) :
      ((((Sorter.favouring hk a).sort (l i)).map g).take n)[(l i).countP (key · < key a)]?
        = some (g a) := by
    rw [List.getElem?_take_of_lt hn, List.getElem?_map, Sorter.favouring_getElem? hk ha,
      Option.map_some]
  constructor
  · intro h i j a ha b hb hab hn
    have hb' : (l j).countP (key · < key b) = (l i).countP (key · < key a) := by
      rw [← hab, hcount j i]
    have hread' := hread hb (hb' ▸ hn)
    rw [hb', ← h i j (.favouring hk a) (.favouring hk b), hread ha hn] at hread'
    exact Option.some.inj hread'
  · intro h i j s s'
    refine take_map_eq (s.pairwise_key hk _) (s'.pairwise_key hk _) ?_ g n ?_
    · exact ((s.perm _).map key).trans ((hl i j).trans ((s'.perm _).map key).symm)
    · intro a ha b hb hab hn
      rw [(s.perm _).countP_eq] at hn
      exact h i j a ((s.perm _).mem_iff.mp ha) b ((s'.perm _).mem_iff.mp hb) hab hn

theorem sort_iff [DecidableEq α] {ι δ : Type} (hk : Compares less key) {l : ι → List α}
    (hl : ∀ i j, ((l i).map key).Perm ((l j).map key)) (g : α → δ) :
    (∀ i j (s s' : Sorter less), (s.sort (l i)).map g = (s'.sort (l j)).map g) ↔
    ∀ i j, ∀ a ∈ l i, ∀ b ∈ l j, key a = key b → g a = g b := by
  constructor
  · intro h i j a ha b hb hab
    refine (take_sort_iff hk hl g ((l i).countP (key · < key a) + 1)).mp ?_ i j a ha b hb hab
      (Nat.lt_succ_self _)
    intro i j s s'
    rw [h i j s s']
  · intro h i j s s'
    -- a cut after the whole list cuts nothing
    have hlen : (l j).length = (l i).length := by
      have h := (hl j i).length_eq
      rwa [List.length_map, List.length_map] at h
    have hcut (j : ι) (s : Sorter less) (hj : (l j).length = (l i).length) :
        ((s.sort (l j)).map g).take (l i).length = (s.sort (l j)).map g := by
      rw [List.take_of_length_le]
      rw [List.length_map, (s.perm _).length_eq, hj]
    have htake := (take_sort_iff hk hl g (l i).length).mpr
      (fun i j a ha b hb hab _ => h i j a ha b hb hab) i j s s'
    rwa [hcut i s rfl, hcut j s' hlen] at htake

end Sorted

/-! ## What is taken only when it is alone -/

/-- The element of a list that has just one. -/
def only : List α → Option α
  | [a] => some a
  | _ => none

theorem only_perm {l l' : List α} (h : l.Perm l') : only l = only l' := by
  match l with
  | [] => rw [h.nil_eq]
  | [a] => rw [List.perm_singleton.mp h.symm]
  | _ :: _ :: _ =>
    match l' with
    | [] => exact absurd h.length_eq (by simp)
    | [_] => exact absurd h.length_eq (by simp)
    | _ :: _ :: _ => rfl

/-! ## Maps that a loop fills -/

section Table

variable [DecidableEq κ]

/-- What a loop sees at `k`: the entry, or a new one. -/
def entry (init : κ → β) (m : AList fun _ : κ => β) (k : κ) : β := (m.lookup k).getD (init k)

/-- Change the entry of `k`, making it first if there is none. -/
def upd (init : κ → β) (k : κ) (f : β → β) (m : AList fun _ : κ => β) : AList fun _ : κ => β :=
  m.insert k (f (entry init m k))

/-- Change the entry of `k` if there is one. -/
def adjust (k : κ) (f : β → β) (m : AList fun _ : κ => β) : AList fun _ : κ => β :=
  match m.lookup k with
  | none => m
  | some b => m.insert k (f b)

variable {init : κ → β} {m : AList fun _ : κ => β} {k k' : κ} {f : β → β}

@[simp] theorem entry_empty : entry init (∅ : AList fun _ : κ => β) k = init k := rfl

@[simp] theorem mem_upd : k' ∈ upd init k f m ↔ k' = k ∨ k' ∈ m := AList.mem_insert m

theorem lookup_upd :
    (upd init k f m).lookup k' = if k' = k then some (f (entry init m k)) else m.lookup k' := by
  split
  next h => rw [h, upd, AList.lookup_insert]
  next h => exact AList.lookup_insert_ne h

theorem entry_upd :
    entry init (upd init k f m) k' = if k' = k then f (entry init m k) else entry init m k' := by
  rw [entry, lookup_upd]
  split
  next => rfl
  next => rfl

theorem upd_upd (g : β → β) : upd init k g (upd init k f m) = upd init k (fun b => g (f b)) m := by
  rw [upd, entry_upd, if_pos rfl, upd, AList.insert_insert, upd]

theorem foldl_upd (g : α → β → β) (a : α) (l : List α) :
    (a :: l).foldl (fun m a => upd init k (g a) m) m
      = upd init k (fun b => (a :: l).foldl (fun b a => g a b) b) m := by
  induction l generalizing a m with
  | nil => rfl
  | cons a' l ih => exact (ih a').trans (upd_upd _)

theorem lookup_adjust :
    (adjust k f m).lookup k' = if k' = k then (m.lookup k).map f else m.lookup k' := by
  unfold adjust
  rcases h : m.lookup k with _ | b <;> dsimp only
  · split
    next hk => rw [hk, h, Option.map_none]
    next => rfl
  · split
    next hk => rw [hk, AList.lookup_insert, Option.map_some]
    next hk => exact AList.lookup_insert_ne hk

theorem entry_of_lookup {b : β} (h : m.lookup k = some b) : entry init m k = b := by
  rw [entry, h, Option.getD_some]

theorem lookup_of_mem (init : κ → β) (h : k ∈ m) : m.lookup k = some (entry init m k) := by
  obtain ⟨b, hb⟩ := Option.isSome_iff_exists.mp (AList.lookup_isSome.mpr h)
  rw [hb, entry_of_lookup hb]

/-! A loop of updates, each at the key of its element. -/

variable (key : α → κ) (act : α → β → β)

/-- The map after a loop that updates the entry of each element's key. -/
def fill (init : κ → β) (m : AList fun _ : κ => β) (l : List α) : AList fun _ : κ => β :=
  l.foldl (fun m a => upd init (key a) (act a) m) m

theorem entry_fill (init : κ → β) (l : List α) :
    entry init (fill key act init m l) k
      = (l.filter (key · = k)).foldl (fun b a => act a b) (entry init m k) := by
  induction l generalizing m with
  | nil => rfl
  | cons a t ih =>
    rw [fill, List.foldl_cons]
    refine ih.trans ?_
    rw [entry_upd]
    by_cases h : key a = k
    · rw [if_pos h.symm, List.filter_cons_of_pos (by simpa using h), List.foldl_cons, h]
    · rw [if_neg (Ne.symm h), List.filter_cons_of_neg (by simpa using h)]

theorem mem_fill (init : κ → β) (l : List α) :
    k ∈ fill key act init m l ↔ k ∈ m ∨ k ∈ l.map key := by
  induction l generalizing m with
  | nil => simp [fill]
  | cons a t ih =>
    rw [fill, List.foldl_cons]
    refine ih.trans ?_
    rw [mem_upd, List.map_cons, List.mem_cons]
    tauto

theorem lookup_fill (init : κ → β) (l : List α) (h : k ∈ m ∨ k ∈ l.map key) :
    (fill key act init m l).lookup k
      = some ((l.filter (key · = k)).foldl (fun b a => act a b) (entry init m k)) := by
  rw [lookup_of_mem init ((mem_fill key act init l).mpr h), entry_fill]

/-- A property that each entry of a map has. -/
def All (P : κ → β → Prop) (m : AList fun _ : κ => β) : Prop := ∀ k b, m.lookup k = some b → P k b

theorem all_empty (P : κ → β → Prop) : All P ∅ := fun k b h => by simp at h

theorem All.upd {P : κ → β → Prop} (hm : All P m) (hinit : P k (init k))
    (hf : ∀ b, P k b → P k (f b)) : All P (upd init k f m) := by
  intro k' b hb
  rw [lookup_upd] at hb
  split at hb
  next hk =>
    rw [hk, ← Option.some.inj hb]
    refine hf _ ?_
    rcases h : m.lookup k with _ | b'
    · rw [entry, h]
      exact hinit
    · rw [entry_of_lookup h]
      exact hm k b' h
  next => exact hm k' b hb

theorem All.adjust {P : κ → β → Prop} (hm : All P m) (hf : ∀ b, P k b → P k (f b)) :
    All P (adjust k f m) := by
  intro k' b hb
  rw [lookup_adjust] at hb
  split at hb
  next hk =>
    obtain ⟨b', hb', rfl⟩ := Option.map_eq_some_iff.mp hb
    rw [hk]
    exact hf b' (hm k b' hb')
  next => exact hm k' b hb

theorem lookup_foldl_adjust (l : List α) (m : AList fun _ : κ => β) (k : κ) :
    (l.foldl (fun m a => adjust (key a) (act a) m) m).lookup k
      = (m.lookup k).map fun b => (l.filter (key · = k)).foldl (fun b a => act a b) b := by
  induction l generalizing m with
  | nil => simp
  | cons a t ih =>
    rw [List.foldl_cons, ih, lookup_adjust]
    by_cases h : key a = k
    · rw [if_pos h.symm, List.filter_cons_of_pos (by simpa using h), h, Option.map_map]
      rfl
    · rw [if_neg (Ne.symm h), List.filter_cons_of_neg (by simpa using h)]

theorem lookup_foldl_insert (v : κ → β) (ks : List κ) (m : AList fun _ : κ => β) (k : κ) :
    (ks.foldl (fun m k => m.insert k (v k)) m).lookup k
      = if k ∈ ks then some (v k) else m.lookup k := by
  induction ks generalizing m with
  | nil => simp
  | cons k' ks ih =>
    rw [List.foldl_cons, ih]
    by_cases hk : k ∈ ks
    · simp [hk]
    · by_cases hkk : k = k'
      · subst hkk
        simp [hk, AList.lookup_insert]
      · simp [hk, hkk, AList.lookup_insert_ne hkk]

end Table

/-! ## Loops that log what they do -/

theorem foldl_log {σ τ ε : Type} {I : σ → Prop} (part : σ → τ) (step : σ → α → σ)
    (apply : τ → ε → τ) (log : α → List ε) (hI : ∀ s a, I s → I (step s a))
    (hstep : ∀ s a, I s → part (step s a) = (log a).foldl apply (part s))
    (l : List α) {s : σ} (hs : I s) :
    part (l.foldl step s) = (l.flatMap log).foldl apply (part s) := by
  induction l generalizing s with
  | nil => rfl
  | cons a t ih =>
    rw [List.foldl_cons, ih (hI s a hs), hstep s a hs, List.flatMap_cons, List.foldl_append]

theorem foldl_keeps {σ : Type} {I : σ → Prop} (step : σ → α → σ) (hI : ∀ s a, I s → I (step s a))
    (l : List α) {s : σ} (hs : I s) : I (l.foldl step s) := by
  induction l generalizing s with
  | nil => exact hs
  | cons a t ih => exact ih (hI s a hs)

theorem foldl_adds {σ : Type} {P : σ → Prop} {Q : α → Prop} (step : σ → α → σ)
    (h : ∀ s a, P (step s a) ↔ P s ∨ Q a) (l : List α) (s : σ) :
    P (l.foldl step s) ↔ P s ∨ ∃ a ∈ l, Q a := by
  induction l generalizing s with
  | nil => simp
  | cons a t ih => rw [List.foldl_cons, ih, h, List.exists_mem_cons_iff, or_assoc]

theorem flatMap_ite (p : α → Prop) [DecidablePred p] (f : α → List β) (l : List α) :
    (l.flatMap fun a => if p a then f a else []) = (l.filter fun a => p a).flatMap f := by
  induction l with
  | nil => rfl
  | cons a t ih =>
    by_cases h : p a
    · rw [List.flatMap_cons, ih, if_pos h, List.filter_cons_of_pos (by simpa using h),
        List.flatMap_cons]
    · rw [List.flatMap_cons, ih, if_neg h, List.filter_cons_of_neg (by simpa using h),
        List.nil_append]

theorem filterMap_ite (p : α → Prop) [DecidablePred p] (f : α → β) (l : List α) :
    (l.filterMap fun a => if p a then some (f a) else none) = (l.filter fun a => p a).map f := by
  induction l with
  | nil => rfl
  | cons a t ih =>
    rw [List.filterMap_cons, ih]
    by_cases h : p a <;> simp [h]

theorem flatMap_zipIdx [DecidableEq α] {F : α × ℕ → List β} {q : α}
    (h : ∀ a i, a ≠ q → F (a, i) = []) {l : List α} (hl : l.Nodup) :
    l.zipIdx.flatMap F = ((l.idxOf? q).map fun i => F (q, i)).getD [] := by
  suffices hgen : ∀ n, (l.zipIdx n).flatMap F = ((l.idxOf? q).map fun i => F (q, i + n)).getD [] by
    simpa using hgen 0
  induction l with
  | nil => intro n; rfl
  | cons a t ih =>
    intro n
    obtain ⟨ha, ht⟩ := List.nodup_cons.mp hl
    rw [List.zipIdx_cons, List.flatMap_cons, ih ht, List.idxOf?_cons]
    by_cases haq : a = q
    · subst haq
      simp [List.idxOf?_eq_none_iff.mpr ha]
    · rw [h a n haq, List.nil_append, if_neg (by simpa using haq), Option.map_map]
      have hsucc : ∀ i, F (q, i + (n + 1)) = F (q, i + 1 + n) := fun i => by
        rw [Nat.add_assoc, Nat.add_comm n]
      simp only [hsucc, Function.comp_def]

end GoRange
