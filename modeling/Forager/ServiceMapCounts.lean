import Forager.ServiceMapLog
import Mathlib.Data.List.Dedup

/-!
# The counts of the service map

From the map the loops over samples leave to the edges of the answer: the byte counters go
to the best edge of each pair, counts are rounded, and edges without a count are dropped.

Results:
* The emitted edges are, up to their order, a function of the samples and of which edges
  carry the bytes (`emitted_perm`).
* Counts are conserved (`edges_conserve_counts`): each edge counts the samples with its key,
  no key has two edges, and an edge is emitted iff one of its counts is positive.
-/

namespace Forager

open Go GoRange ServiceMap

namespace ServiceMapLemmas

variable {best : AList fun _ : Pair => EdgeKey} {edges : EdgeTable} {ks : List EdgeKey}

variable {ctx : Context} {res : ℕ → List Sample}

/-! ## Bytes and emission -/

/-- What `best` holds once the edges `ks` are visited: for each of their pairs one of them,
and none of that pair has more requests. -/
structure BestOf (edges : EdgeTable) (ks : List EdgeKey) (best : AList fun _ : Pair => EdgeKey) :
    Prop where
  mem {p k} : best.lookup p = some k → k ∈ ks ∧ k.pair = p
  most {p k} : best.lookup p = some k →
    ∀ k' ∈ ks, k'.pair = p → requestsAt edges k' ≤ requestsAt edges k
  held {k} : k ∈ ks → ∃ k', best.lookup k.pair = some k'

theorem BestOf.insert (h : BestOf edges ks best) {k : EdgeKey}
    (hmost : ∀ cur, best.lookup k.pair = some cur → requestsAt edges cur ≤ requestsAt edges k) :
    BestOf edges (ks ++ [k]) (best.insert k.pair k) where
  mem {p k'} hk' := by
    by_cases hp : p = k.pair
    · rw [hp, AList.lookup_insert] at hk'
      obtain rfl := Option.some.inj hk'
      exact ⟨by simp, hp.symm⟩
    · rw [AList.lookup_insert_ne hp] at hk'
      exact ⟨List.mem_append_left _ (h.mem hk').1, (h.mem hk').2⟩
  most {p k'} hk' q hq hqp := by
    by_cases hp : p = k.pair
    · rw [hp, AList.lookup_insert] at hk'
      obtain rfl := Option.some.inj hk'
      rcases List.mem_append.mp hq with hq | hq
      · obtain ⟨cur, hcur⟩ := h.held hq
        rw [hqp, hp] at hcur
        exact (h.most hcur q hq (hqp.trans hp)).trans (hmost cur hcur)
      · rw [List.mem_singleton.mp hq]
    · rw [AList.lookup_insert_ne hp] at hk'
      rcases List.mem_append.mp hq with hq | hq
      · exact h.most hk' q hq hqp
      · exact absurd (List.mem_singleton.mp hq ▸ hqp).symm hp
  held {q} hq := by
    by_cases hp : q.pair = k.pair
    · exact ⟨k, by rw [hp, AList.lookup_insert]⟩
    · rcases List.mem_append.mp hq with hq | hq
      · exact (h.held hq).imp fun k' hk' => by rw [AList.lookup_insert_ne hp, hk']
      · exact absurd (congrArg EdgeKey.pair (List.mem_singleton.mp hq)) hp

theorem BestOf.keep (h : BestOf edges ks best) {k cur : EdgeKey}
    (hcur : best.lookup k.pair = some cur) (hle : requestsAt edges k ≤ requestsAt edges cur) :
    BestOf edges (ks ++ [k]) best where
  mem hk' := ⟨List.mem_append_left _ (h.mem hk').1, (h.mem hk').2⟩
  most {p k'} hk' q hq hqp := by
    rcases List.mem_append.mp hq with hq | hq
    · exact h.most hk' q hq hqp
    · obtain rfl := List.mem_singleton.mp hq
      rw [← hqp, hcur] at hk'
      exact Option.some.inj hk' ▸ hle
  held {q} hq := by
    rcases List.mem_append.mp hq with hq | hq
    · exact h.held hq
    · exact ⟨cur, List.mem_singleton.mp hq ▸ hcur⟩

theorem BestOf.step (h : BestOf edges ks best) (k : EdgeKey) :
    BestOf edges (ks ++ [k]) (bestStep edges best k) := by
  unfold bestStep
  split
  next hnone => exact h.insert fun cur hcur => by rw [hnone] at hcur; cases hcur
  next cur hcur =>
    split
    next hlt =>
      refine h.insert fun cur' hcur' => ?_
      rw [hcur] at hcur'
      exact Option.some.inj hcur' ▸ hlt.le
    next hlt => exact h.keep hcur (not_lt.mp hlt)

theorem bestOf_foldl (edges : EdgeTable) (ks : List EdgeKey) :
    BestOf edges ks (ks.foldl (bestStep edges) ∅) := by
  induction ks using List.reverseRecOn with
  | nil => exact ⟨fun h => by simp at h, fun h => by simp at h, fun h => by simp at h⟩
  | append_singleton ks k ih =>
    rw [List.foldl_append]
    exact ih.step k

theorem lookup_bytesStep (sent recv : AList fun _ : Pair => ℚ)
    (hbest : ∀ p k, best.lookup p = some k → k.pair = p) (edges : EdgeTable) (p : Pair)
    (k : EdgeKey) :
    (bytesStep sent recv best edges p).lookup k
      = (edges.lookup k).map fun e =>
          if k.pair = p ∧ best.lookup k.pair = some k then setBytes sent recv k.pair e else e := by
  have hsame (h : ¬ (k.pair = p ∧ best.lookup k.pair = some k)) : edges.lookup k
      = (edges.lookup k).map fun e =>
          if k.pair = p ∧ best.lookup k.pair = some k then setBytes sent recv k.pair e else e := by
    simp only [if_neg h, Option.map_id']
  unfold bytesStep
  split
  next hnone => exact hsame fun ⟨hp, hk⟩ => by rw [hp, hnone] at hk; cases hk
  next k' hk' =>
    rw [lookup_adjust]
    split
    next hkk =>
      subst hkk
      obtain rfl := hbest p k hk'
      simp only [hk', and_self, if_true]
    next hkk =>
      refine hsame fun ⟨hp, hk⟩ => hkk ?_
      rw [hp, hk'] at hk
      exact (Option.some.inj hk).symm

theorem lookup_assignBytes (o : Orders) (sent recv : AList fun _ : Pair => ℚ)
    (hbest : ∀ p k, best.lookup p = some k → k.pair = p) (edges : EdgeTable) (k : EdgeKey) :
    (assignBytes o sent recv best edges).lookup k
      = (edges.lookup k).map fun e =>
          if best.lookup k.pair = some k then setBytes sent recv k.pair e else e := by
  have hloop : ∀ (ps : List Pair) (edges : EdgeTable),
      (ps.foldl (bytesStep sent recv best) edges).lookup k
      = (edges.lookup k).map fun e =>
          if k.pair ∈ ps ∧ best.lookup k.pair = some k then setBytes sent recv k.pair e else e := by
    intro ps
    induction ps with
    | nil => simp
    | cons p ps ih =>
      intro edges
      rw [List.foldl_cons, ih, lookup_bytesStep sent recv hbest, Option.map_map]
      congr 1
      funext e
      -- setting the counters twice is setting them once
      by_cases hk : best.lookup k.pair = some k <;> by_cases hp : k.pair = p <;>
        by_cases hps : k.pair ∈ ps <;> simp [hk, hp, hps, setBytes]
  have hmem (h : best.lookup k.pair = some k) : k.pair ∈ o.bestPairs.visit best.keys := by
    rw [Visit.mem_visit]
    exact AList.lookup_isSome.mp (by rw [h]; rfl)
  rw [assignBytes, hloop]
  congr 1
  funext e
  by_cases h : best.lookup k.pair = some k
  · rw [if_pos h, if_pos ⟨hmem h, h⟩]
  · rw [if_neg h, if_neg fun h' => h h'.2]

end ServiceMapLemmas

open ServiceMapLemmas

namespace ServiceMap

/-- One of the two counts of the edge is positive. -/
def Shown (ctx : Context) (res : ℕ → List Sample) (k : EdgeKey) : Prop :=
  0 < wholeCount (requestSum ctx res k) ∨ 0 < wholeCount (failureSum ctx res k)

instance (ctx : Context) (res : ℕ → List Sample) (k : EdgeKey) : Decidable (Shown ctx res k) :=
  inferInstanceAs (Decidable (_ ∨ _))

/-- The keys of the samples that are counted. -/
def touchedKeys (ctx : Context) (res : ℕ → List Sample) : List EdgeKey :=
  ((changes ctx res).map Prod.fst).dedup

/-- The edge the samples with the key `k` give, with or without the bytes of its pair. -/
def edgeOf (ctx : Context) (res : ℕ → List Sample) (k : EdgeKey) (bytes : Bool) : Edge :=
  finishEdge (if bytes then
    setBytes (sumByContainerPair (res 6)) (sumByContainerPair (res 7)) k.pair (tallied ctx res k)
  else tallied ctx res k)

/-- The run puts the bytes of the pair on the edge `k`. -/
def carries (o : Orders) (res : ℕ → List Sample) (k : EdgeKey) : Bool :=
  (bestEdges o (tally (contextOf o res) res).edges).lookup k.pair = some k

end ServiceMap

namespace ServiceMapLemmas

variable {k : EdgeKey}

@[simp] theorem edgeOf_requests (k : EdgeKey) (b : Bool) :
    (edgeOf ctx res k b).requests = wholeCount (requestSum ctx res k) := by
  cases b <;> rfl

@[simp] theorem edgeOf_errors (k : EdgeKey) (b : Bool) :
    (edgeOf ctx res k b).errors = wholeCount (failureSum ctx res k) := by
  cases b <;> rfl

theorem lookup_assigned (o : Orders) (res : ℕ → List Sample) (k : EdgeKey) :
    (assigned o res).lookup k = ((tally (contextOf o res) res).edges.lookup k).map fun e =>
      if carries o res k then
        setBytes (sumByContainerPair (res 6)) (sumByContainerPair (res 7)) k.pair e
      else e := by
  have hpair : ∀ p k, (bestEdges o (tally (contextOf o res) res).edges).lookup p = some k →
      k.pair = p := fun p k hk => ((bestOf_foldl _ _).mem hk).2
  rw [assigned, lookup_assignBytes o _ _ hpair]
  simp only [carries, decide_eq_true_eq]

theorem keys_assigned (o : Orders) (res : ℕ → List Sample) :
    (assigned o res).keys.Perm (touchedKeys (contextOf o res) res) := by
  refine (List.perm_ext_iff_of_nodup (AList.keys_nodup _) (List.nodup_dedup _)).mpr fun k => ?_
  rw [List.mem_dedup, ← mem_tally]
  show k ∈ assigned o res ↔ _
  rw [← AList.lookup_isSome, lookup_assigned, Option.isSome_map, AList.lookup_isSome]

theorem emitted_perm (o : Orders) (res : ℕ → List Sample) :
    (emitted o res).Perm (((touchedKeys (contextOf o res) res).filter fun k =>
      Shown (contextOf o res) res k).map fun k =>
        (k, edgeOf (contextOf o res) res k (carries o res k))) := by
  have hperm := (o.edgeKeys.perm _).trans (keys_assigned o res)
  refine (hperm.filterMap _).trans ?_
  rw [← filterMap_ite]
  refine .of_eq (List.filterMap_congr fun k hk => ?_)
  rw [lookup_assigned, lookup_tally (List.mem_dedup.mp hk)]
  show (if 0 < (edgeOf (contextOf o res) res k (carries o res k)).requests ∨
    0 < (edgeOf (contextOf o res) res k (carries o res k)).errors then _ else _) = _
  simp only [edgeOf_requests, edgeOf_errors]
  rfl

theorem touched_of_shown (h : Shown ctx res k) : k ∈ touchedKeys ctx res := by
  by_contra hk
  have hnil : changesAt ctx res k = [] := by
    rw [changesAt, logAt, List.map_eq_nil_iff, List.filter_eq_nil_iff]
    intro x hx hxk
    exact hk (List.mem_dedup.mpr (List.mem_map.mpr ⟨x, hx, by simpa using hxk⟩))
  rw [Shown, ← sum_requestValues, ← sum_errorValues, hnil] at h
  simp [wholeCount] at h

theorem mem_emitted (o : Orders) (res : ℕ → List Sample) {e : Edge} :
    (k, e) ∈ emitted o res ↔
      Shown (contextOf o res) res k ∧ e = edgeOf (contextOf o res) res k (carries o res k) := by
  rw [(emitted_perm o res).mem_iff, List.mem_map]
  constructor
  · rintro ⟨k', hk', heq⟩
    obtain ⟨rfl, rfl⟩ := Prod.mk.inj heq
    exact ⟨of_decide_eq_true (List.mem_filter.mp hk').2, rfl⟩
  · rintro ⟨hk, rfl⟩
    exact ⟨k, List.mem_filter.mpr ⟨touched_of_shown hk, decide_eq_true hk⟩, rfl⟩

theorem exists_ofEdge (h : Shown ctx res k) : ∃ s, OfEdge ctx res k s := by
  by_contra hno
  have hnil (c : Sample → Prop) [DecidablePred c] (l : List Sample) :
      (l.filter fun s => OfEdge ctx res k s ∧ c s) = [] :=
    List.filter_eq_nil_iff.mpr fun s _ hs => hno ⟨s, (of_decide_eq_true hs).1⟩
  rw [Shown, requestSum, failureSum, hnil, hnil] at h
  simp [wholeCount] at h

theorem ofEdge_key {s : Sample} (h : OfEdge ctx res k s) :
    isServiceContainer k.container ∧ (ctx.resolve k.inst k.destination).skip k.source = false ∧
      (k.protocol = "tcp" → ¬ Covered ctx res k.pair) := by
  obtain ⟨hkey, hs, htcp⟩ := h
  obtain ⟨hservice, hskip⟩ := Bool.and_eq_true_iff.mp hs
  have hself : (ctx.resolve (s.label "instance") (s.label "destination")).skip s.containerKey
      = false := by simpa using hskip
  have hpair : s.pair = k.pair := congrArg EdgeKey.pair hkey
  refine ⟨?_, ?_, hpair ▸ htcp⟩
  · rw [← hkey]
    exact hservice
  · rw [← hkey]
    exact hself

end ServiceMapLemmas

/-! ## Counts are conserved -/

/-- The counts of the service map, for every set of query results and every order. Let `out`
be the edges before they are sorted and cut.
* No two of them have the same instance, container, destination, kind, name and protocol.
* The requests and errors of an edge are the whole counts of the sums of its samples
  (`requestSum`, `failureSum`).
* The edges are those with a positive count.
* None of them is of a container that is not a service or of a service calling itself, and
  none is of plain TCP where an application protocol had a request.
* The edges of the answer are the first of an arrangement of `out`. -/
theorem edges_conserve_counts (o : Orders) (res : ℕ → List Sample) :
    let ctx := contextOf o res
    let out := emitted o res
    (out.map Prod.fst).Nodup ∧
    (∀ k e, (k, e) ∈ out →
      e.sourceContainer = k.container ∧ e.destination = k.destination ∧ e.protocol = k.protocol ∧
      e.requests = wholeCount (requestSum ctx res k) ∧
      e.errors = wholeCount (failureSum ctx res k)) ∧
    (∀ k, k ∈ out.map Prod.fst ↔
      0 < wholeCount (requestSum ctx res k) ∨ 0 < wholeCount (failureSum ctx res k)) ∧
    (∀ k ∈ out.map Prod.fst,
      isServiceContainer k.container ∧ (ctx.resolve k.inst k.destination).skip k.source = false ∧
      (k.protocol = "tcp" → ¬ Covered ctx res k.pair)) ∧
    ∃ l : List Edge, l.Perm (out.map Prod.snd) ∧
      (buildServiceMap o res).edges = l.take maxServiceMapEdges := by
  intro ctx out
  have hkeys : ∀ k, k ∈ out.map Prod.fst ↔ Shown ctx res k := by
    intro k
    rw [List.mem_map]
    constructor
    · rintro ⟨⟨k, e⟩, hk, rfl⟩
      exact ((mem_emitted o res).mp hk).1
    · intro hk
      exact ⟨_, (mem_emitted o res).mpr ⟨hk, rfl⟩, rfl⟩
  refine ⟨?_, ?_, hkeys, ?_, ?_⟩
  · have hperm := (emitted_perm o res).map Prod.fst
    rw [List.map_map] at hperm
    refine hperm.nodup_iff.mpr ?_
    show (List.map id _).Nodup
    rw [List.map_id]
    exact (List.nodup_dedup _).filter _
  · intro k e hk
    obtain ⟨-, rfl⟩ := (mem_emitted o res).mp hk
    refine ⟨?_, ?_, ?_, edgeOf_requests k _, edgeOf_errors k _⟩ <;> cases carries o res k <;> rfl
  · intro k hk
    obtain ⟨s, hs⟩ := exists_ofEdge ((hkeys k).mp hk)
    exact ofEdge_key hs
  · exact ⟨o.edges.sort (out.map Prod.snd), o.edges.perm _, rfl⟩

end Forager
