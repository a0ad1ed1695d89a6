import Mathlib.Algebra.Order.BigOperators.Group.List
import Forager.ServiceMapOrder

/-!
# Which edge of the service map reports the bytes

The byte counters of a container to a destination are not split by protocol, so
`buildServiceMap` puts them on one edge of the pair: the one with the most requests. It picks
the edge among all it has touched, and only then leaves out the edges without a request and
without a failure.
-/

namespace Forager

open Go GoRange ServiceMap ServiceMapLemmas

/-! ## Statements -/

namespace ServiceMap

/-- The rounded bytes a container sent to a destination, as the query results have them. -/
def sentTotal (res : ℕ → List Sample) (p : Pair) : ℚ :=
  mathRound (entry (fun _ => 0) (sumByContainerPair (res 6)) p)

/-- The rounded bytes a container received from a destination. -/
def receivedTotal (res : ℕ → List Sample) (p : Pair) : ℚ :=
  mathRound (entry (fun _ => 0) (sumByContainerPair (res 7)) p)

/-- One edge of the pair has its bytes, and every other one has none. -/
def ReportedOnce (o : Orders) (res : ℕ → List Sample) (p : Pair) : Prop :=
  ∃ ke ∈ emitted o res, ke.1.pair = p ∧ ke.2.bytesSent = sentTotal res p ∧
    ke.2.bytesReceived = receivedTotal res p ∧
    ∀ ke' ∈ emitted o res, ke'.1.pair = p → ke'.1 ≠ ke.1 →
      ke'.2.bytesSent = 0 ∧ ke'.2.bytesReceived = 0

/-- The edge of the pair with the most requests is in the answer, if there are bytes for it:
the pair has a request, or each of its edges has a failure. -/
def CarrierShown (res : ℕ → List Sample) (p : Pair) : Prop :=
  (sentTotal res p = 0 ∧ receivedTotal res p = 0) ∨
  (∃ k ∈ touchedKeys (contextFor res) res, k.pair = p ∧ 0 < requestSum (contextFor res) res k) ∨
  ∀ k ∈ touchedKeys (contextFor res) res, k.pair = p → 0 < failureSum (contextFor res) res k

end ServiceMap

/-! ## The edge that carries the bytes -/

namespace ServiceMapLemmas

variable {res : ℕ → List Sample}

theorem requestSum_nonneg (ctx : Context) (res : ℕ → List Sample) (k : EdgeKey) :
    0 ≤ requestSum ctx res k := by
  refine List.sum_nonneg fun v hv => ?_
  obtain ⟨s, hs, rfl⟩ := List.mem_map.mp hv
  exact (of_decide_eq_true (List.mem_filter.mp hs).2).2.le

theorem wholeCount_pos_iff {v : ℚ} : 0 < wholeCount v ↔ 0 < v := by
  unfold wholeCount
  split
  next h => exact iff_of_false (lt_irrefl 0) h.not_gt
  next h =>
    refine iff_of_true ?_ (not_le.mp h)
    split
    next hround => exact one_pos.trans_le hround
    next => exact one_pos

theorem shown_iff {ctx : Context} {k : EdgeKey} :
    Shown ctx res k ↔ 0 < requestSum ctx res k ∨ 0 < failureSum ctx res k := by
  rw [Shown, wholeCount_pos_iff, wholeCount_pos_iff]

theorem exists_carries (o : Orders) {k : EdgeKey} (hk : k ∈ touchedKeys (contextFor res) res) :
    ∃ c ∈ touchedKeys (contextFor res) res, c.pair = k.pair ∧ carries o res c = true := by
  have hbest := bestOf_foldl (edgesFor res) (o.bestKeys.visit (edgesFor res).keys)
  obtain ⟨c, hc⟩ := hbest.held ((Visit.mem_visit _).mpr (mem_edgesFor.mpr hk))
  have hpair := (hbest.mem hc).2
  refine ⟨c, mem_edgesFor.mp ((Visit.mem_visit _).mp (hbest.mem hc).1), hpair, ?_⟩
  rw [carries_iff, hpair]
  exact hc

theorem eq_of_carries {o : Orders} {k k' : EdgeKey} (hk : carries o res k = true)
    (hk' : carries o res k' = true) (hp : k.pair = k'.pair) : k = k' := by
  have h := (carries_iff o k).mp hk
  rw [hp, (carries_iff o k').mp hk'] at h
  exact (Option.some.inj h).symm

theorem mem_emitted_iff (o : Orders) {k : EdgeKey} {e : Edge} :
    (k, e) ∈ emitted o res ↔
      Shown (contextFor res) res k ∧ e = edgeOf (contextFor res) res k (carries o res k) := by
  rw [← contextOf_eq o res]
  exact mem_emitted o res

theorem emitted_of_shown (o : Orders) {k : EdgeKey} (hk : Shown (contextFor res) res k) :
    (k, edgeOf (contextFor res) res k (carries o res k)) ∈ emitted o res :=
  (mem_emitted_iff o).mpr ⟨hk, rfl⟩

theorem edgeOf_bytes (res : ℕ → List Sample) (k : EdgeKey) (b : Bool) :
    (edgeOf (contextFor res) res k b).bytesSent = (if b then sentTotal res k.pair else 0) ∧
    (edgeOf (contextFor res) res k b).bytesReceived
      = (if b then receivedTotal res k.pair else 0) := by
  rw [edgeOf_eq]
  exact ⟨rfl, rfl⟩

theorem reportedOnce_iff (o : Orders) {k c : EdgeKey} (hk : Shown (contextFor res) res k)
    (hpair : c.pair = k.pair) (hc : carries o res c = true) :
    ReportedOnce o res k.pair ↔
      (sentTotal res k.pair = 0 ∧ receivedTotal res k.pair = 0) ∨
        Shown (contextFor res) res c := by
  constructor
  · rintro ⟨⟨q, e⟩, hmem, hq, hsent, hreceived, -⟩
    obtain ⟨hshown, he⟩ := (mem_emitted_iff o).mp hmem
    dsimp only at hq hsent hreceived
    obtain ⟨hs, hr⟩ := edgeOf_bytes res q (carries o res q)
    cases hcq : carries o res q with
    | true => exact .inr (eq_of_carries hcq hc (hq.trans hpair.symm) ▸ hshown)
    | false =>
      rw [he, hs, hcq] at hsent
      rw [he, hr, hcq] at hreceived
      exact .inl ⟨hsent.symm, hreceived.symm⟩
  · rintro (⟨hsent, hreceived⟩ | hshown)
    · have hzero (q : EdgeKey) (hq : q.pair = k.pair) :
          (edgeOf (contextFor res) res q (carries o res q)).bytesSent = 0 ∧
          (edgeOf (contextFor res) res q (carries o res q)).bytesReceived = 0 := by
        obtain ⟨hs, hr⟩ := edgeOf_bytes res q (carries o res q)
        rw [hs, hr, hq, hsent, hreceived, ite_self]
        exact ⟨rfl, rfl⟩
      refine ⟨_, emitted_of_shown o hk, rfl, ?_, ?_, ?_⟩
      · exact (hzero k rfl).1.trans hsent.symm
      · exact (hzero k rfl).2.trans hreceived.symm
      · rintro ⟨q, e⟩ hmem hq -
        obtain ⟨-, rfl⟩ := (mem_emitted_iff o).mp hmem
        exact hzero q hq
    · obtain ⟨hs, hr⟩ := edgeOf_bytes res c (carries o res c)
      rw [hc, hpair] at hs hr
      refine ⟨_, emitted_of_shown o hshown, hpair, ?_, ?_, ?_⟩
      · rw [hc]; exact hs
      · rw [hc]; exact hr
      · rintro ⟨q, e⟩ hmem hq hne
        obtain ⟨-, rfl⟩ := (mem_emitted_iff o).mp hmem
        have hcq : carries o res q = false := Bool.eq_false_iff.mpr fun h =>
          hne (eq_of_carries h hc (hq.trans hpair.symm))
        obtain ⟨hs', hr'⟩ := edgeOf_bytes res q (carries o res q)
        rw [hs', hr', hcq]
        exact ⟨rfl, rfl⟩

theorem carrier_shown_iff (p : Pair) :
    (∀ o, ∀ c ∈ touchedKeys (contextFor res) res, c.pair = p → carries o res c = true →
        Shown (contextFor res) res c) ↔
      (∃ k ∈ touchedKeys (contextFor res) res, k.pair = p ∧
        0 < requestSum (contextFor res) res k) ∨
      ∀ k ∈ touchedKeys (contextFor res) res, k.pair = p →
        0 < failureSum (contextFor res) res k := by
  constructor
  · intro h
    refine or_iff_not_imp_left.mpr fun hnone k hk hp => ?_
    -- without a request the edges of the pair tie, and a run may visit `k` first
    have hrequests (q : EdgeKey) (hq : q ∈ touchedKeys (contextFor res) res)
        (hqp : q.pair = p) : requestSum (contextFor res) res q ≤ 0 :=
      not_lt.mp fun hpos => hnone ⟨q, hq, hqp, hpos⟩
    have hmost : MayCarry (contextFor res) res k true := fun q hq hqp =>
      (hrequests q hq (hqp.trans hp)).trans (requestSum_nonneg _ _ _)
    exact (shown_iff.mp (h _ k hk hp (carries_first hk hmost))).resolve_left
      (hrequests k hk hp).not_gt
  · rintro (⟨k, hk, hp, hpos⟩ | hall) o c hc hcp hcarries
    · have hle := most_of_carries hc hcarries k hk (hp.trans hcp.symm)
      exact shown_iff.mpr (.inl (hpos.trans_le hle))
    · exact shown_iff.mpr (.inr (hall c hc hcp))

end ServiceMapLemmas

/-! ## When the bytes are reported once -/

/-- In every order each pair with an edge in the answer has its bytes on just one of them, iff
each such pair moved no whole byte, has a request, or has only edges with a failure. -/
theorem bytes_reported_once_iff (res : ℕ → List Sample) :
    (∀ o p, (∃ ke ∈ emitted o res, ke.1.pair = p) → ReportedOnce o res p) ↔
      ∀ k, Shown (contextFor res) res k → CarrierShown res k.pair := by
  constructor
  · intro h k hk
    refine or_iff_not_imp_left.mpr fun hbytes => (carrier_shown_iff k.pair).mp ?_
    intro o c hc hpair hcarries
    have honce := h o k.pair ⟨_, emitted_of_shown o hk, rfl⟩
    exact ((reportedOnce_iff o hk hpair hcarries).mp honce).resolve_left hbytes
  · rintro h o p ⟨⟨k, e⟩, hmem, rfl⟩
    have hk := ((mem_emitted_iff o).mp hmem).1
    obtain ⟨c, hc, hpair, hcarries⟩ := exists_carries o (touched_of_shown hk)
    refine (reportedOnce_iff o hk hpair hcarries).mpr ((h k hk).imp_right fun hshown => ?_)
    exact (carrier_shown_iff k.pair).mpr hshown o c hc hpair hcarries

namespace ServiceMap

/-- One host whose workload moved 1000 bytes to an address. It has three failed connects to
it and no successful one, and the counter of its failed HTTP requests has not moved. -/
def failing : ℕ → List Sample
  | 1 => [series [("instance", "m1"), ("hostname", "vm-1")] 1]
  | 4 => [series [("instance", "m1"), ("container_id", "/k8s/shop/app")] 1]
  | 6 => [calls 1000]
  | 9 => [calls 3]
  | 12 => [calls 0]
  | _ => []

end ServiceMap

/-- A run visits the edge of the HTTP requests first. The answer has only the other edge of
the pair, with the three failures and no byte. -/
theorem bytes_lost_with_edge :
    (emitted .reversed failing).map (fun ke => (ke.1.protocol, ke.2.errors, ke.2.bytesSent))
      = [("tcp", 3, 0)] ∧
    ∀ ke ∈ emitted .reversed failing, sentTotal failing ke.1.pair = 1000 ∧
      ¬ ReportedOnce .reversed failing ke.1.pair := by
  unfold ReportedOnce
  decide +kernel

end Forager
