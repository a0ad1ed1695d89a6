import Forager.ServiceMap
import Mathlib.Algebra.BigOperators.Group.List.Basic

/-!
# What the loops of the service map count

The edges of `buildServiceMap` are built by some forty loops over different vectors that
share one map, with a set of covered pairs filled by some and read by others. Here that map
is related to the samples directly: all loops together write one log of changes (`changes`),
and the changes with a given key are those of the vectors of its protocol.
-/

namespace Forager

open Go GoRange ServiceMap

namespace ServiceMap

/-! ## What an edge should count -/

/-- An (instance, container, destination) that had a positive application request sample on
an edge that is not skipped. -/
def Covered (ctx : Context) (res : ℕ → List Sample) (p : Pair) : Prop :=
  ∃ i < l7Protocols.length, ∃ s ∈ res (fixed + i * 4),
    0 < s.value ∧ ctx.contributes s ∧ s.pair = p

instance (ctx : Context) (res : ℕ → List Sample) (p : Pair) : Decidable (Covered ctx res p) :=
  inferInstanceAs (Decidable (∃ i < _, ∃ s ∈ _, _))

/-- The vector of the requests of a protocol; for `tcp`, of the successful connects. -/
def requestVector (res : ℕ → List Sample) (protocol : String) : List Sample :=
  match l7Protocols.idxOf? protocol with
  | some i => res (fixed + i * 4)
  | none => if protocol = "tcp" then res 8 else []

/-- The vectors of the failures of a protocol; for `tcp`, of the failed connects. -/
def failureVector (res : ℕ → List Sample) (protocol : String) : List Sample :=
  match l7Protocols.idxOf? protocol with
  | some i => res (fixed + i * 4 + 1) ++ if protocol = "http" then res grpcErrIdx else []
  | none => if protocol = "tcp" then res 9 else []

/-- The sample is one of the edge `k`: it has its labels, it comes from a service container
that does not call itself, and for `tcp` no application protocol covers it. -/
def OfEdge (ctx : Context) (res : ℕ → List Sample) (k : EdgeKey) (s : Sample) : Prop :=
  s.edgeKey k.protocol = k ∧ ctx.contributes s ∧ (k.protocol = "tcp" → ¬ Covered ctx res s.pair)

instance (ctx : Context) (res : ℕ → List Sample) (k : EdgeKey) (s : Sample) :
    Decidable (OfEdge ctx res k s) :=
  inferInstanceAs (Decidable (_ ∧ _ ∧ (_ → _)))

def requestSum (ctx : Context) (res : ℕ → List Sample) (k : EdgeKey) : ℚ :=
  (((requestVector res k.protocol).filter fun s => OfEdge ctx res k s ∧ 0 < s.value).map
    Sample.value).sum

/-- The sum of the failure samples of an edge; for `tcp`, of the positive ones. -/
def failureSum (ctx : Context) (res : ℕ → List Sample) (k : EdgeKey) : ℚ :=
  (((failureVector res k.protocol).filter fun s =>
    OfEdge ctx res k s ∧ (k.protocol = "tcp" → 0 < s.value)).map Sample.value).sum

/-- The vectors of the counts and of the sums of the durations of a protocol; for `tcp`, of
the successful connects and of the time they took. -/
def durationVectors (res : ℕ → List Sample) (protocol : String) : List Sample × List Sample :=
  match l7Protocols.idxOf? protocol with
  | some i => (res (fixed + i * 4 + 3), res (fixed + i * 4 + 2))
  | none => if protocol = "tcp" then (res 8, res 10) else ([], [])

/-- The mean duration of a sample of counts, in milliseconds. -/
def meanLatency (sums : GoMap ℚ) (s : Sample) : ℚ :=
  entry (fun _ => 0) sums (edgeIdentity s) / s.value * 1000

/-- The latency of an edge: the mean of its last positive sample of counts. -/
def latencyOf (ctx : Context) (res : ℕ → List Sample) (k : EdgeKey) : ℚ :=
  ((((durationVectors res k.protocol).1.filter fun s => OfEdge ctx res k s ∧ 0 < s.value).map
    (meanLatency (indexByEdge (durationVectors res k.protocol).2)))).getLastD 0

/-! ## The log of changes -/

/-- What a loop does to the edge of a sample. -/
inductive Change
  | requests (v : ℚ)
  | errors (v : ℚ)
  | latency (v : ℚ)
deriving DecidableEq, Repr

def Change.apply : Change → Edge → Edge
  | .requests v, e => { e with requests := e.requests + v }
  | .errors v, e => { e with errors := e.errors + v }
  | .latency v, e => { e with latencyMs := v }

/-- What one sample logs: if it passes `c` and contributes, the changes `f` of its edge. -/
def sampleChanges (ctx : Context) (protocol : String) (c : Sample → Bool)
    (f : Sample → List Change) (s : Sample) : List (EdgeKey × Change) :=
  if c s ∧ ctx.contributes s then (f s).map fun x => (s.edgeKey protocol, x) else []

def loopChanges (ctx : Context) (protocol : String) (c : Sample → Bool) (f : Sample → List Change)
    (samples : List Sample) : List (EdgeKey × Change) :=
  samples.flatMap (sampleChanges ctx protocol c f)

def Sample.positive (s : Sample) : Bool := 0 < s.value

/-- A sample the plain TCP loops count. -/
def uncovered (ctx : Context) (res : ℕ → List Sample) (s : Sample) : Bool :=
  s.positive ∧ ¬ Covered ctx res s.pair

def l7Changes (ctx : Context) (res : ℕ → List Sample) (pr : String × ℕ) :
    List (EdgeKey × Change) :=
  let base := fixed + pr.2 * 4
  loopChanges ctx pr.1 Sample.positive (fun s => [.requests s.value]) (res base) ++
  (loopChanges ctx pr.1 (fun _ => true) (fun s => [.errors s.value]) (res (base + 1)) ++
  loopChanges ctx pr.1 Sample.positive
    (fun s => [.latency (meanLatency (indexByEdge (res (base + 2))) s)]) (res (base + 3)))

def tcpChanges (ctx : Context) (res : ℕ → List Sample) : List (EdgeKey × Change) :=
  loopChanges ctx "tcp" (uncovered ctx res)
    (fun s => [.requests s.value, .latency (meanLatency (indexByEdge (res 10)) s)]) (res 8) ++
  loopChanges ctx "tcp" (uncovered ctx res) (fun s => [.errors s.value]) (res 9)

def changes (ctx : Context) (res : ℕ → List Sample) : List (EdgeKey × Change) :=
  l7Protocols.zipIdx.flatMap (l7Changes ctx res) ++
  (loopChanges ctx "http" (fun _ => true) (fun s => [.errors s.value]) (res grpcErrIdx) ++
  tcpChanges ctx res)

def record (ctx : Context) (edges : EdgeTable) (x : EdgeKey × Change) : EdgeTable :=
  upd ctx.newEdge x.1 x.2.apply edges

end ServiceMap

namespace ServiceMapLemmas

variable {step : Tally → Sample → Tally} {k : EdgeKey} {p : String}

variable {ctx : Context} {res : ℕ → List Sample}

/-! ## The loops write the log -/

theorem foldl_sampleChanges {c : Sample → Bool} {f : Sample → List Change} {s : Sample} {x : Change}
    {xs : List Change} (hf : f s = x :: xs) (edges : EdgeTable) :
    (sampleChanges ctx p c f s).foldl (record ctx) edges
      = if c s then touch ctx s p (fun e => (x :: xs).foldl (fun e x => x.apply e) e) edges
        else edges := by
  unfold sampleChanges touch
  rw [hf]
  by_cases hc : c s <;> by_cases hs : ctx.contributes s <;>
    simp only [hc, hs, and_self, and_true, and_false, if_true, if_false, Bool.false_eq_true,
      List.foldl_nil]
  rw [List.foldl_map]
  exact foldl_upd Change.apply x xs

theorem request_edges (p : String) (t : Tally) (s : Sample) :
    (t.request ctx p s).edges
      = (sampleChanges ctx p Sample.positive (fun s => [.requests s.value]) s).foldl (record ctx)
          t.edges := by
  rw [foldl_sampleChanges rfl, Tally.request]
  by_cases hv : s.value ≤ 0
  · simp [Sample.positive, hv, not_lt.mpr hv]
  · simp [Sample.positive, hv, not_le.mp hv, Change.apply]

theorem failure_edges (p : String) (t : Tally) (s : Sample) :
    (t.failure ctx p s).edges
      = (sampleChanges ctx p (fun _ => true) (fun s => [.errors s.value]) s).foldl (record ctx)
          t.edges := by
  rw [foldl_sampleChanges rfl]
  rfl

theorem duration_edges (p : String) (sums : GoMap ℚ) (t : Tally) (s : Sample) :
    (t.duration ctx p sums s).edges
      = (sampleChanges ctx p Sample.positive (fun s => [.latency (meanLatency sums s)]) s).foldl
          (record ctx) t.edges := by
  rw [foldl_sampleChanges rfl, Tally.duration]
  by_cases hv : s.value ≤ 0
  · simp [Sample.positive, hv, not_lt.mpr hv]
  · simp [Sample.positive, hv, not_le.mp hv, Change.apply, meanLatency]

/-- The covered pairs are those the loops over requests have to leave. -/
def KnowsCovered (ctx : Context) (res : ℕ → List Sample) (t : Tally) : Prop :=
  ∀ p, p ∈ t.covered ↔ Covered ctx res p

theorem skipped_iff {t : Tally} (ht : KnowsCovered ctx res t) (s : Sample) :
    (s.value ≤ 0 ∨ s.pair ∈ t.covered) ↔ uncovered ctx res s = false := by
  simp [uncovered, Sample.positive, ht s.pair, imp_iff_not_or]

theorem connect_edges (time : GoMap ℚ) (t : Tally) (s : Sample) (ht : KnowsCovered ctx res t) :
    (t.connect ctx time s).edges
      = (sampleChanges ctx "tcp" (uncovered ctx res)
          (fun s => [.requests s.value, .latency (meanLatency time s)]) s).foldl (record ctx)
          t.edges := by
  rw [foldl_sampleChanges rfl, Tally.connect]
  simp only [skipped_iff ht]
  cases uncovered ctx res s <;> rfl

theorem failedConnect_edges (t : Tally) (s : Sample) (ht : KnowsCovered ctx res t) :
    (t.failedConnect ctx s).edges
      = (sampleChanges ctx "tcp" (uncovered ctx res) (fun s => [.errors s.value]) s).foldl
          (record ctx) t.edges := by
  rw [foldl_sampleChanges rfl, Tally.failedConnect]
  simp only [skipped_iff ht]
  cases uncovered ctx res s <;> rfl

theorem failure_covered (p : String) (t : Tally) (s : Sample) :
    (t.failure ctx p s).covered = t.covered := rfl

theorem duration_covered (p : String) (sums : GoMap ℚ) (t : Tally) (s : Sample) :
    (t.duration ctx p sums s).covered = t.covered := by
  unfold Tally.duration
  split <;> rfl

theorem connect_covered (time : GoMap ℚ) (t : Tally) (s : Sample) :
    (t.connect ctx time s).covered = t.covered := by
  unfold Tally.connect
  split <;> rfl

theorem failedConnect_covered (t : Tally) (s : Sample) :
    (t.failedConnect ctx s).covered = t.covered := by
  unfold Tally.failedConnect
  split <;> rfl

theorem request_covered (p : String) (t : Tally) (s : Sample) (q : Pair) :
    q ∈ (t.request ctx p s).covered
      ↔ q ∈ t.covered ∨ 0 < s.value ∧ ctx.contributes s ∧ s.pair = q := by
  unfold Tally.request
  by_cases hv : s.value ≤ 0
  · simp [hv, not_lt.mpr hv]
  · by_cases hc : ctx.contributes s <;> simp [hv, not_le.mp hv, hc, or_comm, eq_comm]

theorem loop_edges {log : Sample → List (EdgeKey × Change)}
    (h : ∀ t s, (step t s).edges = (log s).foldl (record ctx) t.edges) (l : List Sample)
    (t : Tally) :
    (l.foldl step t).edges = (l.flatMap log).foldl (record ctx) t.edges :=
  foldl_log (I := fun _ => True) Tally.edges step (record ctx) log (fun _ _ _ => trivial)
    (fun t s _ => h t s) l trivial

theorem loop_covered (h : ∀ t s, (step t s).covered = t.covered) (l : List Sample) (t : Tally) :
    (l.foldl step t).covered = t.covered :=
  foldl_keeps (I := fun t' => t'.covered = t.covered) step (fun t' s ht => (h t' s).trans ht) l rfl

theorem l7Pass_edges (t : Tally) (pr : String × ℕ) :
    (l7Pass ctx res t pr).edges = (l7Changes ctx res pr).foldl (record ctx) t.edges := by
  rw [l7Pass, loop_edges (duration_edges _ _), loop_edges (failure_edges _),
    loop_edges (request_edges _), ← List.foldl_append, ← List.foldl_append]
  rfl

theorem l7Pass_covered (t : Tally) (pr : String × ℕ) (q : Pair) :
    q ∈ (l7Pass ctx res t pr).covered
      ↔ q ∈ t.covered ∨
        ∃ s ∈ res (fixed + pr.2 * 4), 0 < s.value ∧ ctx.contributes s ∧ s.pair = q := by
  rw [l7Pass, loop_covered (duration_covered _ _), loop_covered (failure_covered _)]
  exact foldl_adds (P := fun t => q ∈ t.covered) (Tally.request ctx pr.1)
    (fun t s => request_covered pr.1 t s q) _ t

theorem knowsCovered_l7 :
    KnowsCovered ctx res (l7Protocols.zipIdx.foldl (l7Pass ctx res) ⟨∅, []⟩) := by
  intro q
  refine (foldl_adds (P := fun t => q ∈ t.covered) (l7Pass ctx res)
    (fun t pr => l7Pass_covered t pr q) l7Protocols.zipIdx ⟨∅, []⟩).trans ?_
  constructor
  · rintro (h | ⟨⟨p, i⟩, hi, hs⟩)
    · simp at h
    · obtain ⟨hlt, -⟩ := List.getElem?_eq_some_iff.mp (List.mem_zipIdx_iff_getElem?.mp hi)
      exact ⟨i, hlt, hs⟩
  · rintro ⟨i, hi, hs⟩
    exact .inr ⟨(l7Protocols[i], i), List.mem_zipIdx_iff_getElem?.mpr (by simp [hi]), hs⟩

theorem tcp_loop {log : Sample → List (EdgeKey × Change)}
    (hcov : ∀ t s, (step t s).covered = t.covered)
    (h : ∀ t s, KnowsCovered ctx res t → (step t s).edges = (log s).foldl (record ctx) t.edges)
    (l : List Sample) {t : Tally} (ht : KnowsCovered ctx res t) :
    (l.foldl step t).edges = (l.flatMap log).foldl (record ctx) t.edges ∧
      KnowsCovered ctx res (l.foldl step t) := by
  have hkeep : ∀ t s, KnowsCovered ctx res t → KnowsCovered ctx res (step t s) := by
    intro t s ht q
    rw [hcov]
    exact ht q
  exact ⟨foldl_log Tally.edges step (record ctx) log hkeep h l ht, foldl_keeps step hkeep l ht⟩

theorem tally_edges : (tally ctx res).edges = (changes ctx res).foldl (record ctx) ∅ := by
  have hgrpc : KnowsCovered ctx res ((res grpcErrIdx).foldl (Tally.failure ctx "http")
      (l7Protocols.zipIdx.foldl (l7Pass ctx res) ⟨∅, []⟩)) := by
    intro q
    rw [loop_covered (failure_covered _)]
    exact knowsCovered_l7 q
  obtain ⟨hconnect, hknows⟩ := tcp_loop (connect_covered (indexByEdge (res 10)))
    (connect_edges (indexByEdge (res 10))) (res 8) hgrpc
  have hl7 := foldl_log (I := fun _ => True) Tally.edges (l7Pass ctx res) (record ctx)
    (l7Changes ctx res) (fun _ _ _ => trivial) (fun t pr _ => l7Pass_edges t pr)
    l7Protocols.zipIdx (s := ⟨∅, []⟩) trivial
  rw [tally, (tcp_loop failedConnect_covered failedConnect_edges (res 9) hknows).1, hconnect,
    loop_edges (failure_edges _), hl7, ← List.foldl_append, ← List.foldl_append,
    ← List.foldl_append]
  rfl

/-! ## The log at one key -/

/-- The samples of a loop that change the edge `k`. -/
def keyed (ctx : Context) (k : EdgeKey) (c : Sample → Bool) (l : List Sample) : List Sample :=
  l.filter fun s => c s ∧ ctx.contributes s ∧ s.edgeKey k.protocol = k

def logAt (k : EdgeKey) (log : List (EdgeKey × Change)) : List Change :=
  (log.filter (·.1 = k)).map Prod.snd

theorem logAt_append (k : EdgeKey) (a b : List (EdgeKey × Change)) :
    logAt k (a ++ b) = logAt k a ++ logAt k b := by
  rw [logAt, List.filter_append, List.map_append]
  rfl

theorem logAt_flatMap {α : Type} (k : EdgeKey) (l : List α) (f : α → List (EdgeKey × Change)) :
    logAt k (l.flatMap f) = l.flatMap fun a => logAt k (f a) := by
  induction l with
  | nil => rfl
  | cons a t ih => rw [List.flatMap_cons, logAt_append, ih, List.flatMap_cons]

theorem logAt_sampleChanges (k : EdgeKey) (p : String) (c : Sample → Bool)
    (f : Sample → List Change) (s : Sample) :
    logAt k (sampleChanges ctx p c f s)
      = if c s ∧ ctx.contributes s ∧ s.edgeKey p = k then f s else [] := by
  unfold sampleChanges logAt
  by_cases hc : c s ∧ ctx.contributes s
  · rw [if_pos hc, List.filter_map]
    by_cases hk : s.edgeKey p = k
    · rw [if_pos ⟨hc.1, hc.2, hk⟩]
      simp [Function.comp_def, hk]
    · rw [if_neg fun h => hk h.2.2]
      simp [Function.comp_def, hk]
  · rw [if_neg hc, if_neg fun h => hc ⟨h.1, h.2.1⟩]
    rfl

theorem logAt_loopChanges (k : EdgeKey) (p : String) (c : Sample → Bool)
    (f : Sample → List Change) (l : List Sample) :
    logAt k (loopChanges ctx p c f l)
      = if p = k.protocol then (keyed ctx k c l).flatMap f else [] := by
  rw [loopChanges, logAt_flatMap]
  simp only [logAt_sampleChanges]
  split
  next hp =>
    rw [hp]
    exact flatMap_ite _ f l
  next hp =>
    refine List.flatMap_eq_nil_iff.mpr fun s _ => if_neg fun h => hp ?_
    rw [← h.2.2, Sample.edgeKey_protocol]

def changesAt (ctx : Context) (res : ℕ → List Sample) (k : EdgeKey) : List Change :=
  logAt k (changes ctx res)

theorem l7Protocols_nodup : l7Protocols.Nodup := by decide

theorem logAt_l7 (k : EdgeKey) :
    logAt k (l7Protocols.zipIdx.flatMap (l7Changes ctx res))
      = ((l7Protocols.idxOf? k.protocol).map fun i =>
          (keyed ctx k Sample.positive (res (fixed + i * 4))).flatMap
            (fun s => [.requests s.value]) ++
          ((keyed ctx k (fun _ => true) (res (fixed + i * 4 + 1))).flatMap
            (fun s => [.errors s.value]) ++
          (keyed ctx k Sample.positive (res (fixed + i * 4 + 3))).flatMap
            (fun s => [.latency (meanLatency (indexByEdge (res (fixed + i * 4 + 2))) s)]))).getD
              [] := by
  rw [logAt_flatMap, flatMap_zipIdx (q := k.protocol) _ l7Protocols_nodup]
  · simp only [l7Changes, logAt_append, logAt_loopChanges, if_true]
  · intro p i hp
    simp only [l7Changes, logAt_append, logAt_loopChanges, if_neg hp, List.append_nil]

theorem logAt_tcp (k : EdgeKey) :
    logAt k (tcpChanges ctx res)
      = if "tcp" = k.protocol then
          (keyed ctx k (uncovered ctx res) (res 8)).flatMap
            (fun s => [.requests s.value, .latency (meanLatency (indexByEdge (res 10)) s)]) ++
          (keyed ctx k (uncovered ctx res) (res 9)).flatMap (fun s => [.errors s.value])
        else [] := by
  rw [tcpChanges, logAt_append, logAt_loopChanges, logAt_loopChanges]
  split <;> rfl

theorem tcp_not_l7 : l7Protocols.idxOf? "tcp" = none := by decide

theorem l7_ne_tcp {i : ℕ} (h : l7Protocols.idxOf? p = some i) : p ≠ "tcp" := by
  rintro rfl
  rw [tcp_not_l7] at h
  cases h

theorem not_l7_ne_http (h : l7Protocols.idxOf? p = none) : p ≠ "http" := by
  rintro rfl
  exact absurd h (by decide)

theorem changesAt_l7 {i : ℕ} (h : l7Protocols.idxOf? k.protocol = some i) :
    changesAt ctx res k
      = (keyed ctx k Sample.positive (res (fixed + i * 4))).flatMap
          (fun s => [.requests s.value]) ++
        (keyed ctx k (fun _ => true) (res (fixed + i * 4 + 1))).flatMap
          (fun s => [.errors s.value]) ++
        (keyed ctx k Sample.positive (res (fixed + i * 4 + 3))).flatMap
          (fun s => [.latency (meanLatency (indexByEdge (res (fixed + i * 4 + 2))) s)]) ++
        (keyed ctx k (fun _ => true) (if k.protocol = "http" then res grpcErrIdx else [])).flatMap
          (fun s => [.errors s.value]) := by
  rw [changesAt, changes, logAt_append, logAt_append, logAt_l7, logAt_loopChanges, logAt_tcp, h,
    if_neg (l7_ne_tcp h).symm, List.append_nil, List.append_assoc]
  by_cases hp : k.protocol = "http"
  · simp [hp]
  · simp [hp, Ne.symm hp, keyed]

theorem changesAt_tcp (h : k.protocol = "tcp") :
    changesAt ctx res k
      = (keyed ctx k (uncovered ctx res) (res 8)).flatMap
          (fun s => [.requests s.value, .latency (meanLatency (indexByEdge (res 10)) s)]) ++
        (keyed ctx k (uncovered ctx res) (res 9)).flatMap (fun s => [.errors s.value]) := by
  rw [changesAt, changes, logAt_append, logAt_append, logAt_l7, logAt_loopChanges, logAt_tcp, h,
    tcp_not_l7]
  rfl

theorem changesAt_other (h : l7Protocols.idxOf? k.protocol = none) (htcp : k.protocol ≠ "tcp") :
    changesAt ctx res k = [] := by
  rw [changesAt, changes, logAt_append, logAt_append, logAt_l7, logAt_loopChanges, logAt_tcp, h,
    if_neg (not_l7_ne_http h).symm, if_neg htcp.symm]
  rfl

/-! ## What the log sums to -/

end ServiceMapLemmas

namespace ServiceMap

/-- The counts a change adds, and the latency it sets, as a list of at most one value. -/
def Change.requestValues : Change → List ℚ
  | .requests v => [v]
  | _ => []

@[inherit_doc Change.requestValues]
def Change.errorValues : Change → List ℚ
  | .errors v => [v]
  | _ => []

@[inherit_doc Change.requestValues]
def Change.latencyValues : Change → List ℚ
  | .latency v => [v]
  | _ => []

end ServiceMap

namespace ServiceMapLemmas

variable {k : EdgeKey}

theorem foldl_apply (l : List Change) (e : Edge) :
    l.foldl (fun e x => x.apply e) e
      = { e with
          requests := e.requests + (l.flatMap Change.requestValues).sum
          errors := e.errors + (l.flatMap Change.errorValues).sum
          latencyMs := (l.flatMap Change.latencyValues).getLastD e.latencyMs } := by
  induction l generalizing e with
  | nil => simp
  | cons x t ih =>
    rw [List.foldl_cons, ih]
    cases x <;>
      simp [Change.apply, Change.requestValues, Change.errorValues, Change.latencyValues, add_assoc,
        List.getLast?_cons]

theorem flatMap_read {r : Change → List ℚ} {f : Sample → List Change} {g : Sample → ℚ}
    (h : ∀ s, (f s).flatMap r = [g s]) (l : List Sample) : (l.flatMap f).flatMap r = l.map g := by
  rw [List.flatMap_assoc]
  simp only [h]
  exact List.map_eq_flatMap.symm

theorem flatMap_silent {r : Change → List ℚ} {f : Sample → List Change}
    (h : ∀ s, (f s).flatMap r = []) (l : List Sample) : (l.flatMap f).flatMap r = [] := by
  rw [List.flatMap_assoc]
  exact List.flatMap_eq_nil_iff.mpr fun s _ => h s

theorem keyed_l7 (res : ℕ → List Sample) (h : k.protocol ≠ "tcp") (c : Sample → Bool)
    (l : List Sample) : keyed ctx k c l = l.filter fun s => OfEdge ctx res k s ∧ c s := by
  refine List.filter_congr fun s _ => decide_eq_decide.mpr ?_
  simp only [OfEdge, h, false_imp_iff, and_true]
  tauto

theorem keyed_tcp (h : k.protocol = "tcp") (l : List Sample) :
    keyed ctx k (uncovered ctx res) l = l.filter fun s => OfEdge ctx res k s ∧ 0 < s.value := by
  refine List.filter_congr fun s _ => decide_eq_decide.mpr ?_
  simp only [OfEdge, h, true_imp_iff, uncovered, Sample.positive, decide_eq_true_eq]
  tauto

theorem sum_requestValues (k : EdgeKey) :
    ((changesAt ctx res k).flatMap Change.requestValues).sum = requestSum ctx res k := by
  rw [requestSum, requestVector]
  rcases h : l7Protocols.idxOf? k.protocol with _ | i <;> dsimp only
  · by_cases htcp : k.protocol = "tcp"
    · rw [changesAt_tcp htcp, List.flatMap_append, flatMap_read fun _ => rfl,
        flatMap_silent fun _ => rfl, List.append_nil, keyed_tcp htcp, if_pos htcp]
    · rw [changesAt_other h htcp, if_neg htcp]
      rfl
  · rw [changesAt_l7 h, List.flatMap_append, List.flatMap_append, List.flatMap_append,
      flatMap_read fun _ => rfl, flatMap_silent fun _ => rfl, flatMap_silent fun _ => rfl,
      flatMap_silent fun _ => rfl, keyed_l7 res (l7_ne_tcp h)]
    simp only [Sample.positive, decide_eq_true_eq, List.append_nil]

theorem sum_errorValues (k : EdgeKey) :
    ((changesAt ctx res k).flatMap Change.errorValues).sum = failureSum ctx res k := by
  rw [failureSum, failureVector]
  rcases h : l7Protocols.idxOf? k.protocol with _ | i <;> dsimp only
  · by_cases htcp : k.protocol = "tcp"
    · rw [changesAt_tcp htcp, List.flatMap_append, flatMap_silent fun _ => rfl,
        flatMap_read fun _ => rfl, List.nil_append, keyed_tcp htcp, if_pos htcp]
      simp only [htcp, true_imp_iff]
    · rw [changesAt_other h htcp, if_neg htcp]
      rfl
  · have htcp := l7_ne_tcp h
    rw [changesAt_l7 h, List.flatMap_append, List.flatMap_append, List.flatMap_append,
      flatMap_silent fun _ => rfl, flatMap_read fun _ => rfl, flatMap_silent fun _ => rfl,
      flatMap_read fun _ => rfl, keyed_l7 res htcp, keyed_l7 res htcp]
    simp only [htcp, false_imp_iff, List.filter_append, List.map_append, List.nil_append,
      List.append_nil]

theorem last_latencyValues (k : EdgeKey) :
    ((changesAt ctx res k).flatMap Change.latencyValues).getLastD 0 = latencyOf ctx res k := by
  rw [latencyOf, durationVectors]
  rcases h : l7Protocols.idxOf? k.protocol with _ | i <;> dsimp only
  · by_cases htcp : k.protocol = "tcp"
    · rw [changesAt_tcp htcp, List.flatMap_append, flatMap_read fun _ => rfl,
        flatMap_silent fun _ => rfl, List.append_nil, keyed_tcp htcp, if_pos htcp]
    · rw [changesAt_other h htcp, if_neg htcp]
      rfl
  · rw [changesAt_l7 h, List.flatMap_append, List.flatMap_append, List.flatMap_append,
      flatMap_silent fun _ => rfl, flatMap_silent fun _ => rfl, flatMap_read fun _ => rfl,
      flatMap_silent fun _ => rfl, keyed_l7 res (l7_ne_tcp h)]
    simp only [Sample.positive, decide_eq_true_eq, List.append_nil, List.nil_append]

/-! ## The map of the edges -/

theorem mem_tally : k ∈ (tally ctx res).edges ↔ k ∈ (changes ctx res).map Prod.fst := by
  have h := mem_fill Prod.fst (fun x : EdgeKey × Change => x.2.apply) ctx.newEdge (m := ∅) (k := k)
    (changes ctx res)
  rw [tally_edges]
  exact h.trans (by simp)

/-- The edge the loops leave at a key they have touched. -/
def tallied (ctx : Context) (res : ℕ → List Sample) (k : EdgeKey) : Edge :=
  { ctx.newEdge k with
    requests := requestSum ctx res k
    errors := failureSum ctx res k
    latencyMs := latencyOf ctx res k }

theorem lookup_tally (hk : k ∈ (changes ctx res).map Prod.fst) :
    (tally ctx res).edges.lookup k = some (tallied ctx res k) := by
  have h := lookup_fill Prod.fst (fun x : EdgeKey × Change => x.2.apply) ctx.newEdge (m := ∅)
    (changes ctx res) (.inr hk)
  rw [tally_edges]
  refine h.trans (congrArg some ?_)
  have hmap : ((changes ctx res).filter (·.1 = k)).foldl (fun e x => x.2.apply e) (ctx.newEdge k)
      = (changesAt ctx res k).foldl (fun e x => x.apply e) (ctx.newEdge k) := by
    rw [changesAt, logAt, List.foldl_map]
  rw [entry_empty, hmap, foldl_apply, sum_requestValues, sum_errorValues]
  simp only [tallied, Context.newEdge, zero_add, last_latencyValues]

end ServiceMapLemmas

end Forager
