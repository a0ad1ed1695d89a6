import Forager.ReplayRace

/-!
# The size of the nonce table

Whole runs of `checkAndRecordNonce`. The table is cleaned only by a recording
that brings it to a multiple of one hundred above ten thousand, and only of
nonces older than ten minutes, so a cleaning may remove nothing. What bounds the
table is the rate: a cleaning leaves no more than was recorded in the last ten
minutes, and the next one comes within a hundred recordings.
-/

namespace Forager

open GoTime

/-- One call of `checkAndRecordNonce`, with what the clock reads when the nonce
is recorded and when the cutoff is computed. -/
structure NonceCall where
  nonce : String
  now : Int
  evict : Int
deriving DecidableEq, Repr

/-- The table, the times at which a new nonce was recorded, and every reading of
the clock. -/
structure NonceLog where
  table : GoMap Int
  recorded : List Int
  readings : List Int

/-- One more call. A call that has seen the nonce does not read the clock, and
one that does not evict reads it once. -/
def recordNonce (s : NonceLog) (c : NonceCall) : NonceLog :=
  let r := checkAndRecordNonce s.table ⟨c.now, c.now, c.evict⟩ c.nonce
  { table := r.2
    recorded := s.recorded ++ if r.1 then [] else [c.now]
    readings := s.readings ++
      if r.1 then [] else if Evicts s.table c.nonce then [c.now, c.evict] else [c.now] }

/-- A run on the empty table of `NewVerifier`. -/
def nonceLog (calls : List NonceCall) : NonceLog := Runs.Run recordNonce ⟨∅, [], []⟩ calls

/-- Every closed interval of ten minutes has at most `R` of the times. -/
def AtMostInTenMinutes (R : Nat) (times : List Int) : Prop :=
  ∀ a, times.countP (fun t => a ≤ t ∧ t ≤ a + 10 * minute) ≤ R

namespace NonceBoundLemmas

variable {R : Nat} {s : NonceLog} {c : NonceCall} {calls pre : List NonceCall}

/-! ## One call -/

theorem recordNonce_cases (s : NonceLog) (c : NonceCall) :
    recordNonce s c = s ∨
    (s.table.lookup c.nonce = none ∧ ¬ Evicts s.table c.nonce ∧ recordNonce s c =
      ⟨s.table.insert c.nonce c.now, s.recorded ++ [c.now], s.readings ++ [c.now]⟩) ∨
    (s.table.lookup c.nonce = none ∧ recordNonce s c =
      ⟨evictBefore (c.evict - 10 * minute) (s.table.insert c.nonce c.now),
        s.recorded ++ [c.now], s.readings ++ [c.now, c.evict]⟩) := by
  cases hseen : s.table.lookup c.nonce with
  | some r => exact .inl (by simp [recordNonce, checkAndRecordNonce, hseen])
  | none =>
    have hskew : maxTimestampSkew * 2 = 10 * minute := by decide
    unfold recordNonce
    rw [ReplayRaceLemmas.checkAndRecordNonce_new hseen, hskew]
    by_cases hev : Evicts s.table c.nonce
    · exact .inr (.inr ⟨rfl, by simp [hev]⟩)
    · exact .inr (.inl ⟨rfl, hev, by simp [hev]⟩)

theorem recordNonce_grows (s : NonceLog) (c : NonceCall) :
    s.recorded <+: (recordNonce s c).recorded ∧ s.readings <+: (recordNonce s c).readings :=
  ⟨List.prefix_append _ _, List.prefix_append _ _⟩

theorem nonceLog_snoc (pre : List NonceCall) (c : NonceCall) :
    nonceLog (pre ++ [c]) = recordNonce (nonceLog pre) c :=
  Runs.run_snoc ..

theorem nonceLog_grows (h : pre <+: calls) :
    (nonceLog pre).recorded <+: (nonceLog calls).recorded ∧
      (nonceLog pre).readings <+: (nonceLog calls).readings := by
  obtain ⟨rest, rfl⟩ := h
  induction rest using List.reverseRecOn with
  | nil => simp
  | append_singleton rest c ih =>
    obtain ⟨hrec, hread⟩ := recordNonce_grows (nonceLog (pre ++ rest)) c
    rw [← List.append_assoc, nonceLog_snoc]
    exact ⟨ih.1.trans hrec, ih.2.trans hread⟩

/-! ## The invariant -/

/-- What holds of the log after every call. Each entry of the table is a
recording of its own. -/
structure Sized (R : Nat) (s : NonceLog) : Prop where
  recorded : (s.table.entries.map (·.2)).Subperm s.recorded
  read : ∀ t ∈ s.recorded, t ∈ s.readings
  size : s.table.entries.length < 10100 ∨ s.table.entries.length / 100 * 100 ≤ R

theorem entries_insert {nonce : String} {now : Int} (hnew : s.table.lookup nonce = none) :
    (s.table.insert nonce now).entries = ⟨nonce, now⟩ :: s.table.entries :=
  AList.entries_insert_of_notMem (AList.lookup_eq_none.mp hnew)

theorem recorded_insert (h : Sized R s) (hnew : s.table.lookup c.nonce = none) :
    ((s.table.insert c.nonce c.now).entries.map (·.2)).Subperm (s.recorded ++ [c.now]) := by
  rw [entries_insert hnew, List.map_cons]
  exact ((List.subperm_cons _).mpr h.recorded).trans (List.perm_append_singleton _ _).symm.subperm

theorem length_evict {m : GoMap Int} {times : List Int} {now : Int}
    (hrec : (m.entries.map (·.2)).Subperm times) (hle : ∀ t ∈ times, t ≤ now)
    (hrate : AtMostInTenMinutes R times) :
    (evictBefore (now - 10 * minute) m).entries.length ≤ R := by
  have hcount : (evictBefore (now - 10 * minute) m).entries.length =
      (m.entries.map (·.2)).countP fun t => now - 10 * minute ≤ t := by
    rw [List.countP_map, List.countP_eq_length_filter]
    rfl
  have hwindow : times.countP (fun t => now - 10 * minute ≤ t) ≤
      times.countP fun t => now - 10 * minute ≤ t ∧ t ≤ now - 10 * minute + 10 * minute := by
    refine List.countP_mono_left fun t ht hfrom => ?_
    have hto := hle t ht
    simp only [decide_eq_true_eq] at hfrom ⊢
    omega
  calc (evictBefore (now - 10 * minute) m).entries.length
      = (m.entries.map (·.2)).countP fun t => now - 10 * minute ≤ t := hcount
    _ ≤ times.countP fun t => now - 10 * minute ≤ t := hrec.countP_le _
    _ ≤ _ := hwindow
    _ ≤ R := hrate _

/-- What a step of the run may assume: the clock has not gone back and the rate
is kept, the step included. -/
structure Steady (R : Nat) (s : NonceLog) : Prop where
  clock : s.readings.Pairwise (· ≤ ·)
  rate : AtMostInTenMinutes R s.recorded

theorem Steady.earlier (h : Steady R (nonceLog calls)) (hp : pre <+: calls) :
    Steady R (nonceLog pre) := by
  obtain ⟨hrec, hread⟩ := nonceLog_grows hp
  exact ⟨h.clock.sublist hread.sublist, fun a => hrec.sublist.countP_le.trans (h.rate a)⟩

/-- The table is below 10100, or the hundreds of its size are within the rate. -/
theorem sized_step (h : Sized R s) (hok : Steady R (recordNonce s c)) :
    Sized R (recordNonce s c) := by
  rcases recordNonce_cases s c with he | ⟨hnew, hev, he⟩ | ⟨hnew, he⟩
  · rw [he]
    exact h
  · have hlen : (s.table.insert c.nonce c.now).entries.length = s.table.entries.length + 1 := by
      rw [entries_insert hnew, List.length_cons]
    rw [he]
    refine ⟨recorded_insert h hnew, ?_, ?_⟩
    · intro t ht
      exact List.mem_append.mpr ((List.mem_append.mp ht).imp_left (h.read t))
    · -- without an eviction, the size stays within its hundred above ten thousand
      have hsize := h.size
      simp only [Evicts, hnew, maxNonces, true_and] at hev
      dsimp only
      omega
  · rw [he] at hok ⊢
    have hread : ∀ t ∈ s.recorded ++ [c.now], t ∈ s.readings ++ [c.now] := fun t ht =>
      List.mem_append.mpr ((List.mem_append.mp ht).imp_left (h.read t))
    have hclock : ((s.readings ++ [c.now]) ++ [c.evict]).Pairwise (· ≤ ·) := by
      rw [List.append_assoc]
      exact hok.clock
    have hle : ∀ t ∈ s.recorded ++ [c.now], t ≤ c.evict := fun t ht =>
      (List.pairwise_append.mp hclock).2.2 t (hread t ht) c.evict (List.mem_singleton_self _)
    have hleft := length_evict (recorded_insert h hnew) hle hok.rate
    refine ⟨?_, ?_, .inr ((Nat.div_mul_le_self _ _).trans hleft)⟩
    · exact ((List.filter_sublist.map _).subperm).trans (recorded_insert h hnew)
    · intro t ht
      have hin := hread t ht
      rw [show [c.now, c.evict] = [c.now] ++ [c.evict] from rfl, ← List.append_assoc]
      exact List.mem_append_left _ hin

theorem sized_run (h : Steady R (nonceLog calls)) : Sized R (nonceLog calls) := by
  refine Runs.run_invariant (fun pre => Sized R (nonceLog pre))
    (fun pre c => Steady R (nonceLog (pre ++ [c]))) ?_ ?_ (fun pre c hp => h.earlier hp)
  · exact ⟨List.nil_subperm, by simp [nonceLog], .inl (by decide)⟩
  · intro pre c hok hpre
    rw [nonceLog_snoc] at hok ⊢
    exact sized_step hpre hok

theorem Sized.length_succ_le (h : Sized R s) :
    s.table.entries.length + 1 ≤ max 10100 (R + 100) := by
  have hsize := h.size
  omega

end NonceBoundLemmas

open NonceBoundLemmas

/-! ## The bound -/

/-- If the clock does not go back and no ten minutes see more than `R` new
nonces, the table never holds more than `max 10100 (R + 100)` entries: not after
a call, and not between the recording and the eviction of one. -/
theorem nonce_table_bounded (calls : List NonceCall) (R : Nat)
    (hclock : (nonceLog calls).readings.Pairwise (· ≤ ·))
    (hrate : AtMostInTenMinutes R (nonceLog calls).recorded) :
    ∀ pre, pre <+: calls →
      (nonceLog pre).table.entries.length ≤ max 10100 (R + 100) ∧
      ∀ c, pre ++ [c] <+: calls → (nonceLog pre).table.lookup c.nonce = none →
        ((nonceLog pre).table.insert c.nonce c.now).entries.length ≤ max 10100 (R + 100) := by
  intro pre hpre
  have hsteady : Steady R (nonceLog calls) := ⟨hclock, hrate⟩
  have hbound := (sized_run (hsteady.earlier hpre)).length_succ_le
  refine ⟨(Nat.le_succ _).trans hbound, fun c _ hnew => ?_⟩
  rw [entries_insert hnew, List.length_cons]
  exact hbound

/-- Two nonces, the first of them sent again. -/
theorem nonce_table_bounded_two :
    (nonceLog [⟨"a", 0, 0⟩, ⟨"b", 1, 1⟩, ⟨"a", 2, 2⟩]).recorded = [0, 1] ∧
    (nonceLog [⟨"a", 0, 0⟩, ⟨"b", 1, 1⟩, ⟨"a", 2, 2⟩]).table.entries.length ≤
      max 10100 (2 + 100) := by
  have hrec : (nonceLog [⟨"a", 0, 0⟩, ⟨"b", 1, 1⟩, ⟨"a", 2, 2⟩]).recorded = [0, 1] := by decide
  refine ⟨hrec, (nonce_table_bounded [⟨"a", 0, 0⟩, ⟨"b", 1, 1⟩, ⟨"a", 2, 2⟩] 2 (by decide)
    (fun a => ?_) _ (List.prefix_refl _)).1⟩
  rw [hrec]
  exact List.countP_le_length

end Forager
