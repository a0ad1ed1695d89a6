import Mathlib.Algebra.Order.Ring.Int
import Forager.GoTime
import Forager.Runs

/-!
# The delay before a reconnect

`reconnectWait` of `pkg/ws/client.go` draws a random delay up to `base` doubled
`attempt` times, capped at `limit`. The doubling is done step by step in 64 bits and
stops before it would pass the limit.

The exact results of the 64-bit operations and the arguments of `randN` are noted
beside the delay; no step reads them.
-/

namespace Forager

open GoTime

structure ReconnectWait where
  ceiling : Int
  /-- The exact results of the additions and multiplications. -/
  results : List Int
  /-- The arguments of `randN`. -/
  calls : List Int
  wait : Int
deriving DecidableEq, Repr

/-- The loop, with the iterations that are left and the counter `i`. -/
def growCeiling (limit : Int) : Nat → Int → Int → Int × List Int
  | 0, _, ceiling => (ceiling, [])
  | n + 1, i, ceiling =>
    if ceiling < limit then
      if limit.tdiv 2 < ceiling then (limit, [])
      else
        let (grown, results) := growCeiling limit n (wrap64 (i + 1)) (wrap64 (ceiling * 2))
        (grown, ceiling * 2 :: (i + 1) :: results)
    else (ceiling, [])

def reconnectWait (base limit : Int) (attempt : Nat) (randN : Int → Int) : ReconnectWait :=
  let (ceiling, results) := growCeiling limit attempt 0 (min base limit)
  if ceiling ≤ 0 then ⟨ceiling, results, [], 0⟩
  else if ceiling = maxDuration then ⟨ceiling, results, [maxDuration], randN maxDuration⟩
  else
    let n := wrap64 (ceiling + 1)
    ⟨ceiling, results ++ [ceiling + 1], [n], randN n⟩

def Draws (randN : Int → Int) : Prop := ∀ n, 0 < n → 0 ≤ randN n ∧ randN n < n

def FitsInt64 (x : Int) : Prop := minDuration ≤ x ∧ x ≤ maxDuration

namespace ReconnectLemmas

variable {base limit ceiling i : Int} {n attempt : Nat} {randN : Int → Int}

theorem min_pow_succ (limit ceiling : Int) (n : Nat) :
    min limit (ceiling * 2 ^ (n + 1)) = min limit (ceiling * 2 * 2 ^ n) := by
  rw [Int.pow_succ', Int.mul_assoc]

theorem min_pow_of_le (h0 : 0 ≤ limit) (h : limit ≤ ceiling) (n : Nat) :
    min limit (ceiling * 2 ^ n) = limit := by
  have hpow : (1 : Int) ≤ 2 ^ n := one_le_pow₀ (by decide)
  have hle : ceiling ≤ ceiling * 2 ^ n := le_mul_of_one_le_right (h0.trans h) hpow
  exact min_eq_left (h.trans hle)

theorem growCeiling_eq (hlimit : limit ≤ maxDuration) (h0 : 0 ≤ ceiling) (hle : ceiling ≤ limit)
    (n : Nat) (i : Int) : (growCeiling limit n i ceiling).1 = min limit (ceiling * 2 ^ n) := by
  induction n generalizing i ceiling with
  | zero =>
    rw [growCeiling, Int.pow_zero, Int.mul_one, min_eq_right hle]
  | succ n ih =>
    have hhalf : limit.tdiv 2 = limit / 2 := Int.tdiv_eq_ediv_of_nonneg (h0.trans hle)
    rw [growCeiling, hhalf]
    split
    · next hlt =>
      split
      · next hbig =>
        rw [min_pow_succ, min_pow_of_le (h0.trans hle) (by omega)]
      · next hsmall =>
        have hdouble : ceiling * 2 ≤ limit := by omega
        have hwrap : wrap64 (ceiling * 2) = ceiling * 2 := by
          refine wrap64_of_small (by omega) ?_
          unfold maxDuration at hlimit
          omega
        rw [min_pow_succ, hwrap]
        exact ih (by omega) hdouble _
    · next hge =>
      rw [min_pow_of_le (h0.trans hle) (not_lt.mp hge)]
      exact le_antisymm hle (not_lt.mp hge)

theorem fitsInt64_of_le {x : Int} (h0 : 0 ≤ x) (h : x ≤ maxDuration) : FitsInt64 x :=
  ⟨le_trans (by decide) h0, h⟩

theorem growCeiling_results (hlimit : limit ≤ maxDuration) (h0 : 0 ≤ ceiling)
    (hle : ceiling ≤ limit) (hi : 0 ≤ i) (hn : i + n ≤ maxDuration) :
    ∀ x ∈ (growCeiling limit n i ceiling).2, FitsInt64 x := by
  induction n generalizing i ceiling with
  | zero => simp [growCeiling]
  | succ n ih =>
    have hhalf : limit.tdiv 2 = limit / 2 := Int.tdiv_eq_ediv_of_nonneg (h0.trans hle)
    rw [growCeiling, hhalf]
    split
    · split
      · simp
      · next hsmall =>
        have hdouble : ceiling * 2 ≤ limit := by omega
        have hnext : i + 1 + n ≤ maxDuration := by omega
        have hceiling : wrap64 (ceiling * 2) = ceiling * 2 := by
          refine wrap64_of_small (by omega) ?_
          unfold maxDuration at hlimit
          omega
        have hcounter : wrap64 (i + 1) = i + 1 := by
          refine wrap64_of_small (by omega) ?_
          unfold maxDuration at hnext
          omega
        rw [hceiling, hcounter]
        refine List.forall_mem_cons.mpr ⟨?_, List.forall_mem_cons.mpr ⟨?_, ?_⟩⟩
        · exact fitsInt64_of_le (by omega) (hdouble.trans hlimit)
        · exact fitsInt64_of_le (by omega) (by omega)
        · exact ih (by omega) hdouble (by omega) hnext
    · simp

theorem growCeiling_start (hbase : 0 ≤ base) (h0 : 0 ≤ limit) (hlimit : limit ≤ maxDuration)
    (attempt : Nat) :
    (growCeiling limit attempt 0 (min base limit)).1 = min limit (base * 2 ^ attempt) := by
  rw [growCeiling_eq hlimit (le_min hbase h0) (min_le_right _ _)]
  rcases le_total base limit with hle | hle
  · rw [min_eq_left hle]
  · rw [min_eq_right hle, min_pow_of_le h0 le_rfl, min_pow_of_le h0 hle]

theorem reconnectWait_cases (base limit : Int) (attempt : Nat) (randN : Int → Int) :
    let grown := growCeiling limit attempt 0 (min base limit)
    let r := reconnectWait base limit attempt randN
    r.ceiling = grown.1 ∧
    ((grown.1 ≤ 0 ∧ r.results = grown.2 ∧ r.calls = [] ∧ r.wait = 0) ∨
      (grown.1 = maxDuration ∧ r.results = grown.2 ∧ r.calls = [maxDuration] ∧
        r.wait = randN maxDuration) ∨
      (0 < grown.1 ∧ grown.1 ≠ maxDuration ∧ r.results = grown.2 ++ [grown.1 + 1] ∧
        r.calls = [wrap64 (grown.1 + 1)] ∧ r.wait = randN (wrap64 (grown.1 + 1)))) := by
  intro grown r
  by_cases hzero : grown.1 ≤ 0
  · have hr : r = ⟨grown.1, grown.2, [], 0⟩ := if_pos hzero
    rw [hr]
    exact ⟨rfl, .inl ⟨hzero, rfl, rfl, rfl⟩⟩
  by_cases hmax : grown.1 = maxDuration
  · have hr : r = ⟨grown.1, grown.2, [maxDuration], randN maxDuration⟩ :=
      (if_neg hzero).trans (if_pos hmax)
    rw [hr]
    exact ⟨rfl, .inr (.inl ⟨hmax, rfl, rfl, rfl⟩)⟩
  · have hr : r = ⟨grown.1, grown.2 ++ [grown.1 + 1], [wrap64 (grown.1 + 1)],
        randN (wrap64 (grown.1 + 1))⟩ := (if_neg hzero).trans (if_neg hmax)
    rw [hr]
    exact ⟨rfl, .inr (.inr ⟨not_le.mp hzero, hmax, rfl, rfl, rfl⟩)⟩

/-- A generator that draws `v` wherever it can. -/
def constantly (v : Int) (n : Int) : Int := if v < n then v else 0

theorem draws_constantly {v : Int} (h : 0 ≤ v) : Draws (constantly v) := by
  intro n hn
  unfold constantly
  split
  · next hlt => exact ⟨h, hlt⟩
  · exact ⟨le_rfl, hn⟩

end ReconnectLemmas

open ReconnectLemmas in
/-- For every base and limit that an `int64` holds, every attempt and every generator: the
ceiling is the capped power in exact integers, no 64-bit operation overflows, `randN` gets
positive arguments, the delay is within the ceiling, and every delay up to the ceiling is
drawn by some generator unless the ceiling is the largest `int64`. -/
theorem reconnect_wait_exact (base limit : Int) (attempt : Nat) (randN : Int → Int)
    (hbase : 0 ≤ base) (h0 : 0 ≤ limit) (hlimit : limit ≤ maxDuration)
    (hattempt : (attempt : Int) ≤ maxDuration) (hrand : Draws randN) :
    let r := reconnectWait base limit attempt randN
    let top := min limit (base * 2 ^ attempt)
    r.ceiling = top ∧ (∀ x ∈ r.results, FitsInt64 x) ∧ (∀ n ∈ r.calls, 0 < n) ∧
      0 ≤ r.wait ∧ r.wait ≤ top ∧
      (top ≠ maxDuration → ∀ v, 0 ≤ v → v ≤ top →
        ∃ randN', Draws randN' ∧ (reconnectWait base limit attempt randN').wait = v) := by
  intro r top
  have htop : (growCeiling limit attempt 0 (min base limit)).1 = top :=
    growCeiling_start hbase h0 hlimit attempt
  have htop0 : 0 ≤ top := le_min h0 (mul_nonneg hbase (pow_nonneg (by decide) _))
  have htopmax : top ≤ maxDuration := (min_le_left _ _).trans hlimit
  have hloop := growCeiling_results (i := 0) (n := attempt) hlimit (le_min hbase h0)
    (min_le_right base limit) le_rfl (by simpa using hattempt)
  have hsucc (hne : top ≠ maxDuration) : wrap64 (top + 1) = top + 1 := by
    refine wrap64_of_small (by omega) ?_
    unfold maxDuration at htopmax hne
    omega
  obtain ⟨hceiling, hcases⟩ := reconnectWait_cases base limit attempt randN
  rw [htop] at hceiling hcases
  refine ⟨hceiling, ?_⟩
  suffices h : (∀ x ∈ r.results, FitsInt64 x) ∧ (∀ n ∈ r.calls, 0 < n) ∧ 0 ≤ r.wait ∧
      r.wait ≤ top by
    refine ⟨h.1, h.2.1, h.2.2.1, h.2.2.2, fun hne v hv hvtop => ?_⟩
    refine ⟨constantly v, draws_constantly hv, ?_⟩
    obtain ⟨-, hcases'⟩ := reconnectWait_cases base limit attempt (constantly v)
    rw [htop] at hcases'
    obtain ⟨hzero, -, -, hwait⟩ | ⟨hmax, -⟩ | ⟨-, -, -, -, hwait⟩ := hcases'
    · rw [hwait]
      omega
    · exact absurd hmax hne
    · rw [hwait, hsucc hne]
      exact if_pos (by omega)
  obtain ⟨hzero, hresults, hcalls, hwait⟩ | ⟨hmax, hresults, hcalls, hwait⟩ |
    ⟨hpos, hne, hresults, hcalls, hwait⟩ := hcases
  · rw [hresults, hcalls, hwait]
    exact ⟨hloop, by simp, le_rfl, htop0⟩
  · have hdraw := hrand maxDuration (by decide)
    rw [hresults, hcalls, hwait]
    refine ⟨hloop, ?_, hdraw.1, ?_⟩
    · simp only [List.mem_singleton, forall_eq]
      decide
    · rw [hmax]
      exact hdraw.2.le
  · have hn : 0 < top + 1 := by omega
    have hdraw := hrand (top + 1) hn
    rw [hresults, hcalls, hwait, hsucc hne]
    refine ⟨List.forall_mem_append.mpr ⟨hloop, ?_⟩, ?_, hdraw.1, by omega⟩
    · simp only [List.mem_singleton, forall_eq]
      exact fitsInt64_of_le hn.le (by omega)
    · simpa using hn

open ReconnectLemmas in
/-- A base of three and an odd limit, after four attempts. -/
theorem reconnect_wait_odd_limit :
    Draws (constantly 7) ∧ (reconnectWait 3 31 4 (constantly 7)).ceiling = 31 ∧
      0 ≤ (reconnectWait 3 31 4 (constantly 7)).wait :=
  have h := reconnect_wait_exact 3 31 4 (constantly 7) (by decide) (by decide) (by decide)
    (by decide) (draws_constantly (by decide))
  ⟨draws_constantly (by decide), h.1, h.2.2.2.1⟩

/-! ## The loop of `Run` -/

def initialDelay : Int := 3 * second

def maxReconnectDelay : Int := 10 * second

/-- A round of the loop: how long the session held, if it was dialed, and the generator. -/
structure RunRound where
  held : Option Int
  randN : Int → Int

/-- The session held long enough to start the backoff over. -/
def RunRound.settled (r : RunRound) : Bool := r.held.any (maxReconnectDelay ≤ ·)

/-- The counter `attempt`, and the delays so far. -/
structure RunLoop where
  attempt : Nat
  waits : List Int

def runRound (s : RunLoop) (r : RunRound) : RunLoop :=
  let attempt := if r.settled then 0 else s.attempt
  ⟨attempt + 1, s.waits ++ [(reconnectWait initialDelay maxReconnectDelay attempt r.randN).wait]⟩

def runLoop (rounds : List RunRound) : RunLoop := Runs.Run runRound ⟨0, []⟩ rounds

namespace ReconnectLemmas

variable {base limit : Int} {randN : Int → Int}

theorem wait_le (hbase : 0 ≤ base) (h0 : 0 ≤ limit) (hlimit : limit < maxDuration)
    (hrand : Draws randN) (attempt : Nat) :
    let wait := (reconnectWait base limit attempt randN).wait
    0 ≤ wait ∧ wait ≤ min limit (base * 2 ^ attempt) := by
  have htop0 : 0 ≤ min limit (base * 2 ^ attempt) :=
    le_min h0 (mul_nonneg hbase (pow_nonneg (by decide) _))
  have htop : min limit (base * 2 ^ attempt) ≤ limit := min_le_left _ _
  obtain ⟨-, hcases⟩ := reconnectWait_cases base limit attempt randN
  rw [growCeiling_start hbase h0 hlimit.le] at hcases
  obtain ⟨-, -, -, hwait⟩ | ⟨hmax, -⟩ | ⟨-, -, -, -, hwait⟩ := hcases
  · rw [hwait]
    exact ⟨le_rfl, htop0⟩
  · omega
  · have hsmall : min limit (base * 2 ^ attempt) + 1 < 2 ^ 63 := by
      unfold maxDuration at hlimit
      omega
    rw [wrap64_of_small (by omega) hsmall] at hwait
    have hdraw := hrand (min limit (base * 2 ^ attempt) + 1) (by omega)
    rw [hwait]
    omega

/-- The rounds since the last session that held, this one included. -/
theorem attempt_runLoop (rounds : List RunRound) : (runLoop rounds).attempt =
    min rounds.length ((rounds.reverse.takeWhile (!·.settled)).length + 1) := by
  induction rounds using List.reverseRecOn with
  | nil => rfl
  | append_singleton rounds r ih =>
    rw [runLoop, Runs.run_snoc, ← runLoop, runRound, ih]
    cases hr : r.settled <;> simp [hr, Nat.succ_min_succ]

end ReconnectLemmas

open ReconnectLemmas in
/-- After any rounds, the next delay is at most three seconds doubled once for each round
since the last session that held, and at most ten seconds. -/
theorem run_backs_off (rounds : List RunRound) (r : RunRound) (hrand : Draws r.randN) :
    ∃ wait, (runLoop (rounds ++ [r])).waits = (runLoop rounds).waits ++ [wait] ∧ 0 ≤ wait ∧
      wait ≤ min maxReconnectDelay (initialDelay * 2 ^
        min rounds.length ((rounds ++ [r]).reverse.takeWhile (!·.settled)).length) := by
  refine ⟨_, by rw [runLoop, Runs.run_snoc]; rfl, ?_⟩
  have hattempt : (if r.settled then 0 else (runLoop rounds).attempt) =
      min rounds.length ((rounds ++ [r]).reverse.takeWhile (!·.settled)).length := by
    rw [attempt_runLoop]
    cases hr : r.settled <;> simp [hr]
  rw [← hattempt]
  exact wait_le (by decide) (by decide) (by decide) hrand _

open ReconnectLemmas in
/-- A failed dial, a short session and one that held. -/
def threeRounds : List RunRound :=
  [⟨none, constantly 7⟩, ⟨some second, constantly 7⟩, ⟨some (12 * second), constantly 7⟩]

open ReconnectLemmas in
/-- The session that held was the last but one. -/
theorem run_backs_off_held :
    ∃ wait, (runLoop (threeRounds ++ [⟨none, constantly 7⟩])).waits =
      (runLoop threeRounds).waits ++ [wait] ∧ 0 ≤ wait ∧ wait ≤ 6 * second :=
  have ⟨wait, hwaits, h0, hle⟩ :=
    run_backs_off threeRounds ⟨none, constantly 7⟩ (draws_constantly (by decide))
  ⟨wait, hwaits, h0, hle.trans (by decide)⟩

end Forager
