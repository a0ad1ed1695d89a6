import Mathlib.Tactic.NormNum
import Forager.ConnPool
import Forager.GoTime

/-!
# The connection pool of the SSH proxy

In dynamic mode the proxy of `pkg/proxy/ssh/proxy.go` dials hosts on demand and
keeps the connections in a pool: `getPooledClient`, `evictOldestLocked`,
`cleanupExpiredConnections` and the loop of `closeAllLocked`. What a call gets
from outside, answers of the remote side, the time and the order of a `range`,
is an argument of it.
-/

namespace Forager

open ConnPool GoRange GoTime

/-- An address of `net.JoinHostPort`: it is never empty. -/
structure DialAddr where
  text : String
  ne : text ≠ ""
deriving DecidableEq, Repr

def joinHostPort (host : String) (port : Int) : DialAddr where
  text := (if ':' ∈ host.toList then "[" ++ host ++ "]:" else host ++ ":") ++ toString port
  ne h := by
    have hl := congrArg String.length h
    split at hl <;> simp at hl

/-- `p.pool` and the clients that were closed. -/
abbrev SshPool := Pool DialAddr

def defaultPoolMaxSize : Int := 50

def poolLimit (poolMaxSize : Int) : Int :=
  if poolMaxSize = 0 then defaultPoolMaxSize else poolMaxSize

def defaultPoolTTL : Int := 10 * minute

/-- The cutoff of `cleanupExpiredConnections`; durations wrap. -/
def cleanupCutoff (poolTTL now : Int) : Int :=
  let ttl := wrap64 (poolTTL * second)
  now + wrap64 (-if ttl = 0 then defaultPoolTTL else ttl)

/-- `evictOldestLocked`; the empty `oldestAddr` of an empty pool is `none`. -/
def evictOldestLocked (v : Visit DialAddr) (s : SshPool) : SshPool :=
  match s.oldest v with
  | none => s
  | some oldestAddr =>
    match s.get oldestAddr with
    | none => s
    | some entry => s.remove oldestAddr entry

/-- The loop of `cleanupExpiredConnections`. -/
def cleanupExpiredConnections (cutoff : Int) (v : Visit DialAddr) (s : SshPool) : SshPool :=
  s.removeWhere (·.lastUsed < cutoff) v

def closeAllLocked (v : Visit DialAddr) (s : SshPool) : SshPool := s.removeWhere (fun _ => true) v

/-! ## A call -/

/-- A pooled client that does not answer is closed and removed. -/
def dropDead (addr : DialAddr) (s : SshPool) : SshPool :=
  match s.get addr with
  | none => s
  | some entry => s.remove addr entry

def makeRoom (poolMaxSize : Int) (v : Visit DialAddr) (s : SshPool) : SshPool :=
  if poolLimit poolMaxSize ≤ s.size then evictOldestLocked v s else s

structure CallWorld where
  /-- The keepalive request is answered. -/
  alive : Bool
  /-- `p.sshConfig` is set. -/
  sshConfig : Bool
  /-- The client that `ssh.Dial` returns. -/
  dial : Except String Nat
  now : Int
  order : Visit DialAddr

def getPooledClient (poolMaxSize : Int) (w : CallWorld) (addr : DialAddr) (s : SshPool) :
    Except String Nat × SshPool :=
  match s.get addr, w.alive with
  | some entry, true => (.ok entry.client, s.put addr ⟨entry.client, w.now⟩)
  | _, _ =>
    let s := makeRoom poolMaxSize w.order (dropDead addr s)
    if w.sshConfig then
      match w.dial with
      | .error err => (.error ("ssh dial " ++ addr.text ++ ": " ++ err), s)
      | .ok client => (.ok client, s.put addr ⟨client, w.now⟩)
    else (.error "ssh config not initialized", s)

namespace SshPoolLemmas

variable {s : SshPool} {addr k : DialAddr} {e : Entry} {v : Visit DialAddr} {dialed : List DialAddr}

theorem evictOldestLocked_cases (v : Visit DialAddr) (s : SshPool) :
    (evictOldestLocked v s = s ∧ ∀ k, s.get k = none) ∨
      ∃ k e, s.oldest v = some k ∧ s.get k = some e ∧
        (∀ k' e', s.get k' = some e' → e.lastUsed ≤ e'.lastUsed) ∧
        evictOldestLocked v s = s.remove k e := by
  unfold evictOldestLocked
  cases h : s.oldest v with
  | none => exact .inl ⟨rfl, oldest_eq_none_iff.mp h⟩
  | some k =>
    obtain ⟨e, he, hmin⟩ := oldest_spec h
    refine .inr ⟨k, e, rfl, he, hmin, ?_⟩
    simp only [he]

theorem makeRoom_cases (poolMaxSize : Int) (v : Visit DialAddr) (s : SshPool) :
    (makeRoom poolMaxSize v s = s ∧ (s.size < poolLimit poolMaxSize ∨ ∀ k, s.get k = none)) ∨
      poolLimit poolMaxSize ≤ s.size ∧ ∃ k e, s.oldest v = some k ∧ s.get k = some e ∧
        (∀ k' e', s.get k' = some e' → e.lastUsed ≤ e'.lastUsed) ∧
        makeRoom poolMaxSize v s = s.remove k e := by
  unfold makeRoom
  split
  · next hfull =>
    obtain ⟨hs, hempty⟩ | hevict := evictOldestLocked_cases v s
    · exact .inl ⟨hs, .inr hempty⟩
    · exact .inr ⟨hfull, hevict⟩
  · next hroom => exact .inl ⟨rfl, .inl (not_le.mp hroom)⟩

theorem get_dropDead (addr k : DialAddr) (s : SshPool) :
    (dropDead addr s).get k = if k = addr then none else s.get k := by
  unfold dropDead
  split
  · next h =>
    split
    · next hk => rw [hk, h]
    · rfl
  · exact get_remove s addr k _

theorem get_dropDead_ne (h : k ≠ addr) : (dropDead addr s).get k = s.get k := by
  rw [get_dropDead, if_neg h]

theorem filed_dropDead (h : Filed dialed s) (addr : DialAddr) : Filed dialed (dropDead addr s) := by
  unfold dropDead
  split
  · exact h
  · next e he => exact h.remove he

theorem filed_makeRoom (h : Filed dialed s) (poolMaxSize : Int) (v : Visit DialAddr) :
    Filed dialed (makeRoom poolMaxSize v s) := by
  obtain ⟨hs, -⟩ | ⟨-, k, e, -, he, -, hs⟩ := makeRoom_cases poolMaxSize v s
  · rwa [hs]
  · rw [hs]
    exact h.remove he

theorem kept_dropDead {held : Nat → Prop} (h : Kept dialed held s) (addr : DialAddr) :
    Kept dialed held (dropDead addr s) := by
  unfold dropDead
  split
  · exact h
  · next e he => exact h.remove he

theorem kept_makeRoom {held : Nat → Prop} (h : Kept dialed held s) (poolMaxSize : Int)
    (v : Visit DialAddr) : Kept dialed held (makeRoom poolMaxSize v s) := by
  obtain ⟨hs, -⟩ | ⟨-, k, e, -, he, -, hs⟩ := makeRoom_cases poolMaxSize v s
  · rwa [hs]
  · rw [hs]
    exact h.remove he

theorem get_makeRoom_none (h : s.get k = none) (poolMaxSize : Int) (v : Visit DialAddr) :
    (makeRoom poolMaxSize v s).get k = none := by
  obtain ⟨hs, -⟩ | ⟨-, k', e, -, -, -, hs⟩ := makeRoom_cases poolMaxSize v s
  · rw [hs, h]
  · rw [hs, get_remove]
    split
    · rfl
    · exact h

theorem size_dropDead_le (addr : DialAddr) (s : SshPool) : (dropDead addr s).size ≤ s.size := by
  unfold dropDead
  split
  · exact le_rfl
  · next e he => exact (Nat.le_succ _).trans (size_remove he).le

theorem size_makeRoom {poolMaxSize : Int} (h : (s.size : Int) ≤ max 1 (poolLimit poolMaxSize))
    (v : Visit DialAddr) :
    ((makeRoom poolMaxSize v s).size : Int) + 1 ≤ max 1 (poolLimit poolMaxSize) := by
  obtain ⟨hs, hroom | hempty⟩ | ⟨-, k, e, -, he, -, hs⟩ := makeRoom_cases poolMaxSize v s
  · rw [hs]
    exact le_max_of_le_right hroom
  · rw [hs, size_eq_zero_iff.mpr hempty]
    exact le_max_left _ _
  · rw [hs]
    have hsize := size_remove he
    omega

theorem getPooledClient_error {poolMaxSize : Int} {w : CallWorld} {err : String}
    (h : (getPooledClient poolMaxSize w addr s).1 = .error err) :
    (getPooledClient poolMaxSize w addr s).2 =
      makeRoom poolMaxSize w.order (dropDead addr s) := by
  unfold getPooledClient at h ⊢
  split at h
  · cases h
  · dsimp only at h ⊢
    split at h
    · next hcfg =>
      rw [if_pos hcfg]
      split at h
      · rfl
      · cases h
    · next hcfg => rw [if_neg hcfg]

end SshPoolLemmas

open SshPoolLemmas

/-- A connection is still in the pool and open. -/
def Survives (s : SshPool) (k : DialAddr) (e : Entry) : Prop :=
  s.get k = some e ∧ e.client ∉ s.closed

/-- A failed call costs nobody else exactly if nobody else is pooled or the
others are fewer than the limit: room is made before the dial that can fail. -/
theorem failed_call_iff (poolMaxSize : Int) (w : CallWorld) (addr : DialAddr) {s : SshPool}
    {dialed : List DialAddr} (hs : Filed dialed s) {err : String}
    (herr : (getPooledClient poolMaxSize w addr s).1 = .error err) :
    (∀ k e, k ≠ addr → s.get k = some e →
        Survives (getPooledClient poolMaxSize w addr s).2 k e) ↔
      (∀ k, k ≠ addr → s.get k = none) ∨
        ((dropDead addr s).size : Int) < poolLimit poolMaxSize := by
  rw [getPooledClient_error herr]
  have hfiled := filed_makeRoom (filed_dropDead hs addr) poolMaxSize w.order
  obtain ⟨heq, hroom⟩ | ⟨hfull, k, e, -, hk, -, heq⟩ :=
    makeRoom_cases poolMaxSize w.order (dropDead addr s)
  · refine iff_of_true (fun k e hne hk => ?_) ?_
    · have hget : (makeRoom poolMaxSize w.order (dropDead addr s)).get k = some e := by
        rw [heq, get_dropDead_ne hne, hk]
      exact ⟨hget, hfiled.isOpen hget⟩
    · refine hroom.symm.imp_left fun hempty k hne => ?_
      rw [← get_dropDead_ne hne, hempty k]
  · have hne : k ≠ addr := by
      rintro rfl
      rw [get_dropDead, if_pos rfl] at hk
      cases hk
    have hk' : s.get k = some e := by rw [← get_dropDead_ne hne, hk]
    refine iff_of_false (fun hall => ?_) ?_
    · have hget := (hall k e hne hk').1
      rw [heq, get_remove, if_pos rfl] at hget
      cases hget
    · rintro (hnone | hroom)
      · rw [hnone k hne] at hk'
        cases hk'
      · exact absurd hroom (not_lt.mpr hfull)

def onePooled : SshPool := Pool.put ⟨∅, []⟩ (joinHostPort "db1" 22) ⟨0, 5⟩

def unreachable : CallWorld where
  alive := true
  sshConfig := true
  dial := .error "connection refused"
  now := 9
  order := .stored

theorem filed_onePooled : Filed [joinHostPort "db1" 22] onePooled := by
  have hempty : Filed [joinHostPort "db1" 22] (⟨∅, []⟩ : SshPool) := ⟨nofun, nofun, nofun⟩
  exact hempty.put rfl List.not_mem_nil

/-- With the default limit there is room, and the failed call costs nothing. -/
theorem failed_call_room :
    (getPooledClient 0 unreachable (joinHostPort "db2" 22) onePooled).1 =
        .error "ssh dial db2:22: connection refused" ∧
      Survives (getPooledClient 0 unreachable (joinHostPort "db2" 22) onePooled).2
        (joinHostPort "db1" 22) ⟨0, 5⟩ := by
  have herr : (getPooledClient 0 unreachable (joinHostPort "db2" 22) onePooled).1 =
      .error "ssh dial db2:22: connection refused" := by decide +kernel
  refine ⟨herr, ?_⟩
  exact (failed_call_iff 0 unreachable (joinHostPort "db2" 22) filed_onePooled herr).mpr
    (.inr (by decide +kernel)) _ _ (by decide +kernel) (by decide +kernel)

/-- A pool of one: the dial to the second host fails after the connection to the
first was closed. -/
theorem failed_dial_evicts :
    (getPooledClient 1 unreachable (joinHostPort "db2" 22) onePooled).1 =
        .error "ssh dial db2:22: connection refused" ∧
      onePooled.get (joinHostPort "db1" 22) = some ⟨0, 5⟩ ∧ onePooled.closed = [] ∧
      (getPooledClient 1 unreachable (joinHostPort "db2" 22) onePooled).2.get
        (joinHostPort "db1" 22) = none ∧
      (getPooledClient 1 unreachable (joinHostPort "db2" 22) onePooled).2.closed = [0] := by
  decide +kernel

end Forager
