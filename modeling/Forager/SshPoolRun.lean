import Forager.Runs
import Forager.SshPool

/-!
# The SSH connection pool under every interleaving

The methods of the proxy that work on the pool run in goroutines of their own:
requests in `getPooledClient`, the cleanup loops, `Configure` and `Close`. Two
locks order them. `p.poolMu` is held by one call from its first look at the pool
until it returns, over the keepalive request and the dial; the size check reads
`p.config` and the insertion reads `p.pool` under it. `Configure` and `Close`
hold `p.mu` and take `p.poolMu` only to empty the pool; `p.config` and `p.pool`
are replaced under `p.mu` alone. A call reads `p.sshConfig` under `p.mu`.

A critical section of `p.mu` that only reads is one step. A writer that waits
keeps new readers out as well, which leaves fewer interleavings than there are
here. The fields `users` and `dialed` are what a request and the network know:
the clients of requests that have not finished, and the address that every
client was dialed for.
-/

namespace Forager

open ConnPool GoRange

/-! ## States -/

inductive CallStage
  /-- It has `p.poolMu`. -/
  | locked
  /-- There is no entry that answers. -/
  | missed
  /-- The size is checked. -/
  | admitted
  /-- `p.sshConfig` is read, and not nil. -/
  | dialing
  | dialed (client : Nat)
deriving DecidableEq, Repr

/-- Who is in the critical section of `p.poolMu`. -/
inductive PoolMu
  | free
  | call (addr : DialAddr) (stage : CallStage)
  /-- `cleanupExpiredConnections` with its cutoff. -/
  | cleanup (cutoff : Int)
  /-- `closeAllLocked`. -/
  | closeAll
deriving DecidableEq, Repr

inductive MuOp
  | close
  | configure
deriving DecidableEq, Repr

inductive MuStage
  /-- Before `p.poolMu.Lock()` of `closeAllLocked`, or behind it. -/
  | locked
  /-- `p.poolMu` is released. -/
  | emptied
  /-- `closeAllLocked` has returned: `p.sshConfig` is nil. -/
  | dropped
  /-- `p.config` is set. -/
  | configured
deriving DecidableEq, Repr

structure SshPoolState extends SshPool where
  poolMaxSize : Int
  poolTTL : Int
  /-- `p.sshConfig` is not nil. -/
  sshConfig : Bool
  /-- `p.client`, the connection of static mode. -/
  client : Option Nat
  now : Int
  poolMu : PoolMu
  /-- The method that holds `p.mu` for writing. -/
  mu : Option (MuOp × MuStage)
  /-- The cutoffs of cleanups that wait for `p.poolMu`. -/
  cutoffs : List Int
  /-- The clients of unfinished requests. -/
  users : List Nat
  /-- The addresses of the clients, in the order of the dials. -/
  dialed : List DialAddr

def SshPoolState.new : SshPoolState where
  toPool := ⟨∅, []⟩
  poolMaxSize := 0
  poolTTL := 0
  sshConfig := false
  client := none
  now := 0
  poolMu := .free
  mu := none
  cutoffs := []
  users := []
  dialed := []

/-! ## Steps -/

inductive PoolEvent
  | tick (d : Nat)
  -- `getPooledClient`
  | lockCall (addr : DialAddr)
  | lookUp (alive : Bool)
  | makeRoom (v : Visit DialAddr)
  | readConfig
  | dial (ok : Bool)
  | insert
  /-- A request is done with its client. -/
  | finish (client : Nat)
  -- `cleanupExpiredConnections`
  | readTTL
  | lockCleanup (cutoff : Int)
  | cleanup (v : Visit DialAddr)
  -- `Close` and `Configure`
  | lockMu (op : MuOp)
  | lockCloseAll
  | closeAll (v : Visit DialAddr)
  | dropConfig
  -- `Configure`
  | parseFails
  | setConfig (poolMaxSize poolTTL : Int)
  | authFails
  | configureDynamic
  | configureStatic (addr : DialAddr) (ok : Bool)

namespace SshPoolState

variable (s : SshPoolState)

def closeStatic : SshPoolState :=
  match s.client with
  | none => s
  | some c => { s with toPool := s.close c, client := none }

def callFails : SshPoolState := { s with poolMu := .free }

/-- A call returns a client, which its request now uses. -/
def callReturns (pool : SshPool) (c : Nat) : SshPoolState :=
  { s with toPool := pool, poolMu := .free, users := c :: s.users }

/-- `none`: the event is not possible in this state. -/
def step : PoolEvent → Option SshPoolState
  | .tick d => some { s with now := s.now + d }
  | .lockCall addr =>
    if s.poolMu = .free then some { s with poolMu := .call addr .locked } else none
  | .lookUp alive =>
    match s.poolMu with
    | .call addr .locked =>
      match s.get addr, alive with
      | some entry, true => some (s.callReturns (s.put addr ⟨entry.client, s.now⟩) entry.client)
      | _, _ => some { s with toPool := dropDead addr s.toPool, poolMu := .call addr .missed }
    | _ => none
  | .makeRoom v =>
    match s.poolMu with
    | .call addr .missed =>
      some { s with toPool := Forager.makeRoom s.poolMaxSize v s.toPool,
                    poolMu := .call addr .admitted }
    | _ => none
  | .readConfig =>
    match s.poolMu, s.mu with
    | .call addr .admitted, none =>
      if s.sshConfig then some { s with poolMu := .call addr .dialing } else some s.callFails
    | _, _ => none
  | .dial ok =>
    match s.poolMu with
    | .call addr .dialing =>
      if ok then
        some { s with dialed := s.dialed ++ [addr], poolMu := .call addr (.dialed s.dialed.length) }
      else some s.callFails
    | _ => none
  | .insert =>
    match s.poolMu with
    | .call addr (.dialed c) => some (s.callReturns (s.put addr ⟨c, s.now⟩) c)
    | _ => none
  | .finish c => if c ∈ s.users then some { s with users := s.users.erase c } else none
  | .readTTL => some { s with cutoffs := cleanupCutoff s.poolTTL s.now :: s.cutoffs }
  | .lockCleanup cutoff =>
    if s.poolMu = .free ∧ cutoff ∈ s.cutoffs then
      some { s with poolMu := .cleanup cutoff, cutoffs := s.cutoffs.erase cutoff }
    else none
  | .cleanup v =>
    match s.poolMu with
    | .cleanup cutoff =>
      some { s with toPool := cleanupExpiredConnections cutoff v s.toPool, poolMu := .free }
    | _ => none
  | .lockMu op =>
    if s.mu = none then some { s.closeStatic with mu := some (op, .locked) } else none
  | .lockCloseAll =>
    match s.mu, s.poolMu with
    | some (_, .locked), .free => some { s with poolMu := .closeAll }
    | _, _ => none
  | .closeAll v =>
    match s.mu, s.poolMu with
    | some (op, .locked), .closeAll =>
      some { s with toPool := closeAllLocked v s.toPool, poolMu := .free,
                    mu := some (op, .emptied) }
    | _, _ => none
  | .dropConfig =>
    match s.mu with
    | some (.close, .emptied) => some { s with sshConfig := false, mu := none }
    | some (.configure, .emptied) =>
      some { s with sshConfig := false, mu := some (.configure, .dropped) }
    | _ => none
  | .parseFails => if s.mu = some (.configure, .dropped) then some { s with mu := none } else none
  | .setConfig poolMaxSize poolTTL =>
    if s.mu = some (.configure, .dropped) then
      some { s with poolMaxSize, poolTTL, mu := some (.configure, .configured) }
    else none
  | .authFails =>
    if s.mu = some (.configure, .configured) then some { s with mu := none } else none
  | .configureDynamic =>
    if s.mu = some (.configure, .configured) then
      some { s with sshConfig := true, toPool := s.clear, mu := none }
    else none
  | .configureStatic addr ok =>
    if s.mu = some (.configure, .configured) then
      if ok then
        some { s with sshConfig := false, client := some s.dialed.length,
                      dialed := s.dialed ++ [addr], mu := none }
      else some { s with sshConfig := false, mu := none }
    else none

/-- The state after the events, if each is possible when it comes. -/
def run (evs : List PoolEvent) : Option SshPoolState := evs.foldlM step s

def Step (s : SshPoolState) (ev : PoolEvent) (s' : SshPoolState) : Prop := s.step ev = some s'

/-- Some interleaving leads to the state. -/
def Reachable : Prop := Runs.Reach Step .new s

def limit : Int := poolLimit s.poolMaxSize

/-- The client is in no pool: a call has dialed it and not put it in, or it is
the static connection. -/
def Held (c : Nat) : Prop := (∃ addr, s.poolMu = .call addr (.dialed c)) ∨ s.client = some c

end SshPoolState

/-! ## The invariant -/

/-- The call has read `p.sshConfig` and is to put a client into the pool. -/
def CallStage.dials : CallStage → Bool
  | dialing | dialed _ => true
  | locked | missed | admitted => false

def CallStage.hasRoom : CallStage → Bool
  | admitted | dialing | dialed _ => true
  | locked | missed => false

namespace SshPoolState

/-- The pool is not in use: there is no configuration to dial with, or a method
is past `closeAllLocked` and still holds `p.mu`. -/
def Idle (s : SshPoolState) : Prop :=
  s.sshConfig = false ∨ ∃ op stage, s.mu = some (op, stage) ∧ stage ≠ .locked

/-- Nothing is pooled, and no call is about to change that. -/
def Quiet (s : SshPoolState) : Prop :=
  (∀ k, s.get k = none) ∧ ∀ addr stage, s.poolMu = .call addr stage → stage.dials = false

end SshPoolState

namespace SshPoolRunLemmas

variable {v : Visit DialAddr} {addr : DialAddr}

open SshPoolState SshPoolLemmas

structure PoolInv (s : SshPoolState) : Prop where
  filed : Filed s.dialed s.toPool
  kept : Kept s.dialed s.Held s.toPool
  /-- A client that is not yet in the pool. -/
  flight : ∀ {addr c}, s.poolMu = .call addr (.dialed c) →
    s.dialed[c]? = some addr ∧ c ∉ s.closed
  vacant : ∀ {addr stage}, s.poolMu = .call addr stage → stage ≠ .locked → s.get addr = none
  static : ∀ {c}, s.client = some c → s.sshConfig = false ∧ s.mu = none ∧ c < s.dialed.length
  quiet : s.Idle → s.Quiet
  bound : (s.size : Int) ≤ max 1 s.limit
  room : ∀ {addr stage}, s.poolMu = .call addr stage → stage.hasRoom = true →
    (s.size : Int) + 1 ≤ max 1 s.limit

theorem poolInv_new : PoolInv .new where
  filed := ⟨nofun, nofun, nofun⟩
  kept := by intro c k hd; cases hd
  flight := nofun
  vacant := nofun
  static := nofun
  quiet _ := ⟨fun _ => rfl, nofun⟩
  bound := by decide
  room := nofun

variable {s s' : SshPoolState}

/-! ### Steps that remove clients -/

theorem step_makeRoom (hs : s.step (.makeRoom v) = some s') :
    ∃ addr, s.poolMu = .call addr .missed ∧
      s' = { s with toPool := makeRoom s.poolMaxSize v s.toPool,
                    poolMu := .call addr .admitted } := by
  simp only [step] at hs
  split at hs
  · next addr hmu => exact ⟨addr, hmu, (Option.some.inj hs).symm⟩
  · cases hs

theorem step_cleanup (hs : s.step (.cleanup v) = some s') :
    ∃ cutoff, s.poolMu = .cleanup cutoff ∧
      s' = { s with toPool := cleanupExpiredConnections cutoff v s.toPool, poolMu := .free } := by
  simp only [step] at hs
  split at hs
  · next cutoff hmu => exact ⟨cutoff, hmu, (Option.some.inj hs).symm⟩
  · cases hs

theorem step_closeAll (hs : s.step (.closeAll v) = some s') :
    ∃ op, s.mu = some (op, .locked) ∧ s.poolMu = .closeAll ∧
      s' = { s with toPool := closeAllLocked v s.toPool, poolMu := .free,
                    mu := some (op, .emptied) } := by
  simp only [step] at hs
  split at hs
  · next op hmu hpool => exact ⟨op, hmu, hpool, (Option.some.inj hs).symm⟩
  · cases hs

theorem PoolInv.kept_static (h : PoolInv s) (hmu : ∀ addr c, s.poolMu ≠ .call addr (.dialed c)) :
    Kept s.dialed (fun c => s.client = some c) s.toPool :=
  h.kept.mono fun c hh => hh.resolve_left fun ⟨addr, hcall⟩ => hmu addr c hcall

/-! ### Calls -/

theorem poolInv_lockCall (h : PoolInv s) (hfree : s.poolMu = .free) :
    PoolInv { s with poolMu := .call addr .locked } where
  filed := h.filed
  kept := (h.kept_static (by simp [hfree])).mono fun _ => .inr
  flight := nofun
  vacant hmu hne := by cases hmu; exact absurd rfl hne
  static := h.static
  quiet hidle := ⟨(h.quiet hidle).1, by rintro _ _ ⟨⟩; rfl⟩
  bound := h.bound
  room hmu hr := by cases hmu; cases hr

theorem poolInv_callFails {stage : CallStage} (h : PoolInv s) (hmu : s.poolMu = .call addr stage)
    (hstage : ∀ c, stage ≠ .dialed c) :
    PoolInv s.callFails where
  filed := h.filed
  kept := by
    refine (h.kept_static fun addr' c hcall => ?_).mono fun _ => .inr
    rw [hmu] at hcall
    cases hcall
    exact hstage c rfl
  flight := nofun
  vacant := nofun
  static := h.static
  quiet hidle := ⟨(h.quiet hidle).1, nofun⟩
  bound := h.bound
  room := nofun

theorem poolInv_callReturns {stage : CallStage} {c : Nat} (h : PoolInv s)
    (hmu : s.poolMu = .call addr stage) (hd : s.dialed[c]? = some addr) (hc : c ∉ s.closed)
    (hstage : ∀ c', stage = .dialed c' → c' = c) (hk : ∀ e, s.get addr = some e → e.client = c)
    (hbusy : ¬ s.Idle) (hsize : ((s.put addr ⟨c, s.now⟩).size : Int) ≤ max 1 s.limit) :
    PoolInv (s.callReturns (s.put addr ⟨c, s.now⟩) c) where
  filed := h.filed.put hd hc
  kept := by
    refine h.kept.put hd (fun c' hh => ?_) hk
    obtain ⟨addr', hmu'⟩ | hstatic := hh
    · rw [hmu] at hmu'
      cases hmu'
      exact .inl (hstage c' rfl)
    · exact .inr (.inr hstatic)
  flight := nofun
  vacant := nofun
  static := h.static
  quiet hidle := absurd hidle hbusy
  bound := hsize
  room := nofun

theorem poolInv_lookUp {alive : Bool} (h : PoolInv s) (hs : s.step (.lookUp alive) = some s') :
    PoolInv s' := by
  simp only [step] at hs
  split at hs
  · next addr hmu =>
    split at hs
    · next e he =>
      obtain rfl := Option.some.inj hs
      refine poolInv_callReturns h hmu (h.filed.key he) (h.filed.isOpen he) ?_ ?_ ?_ ?_
      · rintro c' ⟨⟩
      · intro e' he'
        rw [he] at he'
        rw [Option.some.inj he']
      · intro hidle
        rw [(h.quiet hidle).1 addr] at he
        cases he
      · rw [size_put he]
        exact h.bound
    · obtain rfl := Option.some.inj hs
      have hsize := size_dropDead_le addr s.toPool
      have hkept := kept_dropDead (h.kept_static (by simp [hmu])) addr
      refine ⟨filed_dropDead h.filed addr, hkept.mono fun _ => .inr, ?_, ?_, h.static,
        fun hidle => ⟨fun k => ?_, ?_⟩, ?_, ?_⟩
      · rintro addr' c' ⟨⟩
      · rintro addr' stage ⟨⟩ -
        exact (get_dropDead addr addr s.toPool).trans (if_pos rfl)
      · have hnone := (h.quiet hidle).1 k
        refine (get_dropDead addr k s.toPool).trans ?_
        split
        · rfl
        · exact hnone
      · rintro _ _ ⟨⟩
        rfl
      · exact (Int.ofNat_le.mpr hsize).trans h.bound
      · rintro _ _ ⟨⟩ hr
        cases hr
  · cases hs

theorem poolInv_makeRoom (h : PoolInv s) (hs : s.step (.makeRoom v) = some s') : PoolInv s' := by
  obtain ⟨addr, hmu, rfl⟩ := step_makeRoom hs
  have hsize := size_makeRoom h.bound v
  have hvacant := h.vacant hmu nofun
  have hkept := kept_makeRoom (h.kept_static (by simp [hmu])) s.poolMaxSize v
  refine ⟨filed_makeRoom h.filed _ v, hkept.mono fun _ => .inr, nofun, ?_, h.static,
    fun hidle => ⟨fun k => ?_, ?_⟩, ?_, ?_⟩
  · rintro addr' stage ⟨⟩ -
    exact get_makeRoom_none hvacant _ v
  · exact get_makeRoom_none ((h.quiet hidle).1 k) _ v
  · rintro _ _ ⟨⟩
    rfl
  · exact (Int.le_add_one le_rfl).trans hsize
  · exact fun _ _ => hsize

theorem poolInv_readConfig (h : PoolInv s) (hs : s.step .readConfig = some s') : PoolInv s' := by
  simp only [step] at hs
  split at hs
  · next addr hmu hfree =>
    split at hs
    · next hcfg =>
      obtain rfl := Option.some.inj hs
      have hkept := h.kept_static (by simp [hmu])
      refine ⟨h.filed, hkept.mono fun _ => .inr, nofun, ?_, h.static, fun hidle => ?_, h.bound, ?_⟩
      · rintro addr' stage ⟨⟩ -
        exact h.vacant hmu nofun
      · -- a call gets here only with a configuration, while nobody holds `p.mu`
        obtain hnil | ⟨op, stage, hop, -⟩ := hidle
        · exact absurd hcfg (by simp [show s.sshConfig = false from hnil])
        · rw [show s.mu = some (op, stage) from hop] at hfree
          cases hfree
      · rintro _ _ ⟨⟩ -
        exact h.room hmu rfl
    · obtain rfl := Option.some.inj hs
      exact poolInv_callFails h hmu nofun
  · cases hs

theorem poolInv_dial {ok : Bool} (h : PoolInv s) (hs : s.step (.dial ok) = some s') :
    PoolInv s' := by
  simp only [step] at hs
  split at hs
  · next addr hmu =>
    split at hs
    · obtain rfl := Option.some.inj hs
      have hkept := h.kept_static (by simp [hmu])
      refine ⟨h.filed.dial addr, hkept.dial addr (.inl ⟨addr, rfl⟩) fun _ => .inr, ?_, ?_,
        fun hc => ?_, fun hidle => ?_, h.bound, ?_⟩
      · rintro addr' c ⟨⟩
        exact ⟨by simp, fun hc => absurd (h.filed.known hc) (lt_irrefl _)⟩
      · rintro addr' stage ⟨⟩ -
        exact h.vacant hmu nofun
      · obtain ⟨hnil, hfree, hlt⟩ := h.static hc
        exact ⟨hnil, hfree, hlt.trans (by simp)⟩
      · have hdials := (h.quiet hidle).2 addr _ hmu
        cases hdials
      · rintro _ _ ⟨⟩ -
        exact h.room hmu rfl
    · obtain rfl := Option.some.inj hs
      exact poolInv_callFails h hmu nofun
  · cases hs

theorem poolInv_insert (h : PoolInv s) (hs : s.step .insert = some s') : PoolInv s' := by
  simp only [step] at hs
  split at hs
  · next addr c hmu =>
    obtain rfl := Option.some.inj hs
    obtain ⟨hd, hc⟩ := h.flight hmu
    have hvacant := h.vacant hmu nofun
    refine poolInv_callReturns h hmu hd hc (by rintro c' ⟨⟩; rfl) ?_ ?_ ?_
    · intro e he
      rw [hvacant] at he
      cases he
    · intro hidle
      have hdials := (h.quiet hidle).2 addr _ hmu
      cases hdials
    · have hput := size_put_le s.toPool addr ⟨c, s.now⟩
      have hroom := h.room hmu rfl
      omega
  · cases hs

/-! ### Cleanups -/

theorem poolInv_enter {m : PoolMu} {cutoffs : List Int} (h : PoolInv s) (hfree : s.poolMu = .free)
    (hm : ∀ addr stage, m ≠ .call addr stage) : PoolInv { s with poolMu := m, cutoffs } where
  filed := h.filed
  kept := (h.kept_static (by simp [hfree])).mono fun _ => .inr
  flight hmu := absurd hmu (hm _ _)
  vacant hmu := absurd hmu (hm _ _)
  static := h.static
  quiet hidle := ⟨(h.quiet hidle).1, fun addr stage hmu => absurd hmu (hm addr stage)⟩
  bound := h.bound
  room hmu := absurd hmu (hm _ _)

theorem poolInv_cleanup (h : PoolInv s) (hs : s.step (.cleanup v) = some s') : PoolInv s' := by
  obtain ⟨cutoff, hmu, rfl⟩ := step_cleanup hs
  have hsize := size_removeWhere_le (·.lastUsed < cutoff) v s.toPool
  have hkept := (h.kept_static (by simp [hmu])).removeWhere (·.lastUsed < cutoff) v
  refine ⟨h.filed.removeWhere _ v, hkept.mono fun _ => .inr, nofun, nofun, h.static,
    fun hidle => ⟨fun k => ?_, nofun⟩, ?_, nofun⟩
  · refine (get_removeWhere _ v s.toPool k).trans ?_
    rw [(h.quiet hidle).1 k]
    rfl
  · exact (Int.ofNat_le.mpr hsize).trans h.bound

/-! ### `Close` and `Configure` -/

theorem quiet_size {n : Int} (hq : s.Quiet) : (s.size : Int) + 1 ≤ max 1 n := by
  rw [size_eq_zero_iff.mpr hq.1]
  exact le_max_left 1 n

theorem PoolInv.quiet_of_mu {op : MuOp} {stage : MuStage} (h : PoolInv s)
    (hmu : s.mu = some (op, stage)) (hne : stage ≠ .locked) : s.Quiet ∧ s.client = none := by
  refine ⟨h.quiet (.inr ⟨op, stage, hmu, hne⟩), ?_⟩
  cases hc : s.client with
  | none => rfl
  | some c =>
    have hfree := (h.static hc).2.1
    rw [hmu] at hfree
    cases hfree

theorem poolInv_lockMu {op : MuOp} (h : PoolInv s) :
    PoolInv { s.closeStatic with mu := some (op, .locked) } := by
  have hidle' {cfg : Bool} (hidle : cfg = false ∨
      ∃ op' stage, some (op, MuStage.locked) = some (op', stage) ∧ stage ≠ .locked) :
      cfg = false := by
    refine hidle.resolve_right ?_
    rintro ⟨op', stage, ⟨⟩, hne⟩
    exact hne rfl
  unfold closeStatic
  split
  · next hc =>
    refine ⟨h.filed, h.kept, h.flight, h.vacant, fun hc' => ?_, fun hidle => ?_, h.bound, h.room⟩
    · rw [show s.client = some _ from hc'] at hc
      cases hc
    · exact h.quiet (.inl (hidle' hidle))
  · next c hc =>
    -- in static mode nothing is pooled
    obtain ⟨hnil, -, hlt⟩ := h.static hc
    have hquiet := h.quiet (.inl hnil)
    have hkept : Kept s.dialed (fun _ => False) (s.close c) := by
      refine h.kept.close fun c' hh => .inl ?_
      obtain ⟨addr, hcall⟩ | hstatic := hh
      · have hdials := hquiet.2 addr _ hcall
        cases hdials
      · rw [hc] at hstatic
        exact (Option.some.inj hstatic).symm
    refine ⟨h.filed.close hlt fun k e hk => ?_, hkept.mono fun _ => False.elim, fun hcall => ?_,
      h.vacant, nofun, fun _ => hquiet, h.bound, h.room⟩
    · rw [hquiet.1 k] at hk
      cases hk
    · have hdials := hquiet.2 _ _ hcall
      cases hdials

theorem poolInv_closeAll (h : PoolInv s) (hs : s.step (.closeAll v) = some s') : PoolInv s' := by
  obtain ⟨op, hmu, hpool, rfl⟩ := step_closeAll hs
  have hkept := (h.kept_static (by simp [hpool])).removeWhere (fun _ => true) v
  have hnone : ∀ k, (s.removeWhere (fun _ => true) v).get k = none := by
    intro k
    rw [get_removeWhere]
    cases s.get k <;> rfl
  refine ⟨h.filed.removeWhere _ v, hkept.mono fun _ => .inr, nofun, nofun, fun hc => ?_,
    fun _ => ⟨hnone, nofun⟩, ?_, nofun⟩
  · have hfree := (h.static hc).2.1
    rw [hmu] at hfree
    cases hfree
  · have hsize := size_removeWhere_le (fun _ => true) v s.toPool
    exact (Int.ofNat_le.mpr hsize).trans h.bound

theorem poolInv_set {poolMaxSize poolTTL : Int} {sshConfig : Bool}
    {mu : Option (MuOp × MuStage)} (h : PoolInv s) (hq : s.Quiet ∧ s.client = none) :
    PoolInv { s with poolMaxSize, poolTTL, sshConfig, mu } where
  filed := h.filed
  kept := h.kept
  flight := h.flight
  vacant := h.vacant
  static hc := by
    rw [show s.client = some _ from hc] at hq
    cases hq.2
  quiet _ := hq.1
  bound := (Int.le_add_one le_rfl).trans (quiet_size hq.1)
  room _ _ := quiet_size hq.1

theorem poolInv_clear (h : PoolInv s) (hq : s.Quiet) : PoolInv { s with toPool := s.clear } where
  filed := h.filed.clear
  kept := h.kept.clear hq.1
  flight := h.flight
  vacant _ _ := rfl
  static := h.static
  quiet _ := ⟨fun _ => rfl, hq.2⟩
  bound := le_max_of_le_left Int.one_nonneg
  room _ _ := le_max_left _ _

theorem poolInv_configureStatic (h : PoolInv s) (hq : s.Quiet ∧ s.client = none) :
    PoolInv { s with sshConfig := false, client := some s.dialed.length,
                     dialed := s.dialed ++ [addr], mu := none } where
  filed := h.filed.dial addr
  kept := by
    refine h.kept.dial addr (.inr rfl) fun c hh => ?_
    rw [Held, hq.2] at hh
    exact .inl (hh.resolve_right nofun)
  flight hcall := by
    have hdials := hq.1.2 _ _ hcall
    cases hdials
  vacant := h.vacant
  static := by
    rintro c ⟨⟩
    exact ⟨rfl, rfl, by simp⟩
  quiet _ := hq.1
  bound := h.bound
  room := h.room

/-! ### Runs -/

theorem poolInv_step {ev : PoolEvent} (h : PoolInv s) (hs : s.step ev = some s') : PoolInv s' := by
  cases ev with
  | lookUp alive => exact poolInv_lookUp h hs
  | makeRoom v => exact poolInv_makeRoom h hs
  | readConfig => exact poolInv_readConfig h hs
  | dial ok => exact poolInv_dial h hs
  | insert => exact poolInv_insert h hs
  | cleanup v => exact poolInv_cleanup h hs
  | closeAll v => exact poolInv_closeAll h hs
  | tick d =>
    obtain rfl := Option.some.inj hs
    exact ⟨h.filed, h.kept, h.flight, h.vacant, h.static, h.quiet, h.bound, h.room⟩
  | readTTL =>
    obtain rfl := Option.some.inj hs
    exact ⟨h.filed, h.kept, h.flight, h.vacant, h.static, h.quiet, h.bound, h.room⟩
  | finish c =>
    obtain ⟨-, ⟨⟩⟩ := Option.ite_none_right_eq_some.mp hs
    exact ⟨h.filed, h.kept, h.flight, h.vacant, h.static, h.quiet, h.bound, h.room⟩
  | lockCall addr =>
    obtain ⟨hfree, ⟨⟩⟩ := Option.ite_none_right_eq_some.mp hs
    exact poolInv_lockCall h hfree
  | lockCleanup cutoff =>
    obtain ⟨⟨hfree, -⟩, ⟨⟩⟩ := Option.ite_none_right_eq_some.mp hs
    exact poolInv_enter h hfree nofun
  | lockMu op =>
    obtain ⟨-, ⟨⟩⟩ := Option.ite_none_right_eq_some.mp hs
    exact poolInv_lockMu h
  | lockCloseAll =>
    simp only [step] at hs
    split at hs
    · next hfree =>
      obtain rfl := Option.some.inj hs
      exact poolInv_enter h hfree nofun
    · cases hs
  | dropConfig =>
    simp only [step] at hs
    split at hs
    · next hmu =>
      obtain rfl := Option.some.inj hs
      exact poolInv_set h (h.quiet_of_mu hmu nofun)
    · next hmu =>
      obtain rfl := Option.some.inj hs
      exact poolInv_set h (h.quiet_of_mu hmu nofun)
    · cases hs
  | parseFails =>
    obtain ⟨hmu, ⟨⟩⟩ := Option.ite_none_right_eq_some.mp hs
    exact poolInv_set h (h.quiet_of_mu hmu nofun)
  | setConfig poolMaxSize poolTTL =>
    obtain ⟨hmu, ⟨⟩⟩ := Option.ite_none_right_eq_some.mp hs
    exact poolInv_set h (h.quiet_of_mu hmu nofun)
  | authFails =>
    obtain ⟨hmu, ⟨⟩⟩ := Option.ite_none_right_eq_some.mp hs
    exact poolInv_set h (h.quiet_of_mu hmu nofun)
  | configureDynamic =>
    obtain ⟨hmu, ⟨⟩⟩ := Option.ite_none_right_eq_some.mp hs
    have hq := h.quiet_of_mu hmu nofun
    exact poolInv_set (poolInv_clear h hq.1) ⟨⟨fun _ => rfl, hq.1.2⟩, hq.2⟩
  | configureStatic addr ok =>
    obtain ⟨hmu, hs⟩ := Option.ite_none_right_eq_some.mp hs
    have hq := h.quiet_of_mu hmu nofun
    split at hs
    · obtain rfl := Option.some.inj hs
      exact poolInv_configureStatic h hq
    · obtain rfl := Option.some.inj hs
      exact poolInv_set h hq

theorem poolInv_reach (h : s.Reachable) : PoolInv s :=
  Runs.reach_invariant PoolInv poolInv_new (fun _ _ _ h hs => poolInv_step h hs) h

theorem reachable_of_run {evs : List PoolEvent} (h : SshPoolState.new.run evs = some s) :
    s.Reachable :=
  Runs.reach_of_foldlM h

end SshPoolRunLemmas

open SshPoolRunLemmas SshPoolLemmas

/-! ## Bounded and emptied -/

/-- A step that does not begin a `Configure`. -/
def StepWithoutConfigure (s : SshPoolState) (ev : PoolEvent) (s' : SshPoolState) : Prop :=
  s.step ev = some s' ∧ ∀ op, ev = .lockMu op → op = .close

namespace SshPoolRunLemmas

open SshPoolState

variable {s s' : SshPoolState}

/-- `Close` has returned, and no `Configure` has begun. -/
structure Shut (s : SshPoolState) : Prop where
  inv : PoolInv s
  sshConfig : s.sshConfig = false
  client : s.client = none
  mu : ∀ stage, s.mu ≠ some (.configure, stage)

theorem shut_dropConfig (h : PoolInv s) (hmu : s.mu = some (.close, .emptied))
    (hs : s.step .dropConfig = some s') : Shut s' := by
  have hinv := poolInv_step h hs
  obtain ⟨-, hclient⟩ := h.quiet_of_mu hmu nofun
  simp only [step, hmu] at hs
  obtain rfl := Option.some.inj hs
  exact ⟨hinv, rfl, hclient, nofun⟩

theorem step_guarded {ev : PoolEvent} (hs : s.step ev = some s') :
    (s'.sshConfig = s.sshConfig ∧ s'.client = s.client ∧ s'.mu = s.mu) ∨
      (∃ op, ev = .lockMu op ∧ s' = { s.closeStatic with mu := some (op, .locked) }) ∨
      (∃ op, s.mu = some (op, .locked) ∧ s'.sshConfig = s.sshConfig ∧ s'.client = s.client ∧
        s'.mu = some (op, .emptied)) ∨
      (s.mu = some (.close, .emptied) ∧ s' = { s with sshConfig := false, mu := none }) ∨
      ∃ stage, s.mu = some (.configure, stage) := by
  cases ev with
  | lockMu op =>
    obtain ⟨-, ⟨⟩⟩ := Option.ite_none_right_eq_some.mp hs
    exact .inr (.inl ⟨op, rfl, rfl⟩)
  | closeAll v =>
    obtain ⟨op, hmu, -, rfl⟩ := step_closeAll hs
    exact .inr (.inr (.inl ⟨op, hmu, rfl, rfl, rfl⟩))
  | dropConfig =>
    simp only [step] at hs
    split at hs
    · next hmu =>
      obtain rfl := Option.some.inj hs
      exact .inr (.inr (.inr (.inl ⟨hmu, rfl⟩)))
    · next hmu => exact .inr (.inr (.inr (.inr ⟨_, hmu⟩)))
    · cases hs
  | parseFails | setConfig | authFails | configureDynamic | configureStatic =>
    obtain ⟨hmu, -⟩ := Option.ite_none_right_eq_some.mp hs
    exact .inr (.inr (.inr (.inr ⟨_, hmu⟩)))
  | _ =>
    simp only [step] at hs
    repeat' split at hs
    all_goals cases hs <;> exact .inl ⟨rfl, rfl, rfl⟩

theorem closeStatic_client (s : SshPoolState) : s.closeStatic.client = none := by
  unfold closeStatic
  split
  · next hc => exact hc
  · rfl

theorem closeStatic_sshConfig (s : SshPoolState) : s.closeStatic.sshConfig = s.sshConfig := by
  unfold closeStatic
  split <;> rfl

theorem shut_step {ev : PoolEvent} (h : Shut s) (hs : StepWithoutConfigure s ev s') : Shut s' := by
  obtain ⟨hs, hclose⟩ := hs
  have hinv := poolInv_step h.inv hs
  obtain ⟨hcfg, hclient, hmu⟩ | ⟨op, rfl, rfl⟩ | ⟨op, hlocked, hcfg, hclient, hmu⟩ | ⟨-, rfl⟩ |
    ⟨stage, hmu⟩ := step_guarded hs
  · exact ⟨hinv, hcfg.trans h.sshConfig, hclient.trans h.client, hmu ▸ h.mu⟩
  · obtain rfl := hclose op rfl
    exact ⟨hinv, (closeStatic_sshConfig s).trans h.sshConfig, closeStatic_client s, nofun⟩
  · refine ⟨hinv, hcfg.trans h.sshConfig, hclient.trans h.client, fun stage hstage => ?_⟩
    rw [hmu] at hstage
    cases hstage
    exact h.mu _ hlocked
  · exact ⟨hinv, rfl, h.client, nofun⟩
  · exact absurd hmu (h.mu stage)

theorem Shut.emptied (h : Shut s) :
    s.size = 0 ∧ ∀ c < s.dialed.length, c ∈ s.closed := by
  obtain ⟨hempty, hcalls⟩ := h.inv.quiet (.inl h.sshConfig)
  refine ⟨size_eq_zero_iff.mpr hempty, fun c hc => ?_⟩
  by_contra hopen
  obtain (⟨addr, hcall⟩ | hstatic) | ⟨e, he, -⟩ :=
    h.inv.kept (List.getElem?_eq_getElem hc) hopen
  · have hdials := hcalls addr _ hcall
    cases hdials
  · rw [h.client] at hstatic
    cases hstatic
  · rw [hempty] at he
    cases he

end SshPoolRunLemmas

/-- In every reachable state: the pool is within its limit; a client that was
dialed and not closed is pooled under its address, unless the call that dialed it
has not put it in yet or it is the static connection; the size check of a full
pool removes an entry that no other is older than; and from the return of `Close`
on, until a `Configure` begins, nothing is pooled and every client is closed. -/
theorem pool_bounded_and_emptied {s : SshPoolState} (h : s.Reachable) :
    (s.size : Int) ≤ max 1 s.limit ∧
    (∀ c addr, s.dialed[c]? = some addr → c ∉ s.closed →
      s.Held c ∨ ∃ e, s.get addr = some e ∧ e.client = c) ∧
    (∀ v s', s.step (.makeRoom v) = some s' → s.limit ≤ s.size → 0 < s.size →
      ∃ k e, s.get k = some e ∧ (∀ k' e', s.get k' = some e' → e.lastUsed ≤ e'.lastUsed) ∧
        s'.toPool = s.remove k e) ∧
    ∀ s₁ s₂, s.mu = some (.close, .emptied) → s.step .dropConfig = some s₁ →
      Runs.Reach StepWithoutConfigure s₁ s₂ →
      s₂.size = 0 ∧ ∀ c < s₂.dialed.length, c ∈ s₂.closed := by
  have hinv := poolInv_reach h
  refine ⟨hinv.bound, fun c addr hd hc => hinv.kept hd hc, fun v s' hs hfull hpos => ?_,
    fun s₁ s₂ hmu hs hreach => ?_⟩
  · obtain ⟨addr, -, rfl⟩ := step_makeRoom hs
    obtain ⟨-, hroom | hempty⟩ | ⟨-, k, e, -, he, hmin, heq⟩ :=
      makeRoom_cases s.poolMaxSize v s.toPool
    · exact absurd hfull (not_le.mpr hroom)
    · exact absurd (size_eq_zero_iff.mpr hempty) hpos.ne'
    · exact ⟨k, e, he, hmin, heq⟩
  · exact (Runs.reach_invariant Shut (shut_dropConfig hinv hmu hs)
      (fun _ _ _ h hs => shut_step h hs) hreach).emptied

/-! ### A run -/

def db1 : DialAddr := joinHostPort "db1" 22

def db2 : DialAddr := joinHostPort "db2" 22

def configureRun (poolMaxSize poolTTL : Int) : List PoolEvent :=
  [.lockMu .configure, .lockCloseAll, .closeAll .stored, .dropConfig,
   .setConfig poolMaxSize poolTTL, .configureDynamic]

def dialRun (addr : DialAddr) : List PoolEvent :=
  [.lockCall addr, .lookUp true, .makeRoom .stored, .readConfig, .dial true, .insert]

/-- `Close` up to its return, while a second request waits to read `p.mu`. -/
def closingRun : List PoolEvent :=
  configureRun 2 0 ++ dialRun db1 ++
    [.lockMu .close, .lockCloseAll, .closeAll .stored, .lockCall db2, .lookUp true,
     .makeRoom .stored]

def closingState : SshPoolState := (SshPoolState.new.run closingRun).get (by decide +kernel)

/-- The request that waited finds no configuration. -/
theorem closing_run_emptied :
    closingState.Reachable ∧ closingState.dialed = [db1] ∧
      ∃ s₁ s₂, closingState.step .dropConfig = some s₁ ∧ s₁.step .readConfig = some s₂ ∧
        s₂.size = 0 ∧ ∀ c < s₂.dialed.length, c ∈ s₂.closed := by
  have hreach : closingState.Reachable := reachable_of_run (Option.some_get _).symm
  refine ⟨hreach, by decide +kernel, (closingState.step .dropConfig).get (by decide +kernel),
    (((closingState.step .dropConfig).get (by decide +kernel)).step .readConfig).get
      (by decide +kernel), (Option.some_get _).symm, (Option.some_get _).symm, ?_⟩
  exact (pool_bounded_and_emptied hreach).2.2.2 _ _ (by decide +kernel) (Option.some_get _).symm
    (.step .init ⟨(Option.some_get _).symm, nofun⟩)

/-! ## Clients in use -/

/-- An eviction or a cleanup. -/
def PoolEvent.discards : PoolEvent → Bool
  | .makeRoom _ | .cleanup _ => true
  | _ => false

/-- No unfinished request loses its client in the step. -/
def SparesUsers (s s' : SshPoolState) : Prop := ∀ c ∈ s.users, c ∈ s'.closed → c ∈ s.closed

/-- If a call is to check the size of a full pool, none of the oldest entries is
in use; if a cleanup is to run, no entry before its cutoff is. -/
def UsersRecent (s : SshPoolState) : Prop :=
  (∀ addr, s.poolMu = .call addr .missed → s.limit ≤ s.size → ∀ k e, s.get k = some e →
    (∀ k' e', s.get k' = some e' → e.lastUsed ≤ e'.lastUsed) → e.client ∉ s.users) ∧
  ∀ cutoff, s.poolMu = .cleanup cutoff → ∀ k e, s.get k = some e → e.lastUsed < cutoff →
    e.client ∉ s.users

namespace SshPoolRunLemmas

open SshPoolState

variable {s s' : SshPoolState}

theorem closed_of_oldest {addr : DialAddr} {k : DialAddr} {e : Entry}
    (hmu : s.poolMu = .call addr .missed) (hfull : s.limit ≤ s.size) (hk : s.get k = some e)
    (hmin : ∀ k' e', s.get k' = some e' → e.lastUsed ≤ e'.lastUsed) :
    ∃ s', s.step (.makeRoom (.first k)) = some s' ∧ e.client ∈ s'.closed := by
  refine ⟨_, by simp only [step, hmu]; rfl, ?_⟩
  obtain ⟨-, hroom | hempty⟩ | ⟨-, k', e', hold, he', -, heq⟩ :=
    makeRoom_cases s.poolMaxSize (.first k) s.toPool
  · exact absurd hfull (not_le.mpr hroom)
  · rw [hempty k] at hk
    cases hk
  · rw [exists_oldest hk hmin] at hold
    obtain rfl := Option.some.inj hold
    rw [hk] at he'
    obtain rfl := Option.some.inj he'
    show e.client ∈ (makeRoom s.poolMaxSize (.first k) s.toPool).closed
    rw [heq]
    exact List.mem_cons_self

theorem closed_of_expired {cutoff : Int} {k : DialAddr} {e : Entry}
    (hmu : s.poolMu = .cleanup cutoff) (hk : s.get k = some e) (hlt : e.lastUsed < cutoff) :
    ∃ s', s.step (.cleanup .stored) = some s' ∧ e.client ∈ s'.closed := by
  refine ⟨_, by simp only [step, hmu]; rfl, ?_⟩
  exact (mem_closed_removeWhere _ .stored s.toPool e.client).mpr
    (.inr ⟨k, e, hk, decide_eq_true hlt, rfl⟩)

theorem spares_makeRoom {v : Visit DialAddr} (h : UsersRecent s)
    (hs : s.step (.makeRoom v) = some s') : SparesUsers s s' := by
  obtain ⟨addr, hmu, rfl⟩ := step_makeRoom hs
  intro c hc hclosed
  change c ∈ (makeRoom s.poolMaxSize v s.toPool).closed at hclosed
  obtain ⟨heq, -⟩ | ⟨hfull, k, e, -, he, hmin, heq⟩ := makeRoom_cases s.poolMaxSize v s.toPool
  · rwa [heq] at hclosed
  · rw [heq] at hclosed
    refine (List.mem_cons.mp hclosed).resolve_left ?_
    rintro rfl
    exact h.1 addr hmu hfull k e he hmin hc

theorem spares_cleanup {v : Visit DialAddr} (h : UsersRecent s)
    (hs : s.step (.cleanup v) = some s') : SparesUsers s s' := by
  obtain ⟨cutoff, hmu, rfl⟩ := step_cleanup hs
  intro c hc hclosed
  refine ((mem_closed_removeWhere _ v s.toPool c).mp hclosed).resolve_right ?_
  rintro ⟨k, e, hk, hlt, rfl⟩
  exact h.2 cutoff hmu k e hk (of_decide_eq_true hlt) hc

end SshPoolRunLemmas

/-- In a reachable state every eviction and every cleanup that can come next
spares the clients of unfinished requests exactly if the pool's own record of
their use says so: it is the time at which a client was last handed out. -/
theorem users_spared_iff {s : SshPoolState} (h : s.Reachable) :
    (∀ ev s', ev.discards = true → s.step ev = some s' → SparesUsers s s') ↔ UsersRecent s := by
  have hfiled := (poolInv_reach h).filed
  constructor
  · intro hspare
    refine ⟨fun addr hmu hfull k e hk hmin huser => ?_, fun cutoff hmu k e hk hlt huser => ?_⟩
    · obtain ⟨s', hs, hclosed⟩ := closed_of_oldest hmu hfull hk hmin
      exact hfiled.isOpen hk (hspare _ s' rfl hs _ huser hclosed)
    · obtain ⟨s', hs, hclosed⟩ := closed_of_expired hmu hk hlt
      exact hfiled.isOpen hk (hspare _ s' rfl hs _ huser hclosed)
  · intro hrecent ev s' hev hs
    cases ev with
    | makeRoom v => exact spares_makeRoom hrecent hs
    | cleanup v => exact spares_cleanup hrecent hs
    | _ => cases hev

def crowdedRun (poolMaxSize : Int) : List PoolEvent :=
  configureRun poolMaxSize 0 ++ dialRun db1 ++ [.lockCall db2, .lookUp true]

def crowded : SshPoolState := (SshPoolState.new.run (crowdedRun 1)).get (by decide +kernel)

def roomy : SshPoolState := (SshPoolState.new.run (crowdedRun 2)).get (by decide +kernel)

/-- With room for both, the first request keeps its connection. -/
theorem users_spared_roomy :
    roomy.Reachable ∧ roomy.users = [0] ∧
      ∀ v s', roomy.step (.makeRoom v) = some s' → 0 ∉ s'.closed := by
  have hreach : roomy.Reachable := reachable_of_run (Option.some_get _).symm
  have hrecent : UsersRecent roomy := by
    refine ⟨fun _ _ hfull => absurd hfull (by decide +kernel), fun cutoff hmu => ?_⟩
    rw [show roomy.poolMu = .call db2 .missed by decide +kernel] at hmu
    cases hmu
  refine ⟨hreach, by decide +kernel, fun v s' hs hclosed => ?_⟩
  have hopen := (users_spared_iff hreach).mpr hrecent _ s' rfl hs 0 (by decide +kernel) hclosed
  exact absurd hopen (by decide +kernel)

/-- A pool of one: the call for the second host closes the client that the first
request is using. -/
theorem eviction_closes_used :
    crowded.Reachable ∧ crowded.users = [0] ∧ crowded.closed = [] ∧
      ∃ s', crowded.step (.makeRoom .stored) = some s' ∧ s'.users = [0] ∧ s'.closed = [0] := by
  refine ⟨reachable_of_run (Option.some_get _).symm, by decide +kernel, by decide +kernel,
    (crowded.step (.makeRoom .stored)).get (by decide +kernel), (Option.some_get _).symm, ?_⟩
  decide +kernel

end Forager
