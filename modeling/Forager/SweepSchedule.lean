import Forager.GoRange
import Forager.SweepOnce

/-!
# The hosts of a sweep do not depend on the schedule

`runSweep` of `pkg/proxy/discovery/sweep.go` is a feeder, a pool of workers, a goroutine that
closes `results` when the workers have returned, and the loop that receives the results into a
map. `sortHosts` then ranges over the map and sorts. The feeder and the workers are those of
`Forager.SweepRun`; here the other two are processes too, and each port of each address is
open or not.
-/

namespace Forager

open Go GoNet GoRange

/-! ## The system -/

inductive SweepCollector
  | receiving
  /-- Before the result is put into the map. -/
  | storing (ip : String) (found : List Int)
  | done
deriving DecidableEq, Repr

/-- The goroutines of `runSweep`. In `pool`, `hosts` is what the workers have sent. -/
structure SweepSystem where
  pool : SweepState
  resultsClosed : Bool
  collector : SweepCollector
  hosts : GoMap (List Int)

inductive SystemAct
  /-- A step of the feeder or of a worker; `deliver` needs the receiver too. -/
  | pool (a : SweepAct)
  | store
  /-- `wg.Wait` returns and `results` is closed. -/
  | close
  /-- The loop finds `results` closed. -/
  | finish
deriving DecidableEq, Repr

namespace SweepSystem

def new (workers : Int) (addrs : List String) : SweepSystem :=
  ⟨.new workers addrs, false, .receiving, ∅⟩

def step (ports : List Int) (y : SweepSystem) : SystemAct → SweepSystem
  | .pool (.deliver w) =>
    match y.pool.worker w, y.collector with
    | .sending ip found, .receiving =>
      { y with pool := sweepStep ports y.pool (.deliver w), collector := .storing ip found }
    | _, _ => y
  | .pool a => { y with pool := sweepStep ports y.pool a }
  | .store =>
    match y.collector with
    | .storing ip found => { y with hosts := y.hosts.insert ip found, collector := .receiving }
    | _ => y
  | .close => if y.pool.returned then { y with resultsClosed := true } else y
  | .finish =>
    if y.resultsClosed ∧ y.collector = .receiving then { y with collector := .done } else y

end SweepSystem

def systemRun (cfg : SweepConfig) (addrs : List String) (acts : List SystemAct) : SweepSystem :=
  Runs.Run (SweepSystem.step cfg.ports) (.new cfg.workers addrs) acts

/-- A probe of the worker may return `answered`. -/
def SweepWorker.finds (isOpen : String → Int → Bool) (answered : Bool) : SweepWorker → Prop
  | .dialing ip port _ _ => answered = isOpen ip port
  | .idle | .waiting _ _ _ _ | .sending _ _ | .exited => True

instance (isOpen : String → Int → Bool) (answered : Bool) :
    (p : SweepWorker) → Decidable (p.finds isOpen answered)
  | .dialing _ _ _ _ => inferInstanceAs (Decidable (_ = _))
  | .idle | .waiting _ _ _ _ | .sending _ _ | .exited => inferInstanceAs (Decidable True)

/-- A step without a cancellation and without an error of the limiter, by a worker of the
pool, in which a probe finds what `isOpen` says. -/
def Steady (isOpen : String → Int → Bool) (s : SweepState) : SweepAct → Prop
  | .cancel => False
  | .wait _ ok => ok = true
  | .dial w answered => (s.worker w).finds isOpen answered
  | .leave w => w < s.count
  | .hand _ | .deliver _ | .abandon _ | .stopFeed | .endFeed => True

instance (isOpen : String → Int → Bool) (s : SweepState) :
    (a : SweepAct) → Decidable (Steady isOpen s a)
  | .cancel => inferInstanceAs (Decidable False)
  | .wait _ _ => inferInstanceAs (Decidable (_ = _))
  | .dial w answered => inferInstanceAs (Decidable ((s.worker w).finds isOpen answered))
  | .leave _ => inferInstanceAs (Decidable (_ < _))
  | .hand _ | .deliver _ | .abandon _ | .stopFeed | .endFeed => inferInstanceAs (Decidable True)

def SteadyAct (isOpen : String → Int → Bool) (y : SweepSystem) : SystemAct → Prop
  | .pool a => Steady isOpen y.pool a
  | .store | .close | .finish => True

instance (isOpen : String → Int → Bool) (y : SweepSystem) :
    (a : SystemAct) → Decidable (SteadyAct isOpen y a)
  | .pool a => inferInstanceAs (Decidable (Steady isOpen y.pool a))
  | .store | .close | .finish => inferInstanceAs (Decidable True)

def SteadyRun (cfg : SweepConfig) (addrs : List String) (isOpen : String → Int → Bool)
    (acts : List SystemAct) : Prop :=
  ∀ pre a, pre ++ [a] <+: acts → SteadyAct isOpen (systemRun cfg addrs pre) a

/-- `SweepHost` before it is enriched. -/
structure SweepHost where
  ip : String
  openPorts : List Int
  sources : List String
deriving DecidableEq, Repr

def compareAddr : Addr → Addr → Ordering
  | .v4 m, .v4 n => compare m.toNat n.toNat
  | .v4 _, .v6 _ _ => .lt
  | .v6 _ _, .v4 _ => .gt
  | .v6 m zone, .v6 n zone' => (compare m.toNat n.toNat).then (compare zone zone')

def hostLess (a b : SweepHost) : Bool :=
  match parseAddr a.ip, parseAddr b.ip with
  | some m, some n => compareAddr m n = .lt
  | some _, none => true
  | none, some _ => false
  | none, none => a.ip < b.ip

/-- What the comparator of `sortHosts` compares. -/
def hostKey (h : SweepHost) : Lex (ℕ × Lex (ℕ × String)) :=
  match parseAddr h.ip with
  | some (.v4 n) => toLex (32, toLex (n.toNat, ""))
  | some (.v6 n zone) => toLex (128, toLex (n.toNat, zone))
  | none => toLex (129, toLex (0, h.ip))

theorem hostLess_compares : Compares hostLess hostKey := by
  intro a b
  rw [hostLess, hostKey, hostKey]
  cases parseAddr a.ip with
  | none =>
    cases parseAddr b.ip with
    | none => simp [Prod.Lex.toLex_lt_toLex]
    | some n => cases n <;> simp [Prod.Lex.toLex_lt_toLex]
  | some m =>
    cases parseAddr b.ip with
    | none => cases m <;> simp [Prod.Lex.toLex_lt_toLex]
    | some n =>
      cases m <;> cases n <;>
        simp [Prod.Lex.toLex_lt_toLex, compareAddr, Ordering.then_eq_lt, compare_lt_iff_lt]

/-- `sortHosts`, with the order of its `range` and of its sort. -/
def sortHosts (range : Visit String) (sorter : Sorter hostLess) (hosts : GoMap (List Int)) :
    List SweepHost :=
  sorter.sort ((range.visit hosts.keys).map fun ip =>
    ⟨ip, (hosts.lookup ip).getD [], ["tcp"]⟩)

/-- The ports of the address that are open, in the order of the configuration. -/
def openAmong (isOpen : String → Int → Bool) (ports : List Int) (ip : String) : List Int :=
  ports.filter (isOpen ip)

/-- The address of `a` is below that of `b`. -/
def Below (a b : SweepHost) : Prop :=
  ∃ m n : BitVec 32, a.ip = string4 m ∧ b.ip = string4 n ∧ m < n

/-- The hosts are those of the addresses with an open port, one for each, with the open ports
in their order, and their addresses ascend. -/
structure SweepAnswer (isOpen : String → Int → Bool) (ports : List Int) (addrs : List String)
    (hosts : List SweepHost) : Prop where
  ascending : hosts.Pairwise Below
  mem_iff : ∀ h, h ∈ hosts ↔ h.ip ∈ addrs ∧ openAmong isOpen ports h.ip ≠ [] ∧
    h.openPorts = openAmong isOpen ports h.ip ∧ h.sources = ["tcp"]

/-! ## Steps of the pool -/

namespace SweepScheduleLemmas

variable {addrs : List String} {ports : List Int} {isOpen : String → Int → Bool}
  {s s' : SweepState} {a : SweepAct} {w : Nat} {p : SweepWorker} {ip : String} {found : List Int}

inductive PoolStep (ports : List Int) (isOpen : String → Int → Bool) (s : SweepState) :
    SweepState → Prop
  | hand {w : Nat} {ip : String} {rest : List String} (hw : w < s.count)
      (hidle : s.worker w = .idle) (hfeed : s.feed = ip :: rest) :
      PoolStep ports isOpen s ({ s with feed := rest }.goto w (nextPort ip ports []))
  | leave {w : Nat} (hw : w < s.count) (hidle : s.worker w = .idle) (hclosed : s.closed) :
      PoolStep ports isOpen s (s.goto w .exited)
  | wait {w : Nat} {ip : String} {port : Int} {rest found : List Int}
      (hwait : s.worker w = .waiting ip port rest found) :
      PoolStep ports isOpen s (s.goto w (.dialing ip port rest found))
  | dial {w : Nat} {ip : String} {port : Int} {rest found : List Int}
      (hdial : s.worker w = .dialing ip port rest found) :
      PoolStep ports isOpen s ({ s with probes := s.probes ++ [(ip, port)] }.goto w
        (nextPort ip rest (if isOpen ip port then found ++ [port] else found)))
  | deliver {w : Nat} {ip : String} {found : List Int} (hsend : s.worker w = .sending ip found) :
      PoolStep ports isOpen s ({ s with hosts := s.hosts.insert ip found }.goto w .idle)
  | endFeed (hfeed : s.feed = []) (hopen : s.closed = false) :
      PoolStep ports isOpen s { s with closed := true }

/-- A steady step leaves the pool as it is or is one of these. -/
theorem pool_step (hlive : s.cancelled = false) (hok : Steady isOpen s a) :
    sweepStep ports s a = s ∨ PoolStep ports isOpen s (sweepStep ports s a) := by
  have hcancelled : ¬ s.cancelled = true := Bool.eq_false_iff.mp hlive
  refine SweepRunLemmas.of_sweepStep (P := fun s' => s' = s ∨ PoolStep ports isOpen s s')
    (.inl rfl) fun s' hmove => ?_
  cases hmove with
  | hand hw _ hidle hfeed => exact .inr (.hand hw hidle hfeed)
  | leave hidle hclosed => exact .inr (.leave hok hidle hclosed)
  | pass hwait => exact .inr (.wait hwait)
  | refuse => cases hok
  | @probe w answered ip port rest found hdial =>
    have hfinds : (s.worker w).finds isOpen answered := hok
    rw [hdial] at hfinds
    rw [show answered = isOpen ip port from hfinds]
    exact .inr (.dial hdial)
  | deliver hsend => exact .inr (.deliver hsend)
  | skip _ hc => exact absurd hc hcancelled
  | abandon _ hc => exact absurd hc hcancelled
  | stopFeed hc => exact absurd hc hcancelled
  | cancel => exact hok.elim
  | endFeed hfeed =>
    cases hclosed : s.closed with
    | true => exact .inl (by rw [← hclosed])
    | false => exact .inr (.endFeed hfeed hclosed)

/-! ## What the workers have found -/

def holds : SweepWorker → Option String
  | .waiting ip _ _ _ | .dialing ip _ _ _ | .sending ip _ => some ip
  | .idle | .exited => none

/-- The worker has found the open ports among those it has probed. -/
def WorkerOk (addrs : List String) (ports : List Int) (isOpen : String → Int → Bool) :
    SweepWorker → Prop
  | .waiting ip port rest found | .dialing ip port rest found =>
    ip ∈ addrs ∧ ∃ probed, ports = probed ++ port :: rest ∧ found = openAmong isOpen probed ip
  | .sending ip found => ip ∈ addrs ∧ found = openAmong isOpen ports ip ∧ found ≠ []
  | .idle | .exited => True

theorem workerOk_nextPort {rest probed : List Int} (hip : ip ∈ addrs)
    (hports : ports = probed ++ rest) :
    WorkerOk addrs ports isOpen (nextPort ip rest (openAmong isOpen probed ip)) := by
  cases rest with
  | cons port rest => exact ⟨hip, probed, hports, rfl⟩
  | nil =>
    rw [List.append_nil] at hports
    subst hports
    unfold nextPort
    dsimp only
    split
    · trivial
    · next hne => exact ⟨hip, rfl, fun hnil => hne (List.isEmpty_iff.mpr hnil)⟩

/-- The address is with the worker until the last port is probed, and longer if one is open. -/
theorem holds_nextPort {rest probed : List Int} (hports : ports = probed ++ rest)
    (hopen : openAmong isOpen ports ip ≠ []) :
    holds (nextPort ip rest (openAmong isOpen probed ip)) = some ip := by
  cases rest with
  | cons port rest => rfl
  | nil =>
    rw [List.append_nil] at hports
    subst hports
    unfold nextPort
    dsimp only
    rw [if_neg (fun hempty => hopen (List.isEmpty_iff.mp hempty))]
    rfl

theorem openAmong_snoc (probed : List Int) (port : Int) :
    (if isOpen ip port then openAmong isOpen probed ip ++ [port] else openAmong isOpen probed ip)
      = openAmong isOpen (probed ++ [port]) ip := by
  unfold openAmong
  rw [List.filter_append]
  split
  next h => rw [List.filter_cons_of_pos h, List.filter_nil]
  next h => rw [List.filter_cons_of_neg h, List.filter_nil, List.append_nil]

/-- The state of an undisturbed pool. -/
structure Scanned (addrs : List String) (ports : List Int) (isOpen : String → Int → Bool)
    (s : SweepState) : Prop where
  live : s.cancelled = false
  feed : ∀ ip ∈ s.feed, ip ∈ addrs
  closed : s.closed → s.feed = []
  exits : ∀ w, s.worker w = .exited → s.closed
  pool : ∀ w, s.worker w ≠ .idle → w < s.count
  work : ∀ w, WorkerOk addrs ports isOpen (s.worker w)
  sent : ∀ ip found, s.hosts.lookup ip = some found →
    ip ∈ addrs ∧ found = openAmong isOpen ports ip ∧ found ≠ []
  /-- An address with an open port is still to be handed out, with a worker, or sent. -/
  kept : ∀ ip ∈ addrs, openAmong isOpen ports ip ≠ [] →
    ip ∈ s.feed ∨ (∃ w, holds (s.worker w) = some ip) ∨ ip ∈ s.hosts

theorem Scanned.goto (h : Scanned addrs ports isOpen s) (hw : w < s.count)
    (hcount : s'.count = s.count) (hworker : s'.worker = Function.update s.worker w p)
    (hclosed : s'.closed = s.closed) (hcancelled : s'.cancelled = s.cancelled)
    (hfeed : s'.feed <:+ s.feed) (hexit : p = .exited → s.closed)
    (hp : WorkerOk addrs ports isOpen p)
    (hsent : ∀ ip found, s'.hosts.lookup ip = some found →
      ip ∈ addrs ∧ found = openAmong isOpen ports ip ∧ found ≠ [])
    (hkept : ∀ ip ∈ addrs, openAmong isOpen ports ip ≠ [] →
      ip ∈ s.feed ∨ holds (s.worker w) = some ip ∨ ip ∈ s.hosts →
        ip ∈ s'.feed ∨ holds p = some ip ∨ ip ∈ s'.hosts) :
    Scanned addrs ports isOpen s' where
  live := hcancelled.trans h.live
  feed ip hip := h.feed ip (hfeed.subset hip)
  closed hc := List.suffix_nil.mp (h.closed (hclosed ▸ hc) ▸ hfeed)
  exits v hv := by
    rw [hworker] at hv
    rw [hclosed]
    rcases Runs.of_update_eq hv with ⟨-, hp⟩ | ⟨-, hold⟩
    · exact hexit hp
    · exact h.exits v hold
  pool v hv := by
    rw [hworker] at hv
    rw [hcount]
    rcases Runs.of_update (· ≠ SweepWorker.idle) hv with ⟨rfl, -⟩ | ⟨-, hold⟩
    · exact hw
    · exact h.pool v hold
  work v := by
    rw [hworker]
    rcases eq_or_ne v w with rfl | hne
    · rwa [Function.update_self]
    · rw [Function.update_of_ne hne]
      exact h.work v
  sent := hsent
  kept ip hip hopen := by
    have hmoved : ip ∈ s'.feed ∨ holds p = some ip ∨ ip ∈ s'.hosts →
        ip ∈ s'.feed ∨ (∃ w, holds (s'.worker w) = some ip) ∨ ip ∈ s'.hosts := by
      refine Or.imp_right (Or.imp_left fun hp => ⟨w, ?_⟩)
      rwa [hworker, Function.update_self]
    rcases h.kept ip hip hopen with hf | ⟨v, hv⟩ | hs
    · exact hmoved (hkept ip hip hopen (.inl hf))
    · rcases eq_or_ne v w with rfl | hne
      · exact hmoved (hkept ip hip hopen (.inr (.inl hv)))
      · refine .inr (.inl ⟨v, ?_⟩)
        rwa [hworker, Function.update_of_ne hne]
    · exact hmoved (hkept ip hip hopen (.inr (.inr hs)))

/-- What the workers have found so far is right, and no address with an open port is lost. -/
theorem scanned_step (h : Scanned addrs ports isOpen s) (hstep : PoolStep ports isOpen s s') :
    Scanned addrs ports isOpen s' := by
  cases hstep with
  | @hand w ip rest hw hidle hfeed =>
    have hsuffix : rest <:+ s.feed := hfeed ▸ List.suffix_cons ip rest
    have hip : ip ∈ addrs := h.feed ip (hfeed ▸ List.mem_cons_self)
    have hok : WorkerOk addrs ports isOpen (nextPort ip ports (openAmong isOpen [] ip)) :=
      workerOk_nextPort hip rfl
    refine h.goto hw rfl rfl rfl rfl hsuffix (fun he => absurd he SweepRunLemmas.nextPort_ne_exited)
      hok h.sent fun ip' _ hopen hwhere => ?_
    rw [hidle, hfeed, List.mem_cons] at hwhere
    rcases hwhere with (rfl | hrest) | hnone | hs
    · have hholds : holds (nextPort ip' ports (openAmong isOpen [] ip')) = some ip' :=
        holds_nextPort rfl hopen
      exact .inr (.inl hholds)
    · exact .inl hrest
    · cases hnone
    · exact .inr (.inr hs)
  | @leave w hw hidle hclosed =>
    refine h.goto hw rfl rfl rfl rfl List.suffix_rfl (fun _ => hclosed) trivial h.sent
      fun ip' _ _ hwhere => ?_
    rw [hidle] at hwhere
    exact hwhere.imp_right (Or.imp_left nofun)
  | @wait w ip port rest found hwait =>
    have hw : w < s.count := h.pool w (by rw [hwait]; nofun)
    have hok := h.work w
    rw [hwait] at hok
    refine h.goto hw rfl rfl rfl rfl List.suffix_rfl nofun hok h.sent fun ip' _ _ hwhere => ?_
    rwa [hwait] at hwhere
  | @dial w ip port rest found hdial =>
    have hw : w < s.count := h.pool w (by rw [hdial]; nofun)
    have hok := h.work w
    rw [hdial] at hok
    obtain ⟨hip, probed, hports, rfl⟩ := hok
    have hports' : ports = (probed ++ [port]) ++ rest := by
      rw [hports, List.append_assoc, List.singleton_append]
    rw [openAmong_snoc]
    refine h.goto hw rfl rfl rfl rfl List.suffix_rfl
      (fun he => absurd he SweepRunLemmas.nextPort_ne_exited) (workerOk_nextPort hip hports')
      h.sent fun ip' _ hopen hwhere => ?_
    rw [hdial] at hwhere
    refine hwhere.imp_right (Or.imp_left fun hsome => ?_)
    cases hsome
    exact holds_nextPort hports' hopen
  | @deliver w ip found hsend =>
    have hw : w < s.count := h.pool w (by rw [hsend]; nofun)
    have hok := h.work w
    rw [hsend] at hok
    refine h.goto hw rfl rfl rfl rfl List.suffix_rfl nofun trivial (fun ip' found' hl => ?_)
      fun ip' _ _ hwhere => ?_
    · rcases eq_or_ne ip' ip with rfl | hne
      · have hfound := (AList.lookup_insert s.hosts).symm.trans hl
        exact Option.some.inj hfound ▸ hok
      · exact h.sent ip' found' ((AList.lookup_insert_ne hne).symm.trans hl)
    · rw [hsend] at hwhere
      refine hwhere.imp_right fun hwhere => .inr ((AList.mem_insert _).mpr ?_)
      exact hwhere.imp_left fun hsome => (Option.some.inj hsome).symm
  | endFeed hfeed hopen =>
    exact ⟨h.live, h.feed, fun _ => hfeed, fun _ _ => rfl, h.pool, h.work, h.sent, h.kept⟩

/-! ## Progress -/

/-- What the worker has still to do, counted in steps. A result is sent and stored. -/
def weight : SweepWorker → Nat
  | .exited => 0
  | .idle => 1
  | .sending _ _ => 3
  | .dialing _ _ rest _ => 2 * rest.length + 4
  | .waiting _ _ rest _ => 2 * rest.length + 5

theorem weight_nextPort (ip : String) (rest found : List Int) :
    weight (nextPort ip rest found) ≤ 2 * rest.length + 3 := by
  cases rest with
  | cons port rest => exact Nat.le_of_eq (by simp only [nextPort, weight, List.length_cons]; omega)
  | nil =>
    unfold nextPort
    dsimp only
    split
    · exact Nat.le_add_left 1 2
    · exact Nat.le_refl 3

def left (ports : List Int) (s : SweepState) : Nat :=
  s.feed.length * (2 * ports.length + 3) + (if s.closed then 0 else 1) +
    ∑ w ∈ Finset.range s.count, weight (s.worker w)

/-- A step of worker `w` that takes `k` steps off what it and the feeder have to do. -/
theorem left_goto (k : Nat) (hw : w < s.count) (hcount : s'.count = s.count)
    (hworker : s'.worker = Function.update s.worker w p) (hclosed : s'.closed = s.closed)
    (hless : s'.feed.length * (2 * ports.length + 3) + weight p + k ≤
      s.feed.length * (2 * ports.length + 3) + weight (s.worker w)) :
    left ports s' + k ≤ left ports s := by
  have hsum := SweepOnceLemmas.sum_goto weight hw p
  unfold left
  rw [hcount, hworker, hclosed]
  omega

/-- A delivery counts twice, since the result is then stored. -/
theorem left_deliver (ports : List Int) (hw : w < s.count)
    (hsend : s.worker w = .sending ip found) :
    left ports ({ s with hosts := s.hosts.insert ip found }.goto w .idle) + 2 ≤ left ports s := by
  refine left_goto 2 hw rfl rfl rfl ?_
  rw [hsend]
  exact Nat.le_refl _

theorem left_step (h : Scanned addrs ports isOpen s) (hstep : PoolStep ports isOpen s s') :
    left ports s' < left ports s := by
  cases hstep with
  | @hand w ip rest hw hidle hfeed =>
    refine left_goto 1 hw rfl rfl rfl ?_
    have hweight : weight (nextPort ip ports []) ≤ 2 * ports.length + 3 := weight_nextPort ..
    have hfeeder : s.feed.length * (2 * ports.length + 3) =
        rest.length * (2 * ports.length + 3) + (2 * ports.length + 3) := by
      rw [hfeed, List.length_cons, Nat.succ_mul]
    rw [hidle, hfeeder]
    show rest.length * _ + weight (nextPort ip ports []) + 1 ≤ _ + 1
    omega
  | @leave w hw hidle hclosed =>
    refine left_goto 1 hw rfl rfl rfl ?_
    rw [hidle]
    exact Nat.le_refl _
  | @wait w ip port rest found hwait =>
    refine left_goto 1 (h.pool w (by rw [hwait]; nofun)) rfl rfl rfl ?_
    rw [hwait]
    exact Nat.le_refl _
  | @dial w ip port rest found hdial =>
    refine left_goto 1 (h.pool w (by rw [hdial]; nofun)) rfl rfl rfl ?_
    rw [hdial]
    exact Nat.add_le_add_left (Nat.succ_le_succ (weight_nextPort ip rest _)) _
  | @deliver w ip found hsend =>
    have hw : w < s.count := h.pool w (by rw [hsend]; nofun)
    exact Nat.lt_of_succ_lt (left_deliver ports hw hsend)
  | endFeed hfeed hopen =>
    unfold left
    rw [hopen]
    simp

theorem exists_progress (h : Scanned addrs ports isOpen s) (hret : s.returned = false) :
    ∃ a, Steady isOpen s a ∧ PoolStep ports isOpen s (sweepStep ports s a) := by
  obtain ⟨w, hw, hexited⟩ : ∃ w < s.count, s.worker w ≠ .exited := by
    simpa [SweepState.returned] using hret
  cases hp : s.worker w with
  | exited => exact absurd hp hexited
  | waiting ip port rest found =>
    refine ⟨.wait w true, rfl, ?_⟩
    simp only [sweepStep, hp]
    exact .wait hp
  | dialing ip port rest found =>
    refine ⟨.dial w (isOpen ip port), ?_, ?_⟩
    · show (s.worker w).finds isOpen (isOpen ip port)
      rw [hp]
      rfl
    · simp only [sweepStep, hp]
      rw [if_neg (Bool.eq_false_iff.mp h.live)]
      exact .dial hp
  | sending ip found =>
    refine ⟨.deliver w, trivial, ?_⟩
    simp only [sweepStep, hp]
    exact .deliver hp
  | idle =>
    cases hclosed : s.closed with
    | true =>
      refine ⟨.leave w, hw, ?_⟩
      simp only [sweepStep]
      rw [if_pos ⟨hp, hclosed⟩]
      exact .leave hw hp hclosed
    | false =>
      cases hfeed : s.feed with
      | nil =>
        refine ⟨.endFeed, trivial, ?_⟩
        simp only [sweepStep]
        rw [if_pos (List.isEmpty_iff.mpr hfeed)]
        exact .endFeed hfeed hclosed
      | cons ip rest =>
        refine ⟨.hand w, trivial, ?_⟩
        simp only [sweepStep, hp, hfeed]
        rw [if_pos ⟨hw, hclosed⟩]
        exact .hand hw hp hfeed

/-! ## The system -/

variable {y y' : SweepSystem} {act : SystemAct}

inductive SystemStep (ports : List Int) (isOpen : String → Int → Bool) (y : SweepSystem) :
    SweepSystem → Prop
  | pool {s' : SweepState} (hstep : PoolStep ports isOpen y.pool s')
      (hhosts : s'.hosts = y.pool.hosts) : SystemStep ports isOpen y { y with pool := s' }
  | deliver {w : Nat} {ip : String} {found : List Int} (hsend : y.pool.worker w = .sending ip found)
      (hreceiving : y.collector = .receiving) :
      SystemStep ports isOpen y { y with
        pool := { y.pool with hosts := y.pool.hosts.insert ip found }.goto w .idle
        collector := .storing ip found }
  | store {ip : String} {found : List Int} (hstoring : y.collector = .storing ip found) :
      SystemStep ports isOpen y { y with
        hosts := y.hosts.insert ip found, collector := .receiving }
  | close (hret : y.pool.returned) (hopen : y.resultsClosed = false) :
      SystemStep ports isOpen y { y with resultsClosed := true }
  | finish (hclosed : y.resultsClosed) (hreceiving : y.collector = .receiving) :
      SystemStep ports isOpen y { y with collector := .done }

theorem hosts_step (hdeliver : ∀ w, a ≠ .deliver w) : (sweepStep ports s a).hosts = s.hosts := by
  refine SweepRunLemmas.of_sweepStep (P := fun s' => s'.hosts = s.hosts) rfl fun s' hmove => ?_
  cases hmove with
  | deliver => exact absurd rfl (hdeliver _)
  | hand | leave | pass | refuse | probe | skip | abandon | cancel | stopFeed | endFeed => rfl

/-- A step of the pool other than a delivery is one of the system. -/
theorem step_pool (hdeliver : ∀ w, a ≠ .deliver w) :
    y.step ports (.pool a) = { y with pool := sweepStep ports y.pool a } := by
  cases a with
  | deliver w => exact absurd rfl (hdeliver w)
  | hand | leave | wait | dial | abandon | cancel | stopFeed | endFeed => rfl

/-- With a receiver ready, the pool takes each of its steps. -/
theorem pool_of_step (ports : List Int) (a : SweepAct) (hreceiving : y.collector = .receiving) :
    (y.step ports (.pool a)).pool = sweepStep ports y.pool a := by
  cases a with
  | deliver w =>
    simp only [SweepSystem.step, hreceiving]
    split
    next => rfl
    next hnot =>
      simp only [sweepStep]
      split
      next ip found hsend => exact absurd rfl (hnot ip found hsend)
      next => rfl
  | hand | leave | wait | dial | abandon | cancel | stopFeed | endFeed => rfl

/-- A step of the system leaves the pool as it is or is one of the pool. -/
theorem pool_of_step_cases (ports : List Int) (y : SweepSystem) (act : SystemAct) :
    (y.step ports act).pool = y.pool ∨ ∃ a, (y.step ports act).pool = sweepStep ports y.pool a := by
  cases act with
  | pool a =>
    by_cases hdeliver : ∃ w, a = .deliver w
    · obtain ⟨w, rfl⟩ := hdeliver
      simp only [SweepSystem.step]
      split
      · exact .inr ⟨.deliver w, rfl⟩
      · exact .inl rfl
    · exact .inr ⟨a, by rw [step_pool fun w h => hdeliver ⟨w, h⟩]⟩
  | store | close | finish =>
    simp only [SweepSystem.step]
    split <;> exact .inl rfl

theorem system_step (hlive : y.pool.cancelled = false) (hok : SteadyAct isOpen y act) :
    y.step ports act = y ∨ SystemStep ports isOpen y (y.step ports act) := by
  cases act with
  | pool a =>
    by_cases hdeliver : ∃ w, a = .deliver w
    · obtain ⟨w, rfl⟩ := hdeliver
      simp only [SweepSystem.step]
      split
      next ip found hsend hreceiving =>
        simp only [sweepStep, hsend]
        exact .inr (.deliver hsend hreceiving)
      next => exact .inl rfl
    · have hdeliver : ∀ w, a ≠ .deliver w := fun w h => hdeliver ⟨w, h⟩
      rw [step_pool hdeliver]
      rcases pool_step hlive hok with hsame | hstep
      · exact .inl (by rw [hsame])
      · exact .inr (.pool hstep (hosts_step hdeliver))
  | store =>
    simp only [SweepSystem.step]
    split
    next ip found hstoring => exact .inr (.store hstoring)
    next => exact .inl rfl
  | close =>
    simp only [SweepSystem.step]
    split
    next hret =>
      cases hopen : y.resultsClosed with
      | true => exact .inl (by rw [← hopen])
      | false => exact .inr (.close hret hopen)
    next => exact .inl rfl
  | finish =>
    simp only [SweepSystem.step]
    split
    next hg => exact .inr (.finish hg.1 hg.2)
    next => exact .inl rfl

/-- The map once the collector has stored what it holds. -/
def absorb : SweepCollector → GoMap (List Int) → GoMap (List Int)
  | .storing ip found, hosts => hosts.insert ip found
  | .receiving, hosts | .done, hosts => hosts

/-- The state of an undisturbed sweep. -/
structure SystemOk (addrs : List String) (ports : List Int) (isOpen : String → Int → Bool)
    (y : SweepSystem) : Prop where
  pool : Scanned addrs ports isOpen y.pool
  stored : y.pool.hosts = absorb y.collector y.hosts
  closed : y.resultsClosed → y.pool.returned
  done : y.collector = .done → y.resultsClosed

theorem exited_of_returned (hret : s.returned) (hw : w < s.count) : s.worker w = .exited :=
  of_decide_eq_true (List.all_eq_true.mp hret w (List.mem_range.mpr hw))

theorem returned_step (h : Scanned addrs ports isOpen s) (hstep : PoolStep ports isOpen s s')
    (hret : s.returned) : s'.returned := by
  have hmoves {w : Nat} (hne : s.worker w ≠ .exited) (hw : w < s.count) : False :=
    hne (exited_of_returned hret hw)
  cases hstep with
  | hand hw hidle => exact (hmoves (by rw [hidle]; nofun) hw).elim
  | leave hw hidle => exact (hmoves (by rw [hidle]; nofun) hw).elim
  | @wait w _ _ _ _ hwait =>
    exact (hmoves (by rw [hwait]; nofun) (h.pool w (by rw [hwait]; nofun))).elim
  | @dial w _ _ _ _ hdial =>
    exact (hmoves (by rw [hdial]; nofun) (h.pool w (by rw [hdial]; nofun))).elim
  | @deliver w _ _ hsend =>
    exact (hmoves (by rw [hsend]; nofun) (h.pool w (by rw [hsend]; nofun))).elim
  | endFeed => exact hret

theorem systemOk_step (h : SystemOk addrs ports isOpen y)
    (hstep : SystemStep ports isOpen y y') : SystemOk addrs ports isOpen y' := by
  cases hstep with
  | pool hstep hhosts =>
    exact ⟨scanned_step h.pool hstep, hhosts.trans h.stored,
      fun hc => returned_step h.pool hstep (h.closed hc), h.done⟩
  | @deliver w ip found hsend hreceiving =>
    have hstep : PoolStep ports isOpen y.pool _ := .deliver hsend
    refine ⟨scanned_step h.pool hstep, ?_, fun hc => ?_, nofun⟩
    · show y.pool.hosts.insert ip found = y.hosts.insert ip found
      rw [h.stored, hreceiving]
      rfl
    · exact returned_step h.pool hstep (h.closed hc)
  | store hstoring =>
    refine ⟨h.pool, ?_, h.closed, nofun⟩
    rw [h.stored, hstoring]
    rfl
  | close hret => exact ⟨h.pool, h.stored, fun _ => hret, fun _ => rfl⟩
  | finish hclosed hreceiving =>
    refine ⟨h.pool, ?_, h.closed, fun _ => hclosed⟩
    rw [h.stored, hreceiving]
    rfl

def collectorWeight : SweepCollector → Nat
  | .receiving => 1
  | .storing _ _ => 2
  | .done => 0

def systemLeft (ports : List Int) (y : SweepSystem) : Nat :=
  left ports y.pool + (if y.resultsClosed then 0 else 1) + collectorWeight y.collector

theorem systemLeft_step (h : SystemOk addrs ports isOpen y)
    (hstep : SystemStep ports isOpen y y') : systemLeft ports y' < systemLeft ports y := by
  unfold systemLeft
  cases hstep with
  | pool hstep =>
    have hless := left_step h.pool hstep
    dsimp only
    omega
  | @deliver w ip found hsend hreceiving =>
    have hw : w < y.pool.count := h.pool.pool w (by rw [hsend]; nofun)
    have hless := left_deliver ports hw hsend
    rw [hreceiving]
    simp only [collectorWeight]
    omega
  | store hstoring =>
    rw [hstoring]
    exact Nat.lt_succ_self _
  | close hret hopen =>
    rw [hopen]
    simp
  | finish hclosed hreceiving =>
    rw [hreceiving]
    exact Nat.lt_succ_self _

theorem system_progress (h : SystemOk addrs ports isOpen y) (hdone : y.collector ≠ .done) :
    ∃ act, SteadyAct isOpen y act ∧ SystemStep ports isOpen y (y.step ports act) := by
  cases hc : y.collector with
  | done => exact absurd hc hdone
  | storing ip found =>
    refine ⟨.store, trivial, ?_⟩
    simp only [SweepSystem.step, hc]
    exact .store hc
  | receiving =>
    cases hret : y.pool.returned with
    | true =>
      cases hopen : y.resultsClosed with
      | true =>
        refine ⟨.finish, trivial, ?_⟩
        simp only [SweepSystem.step]
        rw [if_pos ⟨hopen, hc⟩]
        exact .finish hopen hc
      | false =>
        refine ⟨.close, trivial, ?_⟩
        simp only [SweepSystem.step]
        rw [if_pos hret]
        exact .close hret hopen
    | false =>
      obtain ⟨a, hok, hstep⟩ := exists_progress h.pool hret
      have hact : SteadyAct isOpen y (.pool a) := hok
      refine ⟨.pool a, hact, (system_step h.pool.live hact).resolve_left fun hsame => ?_⟩
      have hless := left_step h.pool hstep
      rw [← pool_of_step ports a hc, hsame] at hless
      exact Nat.lt_irrefl _ hless

/-! ## Runs -/

variable {cfg : SweepConfig} {acts : List SystemAct}
variable {hosts : GoMap (List Int)}

theorem systemOk_run (h : SteadyRun cfg addrs isOpen acts) :
    SystemOk addrs cfg.ports isOpen (systemRun cfg addrs acts) := by
  refine Runs.run_invariant
    (fun as => SystemOk addrs cfg.ports isOpen (systemRun cfg addrs as))
    (fun pre a => SteadyAct isOpen (systemRun cfg addrs pre) a) ?_ (fun pre a ha hpre => ?_) h
  · refine ⟨⟨rfl, fun _ hip => hip, nofun, nofun, fun _ h => absurd rfl h, fun _ => trivial,
      fun ip found hl => ?_, fun ip hip _ => .inl hip⟩, rfl, nofun, nofun⟩
    cases hl
  · rw [systemRun, Runs.run_snoc, ← systemRun]
    rcases system_step hpre.pool.live ha with hsame | hstep
    · rwa [hsame]
    · exact systemOk_step hpre hstep

/-- The feeder and the workers take a run of `Forager.SweepRun`. -/
theorem pool_run (cfg : SweepConfig) (addrs : List String) (acts : List SystemAct) :
    ∃ acts', (systemRun cfg addrs acts).pool = sweepRun cfg addrs acts' := by
  induction acts using List.reverseRecOn with
  | nil => exact ⟨[], rfl⟩
  | append_singleton acts act ih =>
    obtain ⟨acts', hacts⟩ := ih
    rw [systemRun, Runs.run_snoc, ← systemRun]
    rcases pool_of_step_cases cfg.ports (systemRun cfg addrs acts) act with hsame | ⟨a, ha⟩
    · exact ⟨acts', hsame.trans hacts⟩
    · refine ⟨acts' ++ [a], ?_⟩
      rw [ha, hacts, sweepRun, sweepRun, Runs.run_snoc]

theorem feed_of_returned
    (h : SystemOk addrs cfg.ports isOpen (systemRun cfg addrs acts)) (hworkers : 0 < cfg.workers)
    (hret : (systemRun cfg addrs acts).pool.returned) :
    (systemRun cfg addrs acts).pool.feed = [] := by
  rcases eq_or_ne addrs [] with rfl | hne
  · exact List.eq_nil_iff_forall_not_mem.mpr fun ip hip => List.not_mem_nil (h.pool.feed ip hip)
  · have hpos : 0 < (systemRun cfg addrs acts).pool.count := by
      obtain ⟨acts', hacts⟩ := pool_run cfg addrs acts
      have hlength := List.length_pos_iff.mpr hne
      rw [hacts, SweepRunLemmas.count_run]
      omega
    exact h.pool.closed (h.pool.exits 0 (exited_of_returned hret hpos))

/-- The map of a complete sweep. -/
theorem lookup_of_done (hacts : SteadyRun cfg addrs isOpen acts) (hworkers : 0 < cfg.workers)
    (hdone : (systemRun cfg addrs acts).collector = .done) (ip : String) (found : List Int) :
    (systemRun cfg addrs acts).hosts.lookup ip = some found ↔
      ip ∈ addrs ∧ found = openAmong isOpen cfg.ports ip ∧ found ≠ [] := by
  have h := systemOk_run hacts
  have hret := h.closed (h.done hdone)
  have hhosts : (systemRun cfg addrs acts).pool.hosts = (systemRun cfg addrs acts).hosts := by
    rw [h.stored, hdone]
    rfl
  rw [← hhosts]
  refine ⟨h.pool.sent ip found, ?_⟩
  rintro ⟨hip, rfl, hopen⟩
  rcases h.pool.kept ip hip hopen with hfeed | ⟨w, hw⟩ | hsent
  · rw [feed_of_returned h hworkers hret] at hfeed
    cases hfeed
  · have hcount : w < (systemRun cfg addrs acts).pool.count :=
      h.pool.pool w fun hidle => by rw [hidle] at hw; cases hw
    rw [exited_of_returned hret hcount] at hw
    cases hw
  · obtain ⟨found, hfound⟩ := Option.isSome_iff_exists.mp (AList.lookup_isSome.mpr hsent)
    rw [hfound, (h.pool.sent ip found hfound).2.1]

/-- A complete run is one in which `runSweep` of `Forager.SweepRun` returns, with the map that
was received. -/
theorem runSweep_of_done {excluded : Nat}
    (hexpand : expandCIDRs cfg.cidrs cfg.exclusions = .ok (addrs, excluded))
    (hacts : SteadyRun cfg addrs isOpen acts)
    (hdone : (systemRun cfg addrs acts).collector = .done) :
    ∃ acts' result, runSweep cfg acts' = .ok (some result) ∧
      result.hosts = (systemRun cfg addrs acts).hosts := by
  have h := systemOk_run hacts
  have hret := h.closed (h.done hdone)
  have hstored := h.stored
  obtain ⟨acts', hpool⟩ := pool_run cfg addrs acts
  rw [hpool] at hret hstored
  rw [hdone] at hstored
  refine ⟨acts', ⟨cfg.cidrs, addrs.length, cfg.ratePPS, excluded,
    (sweepRun cfg addrs acts').hosts⟩, ?_, hstored⟩
  rw [runSweep, hexpand]
  show Except.ok (if (sweepRun cfg addrs acts').returned then some _ else none) = _
  rw [if_pos hret]

/-! ## Sorting -/

theorem hostLess_iff {a b : SweepHost} {m n : BitVec 32} (ha : a.ip = string4 m)
    (hb : b.ip = string4 n) : hostLess a b = true ↔ m < n := by
  rw [hostLess, ha, hb, parseAddr_string4, parseAddr_string4, decide_eq_true_iff, compareAddr,
    Nat.compare_eq_lt, BitVec.lt_def]

theorem mem_sortHosts (range : Visit String) (sorter : Sorter hostLess) (h : SweepHost) :
    h ∈ sortHosts range sorter hosts ↔
      hosts.lookup h.ip = some h.openPorts ∧ h.sources = ["tcp"] := by
  rw [sortHosts, (sorter.perm _).mem_iff, List.mem_map]
  constructor
  · rintro ⟨ip, hip, rfl⟩
    have hsome := AList.lookup_isSome.mpr ((Visit.mem_visit range).mp hip)
    obtain ⟨found, hfound⟩ := Option.isSome_iff_exists.mp hsome
    exact ⟨by rw [hfound]; rfl, rfl⟩
  · rintro ⟨hlookup, hsources⟩
    have hmem : h.ip ∈ hosts.keys := AList.lookup_isSome.mp (Option.isSome_of_eq_some hlookup)
    refine ⟨h.ip, (Visit.mem_visit range).mpr hmem, ?_⟩
    rw [hlookup, ← hsources]
    rfl

theorem nodup_sortHosts (range : Visit String) (sorter : Sorter hostLess) :
    (sortHosts range sorter hosts).Pairwise fun a b => a.ip ≠ b.ip := by
  have hperm := (sorter.perm ((range.visit hosts.keys).map fun ip =>
    ⟨ip, (hosts.lookup ip).getD [], ["tcp"]⟩)).map SweepHost.ip
  rw [List.map_map] at hperm
  have hkeys : (range.visit hosts.keys).Nodup := Visit.nodup_visit range hosts.nodupKeys
  have hid : (range.visit hosts.keys).map (SweepHost.ip ∘ fun ip =>
      ⟨ip, (hosts.lookup ip).getD [], ["tcp"]⟩) = range.visit hosts.keys := List.map_id _
  rw [hid] at hperm
  exact List.pairwise_map.mp (hperm.nodup_iff.mpr hkeys)

theorem sortHosts_answer (range : Visit String) (sorter : Sorter hostLess)
    (haddrs : ∀ ip ∈ addrs, ∃ n, ip = string4 n)
    (hhosts : ∀ ip found, hosts.lookup ip = some found ↔ ip ∈ addrs ∧ found = openAmong isOpen
      ports ip ∧ found ≠ []) : SweepAnswer isOpen ports addrs (sortHosts range sorter hosts) := by
  have hmem (h : SweepHost) : h ∈ sortHosts range sorter hosts ↔
      h.ip ∈ addrs ∧ openAmong isOpen ports h.ip ≠ [] ∧
        h.openPorts = openAmong isOpen ports h.ip ∧ h.sources = ["tcp"] := by
    rw [mem_sortHosts, hhosts]
    constructor
    · rintro ⟨⟨hip, hports, hopen⟩, hsources⟩
      exact ⟨hip, hports ▸ hopen, hports, hsources⟩
    · rintro ⟨hip, hopen, hports, hsources⟩
      exact ⟨⟨hip, hports, hports ▸ hopen⟩, hsources⟩
  refine ⟨?_, hmem⟩
  have hsorted := (sorter.sorted ((range.visit hosts.keys).map fun ip =>
    ⟨ip, (hosts.lookup ip).getD [], ["tcp"]⟩)).and (nodup_sortHosts range sorter)
  refine hsorted.imp_of_mem fun {a b} ha hb hab => ?_
  obtain ⟨m, hm⟩ := haddrs a.ip ((hmem a).mp ha).1
  obtain ⟨n, hn⟩ := haddrs b.ip ((hmem b).mp hb).1
  have hle : ¬ n < m := fun hlt => by simp [(hostLess_iff hn hm).mpr hlt] at hab
  have hne : m ≠ n := fun heq => hab.2 (by rw [hm, hn, heq])
  refine ⟨m, n, hm, hn, ?_⟩
  rw [BitVec.lt_def] at hle ⊢
  exact lt_of_le_of_ne (not_lt.mp hle) fun h => hne (BitVec.eq_of_toNat_eq h)

theorem below_asymm {a b : SweepHost} (hab : Below a b) : ¬ Below b a := by
  obtain ⟨m, n, ha, hb, hlt⟩ := hab
  rintro ⟨n', m', hb', ha', hlt'⟩
  obtain rfl := SweepOnceLemmas.string4_injective (ha.symm.trans ha')
  obtain rfl := SweepOnceLemmas.string4_injective (hb.symm.trans hb')
  exact Nat.lt_asymm (BitVec.lt_def.mp hlt) (BitVec.lt_def.mp hlt')

theorem answer_unique {l l' : List SweepHost} (h : SweepAnswer isOpen ports addrs l)
    (h' : SweepAnswer isOpen ports addrs l') : l = l' := by
  have hnodup {l : List SweepHost} (h : SweepAnswer isOpen ports addrs l) : l.Nodup := by
    refine h.ascending.imp fun {a b} hab heq => ?_
    subst heq
    exact below_asymm hab hab
  have hperm : l.Perm l' := (List.perm_ext_iff_of_nodup (hnodup h) (hnodup h')).mpr fun a =>
    (h.mem_iff a).trans (h'.mem_iff a).symm
  exact hperm.eq_of_pairwise (fun a b _ _ hab hba => absurd hba (below_asymm hab)) h.ascending
    h'.ascending

end SweepScheduleLemmas

/-! ## Schedules -/

/-- What holds of the steady runs of a sweep. -/
structure ScheduleIndependent (cfg : SweepConfig) (addrs : List String)
    (isOpen : String → Int → Bool) : Prop where
  /-- A run that is not complete can go on. -/
  notStuck : ∀ acts, SteadyRun cfg addrs isOpen acts →
    (systemRun cfg addrs acts).collector ≠ .done →
    ∃ a, SteadyAct isOpen (systemRun cfg addrs acts) a ∧
      (systemRun cfg addrs acts).step cfg.ports a ≠ systemRun cfg addrs acts
  /-- A step that changes something leaves less to do, so no run goes on for ever. -/
  finite : ∀ acts a, SteadyRun cfg addrs isOpen acts →
    SteadyAct isOpen (systemRun cfg addrs acts) a →
    (systemRun cfg addrs acts).step cfg.ports a ≠ systemRun cfg addrs acts →
    SweepScheduleLemmas.systemLeft cfg.ports ((systemRun cfg addrs acts).step cfg.ports a)
      < SweepScheduleLemmas.systemLeft cfg.ports (systemRun cfg addrs acts)
  /-- A complete run gives the hosts with an open port. -/
  answer : ∀ acts range sorter, SteadyRun cfg addrs isOpen acts →
    (systemRun cfg addrs acts).collector = .done →
    SweepAnswer isOpen cfg.ports addrs (sortHosts range sorter (systemRun cfg addrs acts).hosts)
  /-- All complete runs give the same hosts. -/
  same : ∀ acts acts' range range' sorter sorter', SteadyRun cfg addrs isOpen acts →
    SteadyRun cfg addrs isOpen acts' → (systemRun cfg addrs acts).collector = .done →
    (systemRun cfg addrs acts').collector = .done →
    sortHosts range sorter (systemRun cfg addrs acts).hosts
      = sortHosts range' sorter' (systemRun cfg addrs acts').hosts

open SweepScheduleLemmas in
/-- For fixed outcomes of the probes, without a cancellation and without an error of the
limiter, no schedule of a sweep is stuck before it is complete, and all complete ones give the
same hosts: one for each address with an open port, in ascending order, with the open ports in
the order of the configuration. -/
theorem sweep_schedule_independent (cfg : SweepConfig) (addrs : List String) (excluded : Nat)
    (isOpen : String → Int → Bool)
    (hexpand : expandCIDRs cfg.cidrs cfg.exclusions = .ok (addrs, excluded))
    (hworkers : 0 < cfg.workers) : ScheduleIndependent cfg addrs isOpen := by
  have haddrs : ∀ ip ∈ addrs, ∃ n, ip = string4 n := by
    intro ip hip
    obtain ⟨_, _, q, bits, i, _, _, _, hs⟩ := SweepLemmas.expandCIDRs_mem hexpand hip
    exact ⟨_, hs⟩
  have hanswer : ∀ acts range sorter, SteadyRun cfg addrs isOpen acts →
      (systemRun cfg addrs acts).collector = .done →
      SweepAnswer isOpen cfg.ports addrs
        (sortHosts range sorter (systemRun cfg addrs acts).hosts) :=
    fun acts range sorter hacts hdone => sortHosts_answer range sorter haddrs
      (lookup_of_done hacts hworkers hdone)
  refine ⟨fun acts hacts hdone => ?_, fun acts a hacts ha hne => ?_, hanswer, ?_⟩
  · have h := systemOk_run hacts
    obtain ⟨a, ha, hstep⟩ := system_progress h hdone
    refine ⟨a, ha, fun hsame => ?_⟩
    have hless := systemLeft_step h hstep
    rw [hsame] at hless
    exact Nat.lt_irrefl _ hless
  · have h := systemOk_run hacts
    exact systemLeft_step h ((system_step h.pool.live ha).resolve_left hne)
  · intro acts acts' range range' sorter sorter' hacts hacts' hdone hdone'
    exact answer_unique (hanswer acts range sorter hacts hdone)
      (hanswer acts' range' sorter' hacts' hdone')

def twoHosts : SweepConfig := ⟨[⟨.v4 0x0a000000#32, some 30⟩], [], [22, 443], 100, 1000, 64⟩

/-- Port 443 of both addresses is open, and port 22 of the first. -/
def twoHostsOpen (ip : String) (port : Int) : Bool := port = 443 ∨ ip = "10.0.0.1"

def secondFirst : List SystemAct :=
  [.pool (.hand 0), .pool (.hand 1), .pool (.wait 1 true), .pool (.dial 1 false),
    .pool (.wait 1 true), .pool (.dial 1 true), .pool (.deliver 1), .pool .endFeed, .store,
    .pool (.wait 0 true), .pool (.dial 0 true), .pool (.wait 0 true), .pool (.dial 0 true),
    .pool (.leave 1), .pool (.deliver 0), .pool (.leave 0), .store, .close, .finish]

theorem second_first_answer :
    SweepAnswer twoHostsOpen [22, 443] ["10.0.0.1", "10.0.0.2"]
      (sortHosts .stored (.stable hostLess_compares)
        (systemRun twoHosts ["10.0.0.1", "10.0.0.2"] secondFirst).hosts) ∧
    sortHosts .stored (.stable hostLess_compares)
        (systemRun twoHosts ["10.0.0.1", "10.0.0.2"] secondFirst).hosts
      = [⟨"10.0.0.1", [22, 443], ["tcp"]⟩, ⟨"10.0.0.2", [443], ["tcp"]⟩] := by
  refine ⟨?_, by decide +kernel⟩
  exact (sweep_schedule_independent twoHosts ["10.0.0.1", "10.0.0.2"] 0 twoHostsOpen
    (by decide +kernel) (by decide)).answer secondFirst .stored _
    (Runs.forall_steps (by decide +kernel)) (by decide +kernel)

theorem runSweep_second_first :
    ∃ acts' result, runSweep twoHosts acts' = .ok (some result) ∧
      result.hosts = (systemRun twoHosts ["10.0.0.1", "10.0.0.2"] secondFirst).hosts :=
  have hexpand : expandCIDRs twoHosts.cidrs twoHosts.exclusions =
    .ok (["10.0.0.1", "10.0.0.2"], 0) := by decide +kernel
  have hsteady : SteadyRun twoHosts ["10.0.0.1", "10.0.0.2"] twoHostsOpen secondFirst :=
    Runs.forall_steps (by decide +kernel)
  SweepScheduleLemmas.runSweep_of_done hexpand hsteady (by decide +kernel)

end Forager
