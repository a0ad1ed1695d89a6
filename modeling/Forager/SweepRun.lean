import Forager.Registry
import Forager.Sweep

/-!
# The workers of a sweep

`runSweep` of `pkg/proxy/discovery/sweep.go` hands the addresses in scope to a pool
of workers, each of which probes all ports of an address through a common rate
limiter. A worker returns when the limiter gives an error, the feeder stops when the
context is cancelled, and the sweep returns when all workers have, in each case
without an error.
-/

namespace Forager

inductive SweepWorker
  /-- Receiving from `work`. -/
  | idle
  /-- At `limiter.Wait` for `port`. -/
  | waiting (ip : String) (port : Int) (rest found : List Int)
  /-- Before `probeTCP`. -/
  | dialing (ip : String) (port : Int) (rest found : List Int)
  /-- Sending to `results`. -/
  | sending (ip : String) (found : List Int)
  | exited
deriving DecidableEq, Repr

/-- A running sweep: the addresses the feeder still has, whether `work` is closed,
the workers, the probes sent, and the results received. -/
structure SweepState where
  feed : List String
  closed : Bool
  count : Nat
  worker : Nat → SweepWorker
  probes : List (String × Int)
  hosts : GoMap (List Int)
  cancelled : Bool

inductive SweepAct
  /-- The feeder hands its next address to the worker. -/
  | hand (w : Nat)
  /-- The worker finds `work` closed. -/
  | leave (w : Nat)
  /-- `limiter.Wait` returns; `ok` if without an error. -/
  | wait (w : Nat) (ok : Bool)
  /-- `probeTCP` returns; `answered` if the port is open. -/
  | dial (w : Nat) (answered : Bool)
  /-- The result is received. -/
  | deliver (w : Nat)
  /-- The worker gives up its result for the cancelled context. -/
  | abandon (w : Nat)
  | cancel
  /-- The feeder stops for the cancelled context. -/
  | stopFeed
  /-- The feeder has handed out all addresses. -/
  | endFeed
deriving DecidableEq, Repr

structure SweepResult where
  cidrs : List GoNet.Prefix
  scanned : Nat
  ratePPS : Int
  excluded : Nat
  hosts : GoMap (List Int)

/-- The next port of the address, or what follows the last one. -/
def nextPort (ip : String) (ports found : List Int) : SweepWorker :=
  match ports with
  | port :: rest => .waiting ip port rest found
  | [] => if found.isEmpty then .idle else .sending ip found

/-- The worker has a port left to probe. -/
def SweepWorker.busy : SweepWorker → Bool
  | .waiting _ _ _ _ | .dialing _ _ _ _ => true
  | .idle | .sending _ _ | .exited => false

namespace SweepState

def new (workers : Int) (addrs : List String) : SweepState where
  feed := addrs
  closed := false
  count := (min workers addrs.length).toNat
  worker _ := .idle
  probes := []
  hosts := ∅
  cancelled := false

def goto (s : SweepState) (w : Nat) (p : SweepWorker) : SweepState :=
  { s with worker := Function.update s.worker w p }

/-- `wg.Wait` has returned, so `results` is closed. -/
def returned (s : SweepState) : Bool := (List.range s.count).all fun w => s.worker w = .exited

end SweepState

/-- One step. A probe under a cancelled context is not sent. -/
def sweepStep (ports : List Int) (s : SweepState) : SweepAct → SweepState
  | .hand w =>
    match s.worker w, s.feed with
    | .idle, ip :: rest =>
      if w < s.count ∧ s.closed = false then { s with feed := rest }.goto w (nextPort ip ports [])
      else s
    | _, _ => s
  | .leave w => if s.worker w = .idle ∧ s.closed then s.goto w .exited else s
  | .wait w ok =>
    match s.worker w with
    | .waiting ip port rest found => s.goto w (if ok then .dialing ip port rest found else .exited)
    | _ => s
  | .dial w answered =>
    match s.worker w with
    | .dialing ip port rest found =>
      if s.cancelled then s.goto w (nextPort ip rest found)
      else
        { s with probes := s.probes ++ [(ip, port)] }.goto w
          (nextPort ip rest (if answered then found ++ [port] else found))
    | _ => s
  | .deliver w =>
    match s.worker w with
    | .sending ip found => { s with hosts := s.hosts.insert ip found }.goto w .idle
    | _ => s
  | .abandon w =>
    match s.worker w with
    | .sending _ _ => if s.cancelled then s.goto w .exited else s
    | _ => s
  | .cancel => { s with cancelled := true }
  | .stopFeed => if s.cancelled then { s with closed := true } else s
  | .endFeed => if s.feed.isEmpty then { s with closed := true } else s

def sweepRun (cfg : SweepConfig) (addrs : List String) (acts : List SweepAct) : SweepState :=
  Runs.Run (sweepStep cfg.ports) (.new cfg.workers addrs) acts

/-- What `runSweep` returns after the steps, once it returns. -/
def runSweep (cfg : SweepConfig) (acts : List SweepAct) :
    Except SweepError (Option SweepResult) := do
  let (addrs, excluded) ← expandCIDRs cfg.cidrs cfg.exclusions
  let s := sweepRun cfg addrs acts
  return if s.returned then
    some { cidrs := cfg.cidrs, scanned := addrs.length, ratePPS := cfg.ratePPS
           excluded := excluded, hosts := s.hosts }
  else none

/-- The context is not cancelled while an address or a port is left to probe, and the
limiter gives no error. -/
def SweepUndisturbed (s : SweepState) : SweepAct → Prop
  | .cancel => s.feed = [] ∧ ∀ w < s.count, (s.worker w).busy = false
  | .wait _ ok => ok = true
  | .hand _ | .leave _ | .dial _ _ | .deliver _ | .abandon _ | .stopFeed | .endFeed => True

instance (s : SweepState) : (a : SweepAct) → Decidable (SweepUndisturbed s a)
  | .cancel => inferInstanceAs (Decidable (_ ∧ ∀ w < s.count, _))
  | .wait _ _ => inferInstanceAs (Decidable (_ = _))
  | .hand _ | .leave _ | .dial _ _ | .deliver _ | .abandon _ | .stopFeed | .endFeed =>
    inferInstanceAs (Decidable True)

namespace SweepRunLemmas

variable {addrs : List String} {ports : List Int} {s s' : SweepState} {a : SweepAct} {w : Nat}
  {p : SweepWorker} {ip : String} {port : Int}
variable {acts : List SweepAct} {cfg : SweepConfig}

inductive SweepMove (ports : List Int) (s : SweepState) : SweepAct → SweepState → Prop
  | hand {w : Nat} {ip : String} {rest : List String} (hw : w < s.count)
      (hopen : s.closed = false) (hidle : s.worker w = .idle) (hfeed : s.feed = ip :: rest) :
      SweepMove ports s (.hand w) ({ s with feed := rest }.goto w (nextPort ip ports []))
  | leave {w : Nat} (hidle : s.worker w = .idle) (hclosed : s.closed) :
      SweepMove ports s (.leave w) (s.goto w .exited)
  | pass {w : Nat} {ip : String} {port : Int} {rest found : List Int}
      (hwait : s.worker w = .waiting ip port rest found) :
      SweepMove ports s (.wait w true) (s.goto w (.dialing ip port rest found))
  | refuse {w : Nat} {ip : String} {port : Int} {rest found : List Int}
      (hwait : s.worker w = .waiting ip port rest found) :
      SweepMove ports s (.wait w false) (s.goto w .exited)
  | probe {w : Nat} {answered : Bool} {ip : String} {port : Int} {rest found : List Int}
      (hdial : s.worker w = .dialing ip port rest found) (hlive : s.cancelled = false) :
      SweepMove ports s (.dial w answered) ({ s with probes := s.probes ++ [(ip, port)] }.goto w
        (nextPort ip rest (if answered then found ++ [port] else found)))
  | skip {w : Nat} {answered : Bool} {ip : String} {port : Int} {rest found : List Int}
      (hdial : s.worker w = .dialing ip port rest found) (hcancelled : s.cancelled) :
      SweepMove ports s (.dial w answered) (s.goto w (nextPort ip rest found))
  | deliver {w : Nat} {ip : String} {found : List Int} (hsend : s.worker w = .sending ip found) :
      SweepMove ports s (.deliver w) ({ s with hosts := s.hosts.insert ip found }.goto w .idle)
  | abandon {w : Nat} {ip : String} {found : List Int} (hsend : s.worker w = .sending ip found)
      (hcancelled : s.cancelled) : SweepMove ports s (.abandon w) (s.goto w .exited)
  | cancel : SweepMove ports s .cancel { s with cancelled := true }
  | stopFeed (hcancelled : s.cancelled) : SweepMove ports s .stopFeed { s with closed := true }
  | endFeed (hfeed : s.feed = []) : SweepMove ports s .endFeed { s with closed := true }

theorem sweep_move (ports : List Int) (s : SweepState) (a : SweepAct) :
    sweepStep ports s a = s ∨ SweepMove ports s a (sweepStep ports s a) := by
  cases a with
  | hand w =>
    simp only [sweepStep]
    split
    next ip rest hidle hfeed =>
      split
      next hg => exact .inr (.hand hg.1 hg.2 hidle hfeed)
      next => exact .inl rfl
    next => exact .inl rfl
  | leave w =>
    simp only [sweepStep]
    split
    next hg => exact .inr (.leave hg.1 hg.2)
    next => exact .inl rfl
  | wait w ok =>
    simp only [sweepStep]
    split
    next hwait =>
      cases ok with
      | true => exact .inr (.pass hwait)
      | false => exact .inr (.refuse hwait)
    next => exact .inl rfl
  | dial w answered =>
    simp only [sweepStep]
    split
    next hdial =>
      split
      next hcancelled => exact .inr (.skip hdial hcancelled)
      next hlive => exact .inr (.probe hdial (Bool.eq_false_iff.mpr hlive))
    next => exact .inl rfl
  | deliver w =>
    simp only [sweepStep]
    split
    next hsend => exact .inr (.deliver hsend)
    next => exact .inl rfl
  | abandon w =>
    simp only [sweepStep]
    split
    next hsend =>
      split
      next hcancelled => exact .inr (.abandon hsend hcancelled)
      next => exact .inl rfl
    next => exact .inl rfl
  | cancel => exact .inr .cancel
  | stopFeed =>
    simp only [sweepStep]
    split
    next hcancelled => exact .inr (.stopFeed hcancelled)
    next => exact .inl rfl
  | endFeed =>
    simp only [sweepStep]
    split
    next hempty => exact .inr (.endFeed (List.isEmpty_iff.mp hempty))
    next => exact .inl rfl

theorem of_sweepStep {P : SweepState → Prop} (hsame : P s)
    (hmove : ∀ s', SweepMove ports s a s' → P s') : P (sweepStep ports s a) := by
  rcases sweep_move ports s a with h | h
  · rwa [h]
  · exact hmove _ h

/-- The worker is to probe the port of the address. -/
def Owes (ip : String) (port : Int) : SweepWorker → Prop
  | .waiting ip' p rest _ | .dialing ip' p rest _ => ip' = ip ∧ port ∈ p :: rest
  | .idle | .sending _ _ | .exited => False

theorem owes_nextPort {rest found : List Int} (h : port ∈ rest) :
    Owes ip port (nextPort ip rest found) := by
  cases rest with
  | nil => cases h
  | cons p rest => exact ⟨rfl, h⟩

theorem Owes.busy (h : Owes ip port p) : p.busy := by
  cases p <;> first | rfl | cases h

/-- Every port of every address is to be handed out, with a worker, or probed. -/
def Covered (addrs : List String) (ports : List Int) (s : SweepState) : Prop :=
  ∀ ip ∈ addrs, ∀ port ∈ ports,
    ip ∈ s.feed ∨ (∃ w < s.count, Owes ip port (s.worker w)) ∨ (ip, port) ∈ s.probes

theorem Covered.goto (h : Covered addrs ports s) (hcount : s'.count = s.count)
    (hworker : s'.worker = Function.update s.worker w p)
    (hfeed : ∀ ip ∈ s.feed, ip ∈ s'.feed ∨ (w < s.count ∧ ∀ port ∈ ports, Owes ip port p))
    (howes : ∀ ip port, Owes ip port (s.worker w) → Owes ip port p ∨ (ip, port) ∈ s'.probes)
    (hprobes : ∀ q ∈ s.probes, q ∈ s'.probes) : Covered addrs ports s' := by
  have hself : s'.worker w = p := by rw [hworker, Function.update_self]
  intro ip hip port hport
  rcases h ip hip port hport with hf | ⟨v, hv, hov⟩ | hp
  · refine (hfeed ip hf).imp_right fun ⟨hw, ho⟩ => .inl ⟨w, hcount ▸ hw, ?_⟩
    rw [hself]
    exact ho port hport
  · refine .inr ?_
    rcases eq_or_ne v w with rfl | hne
    · exact (howes ip port hov).imp_left fun ho => ⟨v, hcount ▸ hv, by rwa [hself]⟩
    · refine .inl ⟨v, hcount ▸ hv, ?_⟩
      rwa [hworker, Function.update_of_ne hne]
  · exact .inr (.inr (hprobes _ hp))

/-- The state of an undisturbed sweep. -/
structure SweepOk (addrs : List String) (ports : List Int) (s : SweepState) : Prop where
  covered : Covered addrs ports s
  /-- Only the workers of the pool work. -/
  pool : ∀ w, (s.worker w).busy → w < s.count
  closed : s.closed → s.feed = []
  atRest : s.cancelled → s.feed = [] ∧ ∀ w, (s.worker w).busy = false
  exits : ∀ w, s.worker w = .exited → s.closed ∨ s.cancelled

theorem SweepOk.live (h : SweepOk addrs ports s) (hw : (s.worker w).busy) :
    s.cancelled = false := by
  by_contra hc
  have hrest := (h.atRest (Bool.eq_true_of_not_eq_false hc)).2 w
  exact Bool.false_ne_true (hrest.symm.trans hw)

theorem SweepOk.goto (h : SweepOk addrs ports s) (hcovered : Covered addrs ports s')
    (hcount : s'.count = s.count) (hworker : s'.worker = Function.update s.worker w p)
    (hclosed : s'.closed = s.closed) (hcancelled : s'.cancelled = s.cancelled)
    (hfeed : s.feed = [] → s'.feed = []) (hbusy : p.busy → w < s.count ∧ s.cancelled = false)
    (hexit : p = .exited → s.closed ∨ s.cancelled) : SweepOk addrs ports s' := by
  have hself : s'.worker w = p := by rw [hworker, Function.update_self]
  have hother : ∀ v, v ≠ w → s'.worker v = s.worker v := fun v hne => by
    rw [hworker, Function.update_of_ne hne]
  refine ⟨hcovered, fun v hv => ?_, fun hc => ?_, fun hc => ⟨?_, fun v => ?_⟩, fun v hv => ?_⟩
  · rw [hcount]
    rcases eq_or_ne v w with rfl | hne
    · exact (hbusy (hself ▸ hv)).1
    · exact h.pool v (hother v hne ▸ hv)
  · exact hfeed (h.closed (hclosed ▸ hc))
  · exact hfeed (h.atRest (hcancelled ▸ hc)).1
  · rcases eq_or_ne v w with rfl | hne
    · rw [hself]
      by_contra hb
      have hlive := (hbusy (Bool.eq_true_of_not_eq_false hb)).2
      exact Bool.false_ne_true (hlive.symm.trans (hcancelled ▸ hc))
    · rw [hother v hne]
      exact (h.atRest (hcancelled ▸ hc)).2 v
  · rw [hclosed, hcancelled]
    rcases eq_or_ne v w with rfl | hne
    · exact hexit (hself ▸ hv)
    · exact h.exits v (hother v hne ▸ hv)

theorem nextPort_ne_exited {rest found : List Int} : nextPort ip rest found ≠ .exited := by
  intro h
  unfold nextPort at h
  split at h
  · cases h
  · split at h <;> cases h

theorem SweepOk.free (h : SweepOk addrs ports s) (hw : (s.worker w).busy = false)
    (hp : p.busy = false) (hexit : p = .exited → s.closed ∨ s.cancelled) :
    SweepOk addrs ports (s.goto w p) := by
  refine h.goto (h.covered.goto rfl rfl (fun _ hip => .inl hip) (fun _ _ ho => ?_) fun _ hq => hq)
    rfl rfl rfl rfl id (fun hb => ?_) hexit
  · exact absurd (hw.symm.trans ho.busy) Bool.false_ne_true
  · exact absurd (hp.symm.trans hb) Bool.false_ne_true

theorem sweepOk_move (h : SweepOk addrs ports s) (hmove : SweepMove ports s a s')
    (hok : SweepUndisturbed s a) : SweepOk addrs ports s' := by
  cases hmove with
  | @hand w ip rest hw hopen hidle hfeed =>
    have hlive : s.cancelled = false := by
      by_contra hc
      have hnil := (h.atRest (Bool.eq_true_of_not_eq_false hc)).1
      rw [hfeed] at hnil
      cases hnil
    refine h.goto (h.covered.goto rfl rfl (fun ip' hip => ?_) (fun _ _ ho => ?_) fun _ hq => hq)
      rfl rfl rfl rfl (fun hnil => ?_) (fun _ => ⟨hw, hlive⟩)
      (fun he => absurd he nextPort_ne_exited)
    · rw [hfeed] at hip
      rcases List.mem_cons.mp hip with rfl | hrest
      · exact .inr ⟨hw, fun port hport => owes_nextPort hport⟩
      · exact .inl hrest
    · rw [hidle] at ho
      exact ho.elim
    · rw [hfeed] at hnil
      cases hnil
  | leave hidle hclosed => exact h.free (by rw [hidle]; rfl) rfl fun _ => .inl hclosed
  | @pass w ip port rest found hwait =>
    have hbusy : (s.worker w).busy := by rw [hwait]; rfl
    refine h.goto (h.covered.goto rfl rfl (fun _ hip => .inl hip) (fun _ _ ho => ?_)
      fun _ hq => hq) rfl rfl rfl rfl id (fun _ => ⟨h.pool w hbusy, h.live hbusy⟩)
      fun he => by cases he
    rw [hwait] at ho
    exact .inl ho
  | refuse => cases hok
  | @probe w answered ip port rest found hdial hlive =>
    have hbusy : (s.worker w).busy := by rw [hdial]; rfl
    refine h.goto (h.covered.goto rfl rfl (fun _ hip => .inl hip) (fun ip' port' ho => ?_)
      fun _ hq => List.mem_append_left _ hq) rfl rfl rfl rfl id
      (fun _ => ⟨h.pool w hbusy, hlive⟩) (fun he => absurd he nextPort_ne_exited)
    rw [hdial] at ho
    obtain ⟨rfl, hport⟩ := ho
    rcases List.mem_cons.mp hport with rfl | hrest
    · exact .inr (List.mem_append_right _ (List.mem_singleton_self _))
    · exact .inl (owes_nextPort hrest)
  | skip hdial hcancelled =>
    have hlive := h.live (by rw [hdial]; rfl)
    exact absurd (hlive.symm.trans hcancelled) Bool.false_ne_true
  | @deliver w ip found hsend =>
    have hfree := h.free (w := w) (p := .idle) (by rw [hsend]; rfl) rfl fun he => by cases he
    exact ⟨hfree.covered, hfree.pool, hfree.closed, hfree.atRest, hfree.exits⟩
  | abandon hsend hcancelled => exact h.free (by rw [hsend]; rfl) rfl fun _ => .inr hcancelled
  | cancel =>
    refine ⟨h.covered, h.pool, h.closed, fun _ => ⟨hok.1, fun w => ?_⟩, fun w hw => .inr rfl⟩
    by_contra hb
    have hbusy := Bool.eq_true_of_not_eq_false hb
    exact hb (hok.2 w (h.pool w hbusy))
  | stopFeed hcancelled =>
    exact ⟨h.covered, h.pool, fun _ => (h.atRest hcancelled).1, h.atRest, fun _ _ => .inl rfl⟩
  | endFeed hfeed =>
    exact ⟨h.covered, h.pool, fun _ => hfeed, h.atRest, fun _ _ => .inl rfl⟩

/-- Every port of every address is still to be handed out, still with a worker, or probed. -/
theorem sweepOk_step (h : SweepOk addrs ports s) (hok : SweepUndisturbed s a) :
    SweepOk addrs ports (sweepStep ports s a) :=
  of_sweepStep h fun _ hmove => sweepOk_move h hmove hok

theorem sweepOk_run
    (hok : ∀ pre a, pre ++ [a] <+: acts → SweepUndisturbed (sweepRun cfg addrs pre) a) :
    SweepOk addrs cfg.ports (sweepRun cfg addrs acts) := by
  refine Runs.run_invariant (fun as => SweepOk addrs cfg.ports (sweepRun cfg addrs as))
    (fun pre a => SweepUndisturbed (sweepRun cfg addrs pre) a) ?_ (fun pre a hpa hpre => ?_) hok
  · exact ⟨fun ip hip _ _ => .inl hip, fun _ hb => absurd hb Bool.false_ne_true,
      fun hc => absurd hc Bool.false_ne_true, fun hc => absurd hc Bool.false_ne_true,
      fun _ he => SweepWorker.noConfusion he⟩
  · rw [sweepRun, Runs.run_snoc]
    exact sweepOk_step hpre hpa

theorem count_step : (sweepStep ports s a).count = s.count :=
  of_sweepStep (P := fun s' => s'.count = s.count) rfl fun _ hmove => by cases hmove <;> rfl

theorem count_run : (sweepRun cfg addrs acts).count = (min cfg.workers addrs.length).toNat := by
  induction acts using List.reverseRecOn with
  | nil => rfl
  | append_singleton acts a ih => rw [sweepRun, Runs.run_snoc, count_step]; exact ih

theorem feed_of_returned (h : SweepOk addrs cfg.ports (sweepRun cfg addrs acts))
    (hworkers : 0 < cfg.workers) (hne : addrs ≠ []) (hret : (sweepRun cfg addrs acts).returned) :
    (sweepRun cfg addrs acts).feed = [] := by
  have hpos : 0 < (sweepRun cfg addrs acts).count := by
    have hlen := List.length_pos_iff.mpr hne
    rw [count_run]
    omega
  have hexited : (sweepRun cfg addrs acts).worker 0 = .exited :=
    of_decide_eq_true (List.all_eq_true.mp hret 0 (List.mem_range.mpr hpos))
  exact (h.exits 0 hexited).elim h.closed fun hc => (h.atRest hc).1

end SweepRunLemmas

open SweepRunLemmas in
/-- A sweep with a worker, if it has addresses, that is not disturbed and returns has
probed every port of every address it counts. -/
theorem sweep_complete (cfg : SweepConfig) (addrs : List String) (excluded : Nat)
    (acts : List SweepAct) (result : SweepResult)
    (hexpand : expandCIDRs cfg.cidrs cfg.exclusions = .ok (addrs, excluded))
    (hworkers : 0 < cfg.workers ∨ addrs = [])
    (hok : ∀ pre a, pre ++ [a] <+: acts → SweepUndisturbed (sweepRun cfg addrs pre) a)
    (hret : runSweep cfg acts = .ok (some result)) :
    result.scanned = addrs.length ∧
    ∀ ip ∈ addrs, ∀ port ∈ cfg.ports, (ip, port) ∈ (sweepRun cfg addrs acts).probes := by
  have hres : (sweepRun cfg addrs acts).returned ∧ result.scanned = addrs.length := by
    rw [runSweep, hexpand] at hret
    replace hret := Except.ok.inj hret
    split at hret
    · rename_i hreturned
      exact ⟨hreturned, Option.some.inj hret ▸ rfl⟩
    · cases hret
  refine ⟨hres.2, fun ip hip port hport => ?_⟩
  have h := sweepOk_run hok
  have hne : addrs ≠ [] := fun hnil => by rw [hnil] at hip; cases hip
  have hfeed := feed_of_returned h (hworkers.resolve_right hne) hne hres.1
  rcases h.covered ip hip port hport with hf | ⟨w, hw, ho⟩ | hp
  · rw [hfeed] at hf
    cases hf
  · have hexited := of_decide_eq_true (List.all_eq_true.mp hres.1 w (List.mem_range.mpr hw))
    rw [hexited] at ho
    exact ho.elim
  · exact hp

def oneAddress : SweepConfig where
  cidrs := [⟨.v4 0x0a000001#32, some 32⟩]
  exclusions := []
  ports := [22]
  ratePPS := 100
  timeoutMs := 1000
  workers := 64

theorem sweep_complete_one :
    (runSweep oneAddress [.hand 0, .wait 0 true, .dial 0 true, .deliver 0, .endFeed,
      .leave 0]).toOption.bind (·.map (·.scanned)) = some 1 ∧
    ("10.0.0.1", 22) ∈ (sweepRun oneAddress ["10.0.0.1"] [.hand 0, .wait 0 true, .dial 0 true,
      .deliver 0, .endFeed, .leave 0]).probes := by
  refine ⟨by decide +kernel, ?_⟩
  exact (sweep_complete oneAddress ["10.0.0.1"] 0 _ _ (by decide +kernel) (.inl (by decide))
    (Runs.forall_steps (by decide +kernel)) rfl).2 "10.0.0.1" (by decide) 22 (by decide)

/-- Not for a sweep that is cancelled, or whose limiter gives an error: it returns
the full count, and no probe was sent. -/
theorem sweep_incomplete :
    ((runSweep oneAddress [.cancel, .stopFeed, .leave 0]).toOption.bind (·.map (·.scanned)) =
        some 1 ∧
      (sweepRun oneAddress ["10.0.0.1"] [.cancel, .stopFeed, .leave 0]).probes = []) ∧
    (runSweep oneAddress [.hand 0, .wait 0 false]).toOption.bind (·.map (·.scanned)) = some 1 ∧
      (sweepRun oneAddress ["10.0.0.1"] [.hand 0, .wait 0 false]).probes = [] := by
  decide +kernel

end Forager
