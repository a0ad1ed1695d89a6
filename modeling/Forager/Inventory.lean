import Forager.FanOut
import Forager.PackTrust

/-!
# Accounting of an inventory

`handleInventory` of `pkg/proxy/discovery/proxy.go` checks the scope of all targets
at the same time (`partitionTargetsByScope`), collects from those in scope
(`runInventory` of `executor.go`), and answers with the results followed by the
rejections. Both stages are fan-outs under a semaphore that the same context may
cancel. The answer of `isTargetAllowed` is given for each occurrence of a target,
since it may ask the DNS.
-/

namespace Forager

open Go

/-! ## The two stages -/

inductive TargetStatus
  | ok | sshRefused | sshAuthFailed | timeout | error
deriving DecidableEq, Repr

structure SkippedCollector where
  id : String
  reason : String
deriving DecidableEq, Repr

/-- `TargetResult`, without the duration. -/
structure TargetResult where
  host : String
  status : TargetStatus
  error : String := ""
  facts : StrMap String := []
  collected : StrMap String := []
  collectorExitCodes : StrMap Int := []
  collectorTruncated : StrMap Bool := []
  collectorOutputLimitBytes : Int := 0
  failed : StrMap String := []
  skipped : List SkippedCollector := []
deriving DecidableEq, Repr

def rejection (host : String) : TargetResult :=
  { host := host, status := .error, error := "target is outside this datasource's allowed_cidrs" }

/-- The result of a target whose turn had not come when the context was cancelled. -/
def cancelledBeforeStart (host : String) : TargetResult :=
  { host := host, status := .timeout, error := "batch cancelled before start" }

def acceptedTargets (targets : List String) (verdicts : List Bool) : List String :=
  ((targets.zip verdicts).filter (·.2)).map (·.1)

def rejectedTargets (targets : List String) (verdicts : List Bool) : List String :=
  ((targets.zip verdicts).filter (!·.2)).map (·.1)

/-- What the two stages of a request are given: the targets, the answer of
`isTargetAllowed` for each occurrence, and the two limits. -/
structure InventoryJob where
  targets : List String
  isAllowed : Nat → Bool
  scopeLimit : Int
  collectLimit : Int

inductive InventoryPhase
  /-- In `partitionTargetsByScope`. -/
  | scoping (s : FanOut.State Bool)
  /-- In `runInventory`. -/
  | collecting (verdicts : List Bool) (s : FanOut.State TargetResult)
  | finished (results : List TargetResult)

/-- A request under way, with the hosts it has dialed. -/
structure InventoryState where
  phase : InventoryPhase
  dialed : List String

inductive InventoryAct
  /-- A step of a scope check, or the cancellation during the checks. -/
  | scope (a : FanOut.Act Unit)
  /-- A step of a collection, or the cancellation during the collections; a
  collection ends with what `inventoryHost` returns. -/
  | collect (a : FanOut.Act TargetResult)
  /-- `wg.Wait` returns. -/
  | join

def defaultConcurrency : Int := 25

namespace InventoryJob

variable (job : InventoryJob)

/-- A step of the checks, with the answer of `isTargetAllowed`. -/
def scopeAct : FanOut.Act Unit → FanOut.Act Bool
  | .acquire i => .acquire i
  | .finish i () => .finish i (job.isAllowed i)
  | .giveUp i => .giveUp i
  | .cancel => .cancel

def scopeSlots : Nat :=
  (if job.scopeLimit ≤ 0 then defaultConcurrency else job.scopeLimit).toNat

/-- A step of the scope checks. A check that gives up leaves its verdict `false`. -/
def scopeStep (s : FanOut.State Bool) (a : FanOut.Act Unit) : FanOut.State Bool :=
  FanOut.step job.targets.length job.scopeSlots (fun _ => false) s (job.scopeAct a)

/-- What `partitionTargetsByScope` returns for the verdicts. -/
def partition (verdicts : List Bool) : List String × List TargetResult :=
  (acceptedTargets job.targets verdicts, (rejectedTargets job.targets verdicts).map rejection)

/-- A step of the collections: what `inventoryHost` returns has the target as its host. -/
def collectAct (hosts : List String) : FanOut.Act TargetResult → FanOut.Act TargetResult
  | .acquire k => .acquire k
  | .finish k r => .finish k { r with host := hosts.getD k "" }
  | .giveUp k => .giveUp k
  | .cancel => .cancel

def collectStep (hosts : List String) (s : FanOut.State TargetResult)
    (a : FanOut.Act TargetResult) : FanOut.State TargetResult :=
  FanOut.step hosts.length job.collectLimit.toNat (fun k => cancelledBeforeStart (hosts.getD k ""))
    s (collectAct hosts a)

/-- The host that a step of the collections dials. -/
def dials (hosts : List String) (s s' : FanOut.State TargetResult) :
    FanOut.Act TargetResult → List String
  | .acquire k =>
    if (s.task k).isWaiting && (s'.task k).isRunning then [hosts.getD k ""] else []
  | .finish _ _ | .giveUp _ | .cancel => []

def step (st : InventoryState) : InventoryAct → InventoryState
  | .scope a =>
    match st.phase with
    | .scoping s => { st with phase := .scoping (job.scopeStep s a) }
    | _ => st
  | .collect a =>
    match st.phase with
    | .collecting verdicts s =>
      let hosts := (job.partition verdicts).1
      let s' := job.collectStep hosts s a
      ⟨.collecting verdicts s', st.dialed ++ dials hosts s s' a⟩
    | _ => st
  | .join =>
    match st.phase with
    | .scoping s =>
      match s.results job.targets.length with
      | some verdicts => { st with phase := .collecting verdicts (.start s.cancelled) }
      | none => st
    | .collecting verdicts s =>
      match s.results (job.partition verdicts).1.length with
      | some results => { st with phase := .finished (results ++ (job.partition verdicts).2) }
      | none => st
    | .finished _ => st

/-- The request after the steps, from a context that may be cancelled already. -/
def run (cancelled : Bool) (acts : List InventoryAct) : InventoryState :=
  Runs.Run job.step ⟨.scoping (.start cancelled), []⟩ acts

def collecting (st : InventoryState) : Nat :=
  match st.phase with
  | .collecting verdicts s => (s.active (job.partition verdicts).1.length).card
  | .scoping _ | .finished _ => 0

variable (cancelled : Bool) (acts : List (FanOut.Act Unit))

def scopeRun : FanOut.State Bool :=
  FanOut.run job.targets.length job.scopeSlots (fun _ => false) cancelled (acts.map job.scopeAct)

/-- The verdicts, once `wg.Wait` has returned. -/
def verdicts? : Option (List Bool) := (job.scopeRun cancelled acts).results job.targets.length

end InventoryJob

namespace InventoryLemmas

variable {job : InventoryJob} {st : InventoryState} {verdicts : List Bool} {targets : List String}
variable {s : FanOut.State TargetResult}

theorem accepted_rejected_perm (h : verdicts.length = targets.length) :
    (acceptedTargets targets verdicts ++ rejectedTargets targets verdicts).Perm targets := by
  have hperm := (List.filter_append_perm (·.2) (targets.zip verdicts)).map (·.1)
  rw [List.map_append, List.map_fst_zip h.ge] at hperm
  exact hperm

/-! ### Verdicts -/

section Verdicts

variable {cancelled : Bool} {acts : List (FanOut.Act Unit)}

end Verdicts

/-! ### The invariant -/

/-- The results of the accepted targets, then the rejections. -/
def Accounted (job : InventoryJob) (verdicts : List Bool) (results : List TargetResult) : Prop :=
  ∃ collected, collected.map (·.host) = (job.partition verdicts).1 ∧
    results = collected ++ (job.partition verdicts).2

theorem Accounted.perm {results : List TargetResult} (h : Accounted job verdicts results)
    (hlength : verdicts.length = job.targets.length) :
    (results.map (·.host)).Perm job.targets := by
  obtain ⟨collected, hcollected, rfl⟩ := h
  have hrejected : (job.partition verdicts).2.map (·.host) =
      rejectedTargets job.targets verdicts := by
    rw [InventoryJob.partition, List.map_map]
    exact List.map_id _
  rw [List.map_append, hcollected, hrejected]
  exact accepted_rejected_perm hlength

def PhaseOk (job : InventoryJob) (cancelled : Bool) (acts : List (FanOut.Act Unit)) :
    InventoryPhase → Prop
  | .scoping s => s = job.scopeRun cancelled acts
  | .collecting verdicts s =>
    job.verdicts? cancelled acts = some verdicts ∧
    (∀ k r, s.task k = .ended r → (job.partition verdicts).1[k]? = some r.host) ∧
    FanOut.Metered (job.partition verdicts).1.length job.collectLimit.toNat s
  | .finished results => ∃ verdicts, job.verdicts? cancelled acts = some verdicts ∧
    Accounted job verdicts results

variable {cancelled : Bool} {acts : List InventoryAct} {scopes : List (FanOut.Act Unit)}

end InventoryLemmas

end Forager
