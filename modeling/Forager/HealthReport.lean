import Forager.RequestErrors

/-!
# Health reports

`HealthReport` of `pkg/proxy/registry.go` takes a snapshot of the registered proxies,
checks them with a pool of workers while the registry may change, and records each
result under the lock if the proxy is still the registered one. Any number of
reports run at the same time.

A step of a report is the snapshot, its start after `ctx.Err()`, a worker taking the
next target, the return of a health check, the critical section that records it, or
the end after all workers.
-/

namespace Forager

/-! ## One report -/

inductive HealthStatus
  | healthy
  | error
deriving DecidableEq, Repr

/-- `proxy.DatasourceHealth`; an empty `lastSuccess` is not set. -/
structure DatasourceHealth where
  type : String
  proxyType : String
  name : String
  status : HealthStatus
  error : String
  errorClass : String
  lastCheck : String
  reachable : Bool
  latencyMs : Int
  lastSuccess : String
deriving DecidableEq, Repr

def errorClass (proxyType : String) : String :=
  if proxyType = "ssh-proxy" then "ssh_integration_failure" else "datasource_integration_failure"

/-- `target`: a datasource of the snapshot. -/
structure HealthTarget (P : Type) where
  id : String
  proxy : P
  cfg : DatasourceEntry
deriving DecidableEq, Repr

/-- What the workers have done about a target. -/
inductive CheckSlot
  | pending
  /-- Inside `HealthCheck`. -/
  | checking
  /-- `HealthCheck` has returned. -/
  | checked (err : Option String) (latencyMs : Int)
  | recorded (health : DatasourceHealth)
  | superseded
deriving DecidableEq, Repr

def CheckSlot.held : CheckSlot → Bool
  | .checking | .checked _ _ => true
  | .pending | .recorded _ | .superseded => false

def CheckSlot.ended : CheckSlot → Bool
  | .recorded _ | .superseded => true
  | .pending | .checking | .checked _ _ => false

def CheckSlot.ofEntry : Option DatasourceHealth → CheckSlot
  | some health => .recorded health
  | none => .superseded

/-- A report whose workers run: `next` is the first target still in `targetsChan`. -/
structure ReportRun (P : Type) where
  targets : List (HealthTarget P)
  now : String
  next : Nat
  slots : Nat → CheckSlot

def defaultHealthCheckConcurrency : Nat := 16

def ReportRun.workerFree {P : Type} (r : ReportRun P) : Bool :=
  (List.range r.next).countP (fun k => (r.slots k).held) <
    min defaultHealthCheckConcurrency r.targets.length

def ReportRun.set {P : Type} (r : ReportRun P) (k : Nat) (slot : CheckSlot) : ReportRun P :=
  { r with slots := Function.update r.slots k slot }

inductive ReportPhase (P : Type)
  | idle
  | snapped (targets : List (HealthTarget P))
  | running (run : ReportRun P)
  | finished (targets : List (HealthTarget P)) (report : GoMap DatasourceHealth)

/-- A step of a report. `ctxErr` is the text of `ctx.Err()`, `since` the clock that
`recentRequestError` reads. -/
inductive ReportAct
  | snapshot (order : IterOrder)
  | start (ctxErr : Option String) (now : String)
  | take (ctxErr : Option String)
  | check (k : Nat) (err : Option String) (latencyMs : Int)
  | record (k : Nat) (since : Int)
  | finish

section Model

variable {P : Type}

def healthTargets (r : Registry P) (order : IterOrder) : List (HealthTarget P) :=
  (r.all order).filterMap fun id =>
    match r.proxies.lookup id, r.configs.lookup id with
    | some p, some cfg => some ⟨id, p, cfg⟩
    | _, _ => none

variable (redact : String → String)

def cancelledHealth (t : HealthTarget P) (ctxErr now : String) : DatasourceHealth :=
  { type := t.cfg.type, proxyType := t.cfg.proxyType, name := t.cfg.name, status := .error
    error := redact ctxErr, errorClass := errorClass t.cfg.proxyType, lastCheck := now
    reachable := false, latencyMs := 0, lastSuccess := "" }

/-- The entry for a target that was checked; `recent` is its request failure. -/
def checkedHealth (t : HealthTarget P) (now : String) (err : Option String) (latencyMs : Int)
    (lastSuccess : String) (recent : Option String) : DatasourceHealth :=
  let failure := match err with
    | some e => some (redact e)
    | none => recent
  { type := t.cfg.type, proxyType := t.cfg.proxyType, name := t.cfg.name
    status := if failure.isSome then .error else .healthy
    error := failure.getD ""
    errorClass := if failure.isSome then errorClass t.cfg.proxyType else ""
    lastCheck := now, reachable := err.isNone, latencyMs := latencyMs
    lastSuccess := lastSuccess }

variable [DecidableEq P]

/-- The critical section after a check: nothing is recorded if the proxy is no
longer the registered one. -/
def recordCheck (r : Registry P) (t : HealthTarget P) (now : String) (err : Option String)
    (latencyMs since : Int) : Registry P × Option DatasourceHealth :=
  if r.proxies.lookup t.id ≠ some t.proxy then (r, none)
  else
    match err with
    | some e =>
      (r, some (checkedHealth redact t now (some e) latencyMs
        ((r.lastSuccess.lookup t.id).getD "") none))
    | none =>
      let passed := { r with lastSuccess := r.lastSuccess.insert t.id now }
      let (r', recent) := passed.recentRequestError t.id since
      (r', some (checkedHealth redact t now none latencyMs now recent))

def buildReport (targets : List (HealthTarget P)) (slots : Nat → CheckSlot) :
    GoMap DatasourceHealth :=
  targets.zipIdx.foldl (fun report (t, k) =>
    match slots k with
    | .recorded health => report.insert t.id health
    | _ => report) ∅

def reportStep (r : Registry P) (ph : ReportPhase P) (a : ReportAct) :
    Registry P × ReportPhase P :=
  match a, ph with
  | .snapshot order, .idle => (r, .snapped (healthTargets r order))
  | .start ctxErr now, .snapped targets =>
    if targets.isEmpty then (r, .finished [] ∅)
    else
      match ctxErr with
      | some e =>
        (r, .finished targets
          (targets.foldl (fun report t => report.insert t.id (cancelledHealth redact t e now)) ∅))
      | none => (r, .running ⟨targets, now, 0, fun _ => .pending⟩)
  | .take ctxErr, .running run =>
    match run.targets[run.next]? with
    | none => (r, ph)
    | some t =>
      if run.workerFree then
        let slot := match ctxErr with
          | some e => .recorded (cancelledHealth redact t e run.now)
          | none => .checking
        (r, .running { run.set run.next slot with next := run.next + 1 })
      else (r, ph)
  | .check k err latencyMs, .running run =>
    if run.slots k = .checking then (r, .running (run.set k (.checked err latencyMs))) else (r, ph)
  | .record k since, .running run =>
    match run.targets[k]?, run.slots k with
    | some t, .checked err latencyMs =>
      let (r', entry) := recordCheck redact r t run.now err latencyMs since
      (r', .running (run.set k (.ofEntry entry)))
    | _, _ => (r, ph)
  | .finish, .running run =>
    -- after `wg.Wait`
    if (List.range run.targets.length).all fun k => (run.slots k).ended then
      (r, .finished run.targets (buildReport run.targets run.slots))
    else (r, ph)
  | _, _ => (r, ph)

end Model

/-! ## Many reports -/

structure HealthState (ρ P : Type) where
  registry : Registry P
  phase : ρ → ReportPhase P

inductive HealthAct (ρ P : Type)
  | report (j : ρ) (a : ReportAct)
  /-- `Register`, `Remove` or `CloseAll`. -/
  | op (o : Registry.Op P)
  /-- `RecordRequestResult`. -/
  | request (cancelled : Bool) (id : String) (err : Option ProxyError) (now : Int)

section Many

variable {ρ P : Type} [DecidableEq ρ] [DecidableEq P] (redact : String → String)

def HealthState.new : HealthState ρ P := ⟨.new, fun _ => .idle⟩

def healthStep (s : HealthState ρ P) : HealthAct ρ P → HealthState ρ P
  | .report j a =>
    let (r, ph) := reportStep redact s.registry (s.phase j) a
    ⟨r, Function.update s.phase j ph⟩
  | .op o => { s with registry := s.registry.step o }
  | .request cancelled id err now =>
    { s with registry := s.registry.recordRequestResult redact cancelled id err now }

def healthRun (acts : List (HealthAct ρ P)) : HealthState ρ P :=
  Runs.Run (healthStep redact) .new acts

end Many

/-- The context of the report has not ended when the step reads it. -/
def ReportAct.Uncancelled : ReportAct → Prop
  | .start ctxErr _ | .take ctxErr => ctxErr = none
  | .snapshot _ | .check _ _ _ | .record _ _ | .finish => True

def HealthAct.Uncancelled {ρ P : Type} : HealthAct ρ P → Prop
  | .report _ a => a.Uncancelled
  | .op _ | .request _ _ _ _ => True

/-- The proxies handed to `Register`, in order. -/
def registeredIn {ρ P : Type} (acts : List (HealthAct ρ P)) : List P :=
  acts.filterMap fun
    | .op (.register _ _ p) => some p
    | _ => none

/-! ## The steps about one target -/

section History

variable {ρ P : Type} [DecidableEq ρ] [DecidableEq P] (redact : String → String)

/-- The run `hs` ends with the snapshot of report `j`. -/
def SnapshotAt (j : ρ) (targets : List (HealthTarget P)) (hs : List (HealthAct ρ P)) : Prop :=
  ∃ pre order, hs = pre ++ [.report j (.snapshot order)] ∧
    (healthRun redact pre).phase j = .idle ∧
    targets = healthTargets (healthRun redact pre).registry order

/-- The run `hc` ends with the return of the check of target number `k` in report `j`,
which started at `now`. -/
def CheckAt (j : ρ) (k : Nat) (t : HealthTarget P) (now : String) (err : Option String)
    (latencyMs : Int) (hc : List (HealthAct ρ P)) : Prop :=
  ∃ pre run, hc = pre ++ [.report j (.check k err latencyMs)] ∧
    (healthRun redact pre).phase j = .running run ∧ run.targets[k]? = some t ∧ run.now = now ∧
    run.slots k = .checking

/-- The steps of report `j` about a target: the snapshot, the check and the critical
section after it. -/
structure TargetCheck (acts : List (HealthAct ρ P)) (j : ρ) (t : HealthTarget P) where
  index : Nat
  now : String
  err : Option String
  latencyMs : Int
  since : Int
  /-- The run up to the snapshot. -/
  snapped : List (HealthAct ρ P)
  /-- The run up to the return of the check. -/
  checked : List (HealthAct ρ P)
  /-- The run before the critical section. -/
  before : List (HealthAct ρ P)
  snapshotStep : ∃ targets, SnapshotAt redact j targets snapped ∧ targets[index]? = some t
  checkStep : CheckAt redact j index t now err latencyMs checked
  recordStep : before ++ [.report j (.record index since)] <+: acts
  snapped_checked : snapped <+: checked
  checked_before : checked <+: before

/-- What the critical section made of the check. -/
def TargetCheck.entry {acts : List (HealthAct ρ P)} {j : ρ} {t : HealthTarget P}
    (c : TargetCheck redact acts j t) : Option DatasourceHealth :=
  (recordCheck redact (healthRun redact c.before).registry t c.now c.err c.latencyMs c.since).2

/-- A check of the proxy passed in a report that started at `now`. -/
def PassedIn (acts : List (HealthAct ρ P)) (p : P) (now : String) : Prop :=
  ∃ j k t latencyMs hc, t.proxy = p ∧ hc <+: acts ∧ CheckAt redact j k t now none latencyMs hc

end History

namespace HealthLemmas

section Report

variable {P : Type} {r : Registry P} {order : IterOrder} {t : HealthTarget P}
  {targets : List (HealthTarget P)} {slots : Nat → CheckSlot}

theorem healthTargets_get (h : t ∈ healthTargets r order) :
    r.proxies.lookup t.id = some t.proxy := by
  obtain ⟨id, -, hid⟩ := List.mem_filterMap.mp h
  split at hid
  · rename_i p cfg hp _
    cases hid
    exact hp
  · cases hid

theorem healthTargets_ids_nodup (r : Registry P) (order : IterOrder) :
    ((healthTargets r order).map (·.id)).Nodup := by
  have hsub : ∀ ids : List String, ((ids.filterMap fun id =>
      match r.proxies.lookup id, r.configs.lookup id with
      | some p, some cfg => some (⟨id, p, cfg⟩ : HealthTarget P)
      | _, _ => none).map (·.id)).Sublist ids := by
    intro ids
    induction ids with
    | nil => exact .slnil
    | cons id ids ih =>
      rw [List.filterMap_cons]
      split
      · exact .cons _ ih
      · rename_i t ht
        have hid : t.id = id := by
          split at ht <;> cases ht
          rfl
        rw [List.map_cons, hid]
        exact .cons_cons _ ih
  have hnodup : (r.all order).Nodup := (order.perm r.proxies.keys).nodup_iff.mpr r.proxies.nodupKeys
  exact hnodup.sublist (hsub _)

theorem buildReport_snoc (targets : List (HealthTarget P)) (t : HealthTarget P)
    (slots : Nat → CheckSlot) :
    buildReport (targets ++ [t]) slots =
      match slots targets.length with
      | .recorded health => (buildReport targets slots).insert t.id health
      | _ => buildReport targets slots := by
  simp [buildReport, List.zipIdx_append]

theorem mem_buildReport {id : String} {health : DatasourceHealth}
    (h : (buildReport targets slots).lookup id = some health) :
    ∃ (k : Nat) (t : HealthTarget P), targets[k]? = some t ∧ t.id = id ∧
      slots k = .recorded health := by
  induction targets using List.reverseRecOn with
  | nil => cases h
  | append_singleton targets t ih =>
    have hold : ∀ (k : Nat) (u : HealthTarget P), targets[k]? = some u →
        (targets ++ [t])[k]? = some u := fun k u hu => by
      rw [List.getElem?_append_left (List.getElem?_eq_some_iff.mp hu).1, hu]
    rw [buildReport_snoc] at h
    split at h
    · rename_i health' hslot
      rcases eq_or_ne id t.id with rfl | hne
      · rw [AList.lookup_insert] at h
        cases h
        exact ⟨targets.length, t, by simp, rfl, hslot⟩
      · rw [AList.lookup_insert_ne hne] at h
        obtain ⟨k, u, hu, hid, hrec⟩ := ih h
        exact ⟨k, u, hold k u hu, hid, hrec⟩
    · obtain ⟨k, u, hu, hid, hrec⟩ := ih h
      exact ⟨k, u, hold k u hu, hid, hrec⟩

theorem lookup_of_recorded (hnd : (targets.map (·.id)).Nodup) {k : Nat} {health : DatasourceHealth}
    (hk : targets[k]? = some t) (hslot : slots k = .recorded health) :
    (buildReport targets slots).lookup t.id = some health := by
  induction targets using List.reverseRecOn with
  | nil => cases hk
  | append_singleton targets u ih =>
    rw [List.map_append, List.map_singleton, List.nodup_append] at hnd
    rw [buildReport_snoc]
    rcases Nat.lt_or_ge k targets.length with hlt | hge
    · rw [List.getElem?_append_left hlt] at hk
      have hmem : t.id ∈ targets.map (·.id) := List.mem_map_of_mem (List.mem_of_getElem? hk)
      have hne : t.id ≠ u.id := hnd.2.2 _ hmem _ (List.mem_singleton_self _)
      split
      · rw [AList.lookup_insert_ne hne]
        exact ih hnd.1 hk
      · exact ih hnd.1 hk
    · rw [List.getElem?_append_right hge, List.getElem?_singleton] at hk
      split at hk
      · rename_i hzero
        cases hk
        rw [show targets.length = k from le_antisymm hge (Nat.sub_eq_zero_iff_le.mp hzero), hslot]
        exact AList.lookup_insert _
      · cases hk

theorem lookup_buildReport (hnd : (targets.map (·.id)).Nodup) {k : Nat}
    {entry : Option DatasourceHealth} (hk : targets[k]? = some t)
    (hslot : slots k = .ofEntry entry) :
    (buildReport targets slots).lookup t.id = entry := by
  cases entry with
  | some health => exact lookup_of_recorded hnd hk hslot
  | none =>
    rw [Option.eq_none_iff_forall_ne_some]
    intro health h
    obtain ⟨m, u, hu, hid, hrec⟩ := mem_buildReport h
    have hm : (targets.map (·.id))[m]? = (targets.map (·.id))[k]? := by
      rw [List.getElem?_map, List.getElem?_map, hu, hk, Option.map_some, Option.map_some, hid]
    have hlt : m < (targets.map (·.id)).length := by
      rw [List.length_map]
      exact (List.getElem?_eq_some_iff.mp hu).1
    rw [(List.getElem?_inj hlt hnd).mp hm, hslot] at hrec
    cases hrec

end Report

section Step

variable {P : Type} [DecidableEq P]
variable {r : Registry P} {redact : String → String} {latencyMs since : Int} {err : Option String}
  {t : HealthTarget P} {now : String} {id : String}

inductive ReportMove (redact : String → String) (r : Registry P) :
    ReportPhase P → ReportAct → Registry P → ReportPhase P → Prop
  | stay (ph : ReportPhase P) (a : ReportAct) : ReportMove redact r ph a r ph
  | snapshot (order : IterOrder) :
      ReportMove redact r .idle (.snapshot order) r (.snapped (healthTargets r order))
  | startEmpty (ctxErr : Option String) (now : String) :
      ReportMove redact r (.snapped []) (.start ctxErr now) r (.finished [] ∅)
  | startCancelled (targets : List (HealthTarget P)) (e now : String)
      (report : GoMap DatasourceHealth) :
      ReportMove redact r (.snapped targets) (.start (some e) now) r (.finished targets report)
  | start (targets : List (HealthTarget P)) (now : String) :
      ReportMove redact r (.snapped targets) (.start none now) r
        (.running ⟨targets, now, 0, fun _ => .pending⟩)
  | takeCancelled (run : ReportRun P) (t : HealthTarget P) (e : String) :
      ReportMove redact r (.running run) (.take (some e)) r
        (.running { run.set run.next (.recorded (cancelledHealth redact t e run.now)) with
          next := run.next + 1 })
  | take (run : ReportRun P) :
      ReportMove redact r (.running run) (.take none) r
        (.running { run.set run.next .checking with next := run.next + 1 })
  | check (run : ReportRun P) (k : Nat) (err : Option String) (latencyMs : Int) :
      run.slots k = .checking →
      ReportMove redact r (.running run) (.check k err latencyMs) r
        (.running (run.set k (.checked err latencyMs)))
  | record (run : ReportRun P) (k : Nat) (since : Int) (t : HealthTarget P)
      (err : Option String) (latencyMs : Int) :
      run.targets[k]? = some t → run.slots k = .checked err latencyMs →
      ReportMove redact r (.running run) (.record k since)
        (recordCheck redact r t run.now err latencyMs since).1
        (.running (run.set k (.ofEntry (recordCheck redact r t run.now err latencyMs since).2)))
  | finish (run : ReportRun P) : (∀ k < run.targets.length, (run.slots k).ended) →
      ReportMove redact r (.running run) .finish r
        (.finished run.targets (buildReport run.targets run.slots))

theorem reportStep_move (redact : String → String) (r : Registry P) (ph : ReportPhase P)
    (a : ReportAct) :
    ReportMove redact r ph a (reportStep redact r ph a).1 (reportStep redact r ph a).2 := by
  unfold reportStep
  split
  · exact .snapshot _
  · split
    · rename_i hempty
      rw [List.isEmpty_iff.mp hempty]
      exact .startEmpty _ _
    · split
      · exact .startCancelled _ _ _ _
      · exact .start _ _
  · split
    · exact .stay _ _
    · split
      · split
        · exact .takeCancelled _ _ _
        · exact .take _
      · exact .stay _ _
  · split
    · exact .check _ _ _ _ ‹_›
    · exact .stay _ _
  · split
    · exact .record _ _ _ _ _ _ ‹_› ‹_›
    · exact .stay _ _
  · split
    · rename_i hall
      exact .finish _ fun k hk => List.all_eq_true.mp hall k (List.mem_range.mpr hk)
    · exact .stay _ _
  · exact .stay _ _

theorem recordCheck_isSome :
    (recordCheck redact r t now err latencyMs since).2.isSome ↔
      r.proxies.lookup t.id = some t.proxy := by
  unfold recordCheck
  split
  · rename_i h
    simpa using h
  · rename_i h
    rw [not_not] at h
    cases err <;> simp [h]

theorem recordCheck_entry {health : DatasourceHealth}
    (h : (recordCheck redact r t now err latencyMs since).2 = some health) :
    (health.reachable ↔ err = none) ∧
    ((err = none ∧ health.lastSuccess = now) ∨
      health.lastSuccess = (r.lastSuccess.lookup t.id).getD "") := by
  unfold recordCheck at h
  split at h
  · cases h
  · cases err with
    | none =>
      cases h
      exact ⟨by simp [checkedHealth], .inl ⟨rfl, rfl⟩⟩
    | some e =>
      cases h
      exact ⟨by simp [checkedHealth], .inr rfl⟩

theorem recordCheck_proxies :
    (recordCheck redact r t now err latencyMs since).1.proxies = r.proxies := by
  unfold recordCheck
  split
  · rfl
  · cases err with
    | none => exact RequestLemmas.recentRequestError_proxies
    | some e => rfl

omit [DecidableEq P] in
theorem recentRequestError_lastSuccess {now : Int} :
    (r.recentRequestError id now).1.lastSuccess = r.lastSuccess := by
  unfold Registry.recentRequestError
  split
  · rfl
  · split <;> rfl

theorem recordCheck_lastSuccess {id s : String}
    (h : (recordCheck redact r t now err latencyMs since).1.lastSuccess.lookup id = some s) :
    r.lastSuccess.lookup id = some s ∨
      (id = t.id ∧ s = now ∧ err = none ∧ r.proxies.lookup t.id = some t.proxy) := by
  unfold recordCheck at h
  split at h
  · exact .inl h
  · rename_i hreg
    cases err with
    | none =>
      simp only [recentRequestError_lastSuccess] at h
      rcases eq_or_ne id t.id with rfl | hne
      · rw [AList.lookup_insert] at h
        exact .inr ⟨rfl, (Option.some.inj h).symm, rfl, not_not.mp hreg⟩
      · exact .inl ((AList.lookup_insert_ne hne).symm.trans h)
    | some e => exact .inl h

omit [DecidableEq P] in
theorem closeAll_lookup {order : IterOrder} {p : P}
    (h : (r.closeAll order).proxies.lookup id = some p) :
    r.proxies.lookup id = some p ∧ (r.closeAll order).lastSuccess = r.lastSuccess := by
  unfold Registry.closeAll at h ⊢
  generalize order.visit r.proxies.keys = ids at h ⊢
  induction ids generalizing r with
  | nil => exact ⟨h, rfl⟩
  | cons id' ids ih =>
    obtain ⟨hp, hs⟩ := ih h
    rw [List.foldl_cons, hs]
    unfold Registry.closeOne at hp ⊢
    split at hp
    · exact ⟨hp, rfl⟩
    · have hne : id ≠ id' := by
        rintro rfl
        rw [AList.lookup_erase] at hp
        cases hp
      exact ⟨(AList.lookup_erase_ne hne).symm.trans hp, rfl⟩

omit [DecidableEq P] in
theorem op_registered {o : Registry.Op P} {p : P} (h : (r.step o).proxies.lookup id = some p) :
    (r.proxies.lookup id = some p ∧ (r.step o).lastSuccess.lookup id = r.lastSuccess.lookup id) ∨
    (∃ entry, o = .register id entry p) ∧ (r.step o).lastSuccess.lookup id = none := by
  cases o with
  | register id' entry q =>
    rcases eq_or_ne id id' with rfl | hne
    · have hpq : q = p := Option.some.inj ((AList.lookup_insert _).symm.trans h)
      exact .inr ⟨⟨entry, hpq ▸ rfl⟩, AList.lookup_erase _ _⟩
    · exact .inl ⟨(AList.lookup_insert_ne hne).symm.trans h, AList.lookup_erase_ne hne⟩
  | remove id' closeErr =>
    rcases eq_or_ne id id' with rfl | hne
    · simp only [Registry.step, Registry.remove] at h ⊢
      split at h
      · exact .inl ⟨h, rfl⟩
      · split at h
        · exact .inl ⟨h, rfl⟩
        · rw [AList.lookup_erase] at h
          cases h
    · refine .inl ⟨(Registry.remove_lookup_ne hne).symm.trans h, ?_⟩
      simp only [Registry.step, Registry.remove]
      split
      · rfl
      · split
        · rfl
        · exact AList.lookup_erase_ne hne
  | closeAll order =>
    obtain ⟨hp, hs⟩ := closeAll_lookup h
    exact .inl ⟨hp, by rw [Registry.step, hs]⟩

end Step

section Run

variable {ρ P : Type} [DecidableEq ρ] [DecidableEq P] {redact : String → String}
  {acts : List (HealthAct ρ P)} {a : HealthAct ρ P} {j : ρ} {t : HealthTarget P}
variable {hs : List (HealthAct ρ P)} {slot : CheckSlot} {id : String} {now : String} {k : Nat}
  {p : P}

/-- The steps behind a slot of a report whose snapshot ends `hs`. -/
def SlotOk (redact : String → String) (acts hs : List (HealthAct ρ P)) (j : ρ) (k : Nat)
    (t : HealthTarget P) (now : String) : CheckSlot → Prop
  | .pending | .checking => True
  | .checked err latencyMs =>
    ∃ hc, hs <+: hc ∧ hc <+: acts ∧ CheckAt redact j k t now err latencyMs hc
  | .recorded health =>
    ∃ c : TargetCheck redact acts j t, c.snapped = hs ∧ c.entry = some health
  | .superseded => ∃ c : TargetCheck redact acts j t, c.snapped = hs ∧ c.entry = none

def ReportOk (redact : String → String) (acts : List (HealthAct ρ P)) (j : ρ) :
    ReportPhase P → Prop
  | .idle => True
  | .snapped targets => ∃ hs, hs <+: acts ∧ SnapshotAt redact j targets hs
  | .running run => ∃ hs, hs <+: acts ∧ SnapshotAt redact j run.targets hs ∧
      ∀ k t, run.targets[k]? = some t → SlotOk redact acts hs j k t run.now (run.slots k)
  | .finished targets report => ∃ hs, hs <+: acts ∧ SnapshotAt redact j targets hs ∧
      (∀ t ∈ targets, ∃ c : TargetCheck redact acts j t,
        c.snapped = hs ∧ report.lookup t.id = c.entry) ∧
      ∀ id ∈ report, ∃ t ∈ targets, t.id = id

/-- Every last success of a registered proxy is the start of a report it passed. -/
def RegistryOk (redact : String → String) (acts : List (HealthAct ρ P)) (r : Registry P) :
    Prop :=
  ∀ id p s, r.proxies.lookup id = some p → r.lastSuccess.lookup id = some s →
    PassedIn redact acts p s

def extendCheck (c : TargetCheck redact acts j t) (a : HealthAct ρ P) :
    TargetCheck redact (acts ++ [a]) j t :=
  { c with recordStep := c.recordStep.trans (List.prefix_append acts [a]) }

theorem SlotOk.extend (h : SlotOk redact acts hs j k t now slot) (a : HealthAct ρ P) :
    SlotOk redact (acts ++ [a]) hs j k t now slot := by
  cases slot with
  | pending | checking => trivial
  | checked err latencyMs =>
    obtain ⟨hc, hs', hacts, hcheck⟩ := h
    exact ⟨hc, hs', hacts.trans (List.prefix_append acts [a]), hcheck⟩
  | recorded health =>
    obtain ⟨c, hc, he⟩ := h
    exact ⟨extendCheck c a, hc, he⟩
  | superseded =>
    obtain ⟨c, hc, he⟩ := h
    exact ⟨extendCheck c a, hc, he⟩

theorem ReportOk.extend {ph : ReportPhase P} (h : ReportOk redact acts j ph)
    (a : HealthAct ρ P) : ReportOk redact (acts ++ [a]) j ph := by
  have happ := List.prefix_append acts [a]
  cases ph with
  | idle => trivial
  | snapped targets =>
    obtain ⟨hs, hacts, hsnap⟩ := h
    exact ⟨hs, hacts.trans happ, hsnap⟩
  | running run =>
    obtain ⟨hs, hacts, hsnap, hslots⟩ := h
    exact ⟨hs, hacts.trans happ, hsnap, fun k t hk => (hslots k t hk).extend a⟩
  | finished targets report =>
    obtain ⟨hs, hacts, hsnap, hentries, hids⟩ := h
    refine ⟨hs, hacts.trans happ, hsnap, fun t ht => ?_, hids⟩
    obtain ⟨c, hc, he⟩ := hentries t ht
    exact ⟨extendCheck c a, hc, he⟩

theorem SlotOk.ofEntry (c : TargetCheck redact acts j t) (hc : c.snapped = hs) :
    SlotOk redact acts hs j k t now (.ofEntry c.entry) := by
  cases hentry : c.entry with
  | some health => exact ⟨c, hc, hentry⟩
  | none => exact ⟨c, hc, hentry⟩

theorem SlotOk.ended (h : SlotOk redact acts hs j k t now slot) (hend : slot.ended) :
    ∃ c : TargetCheck redact acts j t, c.snapped = hs ∧ slot = .ofEntry c.entry := by
  cases slot with
  | pending | checking | checked => cases hend
  | recorded health =>
    obtain ⟨c, hc, he⟩ := h
    exact ⟨c, hc, by rw [he]; rfl⟩
  | superseded =>
    obtain ⟨c, hc, he⟩ := h
    exact ⟨c, hc, by rw [he]; rfl⟩

theorem slots_set {run : ReportRun P}
    (h : ∀ m t, run.targets[m]? = some t → SlotOk redact acts hs j m t run.now (run.slots m))
    (hk : ∀ t, run.targets[k]? = some t → SlotOk redact acts hs j k t run.now slot) (m : Nat)
    (t : HealthTarget P) (hm : run.targets[m]? = some t) :
    SlotOk redact acts hs j m t run.now ((run.set k slot).slots m) := by
  rcases eq_or_ne m k with rfl | hne
  · rw [show (run.set m slot).slots m = slot from Function.update_self ..]
    exact hk t hm
  · rw [show (run.set k slot).slots m = run.slots m from Function.update_of_ne hne ..]
    exact h m t hm

theorem reportOk_move {ph ph' : ReportPhase P} {r' : Registry P} {b : ReportAct}
    (hph : (healthRun redact acts).phase j = ph) (h : ReportOk redact acts j ph)
    (hctx : b.Uncancelled)
    (hmove : ReportMove redact (healthRun redact acts).registry ph b r' ph') :
    ReportOk redact (acts ++ [.report j b]) j ph' := by
  have happ := List.prefix_append acts [.report j b]
  cases hmove with
  | stay => exact h.extend _
  | snapshot order => exact ⟨_, List.prefix_refl _, acts, order, rfl, hph, rfl⟩
  | startEmpty ctxErr now =>
    obtain ⟨hs, hacts, hsnap⟩ := h
    exact ⟨hs, hacts.trans happ, hsnap, fun t ht => absurd ht List.not_mem_nil,
      fun id hid => absurd hid (AList.notMem_empty id)⟩
  | startCancelled => cases hctx
  | start targets now =>
    obtain ⟨hs, hacts, hsnap⟩ := h
    exact ⟨hs, hacts.trans happ, hsnap, fun _ _ _ => trivial⟩
  | takeCancelled => cases hctx
  | take run =>
    obtain ⟨hs, hacts, hsnap, hslots⟩ := h.extend (.report j (.take none))
    exact ⟨hs, hacts, hsnap, slots_set hslots fun _ _ => trivial⟩
  | check run k err latencyMs hk =>
    obtain ⟨hs, hacts, hsnap, hslots⟩ := h.extend (.report j (.check k err latencyMs))
    exact ⟨hs, hacts, hsnap, slots_set hslots fun t ht =>
      ⟨_, hacts, List.prefix_refl _, acts, run, rfl, hph, ht, rfl, hk⟩⟩
  | record run k since t err latencyMs ht hk =>
    obtain ⟨hs, hacts, hsnap, hslots⟩ := h
    have hslot := hslots k t ht
    rw [hk] at hslot
    obtain ⟨hc, hsc, hcacts, hcheck⟩ := hslot
    let c : TargetCheck redact (acts ++ [.report j (.record k since)]) j t :=
      { index := k, now := run.now, err := err, latencyMs := latencyMs, since := since
        snapped := hs, checked := hc, before := acts
        snapshotStep := ⟨run.targets, hsnap, ht⟩
        checkStep := hcheck
        recordStep := List.prefix_refl _
        snapped_checked := hsc
        checked_before := hcacts }
    refine ⟨hs, hacts.trans happ, hsnap,
      slots_set (fun m u hu => (hslots m u hu).extend _) fun u hu => ?_⟩
    obtain rfl := Option.some.inj (ht.symm.trans hu)
    exact SlotOk.ofEntry c rfl
  | finish run hended =>
    obtain ⟨hs, hacts, hsnap, hslots⟩ := h.extend (.report j .finish)
    have hnodup : (run.targets.map (·.id)).Nodup := by
      obtain ⟨pre, order, -, -, htargets⟩ := hsnap
      rw [htargets]
      exact healthTargets_ids_nodup _ _
    refine ⟨hs, hacts, hsnap, fun t ht => ?_, fun id hid => ?_⟩
    · obtain ⟨k, hk⟩ := List.mem_iff_getElem?.mp ht
      have hend := hended k (List.getElem?_eq_some_iff.mp hk).1
      obtain ⟨c, hc, hslot⟩ := (hslots k t hk).ended hend
      exact ⟨c, hc, lookup_buildReport hnodup hk hslot⟩
    · obtain ⟨health, hhealth⟩ := Option.isSome_iff_exists.mp (AList.lookup_isSome.mpr hid)
      obtain ⟨k, t, hk, hid', -⟩ := mem_buildReport hhealth
      exact ⟨t, List.mem_of_getElem? hk, hid'⟩

theorem healthRun_snoc (acts : List (HealthAct ρ P)) (a : HealthAct ρ P) :
    healthRun redact (acts ++ [a]) = healthStep redact (healthRun redact acts) a :=
  Runs.run_snoc _ _ _ _

theorem reportOk_step
    (h : ∀ j, ReportOk redact acts j ((healthRun redact acts).phase j)) (hctx : a.Uncancelled)
    (j : ρ) : ReportOk redact (acts ++ [a]) j ((healthRun redact (acts ++ [a])).phase j) := by
  rw [healthRun_snoc]
  cases a with
  | op o => exact (h j).extend _
  | request cancelled id err now => exact (h j).extend _
  | report i b =>
    rcases eq_or_ne j i with rfl | hne
    · rw [show (healthStep redact (healthRun redact acts) (.report j b)).phase j = _ from
        Function.update_self ..]
      exact reportOk_move rfl (h j) hctx (reportStep_move ..)
    · rw [show (healthStep redact (healthRun redact acts) (.report i b)).phase j = _ from
        Function.update_of_ne hne ..]
      exact (h j).extend _

theorem PassedIn.mono {acts' : List (HealthAct ρ P)} {s : String} (h : PassedIn redact acts p s)
    (hp : acts <+: acts') : PassedIn redact acts' p s := by
  obtain ⟨j, k, t, latencyMs, hc, ht, hacts, hcheck⟩ := h
  exact ⟨j, k, t, latencyMs, hc, ht, hacts.trans hp, hcheck⟩

theorem registryOk_move {ph ph' : ReportPhase P} {r r' : Registry P} {b : ReportAct}
    (h : ReportOk redact acts j ph) (hr : RegistryOk redact acts r)
    (hmove : ReportMove redact r ph b r' ph') : RegistryOk redact acts r' := by
  cases hmove with
  | record run k since t err latencyMs ht hk =>
    intro id p s hp hs
    rw [recordCheck_proxies] at hp
    rcases recordCheck_lastSuccess hs with hold | ⟨rfl, rfl, rfl, hreg⟩
    · exact hr id p s hp hold
    · obtain ⟨hs, -, -, hslots⟩ := h
      have hslot := hslots k t ht
      rw [hk] at hslot
      obtain ⟨hc, -, hacts, hcheck⟩ := hslot
      exact ⟨j, k, t, latencyMs, hc, Option.some.inj (hreg.symm.trans hp), hacts, hcheck⟩
  | stay | snapshot | startEmpty | startCancelled | start | takeCancelled | take | check | finish =>
    exact hr

omit [DecidableEq P] in
theorem recordRequestResult_proxies {r : Registry P} {cancelled : Bool} {err : Option ProxyError}
    {now : Int} :
    (r.recordRequestResult redact cancelled id err now).proxies = r.proxies ∧
    (r.recordRequestResult redact cancelled id err now).lastSuccess = r.lastSuccess := by
  rcases RequestLemmas.recordRequestResult_cases redact r cancelled id err now with
    ⟨e, -, -, hr⟩ | ⟨-, -, -, hr⟩ | ⟨-, hr⟩ <;> rw [hr] <;> exact ⟨rfl, rfl⟩

theorem registryOk_step (h : ∀ j, ReportOk redact acts j ((healthRun redact acts).phase j))
    (hr : RegistryOk redact acts (healthRun redact acts).registry) :
    RegistryOk redact (acts ++ [a]) (healthRun redact (acts ++ [a])).registry := by
  rw [healthRun_snoc]
  intro id p s hp hs
  refine PassedIn.mono ?_ (List.prefix_append acts [a])
  cases a with
  | op o =>
    rcases op_registered hp with ⟨hold, hsame⟩ | ⟨-, hnone⟩
    · exact hr id p s hold (hsame.symm.trans hs)
    · cases hnone.symm.trans hs
  | request cancelled id' err now =>
    simp only [healthStep, recordRequestResult_proxies.1, recordRequestResult_proxies.2] at hp hs
    exact hr id p s hp hs
  | report j b => exact registryOk_move (h j) hr (reportStep_move ..) id p s hp hs

theorem health_run (redact : String → String) (hctx : ∀ a ∈ acts, a.Uncancelled) :
    (∀ j, ReportOk redact acts j ((healthRun redact acts).phase j)) ∧
      RegistryOk redact acts (healthRun redact acts).registry := by
  refine Runs.run_invariant
    (fun as => (∀ j, ReportOk redact as j ((healthRun redact as).phase j)) ∧
      RegistryOk redact as (healthRun redact as).registry)
    (fun _ a => a.Uncancelled) ⟨fun _ => trivial, fun _ _ _ hp => by cases hp⟩
    (fun pre a ha hinv => ⟨reportOk_step hinv.1 ha, registryOk_step hinv.1 hinv.2⟩)
    (fun pre a hp => hctx a (hp.subset (List.mem_append_right pre (List.mem_singleton_self a))))

/-! ## Proxies registered once -/

theorem registered_step (h : (healthRun redact (acts ++ [a])).registry.get id = some p) :
    (healthRun redact acts).registry.get id = some p ∨ ∃ entry, a = .op (.register id entry p) := by
  rw [healthRun_snoc] at h
  cases a with
  | op o =>
    rcases op_registered h with ⟨hold, -⟩ | ⟨⟨entry, rfl⟩, -⟩
    · exact .inl hold
    · exact .inr ⟨entry, rfl⟩
  | request cancelled id' err now =>
    exact .inl ((congrArg (AList.lookup id) recordRequestResult_proxies.1).symm.trans h)
  | report j b =>
    have hsame : ∀ {ph ph' : ReportPhase P} {r r' : Registry P},
        ReportMove redact r ph b r' ph' → r'.proxies = r.proxies := by
      intro ph ph' r r' hmove
      cases hmove with
      | record => exact recordCheck_proxies
      | stay | snapshot | startEmpty | startCancelled | start | takeCancelled | take | check
      | finish => rfl
    exact .inl ((congrArg (AList.lookup id) (hsame (reportStep_move ..))).symm.trans h)

omit [DecidableEq ρ] [DecidableEq P] in
theorem registeredIn_append (as bs : List (HealthAct ρ P)) :
    registeredIn (as ++ bs) = registeredIn as ++ registeredIn bs :=
  List.filterMap_append

theorem registered_later (acts rest : List (HealthAct ρ P))
    (h : (healthRun redact (acts ++ rest)).registry.get id = some p) :
    (healthRun redact acts).registry.get id = some p ∨ p ∈ registeredIn rest := by
  induction rest using List.reverseRecOn with
  | nil => exact .inl (by rwa [List.append_nil] at h)
  | append_singleton rest a ih =>
    rw [← List.append_assoc] at h
    rw [registeredIn_append]
    rcases registered_step h with hold | ⟨entry, rfl⟩
    · exact (ih hold).imp_right (List.mem_append_left _)
    · exact .inr (List.mem_append_right _ (List.mem_singleton_self p))

theorem registered_between {hs m hr : List (HealthAct ρ P)} (honce : (registeredIn hr).Nodup)
    (hsm : hs <+: m) (hmr : m <+: hr) (h1 : (healthRun redact hs).registry.get id = some p)
    (h2 : (healthRun redact hr).registry.get id = some p) :
    (healthRun redact m).registry.get id = some p := by
  obtain ⟨mid, rfl⟩ := hsm
  obtain ⟨rest, rfl⟩ := hmr
  refine (registered_later _ rest h2).resolve_right fun hlater => ?_
  have hfirst : p ∈ registeredIn hs :=
    (registered_later [] hs h1).resolve_left fun h0 => by cases h0
  rw [registeredIn_append, registeredIn_append, List.nodup_append] at honce
  exact honce.2.2 p (List.mem_append_left _ hfirst) p hlater rfl

end Run

end HealthLemmas

open HealthLemmas in
/-- A finished report, with contexts that do not end and proxies registered once.
Its snapshot names each datasource once and the report has no others. For each of
them there is one check and one critical section; the datasource is in the report
exactly if its proxy stayed registered from the snapshot to the critical section,
and then the entry is the one made there. -/
theorem health_report_current {ρ P : Type} [DecidableEq ρ] [DecidableEq P]
    (redact : String → String) (acts : List (HealthAct ρ P)) (hctx : ∀ a ∈ acts, a.Uncancelled)
    (honce : (registeredIn acts).Nodup) (j : ρ) (targets : List (HealthTarget P))
    (report : GoMap DatasourceHealth)
    (h : (healthRun redact acts).phase j = .finished targets report) :
    (targets.map (·.id)).Nodup ∧ (∀ id ∈ report, ∃ t ∈ targets, t.id = id) ∧
    ∃ hs, hs <+: acts ∧ SnapshotAt redact j targets hs ∧
      ∀ t ∈ targets, ∃ c : TargetCheck redact acts j t, c.snapped = hs ∧
        (t.id ∈ report ↔ ∀ m, hs <+: m → m <+: c.before →
          (healthRun redact m).registry.get t.id = some t.proxy) ∧
        ∀ e, report.lookup t.id = some e →
          c.entry = some e ∧ (healthRun redact c.before).registry.get t.id = some t.proxy ∧
          (e.reachable ↔ c.err = none) ∧
          (e.lastSuccess ≠ "" → PassedIn redact acts t.proxy e.lastSuccess) := by
  have hreport := (health_run redact hctx).1 j
  rw [h] at hreport
  obtain ⟨hs, hacts, hsnap, hentries, hids⟩ := hreport
  obtain ⟨pre, order, rfl, hidle, rfl⟩ := hsnap
  refine ⟨healthTargets_ids_nodup _ _, hids, _, hacts, ⟨pre, order, rfl, hidle, rfl⟩,
    fun t ht => ?_⟩
  obtain ⟨c, hc, he⟩ := hentries t ht
  have hbefore : c.before <+: acts := (List.prefix_append _ _).trans c.recordStep
  have hmem : t.id ∈ report ↔ (healthRun redact c.before).registry.get t.id = some t.proxy := by
    rw [← AList.lookup_isSome, he]
    exact recordCheck_isSome
  refine ⟨c, hc, ?_, fun e hlook => ?_⟩
  · rw [hmem]
    constructor
    · intro hreg m hm hmb
      refine registered_between (honce.sublist (hbefore.sublist.filterMap _)) hm hmb ?_ hreg
      rw [healthRun_snoc]
      simp only [healthStep, reportStep, hidle]
      exact healthTargets_get ht
    · intro hall
      exact hall c.before (hc ▸ c.snapped_checked.trans c.checked_before) (List.prefix_refl _)
  · have hreg := hmem.mp (AList.lookup_isSome.mp (Option.isSome_of_mem hlook))
    rw [he] at hlook
    obtain ⟨hreach, hlast⟩ := recordCheck_entry hlook
    refine ⟨hlook, hreg, hreach, fun hset => ?_⟩
    rcases hlast with ⟨herr, hnow⟩ | hold
    · rw [hnow]
      exact ⟨j, c.index, t, c.latencyMs, c.checked, rfl, c.checked_before.trans hbefore,
        herr ▸ c.checkStep⟩
    · cases hl : (healthRun redact c.before).registry.lastSuccess.lookup t.id with
      | none => rw [hl] at hold; exact absurd hold hset
      | some s =>
        rw [hl] at hold
        rw [hold]
        have hpre : ∀ a ∈ c.before, a.Uncancelled := fun a ha => hctx a (hbefore.subset ha)
        exact PassedIn.mono ((health_run redact hpre).2 t.id t.proxy s hreg hl) hbefore

def keysInOrder : IterOrder := ⟨fun keys => keys, fun _ => .refl _⟩

def overtakenReport : List (HealthAct Bool Nat) :=
  [.op (.register "db" dbEntry 1), .report false (.snapshot keysInOrder),
    .report false (.start none "2026-01-01T00:00:00Z"), .report false (.take none),
    .op (.register "db" dbEntry 2), .report false (.check 0 (some "closed") 1),
    .report false (.record 0 0), .report false .finish, .report true (.snapshot keysInOrder),
    .report true (.start none "2026-01-01T00:01:00Z"), .report true (.take none),
    .report true (.check 0 none 1), .report true (.record 0 0), .report true .finish]

def passedEntry : DatasourceHealth :=
  { type := "postgresql", proxyType := "db-proxy", name := "orders", status := .healthy
    error := "", errorClass := "", lastCheck := "2026-01-01T00:01:00Z", reachable := true
    latencyMs := 1, lastSuccess := "2026-01-01T00:01:00Z" }

theorem health_report_current_overtaken :
    (healthRun id overtakenReport).phase false = .finished [⟨"db", 1, dbEntry⟩] ∅ ∧
    (healthRun id overtakenReport).phase true =
      .finished [⟨"db", 2, dbEntry⟩] (AList.insert "db" passedEntry ∅) ∧
    PassedIn id overtakenReport 2 passedEntry.lastSuccess := by
  have hfinished : (healthRun id overtakenReport).phase true =
      .finished [⟨"db", 2, dbEntry⟩] (AList.insert "db" passedEntry ∅) := by rfl
  have hctx : ∀ a ∈ overtakenReport, a.Uncancelled := by
    simp [overtakenReport, HealthAct.Uncancelled, ReportAct.Uncancelled]
  obtain ⟨-, -, hs, -, -, hall⟩ :=
    health_report_current id overtakenReport hctx (by decide) true _ _ hfinished
  obtain ⟨c, -, -, hentry⟩ := hall _ (List.mem_singleton_self _)
  exact ⟨by rfl, hfinished, (hentry passedEntry (AList.lookup_insert _)).2.2.2 (by decide)⟩

end Forager
