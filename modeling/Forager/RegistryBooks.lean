import Forager.HealthReport

/-!
# The maps of the registry agree

`pkg/proxy/registry.go` keeps four maps by datasource id: the proxies, their entries, the
time of the last passed health check and the last request failure. Health checks and
requests end long after they began, when their datasource may be gone.

`Register` and `Remove` drop what belongs to the id in all four maps. `CloseAll` forgets
the times of the last passed check, which stay until the same id is registered again.
-/

namespace Forager

namespace Registry

variable {P : Type}

/-- The four maps agree: every entry belongs to a proxy and every proxy has an entry, and
times and failures belong to registered ids. -/
structure Tidy (r : Registry P) : Prop where
  configs : ∀ id, id ∈ r.configs ↔ id ∈ r.proxies
  lastSuccess : ∀ id ∈ r.lastSuccess, id ∈ r.proxies
  reqErrors : ∀ id ∈ r.reqErrors, id ∈ r.proxies

/-- No registered datasource has passed a check since it was registered. -/
def Unchecked (r : Registry P) : Prop := ∀ id ∈ r.proxies, id ∉ r.lastSuccess

variable {r : Registry P} {id : String}

/-! ## One operation -/

theorem tidy_new : (new : Registry P).Tidy where
  configs _ := Iff.rfl
  lastSuccess _ h := absurd h (AList.notMem_empty _)
  reqErrors _ h := absurd h (AList.notMem_empty _)

theorem Tidy.register (h : r.Tidy) (id : String) (entry : DatasourceEntry) (p : P) :
    (r.register id entry p).Tidy where
  configs id' := by
    rw [mem_register]
    exact (AList.mem_insert _).trans (or_congr_right (h.configs id'))
  lastSuccess id' hid := by
    obtain ⟨-, hold⟩ := AList.mem_erase.mp hid
    exact mem_register.mpr (.inr (h.lastSuccess id' hold))
  reqErrors id' hid := by
    obtain ⟨-, hold⟩ := AList.mem_erase.mp hid
    exact mem_register.mpr (.inr (h.reqErrors id' hold))

theorem Tidy.erase (h : r.Tidy) {r' : Registry P} (hproxies : r'.proxies = r.proxies.erase id)
    (hconfigs : r'.configs = r.configs.erase id) (herrors : r'.reqErrors = r.reqErrors.erase id)
    (hsuccess : ∀ id', id' ∈ r'.lastSuccess → id' ≠ id ∧ id' ∈ r.lastSuccess) : r'.Tidy where
  configs id' := by
    rw [hconfigs, hproxies, AList.mem_erase, AList.mem_erase, h.configs]
  lastSuccess id' hid := by
    obtain ⟨hne, hold⟩ := hsuccess id' hid
    rw [hproxies, AList.mem_erase]
    exact ⟨hne, h.lastSuccess id' hold⟩
  reqErrors id' hid := by
    rw [herrors, AList.mem_erase] at hid
    rw [hproxies, AList.mem_erase]
    exact ⟨hid.1, h.reqErrors id' hid.2⟩

theorem Tidy.remove (h : r.Tidy) (id : String) (closeErr : Option String) :
    (r.remove id closeErr).1.Tidy := by
  unfold Registry.remove
  split
  · exact h
  · split
    · exact ⟨h.configs, h.lastSuccess, h.reqErrors⟩
    · exact h.erase rfl rfl rfl fun id' hid => AList.mem_erase.mp hid

theorem Tidy.recentRequestError (h : r.Tidy) (id : String) (now : Int) :
    (r.recentRequestError id now).1.Tidy := by
  unfold Registry.recentRequestError
  split
  · exact h
  · split
    · exact ⟨h.configs, h.lastSuccess, fun id' hid => h.reqErrors id' (AList.mem_erase.mp hid).2⟩
    · exact h

theorem Tidy.recordRequestResult (h : r.Tidy) (redact : String → String) (cancelled : Bool)
    (id : String) (err : Option ProxyError) (now : Int) :
    (r.recordRequestResult redact cancelled id err now).Tidy := by
  rcases RequestLemmas.recordRequestResult_cases redact r cancelled id err now with
    ⟨e, -, hputs, hr⟩ | ⟨-, -, -, hr⟩ | ⟨-, hr⟩ <;> rw [hr]
  · have hid : id ∈ r.proxies := AList.lookup_isSome.mp (Bool.and_eq_true_iff.mp hputs).1
    refine ⟨h.configs, h.lastSuccess, fun id' hid' => ?_⟩
    rcases (AList.mem_insert _).mp hid' with rfl | hold
    · exact hid
    · exact h.reqErrors id' hold
  · exact ⟨h.configs, h.lastSuccess, fun id' hid => h.reqErrors id' (AList.mem_erase.mp hid).2⟩
  · exact h

theorem Tidy.recordCheck [DecidableEq P] (h : r.Tidy) (redact : String → String)
    (t : HealthTarget P) (now : String) (err : Option String) (latencyMs since : Int) :
    (recordCheck redact r t now err latencyMs since).1.Tidy := by
  unfold Forager.recordCheck
  split
  · exact h
  · next hreg =>
    have hid : t.id ∈ r.proxies := AList.lookup_isSome.mp (not_not.mp hreg ▸ rfl)
    cases err with
    | some e => exact h
    | none =>
      have hpassed : ({ r with lastSuccess := r.lastSuccess.insert t.id now }).Tidy := by
        refine ⟨h.configs, fun id' hid' => ?_, h.reqErrors⟩
        rcases (AList.mem_insert _).mp hid' with rfl | hold
        · exact hid
        · exact h.lastSuccess id' hold
      exact hpassed.recentRequestError t.id since

/-! ## `CloseAll` -/

theorem closeOne_lastSuccess (r : Registry P) (id : String) :
    (r.closeOne id).lastSuccess = r.lastSuccess := by
  unfold closeOne
  split <;> rfl

theorem foldl_closeOne (ids : List String) (r : Registry P) :
    (∀ id, id ∈ (ids.foldl closeOne r).proxies ↔ id ∈ r.proxies ∧ id ∉ ids) ∧
      (ids.foldl closeOne r).lastSuccess = r.lastSuccess := by
  induction ids generalizing r with
  | nil => simp
  | cons id ids ih =>
    obtain ⟨hproxies, hsuccess⟩ := ih (r.closeOne id)
    have hone : ∀ id', id' ∈ (r.closeOne id).proxies ↔ id' ∈ r.proxies ∧ id' ≠ id := by
      intro id'
      unfold closeOne
      split
      · next habsent =>
        refine ⟨fun h => ⟨h, ?_⟩, fun h => h.1⟩
        rintro rfl
        exact AList.lookup_eq_none.mp habsent h
      · exact AList.mem_erase.trans and_comm
    refine ⟨fun id' => ?_, hsuccess.trans (closeOne_lastSuccess r id)⟩
    rw [List.foldl_cons, hproxies, hone, List.mem_cons, not_or, and_assoc]

theorem notMem_closeAll (r : Registry P) (order : IterOrder) (id : String) :
    id ∉ (r.closeAll order).proxies := by
  intro hid
  obtain ⟨hmem, hvisited⟩ := ((foldl_closeOne _ r).1 id).mp hid
  exact hvisited ((order.perm _).mem_iff.mpr hmem)

theorem Tidy.foldl_closeOne (ids : List String) (h : r.Tidy) (hnone : ∀ id, id ∉ r.lastSuccess) :
    (ids.foldl closeOne r).Tidy := by
  induction ids generalizing r with
  | nil => exact h
  | cons id ids ih =>
    have hone : (r.closeOne id).Tidy := by
      unfold closeOne
      split
      · exact h
      · exact h.erase rfl rfl rfl fun id' hid => absurd hid (hnone id')
    exact ih hone (closeOne_lastSuccess r id ▸ hnone)

theorem tidy_closeAll_iff (h : r.Tidy) (order : IterOrder) :
    (r.closeAll order).Tidy ↔ r.Unchecked := by
  constructor
  · intro htidy id _ hsuccess
    have hkept : id ∈ (r.closeAll order).lastSuccess := by
      unfold closeAll
      rw [(foldl_closeOne _ r).2]
      exact hsuccess
    exact notMem_closeAll r order id (htidy.lastSuccess id hkept)
  · intro hunchecked
    exact Tidy.foldl_closeOne _ h fun id hid => hunchecked id (h.lastSuccess id hid) hid

/-! ## Steps and runs -/

variable {ρ : Type} [DecidableEq ρ] [DecidableEq P] {redact : String → String}

theorem Tidy.move {ph ph' : ReportPhase P} {r' : Registry P} {b : ReportAct} (h : r.Tidy)
    (hmove : HealthLemmas.ReportMove redact r ph b r' ph') : r'.Tidy := by
  cases hmove with
  | record run k since t err latencyMs => exact h.recordCheck ..
  | stay | snapshot | startEmpty | startCancelled | start | takeCancelled | take | check | finish =>
    exact h

theorem tidy_step_iff {s : HealthState ρ P} (h : s.registry.Tidy) (a : HealthAct ρ P) :
    (healthStep redact s a).registry.Tidy ↔
      ∀ order, a = .op (.closeAll order) → s.registry.Unchecked := by
  cases a with
  | report j b =>
    exact iff_of_true (h.move (HealthLemmas.reportStep_move ..)) (by rintro order ⟨⟩)
  | request cancelled id err now =>
    exact iff_of_true (h.recordRequestResult ..) (by rintro order ⟨⟩)
  | op o =>
    cases o with
    | register id entry p => exact iff_of_true (h.register ..) (by rintro order ⟨⟩)
    | remove id closeErr => exact iff_of_true (h.remove ..) (by rintro order ⟨⟩)
    | closeAll order =>
      refine (tidy_closeAll_iff h order).trans ⟨fun hu _ _ => hu, fun hu => hu order rfl⟩

end Registry

/-- For every interleaving of `Register`, `Remove`, `CloseAll`, `RecordRequestResult` and the
steps of any number of health reports: the maps agree in every state that is reached exactly
if `CloseAll` is only called when no registered datasource has passed a check. -/
theorem registry_tidy_iff {ρ P : Type} [DecidableEq ρ] [DecidableEq P] (redact : String → String)
    (acts : List (HealthAct ρ P)) :
    (∀ pre, pre <+: acts → (healthRun redact pre).registry.Tidy) ↔
      ∀ pre order, pre ++ [.op (.closeAll order)] <+: acts →
        (healthRun redact pre).registry.Unchecked := by
  constructor
  · intro h pre order hp
    have hbefore := h pre ((List.prefix_append pre _).trans hp)
    have hafter := h _ hp
    rw [HealthLemmas.healthRun_snoc] at hafter
    exact (Registry.tidy_step_iff hbefore _).mp hafter order rfl
  · intro h pre hpre
    refine Runs.run_invariant (fun pre => (healthRun redact pre).registry.Tidy)
      (fun pre a => ∀ order, a = .op (.closeAll order) → (healthRun redact pre).registry.Unchecked)
      Registry.tidy_new (fun pre a hok htidy => ?_) fun pre' a hp order ha => ?_
    · rw [HealthLemmas.healthRun_snoc]
      exact (Registry.tidy_step_iff htidy a).mpr hok
    · exact h pre' order (ha ▸ hp.trans hpre)

/-- One datasource passes a check before `CloseAll`. -/
def closedAfterCheck : List (HealthAct Unit Nat) :=
  [.op (.register "db" dbEntry 1), .report () (.snapshot keysInOrder),
    .report () (.start none "2026-01-01T00:00:00Z"), .report () (.take none),
    .report () (.check 0 none 1), .report () (.record 0 0), .op (.closeAll keysInOrder)]

/-- The time of the check stays although the datasource is gone. -/
theorem close_all_keeps_last_success :
    let r := (healthRun id closedAfterCheck).registry
    r.proxies.lookup "db" = none ∧ r.lastSuccess.lookup "db" = some "2026-01-01T00:00:00Z" ∧
      ¬ r.Tidy := by
  intro r
  have hgone : r.proxies.lookup "db" = none := by rfl
  have hkept : r.lastSuccess.lookup "db" = some "2026-01-01T00:00:00Z" := by rfl
  refine ⟨hgone, hkept, fun h => ?_⟩
  have hmem : "db" ∈ r.lastSuccess := AList.lookup_isSome.mp (hkept ▸ rfl)
  exact AList.lookup_eq_none.mp hgone (h.lastSuccess "db" hmem)

end Forager
