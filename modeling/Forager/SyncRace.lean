import Mathlib.Tactic.IntervalCases
import Forager.ConfigSync

/-!
# Two config syncs at once

The read loop of `pkg/ws/client.go` starts one goroutine per message, so two
`datasource_config_sync` messages may run `handleConfigSync` at the same time.
The registry's lock makes each `Register`, `All` and `Remove` atomic, and
nothing holds a lock across a sync. Here two syncs whose datasources all
configure take turns in any order, one registry operation a turn.
-/

namespace Forager

variable {P : Type}

/-! ## Jobs -/

/-- A config sync whose datasources all configure: the registrations it makes,
and the order in which its removal loop visits the ids. -/
structure SyncJob (P : Type) where
  regs : List (DatasourceEntry × P)
  order : IterOrder

def SyncJob.newIDs (job : SyncJob P) : List String := job.regs.map (·.1.id)

/-- The sync run alone, with `Close` succeeding. -/
def SyncJob.alone (job : SyncJob P) (r : Registry P) : Registry P :=
  removeStale job.newIDs (fun _ => none) job.order (registerAll r job.regs)

open ConfigSyncLemmas in
/-- A job is what `handleConfigSync` does when every datasource of the push is
configured and no `Close` fails. -/
theorem handleConfigSync_alone {w : SyncWorld P} {store : CredStore} {push : List Datasource}
    (hok : ∀ o ∈ syncOutcomes w 0 store push, o.2.shape.isSome)
    (hclose : ∀ id, w.closeErr id = none) (order : IterOrder) (r : Registry P)
    (requestID : String) (id : String) :
    id ∈ (handleConfigSync w order r store push requestID).1.registry.proxies ↔
      id ∈ ((⟨registrations (syncOutcomes w 0 store push), order⟩ :
        SyncJob P).alone r).proxies := by
  have hpushed : id ∈ push.map (·.id) →
      id ∈ (registrations (syncOutcomes w 0 store push)).map (·.1.id) := by
    intro hid
    rw [mem_registrations]
    obtain ⟨ds, hds, rfl⟩ := List.mem_map.mp hid
    have hfst : (syncOutcomes w 0 store push).map (·.1) = push := syncOutcomes_fst
    rw [← hfst] at hds
    obtain ⟨o, ho, rfl⟩ := List.mem_map.mp hds
    exact .inl ⟨o, ho, rfl, hok o ho⟩
  rw [mem_handleConfigSync hclose, SyncJob.alone, removeStale_mem (fun _ => rfl), mem_registerAll]
  simp only [SyncJob.newIDs]
  tauto

theorem SyncJob.mem_alone (job : SyncJob P) (r : Registry P) {id : String} (hid : ¬ isLocal id) :
    id ∈ (job.alone r).proxies ↔ id ∈ job.newIDs := by
  rw [alone, ConfigSyncLemmas.removeStale_mem (fun _ => rfl), ConfigSyncLemmas.mem_registerAll]
  simp only [newIDs]
  tauto

/-! ## Interleavings -/

/-- Where a sync stands: registrations to make, or listed ids to look at. -/
inductive Phase (P : Type)
  | registering (todo : List (DatasourceEntry × P))
  | removing (todo : List String)

/-- The sync still has to register `id`. -/
def Phase.Pending (id : String) : Phase P → Prop
  | .registering todo => id ∈ todo.map (·.1.id)
  | .removing _ => False

/-- The sync has called `All`. -/
def Phase.Listed : Phase P → Prop
  | .registering _ => False
  | .removing _ => True

/-- The registry and the two syncs, `false` and `true`. -/
structure Race (P : Type) where
  registry : Registry P
  phase : Bool → Phase P

/-- The sync `who` moves to phase `ph`, leaving registry `r`. -/
def Race.advance (s : Race P) (who : Bool) (r : Registry P) (ph : Phase P) : Race P :=
  ⟨r, fun b => if b = who then ph else s.phase b⟩

@[simp] theorem Race.advance_registry (s : Race P) (who : Bool) (r : Registry P) (ph : Phase P) :
    (s.advance who r ph).registry = r := rfl

@[simp] theorem Race.advance_self (s : Race P) (who : Bool) (r : Registry P) (ph : Phase P) :
    (s.advance who r ph).phase who = ph := by simp [advance]

@[simp] theorem Race.advance_not (s : Race P) (who : Bool) (r : Registry P) (ph : Phase P) :
    (s.advance who r ph).phase (!who) = s.phase (!who) := by simp [advance]

@[simp] theorem Race.advance_other (s : Race P) (who : Bool) (r : Registry P) (ph : Phase P) :
    (s.advance (!who) r ph).phase who = s.phase who := by simp [advance]

section

variable (jobs : Bool → SyncJob P) (r : Registry P)

/-- One turn of the sync `who`: its next `Register`, its `All`, or one
iteration of its removal loop. -/
def raceStep (s : Race P) (who : Bool) : Race P :=
  match s.phase who with
  | .registering (g :: gs) =>
    s.advance who (s.registry.register g.1.id g.1 g.2) (.registering gs)
  | .registering [] =>
    s.advance who s.registry (.removing (s.registry.all (jobs who).order))
  | .removing (id :: ids) =>
    s.advance who (removeIfStale (jobs who).newIDs (fun _ => none) s.registry id) (.removing ids)
  | .removing [] => s

def race (sched : List Bool) : Race P :=
  Runs.Run (raceStep jobs) ⟨r, fun who => .registering (jobs who).regs⟩ sched

def Race.Done (s : Race P) : Prop := ∀ who, s.phase who = .removing []

/-- The registered ids that are not local are those that handling one message
after the other leaves. -/
def Serializable (final : Registry P) : Prop :=
  ∃ first, ∀ id, ¬ isLocal id →
    (id ∈ final.proxies ↔ id ∈ ((jobs (!first)).alone ((jobs first).alone r)).proxies)

/-- `first` calls `All` before the other sync does. -/
def ListsFirst (sched : List Bool) (first : Bool) : Prop :=
  ∀ pre, pre ++ [!first] <+: sched → (race jobs r pre).phase (!first) = .registering [] →
    ((race jobs r pre).phase first).Listed

/-- The sync `first` removes `id`, which is not its own, when the other sync
has no registration of `id` left to make. -/
def Undoes (sched : List Bool) (first : Bool) (id : String) : Prop :=
  ∃ pre, pre ++ [first] <+: sched ∧
    (∃ ids, (race jobs r pre).phase first = .removing (id :: ids)) ∧
    id ∉ (jobs first).newIDs ∧ ¬ ((race jobs r pre).phase (!first)).Pending id

end

namespace SyncRaceLemmas

variable {jobs : Bool → SyncJob P} {r : Registry P}

@[simp] theorem race_snoc (sched : List Bool) (who : Bool) :
    race jobs r (sched ++ [who]) = raceStep jobs (race jobs r sched) who := Runs.run_snoc _ _ _ _

theorem raceStep_cases (jobs : Bool → SyncJob P) (s : Race P) (who : Bool) :
    (∃ g gs, s.phase who = .registering (g :: gs) ∧ raceStep jobs s who =
      s.advance who (s.registry.register g.1.id g.1 g.2) (.registering gs)) ∨
    (s.phase who = .registering [] ∧ raceStep jobs s who =
      s.advance who s.registry (.removing (s.registry.all (jobs who).order))) ∨
    (∃ id ids, s.phase who = .removing (id :: ids) ∧ raceStep jobs s who =
      s.advance who (removeIfStale (jobs who).newIDs (fun _ => none) s.registry id)
        (.removing ids)) ∨
    (s.phase who = .removing [] ∧ raceStep jobs s who = s) := by
  unfold raceStep
  rcases h : s.phase who with (_ | ⟨g, gs⟩) | (_ | ⟨id, ids⟩) <;> simp

variable {sched : List Bool} {first who : Bool} {id : String}

theorem mem_removeIfStale_none {newIDs : List String} {r : Registry P} {id' : String} :
    id ∈ (removeIfStale newIDs (fun _ => none) r id').proxies ↔
      id ∈ r.proxies ∧ (id = id' → id ∈ newIDs ∨ isLocal id) :=
  ConfigSyncLemmas.mem_removeIfStale (fun _ => rfl) r id' id

theorem undoes_snoc : Undoes jobs r (sched ++ [who]) first id ↔ Undoes jobs r sched first id ∨
    (first = who ∧ (∃ ids, (race jobs r sched).phase first = .removing (id :: ids)) ∧
      id ∉ (jobs first).newIDs ∧ ¬ ((race jobs r sched).phase (!first)).Pending id) := by
  unfold Undoes
  constructor
  · rintro ⟨pre, hpre, h⟩
    rcases Runs.snoc_prefix_snoc.mp hpre with ⟨rfl, hwho⟩ | hpre
    · exact .inr ⟨hwho, h⟩
    · exact .inl ⟨pre, hpre, h⟩
  · rintro (⟨pre, hpre, h⟩ | ⟨hwho, h⟩)
    · exact ⟨pre, Runs.snoc_prefix_snoc.mpr (.inr hpre), h⟩
    · exact ⟨sched, Runs.snoc_prefix_snoc.mpr (.inl ⟨rfl, hwho⟩), h⟩

theorem listsFirst_snoc : ListsFirst jobs r (sched ++ [who]) first ↔
    ListsFirst jobs r sched first ∧ (who = !first →
      (race jobs r sched).phase (!first) = .registering [] →
      ((race jobs r sched).phase first).Listed) := by
  unfold ListsFirst
  constructor
  · intro h
    refine ⟨fun pre hpre => h pre (Runs.snoc_prefix_snoc.mpr (.inr hpre)), ?_⟩
    rintro rfl
    exact h sched (Runs.snoc_prefix_snoc.mpr (.inl ⟨rfl, rfl⟩))
  · rintro ⟨h, hlast⟩ pre hpre
    rcases Runs.snoc_prefix_snoc.mp hpre with ⟨rfl, hwho⟩ | hpre
    · exact hlast hwho.symm
    · exact h pre hpre

theorem raceStep_phase_other (s : Race P) (who : Bool) :
    (raceStep jobs s (!who)).phase who = s.phase who := by
  rcases raceStep_cases jobs s (!who) with ⟨_, _, -, he⟩ | ⟨-, he⟩ | ⟨_, _, -, he⟩ | ⟨-, he⟩ <;>
    simp [he]

theorem raceStep_phase_not (s : Race P) (who : Bool) :
    (raceStep jobs s who).phase (!who) = s.phase (!who) := by
  rcases raceStep_cases jobs s who with ⟨_, _, -, he⟩ | ⟨-, he⟩ | ⟨_, _, -, he⟩ | ⟨-, he⟩ <;>
    simp [he]

theorem pending_newIDs (sched : List Bool) (who : Bool)
    (h : ((race jobs r sched).phase who).Pending id) : id ∈ (jobs who).newIDs := by
  induction sched using List.reverseRecOn with
  | nil => exact h
  | append_singleton sched a ih =>
    rw [race_snoc] at h
    rcases Bool.eq_or_eq_not a who with rfl | rfl
    · rcases raceStep_cases jobs (race jobs r sched) a with
        ⟨g, gs, hph, he⟩ | ⟨-, he⟩ | ⟨_, _, -, he⟩ | ⟨-, he⟩ <;> rw [he] at h
      · rw [Race.advance_self] at h
        rw [hph] at ih
        exact ih (List.mem_cons_of_mem _ h)
      · simp [Phase.Pending] at h
      · simp [Phase.Pending] at h
      · exact ih h
    · rw [raceStep_phase_other] at h
      exact ih h

theorem listed_raceStep {s : Race P} {a : Bool} (h : (s.phase who).Listed) :
    ((raceStep jobs s a).phase who).Listed := by
  rcases Bool.eq_or_eq_not a who with rfl | rfl
  · rcases raceStep_cases jobs s a with ⟨_, _, hph, -⟩ | ⟨hph, -⟩ | ⟨_, _, -, he⟩ | ⟨-, he⟩
    · rw [hph] at h; exact h.elim
    · rw [hph] at h; exact h.elim
    · rw [he, Race.advance_self]; trivial
    · rw [he]; exact h
  · rwa [raceStep_phase_other]

/-- In every run one of the syncs lists first. -/
theorem exists_listsFirst (sched : List Bool) : ∃ first, ListsFirst jobs r sched first := by
  -- either nobody has listed yet, or the one that did is still the first
  suffices h : (∀ who, ListsFirst jobs r sched who ∧ ¬ ((race jobs r sched).phase who).Listed) ∨
      ∃ first, ListsFirst jobs r sched first ∧ ((race jobs r sched).phase first).Listed by
    rcases h with h | ⟨first, h, -⟩
    · exact ⟨false, (h false).1⟩
    · exact ⟨first, h⟩
  induction sched using List.reverseRecOn with
  | nil => exact .inl fun who => ⟨fun pre hpre => by simp at hpre, id⟩
  | append_singleton sched a ih =>
    rcases ih with hnone | ⟨first, hfirst, hl⟩
    · by_cases hall : (race jobs r sched).phase a = .registering []
      · refine .inr ⟨a, listsFirst_snoc.mpr ⟨(hnone a).1, by simp⟩, ?_⟩
        simp [raceStep, hall, Phase.Listed]
      · refine .inl fun who => ⟨listsFirst_snoc.mpr ⟨(hnone who).1, ?_⟩, ?_⟩
        · rintro rfl h
          exact absurd h hall
        · rw [race_snoc]
          rcases Bool.eq_or_eq_not a who with rfl | rfl
          · rcases raceStep_cases jobs (race jobs r sched) a with
              ⟨_, _, -, he⟩ | ⟨hph, -⟩ | ⟨_, _, hph, -⟩ | ⟨-, he⟩
            · rw [he, Race.advance_self]; exact id
            · exact absurd hph hall
            · exact absurd (by rw [hph]; trivial) (hnone a).2
            · rw [he]; exact (hnone a).2
          · rw [raceStep_phase_other]
            exact (hnone who).2
    · refine .inr ⟨first, listsFirst_snoc.mpr ⟨hfirst, fun _ _ => hl⟩, ?_⟩
      rw [race_snoc]
      exact listed_raceStep hl

/-- An id of the sync that is not `first`: once registered for the last time,
it is present unless `first` undid it. -/
theorem second_mem (hid : ¬ isLocal id) (hmem : id ∈ (jobs (!first)).newIDs) (sched : List Bool) :
    (((race jobs r sched).phase (!first)).Pending id → ¬ Undoes jobs r sched first id) ∧
    (¬ ((race jobs r sched).phase (!first)).Pending id →
      (id ∈ (race jobs r sched).registry.proxies ↔ ¬ Undoes jobs r sched first id)) := by
  induction sched using List.reverseRecOn with
  | nil =>
    refine ⟨fun _ h => ?_, fun h => absurd hmem h⟩
    obtain ⟨pre, hpre, -⟩ := h
    simp at hpre
  | append_singleton sched a ih =>
    have hown : Undoes jobs r sched first id → id ∉ (jobs first).newIDs :=
      fun ⟨_, _, _, h, _⟩ => h
    have hpend : ((race jobs r sched).phase a).Pending id → id ∈ (jobs a).newIDs :=
      pending_newIDs sched a
    rw [undoes_snoc, race_snoc]
    rcases Bool.eq_or_eq_not a first with rfl | rfl
    · rcases raceStep_cases jobs (race jobs r sched) a with
        ⟨g, gs, hph, he⟩ | ⟨hph, he⟩ | ⟨id', ids, hph, he⟩ | ⟨hph, he⟩
      · -- a registration by `first`: if it is of `id`, then `id` is its own too
        have hg : id = g.1.id → id ∈ (jobs a).newIDs := by
          intro h
          exact hpend (by rw [hph]; exact List.mem_cons.mpr (.inl h))
        simp only [he, Race.advance_registry, Race.advance_not, Registry.mem_register, hph,
          reduceCtorEq, exists_false, false_and, and_false, or_false]
        refine ⟨ih.1, fun hp => ?_⟩
        rw [ih.2 hp]
        exact ⟨fun h => h.elim (fun e hU => hown hU (hg e)) fun h => h, .inr⟩
      · simp only [he, Race.advance_registry, Race.advance_not, hph, reduceCtorEq, exists_false,
          false_and, and_false, or_false]
        exact ih
      · have hex : (∃ ids', Phase.removing (P := P) (id' :: ids) = .removing (id :: ids')) ↔
            id = id' := by simp [eq_comm]
        simp only [he, Race.advance_registry, Race.advance_not, mem_removeIfStale_none, hph, hex]
        refine ⟨fun hp => by simp [ih.1 hp, hp], fun hp => ?_⟩
        rw [ih.2 hp]
        simp only [hid, hp]
        grind
      · simp only [he, hph, Phase.removing.injEq, reduceCtorEq, exists_false, false_and, and_false,
          or_false]
        exact ih
    · simp only [show ¬ first = !first by simp, false_and, or_false]
      rcases raceStep_cases jobs (race jobs r sched) (!first) with
        ⟨g, gs, hph, he⟩ | ⟨hph, he⟩ | ⟨id', ids, hph, he⟩ | ⟨hph, he⟩
      · have hcons : ((race jobs r sched).phase (!first)).Pending id ↔
            id = g.1.id ∨ (Phase.registering gs).Pending id := by
          rw [hph]; exact List.mem_cons
        simp only [he, Race.advance_registry, Race.advance_self, Registry.mem_register]
        rw [hcons] at ih
        refine ⟨fun hp => ih.1 (.inr hp), fun hp => ?_⟩
        by_cases hg : id = g.1.id
        · exact iff_of_true (.inl hg) (ih.1 (.inl hg))
        · rw [← ih.2 (by tauto)]
          exact or_iff_right hg
      · rw [hph] at ih
        simp only [he, Race.advance_registry, Race.advance_self]
        exact ⟨False.elim, fun _ => ih.2 List.not_mem_nil⟩
      · rw [hph] at ih
        simp only [he, Race.advance_registry, Race.advance_self, mem_removeIfStale_none]
        refine ⟨False.elim, fun _ => ?_⟩
        rw [← ih.2 fun h => h]
        exact and_iff_left fun _ => .inl hmem
      · rw [he]
        exact ih

/-- An id that is not of the sync that lists last: once that sync has listed,
it is absent or still to be looked at. -/
theorem second_stale (hid : ¬ isLocal id) (hmem : id ∉ (jobs (!first)).newIDs)
    (hfirst : ListsFirst jobs r sched first) {todo : List String}
    (hph : (race jobs r sched).phase (!first) = .removing todo) :
    ((race jobs r sched).phase first).Listed ∧
    (id ∈ (race jobs r sched).registry.proxies → id ∈ todo) := by
  induction sched using List.reverseRecOn generalizing todo with
  | nil => cases hph
  | append_singleton sched a ih =>
    obtain ⟨hfirst, hlast⟩ := listsFirst_snoc.mp hfirst
    have ih := @ih hfirst
    rw [race_snoc] at hph ⊢
    rcases Bool.eq_or_eq_not a (!first) with rfl | ha
    · rw [raceStep_phase_other]
      rcases raceStep_cases jobs (race jobs r sched) (!first) with
        ⟨g, gs, hph', he⟩ | ⟨hph', he⟩ | ⟨id', ids, hph', he⟩ | ⟨hph', he⟩ <;>
        rw [he] at hph ⊢
      · simp at hph
      · rw [Race.advance_self, Phase.removing.injEq] at hph
        subst hph
        refine ⟨hlast rfl hph', fun h => ?_⟩
        exact ((jobs (!first)).order.perm _).mem_iff.mpr h
      · rw [Race.advance_self, Phase.removing.injEq] at hph
        subst hph
        obtain ⟨hl, hin⟩ := ih hph'
        refine ⟨hl, fun h => ?_⟩
        obtain ⟨h, hstale⟩ := mem_removeIfStale_none.mp h
        rcases List.mem_cons.mp (hin h) with rfl | h
        · rcases hstale rfl with h | h
          · exact absurd h hmem
          · exact absurd h hid
        · exact h
      · exact ih hph
    · obtain rfl : a = first := by simpa using ha
      rw [raceStep_phase_not] at hph
      obtain ⟨hl, hin⟩ := ih hph
      refine ⟨listed_raceStep hl, fun h => hin ?_⟩
      rcases raceStep_cases jobs (race jobs r sched) a with
        ⟨_, _, hph', -⟩ | ⟨hph', -⟩ | ⟨id', ids, -, he⟩ | ⟨-, he⟩
      · rw [hph'] at hl; exact hl.elim
      · rw [hph'] at hl; exact hl.elim
      · rw [he] at h
        exact (mem_removeIfStale_none.mp h).1
      · rwa [he] at h

/-- What two complete syncs leave: the ids of the one that listed last, less
those the other undid. -/
theorem race_mem (hdone : (race jobs r sched).Done) (hfirst : ListsFirst jobs r sched first)
    (hid : ¬ isLocal id) :
    id ∈ (race jobs r sched).registry.proxies ↔
      id ∈ (jobs (!first)).newIDs ∧ ¬ Undoes jobs r sched first id := by
  by_cases hmem : id ∈ (jobs (!first)).newIDs
  · have hpend : ¬ ((race jobs r sched).phase (!first)).Pending id := by
      rw [hdone]; exact fun h => h
    rw [(second_mem hid hmem sched).2 hpend]
    tauto
  · have hout := (second_stale hid hmem hfirst (hdone _)).2
    simp only [List.not_mem_nil] at hout
    tauto

end SyncRaceLemmas

open SyncRaceLemmas in
/-- Two syncs that have both returned leave a sequential result exactly when
the sync that listed first undid no registration of the other, or undid every
one that is not its own while all its own ids are the other's too. -/
theorem race_serializable_iff (jobs : Bool → SyncJob P) (r : Registry P) (sched : List Bool)
    (hdone : (race jobs r sched).Done) :
    (∃ first, ListsFirst jobs r sched first) ∧
    ∀ first, ListsFirst jobs r sched first →
      (Serializable jobs r (race jobs r sched).registry ↔
        (∀ id, ¬ isLocal id → id ∈ (jobs (!first)).newIDs → ¬ Undoes jobs r sched first id) ∨
        ((∀ id, ¬ isLocal id → id ∈ (jobs first).newIDs → id ∈ (jobs (!first)).newIDs) ∧
          ∀ id, ¬ isLocal id → id ∈ (jobs (!first)).newIDs → id ∉ (jobs first).newIDs →
            Undoes jobs r sched first id)) := by
  refine ⟨exists_listsFirst sched, fun first hfirst => ?_⟩
  have hmem := fun id (hid : ¬ isLocal id) => race_mem hdone hfirst hid
  have hown : ∀ id, Undoes jobs r sched first id → id ∉ (jobs first).newIDs :=
    fun id ⟨_, _, _, h, _⟩ => h
  have hseq : ∀ who id, ¬ isLocal id →
      (id ∈ ((jobs (!who)).alone ((jobs who).alone r)).proxies ↔ id ∈ (jobs (!who)).newIDs) :=
    fun who id hid => SyncJob.mem_alone _ _ hid
  constructor
  · rintro ⟨who, hwho⟩
    have hset : ∀ id, ¬ isLocal id → ((id ∈ (jobs (!first)).newIDs ∧ ¬ Undoes jobs r sched first id)
        ↔ id ∈ (jobs (!who)).newIDs) :=
      fun id hid => by rw [← hmem id hid, hwho id hid, hseq who id hid]
    rcases Bool.eq_or_eq_not who first with rfl | rfl
    · exact .inl fun id hid hin => ((hset id hid).mpr hin).2
    · rw [Bool.not_not] at hset
      refine .inr ⟨fun id hid hin => ((hset id hid).mpr hin).1, fun id hid hin hnot => ?_⟩
      by_contra hu
      exact hnot ((hset id hid).mp ⟨hin, hu⟩)
  · rintro (hnone | ⟨hsub, hall⟩)
    · refine ⟨first, fun id hid => ?_⟩
      rw [hmem id hid, hseq first id hid]
      exact and_iff_left_of_imp (hnone id hid)
    · refine ⟨!first, fun id hid => ?_⟩
      rw [hmem id hid, hseq (!first) id hid, Bool.not_not]
      refine ⟨fun ⟨hin, hu⟩ => ?_, fun hin => ⟨hsub id hid hin, fun hu => hown id hu hin⟩⟩
      by_contra hnot
      exact hu (hall id hid hin hnot)

def singlePush (id : String) (p : Nat) : SyncJob Nat :=
  ⟨[(⟨id, "postgres", "db-proxy", id, "local", ""⟩, p)], .asKept⟩

def ordersUsers : Bool → SyncJob Nat
  | false => singlePush "orders" 0
  | true => singlePush "users" 1

/-- The iff at the two pushes handled one after the other. -/
theorem race_serializable_in_turn :
    let sched := [false, false, false, true, true, true, true]
    (race ordersUsers .new sched).Done ∧
    Serializable ordersUsers .new (race ordersUsers .new sched).registry := by
  intro sched
  have hdone : (race ordersUsers .new sched).Done := fun who => by cases who <;> rfl
  have hfirst : ListsFirst ordersUsers .new sched false := by
    intro pre hpre hph
    obtain ⟨n, hn, ha, rfl⟩ := Runs.snoc_prefix_take hpre
    simp only [sched, List.length_cons, List.length_nil] at hn
    interval_cases n <;> cases ha <;> trivial
  refine ⟨hdone, ((race_serializable_iff ordersUsers .new sched hdone).2 false hfirst).mpr
    (.inl fun id _ hin => ?_)⟩
  rintro ⟨pre, hpre, ⟨ids, hph⟩, -, -⟩
  obtain ⟨n, hn, ha, rfl⟩ := Runs.snoc_prefix_take hpre
  simp only [sched, List.length_cons, List.length_nil] at hn
  interval_cases n <;> cases ha <;> cases hph
  exact absurd hin (by decide)

/-- Both pushes register, both list, and each removes what the other
registered: no datasource is left, which neither order gives. -/
theorem race_loses_both :
    let sched := [false, true, false, true, false, false, true, true]
    (race ordersUsers .new sched).Done ∧
    ¬ Serializable ordersUsers .new (race ordersUsers .new sched).registry := by
  refine ⟨fun who => by cases who <;> rfl, ?_⟩
  rintro ⟨first, h⟩
  cases first
  · exact absurd ((h "users" (by decide)).mpr (by decide)) (by decide)
  · exact absurd ((h "orders" (by decide)).mpr (by decide)) (by decide)

end Forager
