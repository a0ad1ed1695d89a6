import Forager.ConfigSync

/-!
# Local datasources and the cloud

Datasources of the agent's own configuration file have ids that start with
`local:`. The removal loop of `handleConfigSync` spares them; its registration
loop does not look at the prefix, neither of a pushed id nor of the id of an
SSH access sibling.
-/

namespace Forager

open Go

section Local

variable {P : Type}

/-- No proxy is registered under two ids. -/
def OneSlot (r : Registry P) : Prop :=
  ∀ id id' p, r.proxies.lookup id = some p → r.proxies.lookup id' = some p → id = id'

/-- The proxies that are configured during the sync are new objects. -/
def SyncWorld.MakesNew (w : SyncWorld P) (r : Registry P) : Prop :=
  ∀ i kind config creds p, w.configure i kind config creds = .ok p →
    ∀ id, r.proxies.lookup id ≠ some p

/-- Every local datasource of `r` has the same proxy and entry in `r'`, and no
`Close` was called on the proxy in between. -/
def KeepsLocal (r r' : Registry P) : Prop :=
  ∀ id p, isLocal id → r.proxies.lookup id = some p →
    r'.proxies.lookup id = some p ∧ r'.configs.lookup id = r.configs.lookup id ∧
    ∃ closed, r'.closeLog = r.closeLog ++ closed ∧ p ∉ closed

namespace LocalLemmas

open ConfigSyncLemmas

/-- Since `r₀`, the proxy `p` has stayed under `id` only, with its entry, and
was not closed. -/
structure Held (r₀ r : Registry P) (id : String) (p : P) : Prop where
  here : r.proxies.lookup id = some p
  only : ∀ id', r.proxies.lookup id' = some p → id' = id
  entry : r.configs.lookup id = r₀.configs.lookup id
  unclosed : ∃ closed, r.closeLog = r₀.closeLog ++ closed ∧ p ∉ closed

variable {r₀ r : Registry P} {id id' : String} {p q : P}
variable {w : SyncWorld P} {i : Nat}

theorem Held.refl (hslot : OneSlot r) (hp : r.proxies.lookup id = some p) : Held r r id p where
  here := hp
  only id' hp' := hslot id' id p hp' hp
  entry := rfl
  unclosed := ⟨[], (List.append_nil _).symm, List.not_mem_nil⟩

theorem Held.close (h : Held r₀ r id p) (hne : id' ≠ id) (hq : r.proxies.lookup id' = some q) :
    ∃ closed, r.closeLog ++ [q] = r₀.closeLog ++ closed ∧ p ∉ closed := by
  obtain ⟨closed, hlog, hp⟩ := h.unclosed
  refine ⟨closed ++ [q], by rw [hlog, List.append_assoc], fun hmem => ?_⟩
  rcases List.mem_append.mp hmem with hmem | hmem
  · exact hp hmem
  · obtain rfl := List.mem_singleton.mp hmem
    exact hne (h.only id' hq)

/-- An operation on another id leaves a registered proxy where it is, and open. -/
theorem Held.register (h : Held r₀ r id p) (hne : id' ≠ id) (hq : q ≠ p)
    (entry : DatasourceEntry) : Held r₀ (r.register id' entry q) id p where
  here := (Registry.register_lookup_ne hne.symm).trans h.here
  only id'' hp := by
    by_cases he : id'' = id'
    · rw [he, Registry.register_lookup] at hp
      exact absurd (Option.some.inj hp) hq
    · rw [Registry.register_lookup_ne he] at hp
      exact h.only id'' hp
  entry := (Registry.register_configs_ne hne.symm).trans h.entry
  unclosed := by
    unfold Registry.register
    split
    · next old hold => exact h.close hne hold
    · exact h.unclosed

theorem Held.remove (h : Held r₀ r id p) (hne : id' ≠ id) (closeErr : Option String) :
    Held r₀ (r.remove id' closeErr).1 id p where
  here := (Registry.remove_lookup_ne hne.symm).trans h.here
  only id'' hp := by
    refine h.only id'' ?_
    unfold Registry.remove at hp
    split at hp
    · exact hp
    · split at hp
      · exact hp
      · by_cases he : id'' = id'
        · rw [he, AList.lookup_erase] at hp
          cases hp
        · rwa [AList.lookup_erase_ne he] at hp
  entry := (Registry.remove_configs_ne hne.symm).trans h.entry
  unclosed := by
    unfold Registry.remove
    split
    · exact h.unclosed
    · next old hold =>
      split
      · exact h.close hne hold
      · exact h.close hne hold

/-! ## The two loops -/

theorem Held.registerAll {regs : List (DatasourceEntry × P)} (h : Held r₀ r id p)
    (hid : id ∉ regs.map (·.1.id)) (hp : ∀ g ∈ regs, g.2 ≠ p) :
    Held r₀ (registerAll r regs) id p := by
  induction regs generalizing r with
  | nil => exact h
  | cons g regs ih =>
    rw [List.map_cons, List.mem_cons, not_or] at hid
    rw [registerAll_cons]
    exact ih (h.register (Ne.symm hid.1) (hp g List.mem_cons_self) g.1) hid.2
      fun g' hg' => hp g' (List.mem_cons_of_mem _ hg')

theorem Held.removeStale (h : Held r₀ r id p) (hlocal : isLocal id) (newIDs : List String)
    (closeErr : String → Option String) (order : IterOrder) :
    Held r₀ (removeStale newIDs closeErr order r) id p := by
  unfold Forager.removeStale
  generalize r.all order = ids
  induction ids generalizing r with
  | nil => exact h
  | cons x ids ih =>
    refine ih ?_
    unfold removeIfStale
    split
    · next hs =>
      refine h.remove (fun he => hs.2 ?_) _
      rwa [he]
    · exact h

theorem configured_of_ok {store : CredStore} {ds : Datasource} {c : Configured P}
    (h : (configureDatasource w i store ds).2 = .ok c) :
    ∃ kind config creds, w.configure i kind config creds = .ok c.proxy := by
  simp only [configureDatasource, bind, Except.bind] at h
  split at h
  · cases h
  · next creds _ =>
    split at h
    · cases h
    · next kinds _ =>
      obtain ⟨kind, config⟩ := kinds
      split at h
      · cases h
      · next p hp =>
        cases h
        exact ⟨kind, config, creds, hp⟩

theorem configured_of_sibling {ds : Datasource} {c : Configured P} {sibling : DatasourceEntry}
    {sp : P} (h : buildSibling w i ds c = some (sibling, sp)) :
    ∃ config creds, w.configure i .ssh config creds = .ok sp := by
  unfold buildSibling at h
  split at h
  · unfold sshAccessSibling at h
    split at h
    · cases h
    · next sshCfg _ =>
      split at h
      · cases h
      · next p hp =>
        cases h
        exact ⟨sshCfg, c.creds, hp⟩
  · cases h

theorem configured_of_registration {store : CredStore} {push : List Datasource}
    {g : DatasourceEntry × P} (hg : g ∈ registrations (syncOutcomes w i store push)) :
    ∃ i kind config creds, w.configure i kind config creds = .ok g.2 := by
  induction push generalizing i store with
  | nil => cases hg
  | cons ds rest ih =>
    simp only [syncOutcomes, registrations, List.flatMap_cons] at hg
    rcases List.mem_append.mp hg with hg | hg
    · cases hres : (configureDatasource w i store ds).2 with
      | error e =>
        rw [hres] at hg
        cases hg
      | ok c =>
        obtain ⟨kind, config, creds, hc⟩ := configured_of_ok hres
        rw [hres] at hg
        cases hb : buildSibling w i ds c with
        | none =>
          simp only [outcome, hb, Outcome.registrations, List.mem_singleton] at hg
          exact ⟨i, kind, config, creds, hg ▸ hc⟩
        | some sib =>
          simp only [outcome, hb, Outcome.registrations, List.mem_cons, List.not_mem_nil,
            or_false] at hg
          rcases hg with rfl | rfl
          · exact ⟨i, kind, config, creds, hc⟩
          · obtain ⟨config', creds', hs⟩ := configured_of_sibling hb
            exact ⟨i, .ssh, config', creds', hs⟩
    · exact ih hg

theorem lookup_registerAll_mem {regs : List (DatasourceEntry × P)}
    (hid : id ∈ regs.map (·.1.id)) :
    ∃ g ∈ regs, (registerAll r regs).proxies.lookup id = some g.2 := by
  induction regs using List.reverseRecOn with
  | nil => cases hid
  | append_singleton regs g ih =>
    rw [registerAll_append]
    by_cases he : g.1.id = id
    · exact ⟨g, List.mem_append_right _ (List.mem_singleton_self g), he ▸ Registry.register_lookup⟩
    · have hmem : id ∈ regs.map (·.1.id) := by
        simpa [Ne.symm he] using hid
      obtain ⟨g', hg', hl⟩ := ih hmem
      exact ⟨g', List.mem_append_left _ hg', (Registry.register_lookup_ne (Ne.symm he)).trans hl⟩

end LocalLemmas

/-! ## Results -/

open ConfigSyncLemmas LocalLemmas in
/-- A sync leaves every local datasource with its proxy, open, and its entry
exactly if it configures no datasource, and builds no SSH access sibling, with
the id of one. Proxies are objects of their own: none is registered twice, and
those of the push are new. -/
theorem sync_keeps_local_iff (w : SyncWorld P) (order : IterOrder) (r : Registry P)
    (store : CredStore) (push : List Datasource) (requestID : String) (hslot : OneSlot r)
    (hnew : w.MakesNew r) :
    KeepsLocal r (handleConfigSync w order r store push requestID).1.registry ↔
      ∀ id ∈ r.proxies, isLocal id → ¬ ConfiguredIn (syncOutcomes w 0 store push) id ∧
        ¬ SiblingIn (syncOutcomes w 0 store push) id := by
  have hfresh : ∀ g ∈ registrations (syncOutcomes w 0 store push), ∀ id,
      r.proxies.lookup id ≠ some g.2 := by
    intro g hg
    obtain ⟨i, kind, config, creds, hc⟩ := configured_of_registration hg
    exact hnew i kind config creds g.2 hc
  constructor
  · intro hkeeps id hmem hlocal
    rw [← not_or, ← mem_registrations]
    intro hreg
    obtain ⟨p, hp⟩ := Option.isSome_iff_exists.mp (AList.lookup_isSome.mpr hmem)
    obtain ⟨g, hg, hl⟩ := lookup_registerAll_mem (r := r) hreg
    have hafter := (hkeeps id p hlocal hp).1
    rw [(handleConfigSync_kept (.inr (.inr hlocal))).1, hl] at hafter
    exact hfresh g hg id (hafter ▸ hp)
  · intro hnone id p hlocal hp
    have hid : id ∉ (registrations (syncOutcomes w 0 store push)).map (·.1.id) := by
      rw [mem_registrations, not_or]
      exact hnone id (AList.lookup_isSome.mp (hp ▸ rfl)) hlocal
    have hheld : Held r (registerAll r (registrations (syncOutcomes w 0 store push))) id p :=
      (Held.refl hslot hp).registerAll hid fun g hg he => hfresh g hg id (he ▸ hp)
    rw [← applyPush_registry w 0 ⟨r, store, []⟩ push] at hheld
    have hend := hheld.removeStale hlocal (applyPush w 0 ⟨r, store, []⟩ push).newIDs w.closeErr
      order
    exact ⟨hend.here, hend.entry, hend.unclosed⟩

end Local

def withLocal : Registry Nat :=
  Registry.new.register "local:pg"
    ⟨"local:pg", "postgres", "db-proxy", "orders", "local", ""⟩ 0

/-- A world in which everything configures; proxies are numbered. -/
def allConfigure : SyncWorld Nat where
  signingEnabled := true
  storeErr _ := none
  resolve _ _ _ := .ok []
  configure i _ _ _ := .ok (i + 1)
  closeErr _ := none

def pushDatabase (id : String) : List Datasource :=
  [{ id := id, type := "postgres", proxyType := "db-proxy", name := "orders", config := none
     credentials := none, credentialSource := "local", credentialRef := "", allowedHosts := none }]

namespace LocalLemmas

theorem withLocal_lookup {id : String} {p : Nat} (h : withLocal.proxies.lookup id = some p) :
    id = "local:pg" ∧ p = 0 := by
  by_cases he : id = "local:pg"
  · subst he
    exact ⟨rfl, (Option.some.inj h).symm⟩
  · rw [withLocal, Registry.register_lookup_ne he] at h
    cases h

theorem withLocal_oneSlot : OneSlot withLocal := fun _ _ _ h h' =>
  (withLocal_lookup h).1.trans (withLocal_lookup h').1.symm

theorem allConfigure_makesNew : allConfigure.MakesNew withLocal := by
  intro i kind config creds p hp id hl
  have hzero := (withLocal_lookup hl).2
  cases hp
  exact Nat.succ_ne_zero i hzero

end LocalLemmas

open LocalLemmas in
theorem sync_keeps_local_cloud_id :
    KeepsLocal withLocal
      (handleConfigSync allConfigure .asKept withLocal ∅ (pushDatabase "pg") "r1").1.registry := by
  refine (sync_keeps_local_iff allConfigure .asKept withLocal ∅ (pushDatabase "pg") "r1"
    withLocal_oneSlot allConfigure_makesNew).mpr fun id hid _ => ?_
  obtain ⟨p, hp⟩ := Option.isSome_iff_exists.mp (AList.lookup_isSome.mpr hid)
  obtain ⟨rfl, -⟩ := withLocal_lookup hp
  decide

open LocalLemmas in
/-- Not for every push: one that lists a local id closes the local proxy and
puts its own in its place. -/
theorem sync_replaces_local :
    ¬ ∀ (w : SyncWorld Nat) (order : IterOrder) (r : Registry Nat) (store : CredStore)
      (push : List Datasource) (requestID : String), OneSlot r → w.MakesNew r →
      KeepsLocal r (handleConfigSync w order r store push requestID).1.registry := by
  intro h
  have hkeeps := h allConfigure .asKept withLocal ∅ (pushDatabase "local:pg") "r1"
    withLocal_oneSlot allConfigure_makesNew
  have hpg := (hkeeps "local:pg" 0 (by decide) (by decide)).1
  revert hpg
  decide

end Forager
