import Mathlib.Data.List.AList
import Mathlib.Data.List.Count
import Forager.Runs

/-!
# The proxy registry

`pkg/proxy/registry.go`: the map from datasource ids to proxies that every
request is routed through, and the three operations that change its
membership. A proxy is an opaque reference (`P`); calling `Close` on one is
recorded in `closeLog`, and what the call returns is an input of the operation
that made it.
-/

namespace Forager

/-- A Go `map[string]β`: an association list without duplicate keys. -/
abbrev GoMap (β : Type) := AList fun _ : String => β

/-- The order in which a `range` loop visits the keys of a map. Go leaves it
unspecified, so the model takes any permutation. -/
structure IterOrder where
  visit : List String → List String
  perm : ∀ keys, (visit keys).Perm keys

structure DatasourceEntry where
  id : String
  type : String
  proxyType : String
  name : String
  credentialSource : String
  credentialRef : String
deriving DecidableEq, Repr

/-- `requestError`: the last unrecovered failure of a proxied request. -/
structure RequestError where
  msg : String
  at_ : Int
deriving DecidableEq, Repr

/-- `proxy.Registry`, with the `Close` calls it has made, oldest first. -/
structure Registry (P : Type) where
  proxies : GoMap P
  configs : GoMap DatasourceEntry
  lastSuccess : GoMap String
  reqErrors : GoMap RequestError
  closeLog : List P

namespace Registry

variable {P : Type}

def new : Registry P := ⟨∅, ∅, ∅, ∅, []⟩

/-! ## The operations -/

/-- `Register`: closes the proxy it replaces, ignoring the result. -/
def register (r : Registry P) (id : String) (entry : DatasourceEntry) (p : P) : Registry P :=
  { proxies := r.proxies.insert id p
    configs := r.configs.insert id entry
    lastSuccess := r.lastSuccess.erase id
    reqErrors := r.reqErrors.erase id
    closeLog := match r.proxies.lookup id with
      | some old => r.closeLog ++ [old]
      | none => r.closeLog }

/-- `Remove`: `closeErr` is what `p.Close()` returns. An error is returned
before anything is deleted. -/
def remove (r : Registry P) (id : String) (closeErr : Option String) :
    Registry P × Option String :=
  match r.proxies.lookup id with
  | none => (r, none)
  | some p =>
    match closeErr with
    | some err =>
      ({ r with closeLog := r.closeLog ++ [p] }, some ("closing proxy " ++ id ++ ": " ++ err))
    | none =>
      ({ proxies := r.proxies.erase id
         configs := r.configs.erase id
         lastSuccess := r.lastSuccess.erase id
         reqErrors := r.reqErrors.erase id
         closeLog := r.closeLog ++ [p] }, none)

def all (r : Registry P) (order : IterOrder) : List String := order.visit r.proxies.keys

def get (r : Registry P) (id : String) : Option P := r.proxies.lookup id

/-- One iteration of `CloseAll`. It does not touch `lastSuccess`. -/
def closeOne (r : Registry P) (id : String) : Registry P :=
  match r.proxies.lookup id with
  | none => r
  | some p =>
    { r with
      proxies := r.proxies.erase id
      configs := r.configs.erase id
      reqErrors := r.reqErrors.erase id
      closeLog := r.closeLog ++ [p] }

def closeAll (r : Registry P) (order : IterOrder) : Registry P :=
  (order.visit r.proxies.keys).foldl closeOne r

/-! ## What each operation does to the two maps -/

variable {r : Registry P} {id id' : String} {entry : DatasourceEntry} {p : P}
variable {e : Option String}

@[simp] theorem register_lookup : (r.register id entry p).proxies.lookup id = some p :=
  AList.lookup_insert _

theorem register_lookup_ne (h : id' ≠ id) :
    (r.register id entry p).proxies.lookup id' = r.proxies.lookup id' :=
  AList.lookup_insert_ne h

@[simp] theorem register_configs : (r.register id entry p).configs.lookup id = some entry :=
  AList.lookup_insert _

theorem register_configs_ne (h : id' ≠ id) :
    (r.register id entry p).configs.lookup id' = r.configs.lookup id' :=
  AList.lookup_insert_ne h

@[simp] theorem mem_register : id' ∈ (r.register id entry p).proxies ↔ id' = id ∨ id' ∈ r.proxies :=
  AList.mem_insert _

theorem remove_absent (h : id ∉ r.proxies) : (r.remove id e).1 = r := by
  simp [remove, AList.lookup_eq_none.mpr h]

theorem remove_none_proxies : (r.remove id none).1.proxies.lookup id = none := by
  cases h : r.proxies.lookup id with
  | none => simp [remove, h]
  | some p => simp [remove, h]

theorem remove_lookup_ne (h : id' ≠ id) :
    (r.remove id e).1.proxies.lookup id' = r.proxies.lookup id' := by
  unfold remove
  split
  · rfl
  · split
    · rfl
    · exact AList.lookup_erase_ne h

theorem remove_configs_ne (h : id' ≠ id) :
    (r.remove id e).1.configs.lookup id' = r.configs.lookup id' := by
  unfold remove
  split
  · rfl
  · split
    · rfl
    · exact AList.lookup_erase_ne h

theorem mem_remove_none : id' ∈ (r.remove id none).1.proxies ↔ id' ≠ id ∧ id' ∈ r.proxies := by
  by_cases h : id' = id
  · subst h
    have h0 : (r.remove id' none).1.proxies.lookup id' = none := remove_none_proxies
    simp [AList.lookup_eq_none.mp h0]
  · rw [← AList.lookup_isSome, remove_lookup_ne h, AList.lookup_isSome]
    simp [h]

/-! ## Runs of the registry -/

/-- The calls that change membership. `remove` carries what `Close` returns
if it is called. -/
inductive Op (P : Type)
  | register (id : String) (entry : DatasourceEntry) (p : P)
  | remove (id : String) (closeErr : Option String)
  | closeAll (order : IterOrder)

def step (r : Registry P) : Op P → Registry P
  | .register id entry p => r.register id entry p
  | .remove id e => (r.remove id e).1
  | .closeAll order => r.closeAll order

def run (ops : List (Op P)) : Registry P := Runs.Run step new ops

@[simp] theorem run_snoc {ops : List (Op P)} {op : Op P} :
    run (ops ++ [op]) = step (run ops) op := Runs.run_snoc _ _ _ _

/-- The proxies handed to `Register` in `ops`, in order. -/
def registered (ops : List (Op P)) : List P :=
  ops.filterMap fun
    | .register _ _ p => some p
    | _ => none

/-- What the registry owes its callers after `ops`: no proxy it closed is
still in the map, a proxy it dropped was closed exactly once, and an id just
removed is gone. -/
def Intact [DecidableEq P] (ops : List (Op P)) : Prop :=
  (∀ id p, (run ops).proxies.lookup id = some p → p ∉ (run ops).closeLog) ∧
  (∀ p ∈ registered ops, (∀ id, (run ops).proxies.lookup id ≠ some p) →
    (run ops).closeLog.count p = 1) ∧
  (∀ pre id e, ops = pre ++ [.remove id e] → id ∉ (run ops).proxies)

/-- Every `Remove` that finds its id registered gets `nil` from `Close`. -/
def RemovesClose (ops : List (Op P)) : Prop :=
  ∀ pre id err, pre ++ [.remove id (some err)] <+: ops → id ∉ (run pre).proxies

theorem registered_snoc (ops : List (Op P)) (op : Op P) :
    registered (ops ++ [op]) = registered ops ++ registered [op] := by
  simp [registered]

theorem RemovesClose.of_prefix {pre ops : List (Op P)} (h : RemovesClose ops) (hp : pre <+: ops) :
    RemovesClose pre :=
  fun p id err hpre => h p id err (hpre.trans hp)

end Registry

/-! ## Ownership of proxies -/

namespace RegistryLemmas

variable {P : Type} [DecidableEq P] {seen : List P} {m : GoMap P} {log : List P}
variable {r : Registry P} {id : String}

/-- The invariant of a run in which every `Close` in `Remove` succeeds: each
proxy seen so far sits in exactly one slot unclosed, or in none and closed
once. -/
structure Owned (seen : List P) (m : GoMap P) (log : List P) : Prop where
  fromSeen : ∀ id p, m.lookup id = some p → p ∈ seen
  oneSlot : ∀ id id' p, m.lookup id = some p → m.lookup id' = some p → id = id'
  unclosed : ∀ id p, m.lookup id = some p → p ∉ log
  closedOnce : ∀ p ∈ seen, (∀ id, m.lookup id ≠ some p) → log.count p = 1
  logSeen : ∀ p ∈ log, p ∈ seen

theorem Owned.empty : Owned (P := P) [] ∅ [] where
  fromSeen := by simp
  oneSlot := by simp
  unclosed := by simp
  closedOnce := by simp
  logSeen := by simp

theorem Owned.congr {m' : GoMap P} (h : Owned seen m log) (hm : ∀ id, m.lookup id = m'.lookup id) :
    Owned seen m' log where
  fromSeen id p hp := h.fromSeen id p (hm id ▸ hp)
  oneSlot id id' p hp hp' := h.oneSlot id id' p (hm id ▸ hp) (hm id' ▸ hp')
  unclosed id p hp := h.unclosed id p (hm id ▸ hp)
  closedOnce p hp habs := h.closedOnce p hp fun id => hm id ▸ habs id
  logSeen := h.logSeen

theorem Owned.drop (h : Owned seen m log) {p : P} (hp : m.lookup id = some p) :
    Owned seen (m.erase id) (log ++ [p]) := by
  have hsub : ∀ id' q, (m.erase id).lookup id' = some q → id' ≠ id ∧ m.lookup id' = some q := by
    intro id' q hq
    by_cases he : id' = id
    · subst he; simp at hq
    · exact ⟨he, by rwa [AList.lookup_erase_ne he] at hq⟩
  refine ⟨fun id' q hq => h.fromSeen _ _ (hsub _ _ hq).2, fun a b q ha hb => ?_, fun id' q hq => ?_,
    fun q hq habs => ?_, fun q hq => ?_⟩
  · exact h.oneSlot _ _ _ (hsub _ _ ha).2 (hsub _ _ hb).2
  · obtain ⟨hne, hq⟩ := hsub _ _ hq
    have hqp : q ≠ p := fun e => hne (h.oneSlot _ _ _ (e ▸ hq) hp)
    simp [h.unclosed _ _ hq, hqp]
  · by_cases hqp : q = p
    · subst hqp
      rw [List.count_append, List.count_eq_zero.mpr (h.unclosed _ _ hp)]
      simp
    · have hcount : log.count q = 1 := by
        refine h.closedOnce q hq fun id' hid' => ?_
        by_cases he : id' = id
        · subst he; rw [hp] at hid'; exact hqp (Option.some.inj hid').symm
        · exact habs id' (by rwa [AList.lookup_erase_ne he])
      rw [List.count_append, hcount, List.count_eq_zero.mpr (by simpa using hqp)]
  · rcases List.mem_append.mp hq with hq | hq
    · exact h.logSeen q hq
    · rw [List.mem_singleton.mp hq]; exact h.fromSeen _ _ hp

theorem Owned.fill (h : Owned seen m log) {p : P} (hid : m.lookup id = none) (hp : p ∉ seen) :
    Owned (seen ++ [p]) (m.insert id p) log := by
  have hcases : ∀ id' q, (m.insert id p).lookup id' = some q →
      (id' = id ∧ q = p) ∨ (id' ≠ id ∧ m.lookup id' = some q) := by
    intro id' q hq
    by_cases he : id' = id
    · subst he; rw [AList.lookup_insert] at hq; exact .inl ⟨rfl, (Option.some.inj hq).symm⟩
    · exact .inr ⟨he, by rwa [AList.lookup_insert_ne he] at hq⟩
  refine ⟨fun id' q hq => ?_, fun a b q ha hb => ?_, fun id' q hq => ?_, fun q hq habs => ?_,
    fun q hq => List.mem_append_left _ (h.logSeen q hq)⟩
  · rcases hcases _ _ hq with ⟨-, rfl⟩ | ⟨-, hq⟩
    · simp
    · exact List.mem_append_left _ (h.fromSeen _ _ hq)
  · rcases hcases _ _ ha with ⟨hae, hqa⟩ | ⟨-, ha⟩ <;>
      rcases hcases _ _ hb with ⟨hbe, hqb⟩ | ⟨-, hb⟩
    · rw [hae, hbe]
    · exact absurd (hqa ▸ h.fromSeen _ _ hb) hp
    · exact absurd (hqb ▸ h.fromSeen _ _ ha) hp
    · exact h.oneSlot _ _ _ ha hb
  · rcases hcases _ _ hq with ⟨-, rfl⟩ | ⟨-, hq⟩
    · exact fun hlog => hp (h.logSeen _ hlog)
    · exact h.unclosed _ _ hq
  · have hqp : q ≠ p := fun e => habs id (by rw [e, AList.lookup_insert])
    have hq : q ∈ seen := by simpa [hqp] using hq
    refine h.closedOnce q hq fun id' hid' => ?_
    by_cases he : id' = id
    · subst he; rw [hid] at hid'; cases hid'
    · exact habs id' (by rwa [AList.lookup_insert_ne he])

open Registry

theorem Owned.register (h : Owned seen r.proxies r.closeLog) {entry : DatasourceEntry} {p : P}
    (hp : p ∉ seen) :
    Owned (seen ++ [p]) (r.register id entry p).proxies (r.register id entry p).closeLog := by
  cases hold : r.proxies.lookup id with
  | none => simpa [Registry.register, hold] using h.fill hold hp
  | some old =>
    -- replacing is dropping the old proxy and filling the slot it leaves
    have hfill := (h.drop hold).fill (AList.lookup_erase id r.proxies) hp
    simp only [Registry.register, hold]
    refine hfill.congr fun id' => ?_
    by_cases he : id' = id
    · subst he; rw [AList.lookup_insert, AList.lookup_insert]
    · rw [AList.lookup_insert_ne he, AList.lookup_insert_ne he, AList.lookup_erase_ne he]

theorem Owned.remove (h : Owned seen r.proxies r.closeLog) {e : Option String}
    (hok : e = none ∨ id ∉ r.proxies) :
    Owned seen (r.remove id e).1.proxies (r.remove id e).1.closeLog := by
  rcases hok with rfl | habs
  · cases hp : r.proxies.lookup id with
    | none => simpa [Registry.remove, hp] using h
    | some p => simpa [Registry.remove, hp] using h.drop hp
  · rw [remove_absent habs]; exact h

theorem Owned.closeOne (h : Owned seen r.proxies r.closeLog) (id : String) :
    Owned seen (r.closeOne id).proxies (r.closeOne id).closeLog := by
  cases hp : r.proxies.lookup id with
  | none => simpa [Registry.closeOne, hp] using h
  | some p => simpa [Registry.closeOne, hp] using h.drop hp

theorem Owned.closeAll (h : Owned seen r.proxies r.closeLog) (order : IterOrder) :
    Owned seen (r.closeAll order).proxies (r.closeAll order).closeLog := by
  unfold Registry.closeAll
  generalize order.visit r.proxies.keys = ids
  induction ids generalizing r with
  | nil => exact h
  | cons id ids ih => exact ih (h.closeOne id)

theorem owned_run {ops : List (Op P)} (hnd : (registered ops).Nodup) (hok : RemovesClose ops) :
    Owned (registered ops) (run ops).proxies (run ops).closeLog := by
  -- the side condition of one step: its fresh proxy is unseen, its `Remove` closes
  let Ok : List (Op P) → Op P → Prop := fun pre op =>
    (∀ id entry p, op = .register id entry p → p ∉ registered pre) ∧
    (∀ id e, op = .remove id e → e = none ∨ id ∉ (run pre).proxies)
  refine Runs.run_invariant
    (fun ops => Owned (registered ops) (run ops).proxies (run ops).closeLog) Ok Owned.empty ?_ ?_
  · rintro pre op ⟨hfresh, hclose⟩ hinv
    rw [run_snoc, registered_snoc]
    cases op with
    | register id entry p => exact hinv.register (hfresh id entry p rfl)
    | remove id e => simpa [registered, step] using hinv.remove (hclose id e rfl)
    | closeAll order => simpa [registered, step] using hinv.closeAll order
  · intro pre op hpre
    refine ⟨fun id entry p hop => ?_, fun id e hop => ?_⟩
    · have hsub := hnd.sublist ((hpre.sublist).filterMap _)
      rw [hop] at hsub
      simp only [List.filterMap_append, List.nodup_append] at hsub
      exact fun hmem => hsub.2.2 p hmem p (by simp) rfl
    · subst hop
      cases e with
      | none => exact .inl rfl
      | some err => exact .inr (hok pre id err hpre)

end RegistryLemmas

open Registry RegistryLemmas

/-- Along a run in which each proxy is registered at most once, the registry
stays intact after every operation exactly when every `Remove` that finds its
id registered gets `nil` from `Close`. -/
theorem registry_intact_iff {P : Type} [DecidableEq P] {ops : List (Op P)}
    (hnd : (registered ops).Nodup) :
    (∀ pre, pre <+: ops → Intact pre) ↔ RemovesClose ops := by
  constructor
  · intro hint pre id err hpre hmem
    obtain ⟨p, hp⟩ := Option.isSome_iff_exists.mp (AList.lookup_isSome.mpr hmem)
    -- the failed `Remove` closed `p` and kept it
    obtain ⟨hun, -, -⟩ := hint _ hpre
    refine hun id p ?_ ?_
    · simp [step, Registry.remove, hp]
    · simp [step, Registry.remove, hp]
  · intro hok pre hpre
    have hok' := hok.of_prefix hpre
    have hown := owned_run (hnd.sublist (hpre.sublist.filterMap _)) hok'
    refine ⟨hown.unclosed, hown.closedOnce, fun p id e he => ?_⟩
    subst he
    rw [run_snoc]
    cases e with
    | none => exact AList.lookup_eq_none.mp remove_none_proxies
    | some err =>
      have habs := hok' p id err (List.prefix_refl _)
      simpa [step, remove_absent habs] using habs

/-- An MCP datasource over stdio, as a config push registers it. -/
def mcpEntry : DatasourceEntry := ⟨"mcp", "mcp", "mcp-proxy", "tools", "local", ""⟩

/-- The iff at a run that replaces a proxy and then removes its datasource. -/
theorem registry_intact_replace_remove :
    let ops : List (Op Nat) :=
      [.register "mcp" mcpEntry 1, .register "mcp" mcpEntry 2, .remove "mcp" none]
    (registered ops).Nodup ∧ RemovesClose ops ∧ ∀ pre, pre <+: ops → Intact pre := by
  intro ops
  have hclose : RemovesClose ops := by
    intro pre id err hpre
    have hmem := hpre.subset (List.mem_append_right pre (List.mem_singleton_self _))
    simp [ops] at hmem
  exact ⟨by decide, hclose, (registry_intact_iff (by decide)).mpr hclose⟩

/-- `Remove` of a proxy whose `Close` reports an error, as the stdio process
does with the exit status of the process it just terminated: the proxy is
closed and still registered. -/
theorem registry_keeps_closed_proxy :
    ¬ ∀ ops : List (Op Nat), (registered ops).Nodup → ∀ pre, pre <+: ops → Intact pre := by
  intro h
  let ops : List (Op Nat) := [.register "mcp" mcpEntry 1, .remove "mcp" (some "signal: terminated")]
  obtain ⟨hun, -, -⟩ := h ops (by decide) ops (List.prefix_refl _)
  exact hun "mcp" 1 (by decide) (by decide)

end Forager
