import Mathlib.Algebra.BigOperators.Group.Finset.Basic
import Mathlib.Algebra.Order.BigOperators.Group.Finset
import Forager.SweepExpand
import Forager.SweepRun

/-!
# The probes of an address

The prefixes of a sweep come from the request and are swept one after the other.
`expandCIDRs` does not compare them, so an address of two prefixes is listed twice.
-/

namespace Forager

open Go GoNet

/-- The prefixes have no host address in common, apart from excluded ones. -/
def Apart (exclusions : List Prefix) (p q : Prefix4) : Prop :=
  ∀ a ∈ p.hosts, a ∈ q.hosts → isExcluded (.v4 a) exclusions

instance (exclusions : List Prefix) (p q : Prefix4) : Decidable (Apart exclusions p q) :=
  List.decidableBAll (fun a => a ∈ q.hosts → isExcluded (.v4 a) exclusions) p.hosts

/-- No address is listed twice, so the reported number is that of the distinct addresses, and
in every run each port is probed at most as often at an address as it is listed. -/
structure ProbedOnce (cfg : SweepConfig) (addrs : List String) : Prop where
  nodup : addrs.Nodup
  scanned : ∀ acts result, runSweep cfg acts = .ok (some result) →
    result.scanned = addrs.toFinset.card
  probes : ∀ acts ip port, (sweepRun cfg addrs acts).probes.count (ip, port) ≤
    cfg.ports.count port

namespace SweepOnceLemmas

variable {addrs : List String} {ports : List Int} {s s' : SweepState} {a : SweepAct} {w : Nat}
  {p : SweepWorker} {ip : String} {port : Int}

/-! ## Probes -/

/-- How often the worker is still to probe the port of the address. -/
def owed (ip : String) (port : Int) : SweepWorker → Nat
  | .waiting ip' q rest _ | .dialing ip' q rest _ => if ip' = ip then (q :: rest).count port else 0
  | .idle | .sending _ _ | .exited => 0

theorem owed_of_not_busy (h : p.busy = false) : owed ip port p = 0 := by
  cases p <;> first | rfl | cases h

theorem owed_nextPort (ip' : String) (rest found : List Int) :
    owed ip port (nextPort ip' rest found) = if ip' = ip then rest.count port else 0 := by
  cases rest with
  | nil => cases found <;> simp [nextPort, owed]
  | cons q rest => rfl

/-- The probes of a port of an address, those still owed by the workers and those of the
addresses not handed out are at most those of the list. -/
structure Budget (addrs : List String) (ports : List Int) (ip : String) (port : Int)
    (s : SweepState) : Prop where
  pool : ∀ w, (s.worker w).busy → w < s.count
  spent : s.probes.count (ip, port) + ∑ w ∈ Finset.range s.count, owed ip port (s.worker w) +
    s.feed.count ip * ports.count port ≤ addrs.count ip * ports.count port

theorem sum_goto (weight : SweepWorker → Nat) (hw : w < s.count) (p : SweepWorker) :
    ∑ v ∈ Finset.range s.count, weight (Function.update s.worker w p v) + weight (s.worker w) =
      ∑ v ∈ Finset.range s.count, weight (s.worker v) + weight p := by
  have hmem : w ∈ Finset.range s.count := Finset.mem_range.mpr hw
  rw [← Finset.add_sum_erase _ _ hmem, ← Finset.add_sum_erase _ _ hmem, Function.update_self]
  have hrest : ∑ v ∈ (Finset.range s.count).erase w, weight (Function.update s.worker w p v) =
      ∑ v ∈ (Finset.range s.count).erase w, weight (s.worker v) := by
    refine Finset.sum_congr rfl fun v hv => ?_
    rw [Function.update_of_ne (Finset.ne_of_mem_erase hv)]
  rw [hrest]
  ac_rfl

theorem Budget.goto (h : Budget addrs ports ip port s) (hcount : s'.count = s.count)
    (hworker : s'.worker = Function.update s.worker w p) (hbusy : p.busy → w < s.count)
    (hspent : s'.probes.count (ip, port) + owed ip port p + s'.feed.count ip * ports.count port ≤
      s.probes.count (ip, port) + owed ip port (s.worker w) +
        s.feed.count ip * ports.count port) : Budget addrs ports ip port s' := by
  refine ⟨fun v hv => ?_, ?_⟩
  · rw [hcount]
    rw [hworker] at hv
    rcases Runs.of_update (fun q : SweepWorker => q.busy = true) hv with ⟨rfl, hp⟩ | ⟨-, hold⟩
    · exact hbusy hp
    · exact h.pool v hold
  · rw [hcount, hworker]
    have hold := h.spent
    rcases Nat.lt_or_ge w s.count with hw | hw
    · have hsum : ∑ v ∈ Finset.range s.count, owed ip port (Function.update s.worker w p v) +
          owed ip port (s.worker w) = _ := sum_goto (owed ip port) hw p
      omega
    · have hsum : ∑ v ∈ Finset.range s.count, owed ip port (Function.update s.worker w p v) =
          ∑ v ∈ Finset.range s.count, owed ip port (s.worker v) := by
        refine Finset.sum_congr rfl fun v hv => ?_
        rw [Function.update_of_ne (Nat.ne_of_lt (Nat.lt_of_lt_of_le (Finset.mem_range.mp hv) hw))]
      have hidle : owed ip port (s.worker w) = 0 := by
        refine owed_of_not_busy (Bool.eq_false_iff.mpr fun hb => ?_)
        exact absurd (h.pool w hb) (Nat.not_lt.mpr hw)
      omega

theorem Budget.idle (h : Budget addrs ports ip port s) (hcount : s'.count = s.count)
    (hworker : s'.worker = Function.update s.worker w p) (hprobes : s'.probes = s.probes)
    (hfeed : s'.feed = s.feed) (hp : p.busy = false) : Budget addrs ports ip port s' := by
  refine h.goto hcount hworker (fun hb => absurd (hp.symm.trans hb) Bool.false_ne_true) ?_
  rw [owed_of_not_busy hp, hprobes, hfeed]
  omega

/-- Along any run, a port of an address is probed at most as often as the address is listed and
the port is. -/
theorem budget_move (h : Budget addrs ports ip port s)
    (hmove : SweepRunLemmas.SweepMove ports s a s') : Budget addrs ports ip port s' := by
  cases hmove with
  | @hand w ip' rest hw _ hidle hfeed =>
    refine h.goto rfl rfl (fun _ => hw) ?_
    rw [owed_nextPort, hidle, hfeed, List.count_cons]
    rcases eq_or_ne ip' ip with rfl | hne
    · simp only [if_true, beq_self_eq_true, SweepState.goto, owed, Nat.add_mul]
      omega
    · simp [hne, SweepState.goto, owed]
  | leave => exact h.idle rfl rfl rfl rfl rfl
  | @pass w _ _ _ _ hwait =>
    have hin : w < s.count := h.pool w (by rw [hwait]; rfl)
    refine h.goto rfl rfl (fun _ => hin) ?_
    rw [hwait]
    exact Nat.le_refl _
  | refuse => exact h.idle rfl rfl rfl rfl rfl
  | @probe w _ ip' q rest found hdial _ =>
    have hin : w < s.count := h.pool w (by rw [hdial]; rfl)
    refine h.goto rfl rfl (fun _ => hin) ?_
    rw [owed_nextPort, hdial]
    rcases eq_or_ne ip' ip with rfl | hne
    · have hpair : [(ip', q)].count (ip', port) = [q].count port := by
        simp [List.count_cons]
      have hport : ([q] ++ rest).count port = [q].count port + rest.count port :=
        List.count_append ..
      rw [List.singleton_append] at hport
      simp only [owed, SweepState.goto, List.count_append, hpair, hport, if_true]
      omega
    · simp [hne, owed, SweepState.goto]
  | @skip w _ ip' q rest found hdial _ =>
    have hin : w < s.count := h.pool w (by rw [hdial]; rfl)
    refine h.goto rfl rfl (fun _ => hin) ?_
    rw [owed_nextPort, hdial]
    have hle : rest.count port ≤ (q :: rest).count port := by
      rw [List.count_cons]
      exact Nat.le_add_right ..
    simp only [owed, SweepState.goto]
    split <;> omega
  | deliver | abandon => exact h.idle rfl rfl rfl rfl rfl
  | cancel | stopFeed | endFeed => exact ⟨h.pool, h.spent⟩

theorem budget_run (cfg : SweepConfig) (addrs : List String) (acts : List SweepAct) (ip : String)
    (port : Int) : Budget addrs cfg.ports ip port (sweepRun cfg addrs acts) := by
  refine Runs.run_invariant (fun pre => Budget addrs cfg.ports ip port (sweepRun cfg addrs pre))
    (fun _ _ => True) ⟨fun w hb => (by cases hb), ?_⟩ (fun pre a _ hinv => ?_)
    fun _ _ _ => trivial
  · simp [sweepRun, SweepState.new, owed]
  · rw [sweepRun, Runs.run_snoc]
    exact SweepRunLemmas.of_sweepStep hinv fun _ => budget_move hinv

theorem probes_count_le (cfg : SweepConfig) (addrs : List String) (acts : List SweepAct)
    (ip : String) (port : Int) :
    (sweepRun cfg addrs acts).probes.count (ip, port) ≤ addrs.count ip * cfg.ports.count port := by
  have h := (budget_run cfg addrs acts ip port).spent
  omega

/-! ## The list -/

theorem string4_injective : Function.Injective string4 := by
  intro a b h
  have hp := parseIPv4_string4 a
  rw [h, parseIPv4_string4 b] at hp
  exact (Addr.v4.inj (Option.some.inj hp)).symm

theorem toPrefix_injective : Function.Injective Prefix4.toPrefix := by
  rintro ⟨a, b, hb⟩ ⟨a', b', hb'⟩ h
  simp only [Prefix4.toPrefix, Prefix.mk.injEq, Addr.v4.injEq, Option.some.injEq] at h
  obtain ⟨rfl, rfl⟩ := h
  rfl

theorem addrs_nodup (p : Prefix4) : p.addrs.Nodup :=
  (SweepExpandLemmas.addrs_pairwise p).imp fun {a b} h => by
    rintro rfl
    exact Nat.lt_irrefl _ (BitVec.lt_def.mp h)

theorem kept_nodup (exclusions : List Prefix) (p : Prefix4) : (p.kept exclusions).Nodup :=
  ((addrs_nodup p).sublist (SweepExpandLemmas.hosts_sublist p)).filter _

theorem nodup_kept_iff (exclusions : List Prefix) (cidrs : List Prefix4) :
    ((cidrs.flatMap (Prefix4.kept exclusions)).map string4).Nodup ↔
      cidrs.Pairwise (Apart exclusions) := by
  rw [List.nodup_map_iff string4_injective, List.nodup_flatMap]
  refine (and_iff_right fun p _ => kept_nodup exclusions p).trans ?_
  refine List.Pairwise.iff fun p q => ?_
  simp only [Function.onFun, List.Disjoint, Prefix4.kept, List.mem_filter, Bool.not_eq_true']
  constructor
  · intro hdis a hp hq
    by_contra hkeep
    have hfalse := Bool.eq_false_of_not_eq_true hkeep
    exact hdis ⟨hp, hfalse⟩ ⟨hq, hfalse⟩
  · rintro hapart a ⟨hp, hfalse⟩ ⟨hq, -⟩
    exact Bool.false_ne_true (hfalse.symm.trans (hapart a hp hq))

/-! ## The request -/

/-- The length of a prefix is none or fits the address. -/
def Fits (q : Prefix) : Prop := ∀ b, q.bits = some b → b ≤ q.addr.bitLen

theorem prefixFrom_fits (ip : Addr) (bits : Nat) : Fits (prefixFrom ip bits) := by
  intro b hb
  obtain ⟨hle, hsome⟩ := Option.ite_none_right_eq_some.mp hb
  obtain rfl := Option.some.inj hsome
  cases ip <;> exact hle

theorem masked_fits {q : Prefix} (h : Fits q) : Fits q.masked := by
  obtain ⟨addr, _ | bits⟩ := q
  · exact fun b hb => by cases addr <;> cases hb
  · cases addr <;> exact fun b hb => h b hb

theorem parsePrefix_fits {c : String} {q : Prefix} (h : parsePrefix c = some q) : Fits q := by
  unfold parsePrefix at h
  simp only at h
  split at h
  · cases h
  · obtain ⟨ip, -, h⟩ := Option.bind_eq_some_iff.mp h
    -- every way out but the last is `none`
    rw [Option.ite_none_left_eq_some] at h
    obtain ⟨-, h⟩ := h
    rw [Option.ite_none_left_eq_some] at h
    obtain ⟨-, h⟩ := h
    split at h
    · cases h
    · rw [Option.ite_none_left_eq_some] at h
      rw [← Option.some.inj h.2]
      exact prefixFrom_fits _ _

theorem handleSweep_parse {proxy : DiscoveryProxy} {params : StrMap Any} {cfg : SweepConfig}
    (h : handleSweep proxy params = .ok cfg) :
    parseSweepParams params proxy.maxRatePPS = .ok cfg := by
  obtain ⟨cfg', hcfg, h⟩ := bind_eq_ok.mp h
  split at h
  · split at h
    · cases h
    · exact hcfg.trans h
  · exact hcfg.trans h

theorem positiveParam_pos {params : StrMap Any} {key : String} {default : Int}
    (h : 0 < default) : 0 < positiveParam params key default := by
  unfold positiveParam
  extract_lets v
  split
  next hv => exact hv
  next => exact h

theorem parseSweepParams_valid {params : StrMap Any} {maxRate : Int} {cfg : SweepConfig}
    (h : parseSweepParams params maxRate = .ok cfg) :
    (∀ c ∈ cfg.cidrs, Fits c) ∧ 0 < cfg.workers := by
  obtain ⟨raw, -, h⟩ := bind_eq_ok.mp h
  dsimp only at h
  split at h
  · cases h
  obtain ⟨cidrs, hcidrs, h⟩ := bind_eq_ok.mp h
  have hsame : cidrs = cfg.cidrs ∧ min (positiveParam params "workers" 64) 512 = cfg.workers := by
    -- the exclusions and the ports are given or not
    split at h <;> obtain ⟨_, -, h⟩ := bind_eq_ok.mp h <;>
      obtain ⟨_, -, h⟩ := bind_eq_ok.mp h <;>
      split at h <;> obtain ⟨_, -, h⟩ := bind_eq_ok.mp h <;>
      obtain ⟨_, -, h⟩ := bind_eq_ok.mp h <;>
      exact ⟨congrArg SweepConfig.cidrs (Except.ok.inj h),
        congrArg SweepConfig.workers (Except.ok.inj h)⟩
  rw [← hsame.1, ← hsame.2]
  refine ⟨mapM_ok_forall (fun c q hq => ?_) hcidrs,
    lt_min (positiveParam_pos (by decide)) (by decide)⟩
  split at hq
  · rename_i q' hparse
    rw [← Except.ok.inj hq]
    exact masked_fits (parsePrefix_fits hparse)
  · cases hq

theorem exists_prefix4 {cidrs exclusions : List Prefix} {acc out : List String × Nat}
    (hfits : ∀ c ∈ cidrs, Fits c) (h : expandFrom exclusions cidrs acc = .ok out) :
    ∃ cs : List Prefix4, cidrs = cs.map Prefix4.toPrefix := by
  induction cidrs generalizing acc with
  | nil => exact ⟨[], rfl⟩
  | cons c rest ih =>
    obtain ⟨addr, bits⟩ := c
    have hbits := hfits _ List.mem_cons_self
    unfold expandFrom at h
    split at h
    · cases h
    · cases h
    · rename_i q b haddr hb
      obtain rfl : addr = .v4 q := haddr
      obtain rfl : bits = some b := hb
      simp only at h
      split at h
      · cases h
      · obtain ⟨cs, rfl⟩ := ih (fun c hc => hfits c (List.mem_cons_of_mem _ hc)) h
        exact ⟨⟨q, b, hbits b rfl⟩ :: cs, rfl⟩

end SweepOnceLemmas

open SweepOnceLemmas in
/-- An accepted sweep lists and probes no address twice exactly when any two of its
prefixes have no host address in common that no exclusion contains. -/
theorem probed_once_iff (proxy : DiscoveryProxy) (params : StrMap Any) (cfg : SweepConfig)
    (addrs : List String) (excluded : Nat) (hcfg : handleSweep proxy params = .ok cfg)
    (hexpand : expandCIDRs cfg.cidrs cfg.exclusions = .ok (addrs, excluded)) :
    ∃ cidrs : List Prefix4, cfg.cidrs = cidrs.map Prefix4.toPrefix ∧
      (ProbedOnce cfg addrs ↔ cidrs.Pairwise (Apart cfg.exclusions)) := by
  obtain ⟨cidrs, hcidrs⟩ :=
    exists_prefix4 (parseSweepParams_valid (handleSweep_parse hcfg)).1 hexpand
  refine ⟨cidrs, hcidrs, ?_⟩
  have haddrs : addrs = (cidrs.flatMap (Prefix4.kept cfg.exclusions)).map string4 := by
    rw [hcidrs] at hexpand
    exact congrArg Prod.fst ((SweepExpandLemmas.expandCIDRs_ok_iff cidrs _ _).mp hexpand).2
  rw [← nodup_kept_iff, ← haddrs]
  refine ⟨ProbedOnce.nodup, fun hnodup => ⟨hnodup, fun acts result hres => ?_, ?_⟩⟩
  · rw [List.toFinset_card_of_nodup hnodup]
    rw [runSweep, hexpand] at hres
    replace hres := Except.ok.inj hres
    split at hres
    · exact (Option.some.inj hres) ▸ rfl
    · cases hres
  · intro acts ip port
    refine (probes_count_le cfg addrs acts ip port).trans ?_
    calc addrs.count ip * cfg.ports.count port
        ≤ 1 * cfg.ports.count port :=
          Nat.mul_le_mul_right _ (List.nodup_iff_count_le_one.mp hnodup ip)
      _ = cfg.ports.count port := Nat.one_mul _

def twoSmall : List Prefix4 := [⟨0x0a000000, 30, by decide⟩, ⟨0x0a000004, 30, by decide⟩]

def adjacentSweep : StrMap Any :=
  [("cidrs", .slice [.string "10.0.0.0/30", .string "10.0.0.4/30"])]

def repeatedSweep : StrMap Any :=
  [("cidrs", .slice [.string "10.0.0.0/30", .string "10.0.0.0/30"])]

/-- The config that the request gives without a configured scope. -/
def sweepOf (cidrs : List Prefix) : SweepConfig := ⟨cidrs, [], [22, 3389, 5985], 100, 1000, 64⟩

open SweepOnceLemmas in
theorem probed_once_adjacent :
    ∃ cfg, handleSweep (configureSweep [] 0) adjacentSweep = .ok cfg ∧
      ProbedOnce cfg ["10.0.0.1", "10.0.0.2", "10.0.0.5", "10.0.0.6"] := by
  refine ⟨sweepOf (twoSmall.map Prefix4.toPrefix), by decide +kernel, ?_⟩
  obtain ⟨cidrs, hcidrs, hiff⟩ := probed_once_iff (configureSweep [] 0) adjacentSweep
    (sweepOf (twoSmall.map Prefix4.toPrefix)) _ 0 (by decide +kernel)
    (by decide +kernel : expandCIDRs _ _ =
      .ok (["10.0.0.1", "10.0.0.2", "10.0.0.5", "10.0.0.6"], 0))
  obtain rfl : cidrs = twoSmall := (List.map_injective_iff.mpr toPrefix_injective hcidrs).symm
  exact hiff.mpr (by decide +kernel)

/-- Not in general: a network that is named twice is listed twice, and a worker probes its
addresses twice. -/
theorem probed_twice :
    ∃ cfg, handleSweep (configureSweep [] 0) repeatedSweep = .ok cfg ∧
      expandCIDRs cfg.cidrs cfg.exclusions =
        .ok (["10.0.0.1", "10.0.0.2", "10.0.0.1", "10.0.0.2"], 0) ∧
      ¬ ProbedOnce cfg ["10.0.0.1", "10.0.0.2", "10.0.0.1", "10.0.0.2"] := by
  refine ⟨sweepOf [⟨.v4 0x0a000000, some 30⟩, ⟨.v4 0x0a000000, some 30⟩], by decide +kernel,
    by decide +kernel, fun h => ?_⟩
  exact absurd h.nodup (by decide)

/-! ## What a sweep reaches and reports -/

/-- In the run, a probe of the port of the address was answered. -/
def Answers (cfg : SweepConfig) (addrs : List String) (acts : List SweepAct) (ip : String)
    (port : Int) : Prop :=
  ∃ pre w rest found, pre ++ [.dial w true] <+: acts ∧
    (sweepRun cfg addrs pre).worker w = .dialing ip port rest found ∧
    (sweepRun cfg addrs pre).cancelled = false

namespace SweepOnceLemmas

variable {cfg : SweepConfig} {addrs : List String} {acts : List SweepAct} {ports : List Int}
  {s s' : SweepState} {a : SweepAct} {A B : String → Int → Prop} {p : SweepWorker} {ip : String}
  {port : Int}

theorem listed_of_probe (h : (ip, port) ∈ (sweepRun cfg addrs acts).probes) :
    ip ∈ addrs ∧ port ∈ cfg.ports := by
  have hpos : 0 < addrs.count ip * cfg.ports.count port :=
    (List.count_pos_iff.mpr h).trans_le (probes_count_le cfg addrs acts ip port)
  exact ⟨List.count_pos_iff.mp (Nat.pos_of_mul_pos_right hpos),
    List.count_pos_iff.mp (Nat.pos_of_mul_pos_left hpos)⟩

/-- The ports that the worker has found open are `A`. -/
def Finds (A : String → Int → Prop) : SweepWorker → Prop
  | .waiting ip _ _ found | .dialing ip _ _ found | .sending ip found => ∀ port ∈ found, A ip port
  | .idle | .exited => True

theorem finds_nextPort {rest found : List Int} (h : ∀ port ∈ found, A ip port) :
    Finds A (nextPort ip rest found) := by
  cases rest with
  | nil => cases found <;> trivial
  | cons q rest => exact h

structure Observed (A : String → Int → Prop) (s : SweepState) : Prop where
  held : ∀ w, Finds A (s.worker w)
  stored : ∀ ip ports, s.hosts.lookup ip = some ports → ∀ port ∈ ports, A ip port

theorem Observed.mono (h : Observed A s) (hAB : ∀ ip port, A ip port → B ip port) :
    Observed B s := by
  refine ⟨fun w => ?_, fun ip ports hip port hp => hAB ip port (h.stored ip ports hip port hp)⟩
  have hw := h.held w
  cases hworker : s.worker w <;> rw [hworker] at hw <;>
    first | trivial | exact fun port hp => hAB _ port (hw port hp)

theorem Observed.goto {w : Nat} (h : Observed A s) (hworker : s'.worker = s.worker)
    (hhosts : s'.hosts = s.hosts) (hp : Finds A p) : Observed A (s'.goto w p) := by
  refine ⟨fun v => ?_, fun ip ports hip => h.stored ip ports (hhosts ▸ hip)⟩
  simp only [SweepState.goto, hworker]
  rcases eq_or_ne v w with rfl | hne
  · rwa [Function.update_self]
  · rw [Function.update_of_ne hne]
    exact h.held v

theorem observed_move (h : Observed A s) (hmove : SweepRunLemmas.SweepMove ports s a s')
    (hdial : ∀ w ip port rest found, a = .dial w true →
      s.worker w = .dialing ip port rest found → s.cancelled = false → A ip port) :
    Observed A s' := by
  cases hmove with
  | hand => exact h.goto rfl rfl (finds_nextPort nofun)
  | leave | refuse | abandon => exact h.goto rfl rfl trivial
  | @pass w _ _ _ _ hwait =>
    have hw := h.held w
    rw [hwait] at hw
    exact h.goto rfl rfl hw
  | @probe w answered _ _ _ _ hworker hlive =>
    have hw := h.held w
    rw [hworker] at hw
    refine h.goto rfl rfl (finds_nextPort fun q hq => ?_)
    cases answered with
    | false => exact hw q hq
    | true =>
      rcases List.mem_append.mp hq with hold | hnew
      · exact hw q hold
      · rw [List.mem_singleton.mp hnew]
        exact hdial w _ _ _ _ rfl hworker hlive
  | @skip w _ _ _ _ _ hworker _ =>
    have hw := h.held w
    rw [hworker] at hw
    exact h.goto rfl rfl (finds_nextPort hw)
  | @deliver w ip found hsend =>
    have hw := h.held w
    rw [hsend] at hw
    refine ⟨(h.goto (w := w) (p := .idle) rfl rfl trivial).held, fun ip' ports hip => ?_⟩
    rcases eq_or_ne ip' ip with rfl | hne
    · rw [SweepState.goto, AList.lookup_insert] at hip
      exact Option.some.inj hip ▸ hw
    · rw [SweepState.goto, AList.lookup_insert_ne hne] at hip
      exact h.stored ip' ports hip
  | cancel | stopFeed | endFeed => exact ⟨h.held, h.stored⟩

theorem observed_run (acts : List SweepAct) :
    Observed (Answers cfg addrs acts) (sweepRun cfg addrs acts) := by
  refine Runs.run_invariant (fun as => Observed (Answers cfg addrs as) (sweepRun cfg addrs as))
    (fun _ _ => True) ⟨fun _ => trivial, nofun⟩ (fun pre a _ hpre => ?_) fun _ _ _ => trivial
  have hpre := hpre.mono (B := Answers cfg addrs (pre ++ [a]))
    fun ip port ⟨pre', w, rest, found, hp, hdial⟩ =>
      ⟨pre', w, rest, found, hp.trans (List.prefix_append pre [a]), hdial⟩
  rw [sweepRun, Runs.run_snoc]
  refine SweepRunLemmas.of_sweepStep hpre fun _ hmove => observed_move hpre hmove ?_
  rintro w ip port rest found rfl hdial hlive
  exact ⟨pre, w, rest, found, List.prefix_rfl, hdial, hlive⟩

end SweepOnceLemmas

open SweepOnceLemmas in
/-- Whatever the interleaving and whenever the context is cancelled, a sweep with a
configured network probes the requested ports of IPv4 addresses inside these networks and
outside the exclusions, and nothing else. -/
theorem probes_in_scope (proxy : DiscoveryProxy) (params : StrMap Any) (cfg : SweepConfig)
    (addrs : List String) (excluded : Nat) (hcfg : handleSweep proxy params = .ok cfg)
    (hexpand : expandCIDRs cfg.cidrs cfg.exclusions = .ok (addrs, excluded))
    (hnets : proxy.allowedNets ≠ []) (acts : List SweepAct) (ip : String) (port : Int)
    (hprobe : (ip, port) ∈ (sweepRun cfg addrs acts).probes) :
    port ∈ cfg.ports ∧ ∃ a, ip = string4 a ∧ isExcluded (.v4 a) cfg.exclusions = false ∧
      ∃ n ∈ proxy.allowedNets, n.contains (.b16 (mapped a)) := by
  obtain ⟨hip, hport⟩ := listed_of_probe hprobe
  obtain ⟨cidrs, hcidrs⟩ :=
    exists_prefix4 (parseSweepParams_valid (handleSweep_parse hcfg)).1 hexpand
  obtain ⟨cidr, hc, hof⟩ := SweepLemmas.expandCIDRs_mem hexpand hip
  obtain ⟨a, rfl, hin⟩ :=
    SweepLemmas.within_contains (SweepLemmas.handleSweep_within hcfg hnets cidr hc) hof
  rw [hcidrs] at hexpand
  have haddrs := congrArg Prod.fst ((SweepExpandLemmas.expandCIDRs_ok_iff cidrs _ _).mp hexpand).2
  dsimp only at haddrs
  rw [haddrs, List.mem_map_of_injective string4_injective] at hip
  obtain ⟨p, -, hkept⟩ := List.mem_flatMap.mp hip
  exact ⟨hport, a, rfl, by simpa using (List.mem_filter.mp hkept).2, hin⟩

theorem probes_in_scope_small :
    ∃ cfg, handleSweep (configureSweep ["10.0.0.0/8"] 0) smallSweep = .ok cfg ∧ 22 ∈ cfg.ports :=
  ⟨sweepOf [⟨.v4 0x0a000000, some 30⟩], by decide +kernel,
    (probes_in_scope (configureSweep ["10.0.0.0/8"] 0) smallSweep _ ["10.0.0.1", "10.0.0.2"] 0
      (by decide +kernel) (by decide +kernel) (by decide +kernel)
      [.hand 0, .wait 0 true, .dial 0 false] "10.0.0.1" 22 (by decide +kernel)).1⟩

open SweepOnceLemmas in
/-- A port that a sweep reports as open answered a probe, also when the sweep was cancelled. -/
theorem reported_ports_answered (cfg : SweepConfig) (addrs : List String) (excluded : Nat)
    (hexpand : expandCIDRs cfg.cidrs cfg.exclusions = .ok (addrs, excluded))
    (acts : List SweepAct) (result : SweepResult) (hres : runSweep cfg acts = .ok (some result))
    (ip : String) (ports : List Int) (hip : result.hosts.lookup ip = some ports) (port : Int)
    (hport : port ∈ ports) : Answers cfg addrs acts ip port := by
  rw [runSweep, hexpand] at hres
  replace hres := Except.ok.inj hres
  split at hres
  · obtain rfl := Option.some.inj hres
    exact (observed_run acts).stored ip ports hip port hport
  · cases hres

/-- The sweep of one address, cancelled once its only port has answered. -/
theorem reported_ports_answered_one :
    Answers oneAddress ["10.0.0.1"] [.hand 0, .wait 0 true, .dial 0 true, .cancel, .deliver 0,
      .stopFeed, .leave 0] "10.0.0.1" 22 :=
  reported_ports_answered oneAddress _ 0 (by decide +kernel) _ _ rfl _ [22] (by decide +kernel) _
    (by decide)

end Forager
