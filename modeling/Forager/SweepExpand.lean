import Forager.GoTime
import Forager.Sweep

/-!
# The addresses of a sweep

`expandCIDRs` of `pkg/proxy/discovery/sweep.go` walks each prefix by `Addr.Next` and
counts beside it. The size of a prefix is checked in `int64`, against the addresses kept
so far. Past 255.255.255.255, `Next` gives the invalid address.
-/

namespace Forager

open GoNet GoTime

structure Prefix4 where
  addr : BitVec 32
  bits : Nat
  bits_le : bits ≤ 32
deriving DecidableEq

namespace Prefix4

def toPrefix (p : Prefix4) : Prefix := ⟨.v4 p.addr, some p.bits⟩

def size (p : Prefix4) : Nat := 2 ^ (32 - p.bits)

/-- Its addresses, from the network address on. -/
def addrs (p : Prefix4) : List (BitVec 32) :=
  (List.range p.size).map fun i => mask p.addr p.bits + BitVec.ofNat 32 i

/-- Without the network and the broadcast address, if it has them. -/
def hosts (p : Prefix4) : List (BitVec 32) :=
  if p.bits ≤ 30 then p.addrs.tail.dropLast else p.addrs

variable (exclusions : List Prefix)

/-- The host addresses that are swept. -/
def kept (p : Prefix4) : List (BitVec 32) :=
  p.hosts.filter fun a => !isExcluded (.v4 a) exclusions

/-- The number of host addresses that are not. -/
def dropped (p : Prefix4) : Nat := p.hosts.countP fun a => isExcluded (.v4 a) exclusions

end Prefix4

/-! ## The walk with the invalid address -/

/-- `Addr.Next`; `none` is the invalid address. -/
def nextAddr (a : BitVec 32) : Option (BitVec 32) :=
  if a = BitVec.allOnes 32 then none else some (a + 1)

/-- `expandLoop` along `Next`; `none` if the invalid address is used. -/
def expandLoopNext (bits size : Nat) (exclusions : List Prefix) :
    Nat → Nat → Option (BitVec 32) → List String × Nat → Option (List String × Nat)
  | 0, _, _, acc => some acc
  | _ + 1, _, none, _ => none
  | n + 1, i, some addr, (addrs, excluded) =>
    if bits ≤ 30 ∧ (i = 0 ∨ i = size - 1) then
      expandLoopNext bits size exclusions n (i + 1) (nextAddr addr) (addrs, excluded)
    else if isExcluded (.v4 addr) exclusions then
      expandLoopNext bits size exclusions n (i + 1) (nextAddr addr) (addrs, excluded + 1)
    else
      expandLoopNext bits size exclusions n (i + 1) (nextAddr addr)
        (addrs ++ [string4 addr], excluded)

/-- The loop of `expandCIDRs` over IPv4 prefixes, with its sizes in `int64`. -/
def expandFromNext (exclusions : List Prefix) :
    List Prefix4 → List String × Nat → Option (Except SweepError (List String × Nat))
  | [], acc => some (.ok acc)
  | cidr :: rest, acc =>
    let size64 := wrap64 (2 ^ (32 - cidr.bits))
    if wrap64 (acc.1.length + size64) > maxSweepAddresses then some (.error .tooManyAddresses)
    else
      (expandLoopNext cidr.bits size64.toNat exclusions size64.toNat 0
        (some (mask cidr.addr cidr.bits)) acc).bind (expandFromNext exclusions rest)

namespace SweepExpandLemmas

variable {exclusions : List Prefix} {p : Prefix4} {bits size : Nat}

/-! ## The addresses of a prefix -/

theorem size_le (p : Prefix4) : p.size ≤ 2 ^ 32 := Nat.pow_le_pow_right (by decide) (by omega)

theorem size_pos (p : Prefix4) : 0 < p.size := Nat.pow_pos (by decide)

theorem base_add_lt {i : Nat} (hi : i < p.size) :
    (mask p.addr p.bits).toNat + i < 2 ^ 32 := by
  have hq := p.addr.isLt
  have hsplit : 2 ^ 32 = 2 ^ p.bits * p.size := by
    rw [Prefix4.size, ← Nat.pow_add, Nat.add_sub_cancel' p.bits_le]
  have hdiv : p.addr.toNat / p.size < 2 ^ p.bits :=
    Nat.div_lt_of_lt_mul (by rw [Nat.mul_comm, ← hsplit]; exact hq)
  rw [mask_toNat, show 2 ^ (32 - p.bits) = p.size from rfl]
  calc p.addr.toNat / p.size * p.size + i
      < p.addr.toNat / p.size * p.size + p.size := by omega
    _ = (p.addr.toNat / p.size + 1) * p.size := (Nat.succ_mul ..).symm
    _ ≤ 2 ^ p.bits * p.size := Nat.mul_le_mul_right _ hdiv
    _ = 2 ^ 32 := hsplit.symm

theorem toNat_addr {i : Nat} (hi : i < p.size) :
    (mask p.addr p.bits + BitVec.ofNat 32 i).toNat = (mask p.addr p.bits).toNat + i := by
  have hlt := base_add_lt hi
  rw [BitVec.toNat_add, BitVec.toNat_ofNat, Nat.add_mod_mod, Nat.mod_eq_of_lt hlt]

theorem addrs_pairwise (p : Prefix4) : p.addrs.Pairwise (· < ·) := by
  refine List.pairwise_map.mpr (List.pairwise_lt_range.imp_of_mem fun {i j} hi hj hij => ?_)
  rw [List.mem_range] at hi hj
  rw [BitVec.lt_def, toNat_addr hi, toNat_addr hj]
  exact Nat.add_lt_add_left hij _

theorem mem_addrs (p : Prefix4) (a : BitVec 32) : a ∈ p.addrs ↔ p.toPrefix.contains (.v4 a) := by
  simp only [Prefix4.addrs, List.mem_map, List.mem_range, Prefix4.toPrefix, Prefix.contains,
    decide_eq_true_eq]
  rw [xor_shift_eq_zero]
  constructor
  · rintro ⟨i, hi, rfl⟩
    exact shift_mask_add le_rfl hi
  · intro h
    have hdiv : a.toNat / p.size = p.addr.toNat / p.size := by
      have hnat := congrArg BitVec.toNat h
      rwa [BitVec.toNat_ushiftRight, BitVec.toNat_ushiftRight, Nat.shiftRight_eq_div_pow,
        Nat.shiftRight_eq_div_pow] at hnat
    refine ⟨a.toNat % p.size, Nat.mod_lt _ (size_pos p), BitVec.eq_of_toNat_eq ?_⟩
    rw [toNat_addr (Nat.mod_lt _ (size_pos p)), mask_toNat,
      show 2 ^ (32 - p.bits) = p.size from rfl, ← hdiv]
    exact Nat.div_add_mod' ..

/-! ## One walk -/

theorem add_ofNat_succ (base : BitVec 32) (i : Nat) :
    base + BitVec.ofNat 32 i + 1 = base + BitVec.ofNat 32 (i + 1) := by
  rw [BitVec.add_assoc, BitVec.ofNat_add]
  rfl

/-- The walk passes over the network and the broadcast address. -/
def isHost (bits size i : Nat) : Bool := ¬ (bits ≤ 30 ∧ (i = 0 ∨ i = size - 1))

/-- The host addresses at the offsets from `i` on. -/
def hostsFrom (bits size : Nat) (base : BitVec 32) (i n : Nat) : List (BitVec 32) :=
  ((List.range' i n).filter (isHost bits size)).map fun k => base + BitVec.ofNat 32 k

theorem hostsFrom_succ (bits size : Nat) (base : BitVec 32) (i n : Nat) :
    hostsFrom bits size base i (n + 1) =
      (if isHost bits size i then [base + BitVec.ofNat 32 i] else []) ++
        hostsFrom bits size base (i + 1) n := by
  rw [hostsFrom, List.range'_succ, List.filter_cons]
  split <;> rfl

theorem expandLoop_hostsFrom (exclusions : List Prefix) (base : BitVec 32) (n i : Nat)
    (acc : List String × Nat) :
    expandLoop bits size exclusions n i (base + BitVec.ofNat 32 i) acc =
      (acc.1 ++ ((hostsFrom bits size base i n).filter fun a =>
          !isExcluded (.v4 a) exclusions).map string4,
        acc.2 + (hostsFrom bits size base i n).countP fun a => isExcluded (.v4 a) exclusions) := by
  induction n generalizing i acc with
  | zero => simp [expandLoop, hostsFrom]
  | succ n ih =>
    obtain ⟨addrs, excluded⟩ := acc
    rw [hostsFrom_succ, expandLoop, add_ofNat_succ]
    by_cases hskip : bits ≤ 30 ∧ (i = 0 ∨ i = size - 1)
    · rw [if_pos hskip, ih]
      simp [isHost, hskip]
    · have hhost : isHost bits size i = true := decide_eq_true hskip
      rw [if_neg hskip, hhost, if_pos rfl]
      by_cases hex : isExcluded (.v4 (base + BitVec.ofNat 32 i)) exclusions
      · rw [if_pos hex, ih]
        simp [hex, Nat.add_assoc, Nat.add_comm 1]
      · rw [if_neg hex, ih]
        simp [hex]

theorem filter_inner (m : Nat) :
    ((List.range m).filter fun i => ¬ (i = 0 ∨ i = m - 1)) = (List.range m).tail.dropLast := by
  match m with
  | 0 => rfl
  | 1 => rfl
  | k + 2 =>
    have hrange : List.range (k + 2) = 0 :: (List.range' 1 k ++ [k + 1]) := by
      rw [List.range_eq_range', List.range'_succ, List.range'_1_concat, Nat.zero_add, Nat.add_comm]
    have hkeep : (List.range' 1 k).filter (fun i => ¬ (i = 0 ∨ i = k + 2 - 1)) =
        List.range' 1 k := by
      refine List.filter_eq_self.mpr fun i hi => ?_
      obtain ⟨hlo, hhi⟩ := List.mem_range'_1.mp hi
      simp only [decide_eq_true_eq]
      omega
    rw [hrange, List.tail_cons, List.dropLast_concat, List.filter_cons, List.filter_append, hkeep]
    simp

theorem hostsFrom_zero (p : Prefix4) :
    hostsFrom p.bits p.size (mask p.addr p.bits) 0 p.size = p.hosts := by
  rw [hostsFrom, ← List.range_eq_range', Prefix4.hosts, Prefix4.addrs]
  split
  · rename_i h30
    rw [← List.map_tail, ← List.map_dropLast, ← filter_inner]
    refine congrArg _ (List.filter_congr fun i _ => ?_)
    simp [isHost, h30]
  · rename_i h30
    refine congrArg _ (List.filter_eq_self.mpr fun i _ => ?_)
    simp [isHost, h30]

theorem expandLoop_eq (exclusions : List Prefix) (p : Prefix4) (acc : List String × Nat) :
    expandLoop p.bits p.size exclusions p.size 0 (mask p.addr p.bits) acc =
      (acc.1 ++ (p.kept exclusions).map string4, acc.2 + p.dropped exclusions) := by
  have h : expandLoop p.bits p.size exclusions p.size 0
      (mask p.addr p.bits + BitVec.ofNat 32 0) acc = _ := expandLoop_hostsFrom ..
  rw [hostsFrom_zero, BitVec.add_zero] at h
  exact h

theorem hosts_sublist (p : Prefix4) : p.hosts.Sublist p.addrs := by
  unfold Prefix4.hosts
  split
  · exact (List.dropLast_sublist _).trans (List.tail_sublist _)
  · exact List.Sublist.refl _

theorem length_addrs (p : Prefix4) : p.addrs.length = p.size := by
  rw [Prefix4.addrs, List.length_map, List.length_range]

theorem kept_length_le (exclusions : List Prefix) (p : Prefix4) :
    (p.kept exclusions).length ≤ p.size := by
  rw [← length_addrs]
  exact List.filter_sublist.length_le.trans (hosts_sublist p).length_le

/-! ## The list of prefixes -/

theorem expandFrom_cons (exclusions : List Prefix) (p : Prefix4) (rest : List Prefix)
    (acc : List String × Nat) :
    expandFrom exclusions (p.toPrefix :: rest) acc =
      if acc.1.length + p.size > maxSweepAddresses then .error .tooManyAddresses
      else expandFrom exclusions rest
        (acc.1 ++ (p.kept exclusions).map string4, acc.2 + p.dropped exclusions) := by
  rw [← expandLoop_eq]
  rfl

/-- The check fails at one of the prefixes, with `len` addresses kept before them. -/
def Overruns (exclusions : List Prefix) (len : Nat) (cidrs : List Prefix4) : Prop :=
  ∃ pre p post, cidrs = pre ++ p :: post ∧
    len + (pre.flatMap (Prefix4.kept exclusions)).length + p.size > maxSweepAddresses

theorem overruns_cons (len : Nat) (p : Prefix4) (rest : List Prefix4) :
    Overruns exclusions len (p :: rest) ↔ len + p.size > maxSweepAddresses ∨
      Overruns exclusions (len + (p.kept exclusions).length) rest := by
  constructor
  · rintro ⟨_ | ⟨q, pre⟩, x, post, heq, h⟩
    · obtain ⟨rfl, rfl⟩ := List.cons_eq_cons.mp heq
      exact .inl h
    · obtain ⟨rfl, rfl⟩ := List.cons_eq_cons.mp heq
      refine .inr ⟨pre, x, post, rfl, ?_⟩
      rwa [List.flatMap_cons, List.length_append, ← Nat.add_assoc len] at h
  · rintro (h | ⟨pre, x, post, rfl, h⟩)
    · exact ⟨[], p, rest, rfl, h⟩
    · refine ⟨p :: pre, x, post, rfl, ?_⟩
      rwa [List.flatMap_cons, List.length_append, ← Nat.add_assoc len]

theorem expandFrom_eq (exclusions : List Prefix) (cidrs : List Prefix4)
    (acc : List String × Nat) :
    (Overruns exclusions acc.1.length cidrs →
      expandFrom exclusions (cidrs.map Prefix4.toPrefix) acc = .error .tooManyAddresses) ∧
    (¬ Overruns exclusions acc.1.length cidrs →
      expandFrom exclusions (cidrs.map Prefix4.toPrefix) acc =
        .ok (acc.1 ++ (cidrs.flatMap (Prefix4.kept exclusions)).map string4,
          acc.2 + (cidrs.map (Prefix4.dropped exclusions)).sum)) := by
  induction cidrs generalizing acc with
  | nil =>
    refine ⟨?_, fun _ => by simp [expandFrom]⟩
    rintro ⟨pre, x, post, heq, -⟩
    exact absurd heq.symm (List.append_ne_nil_of_right_ne_nil _ (List.cons_ne_nil _ _))
  | cons p rest ih =>
    rw [List.map_cons, expandFrom_cons, overruns_cons]
    obtain ⟨ihfail, ihok⟩ :=
      ih (acc.1 ++ (p.kept exclusions).map string4, acc.2 + p.dropped exclusions)
    rw [List.length_append, List.length_map] at ihfail ihok
    constructor
    · rintro (h | h)
      · exact if_pos h
      · split
        · rfl
        · exact ihfail h
    · intro h
      rw [not_or] at h
      rw [if_neg h.1, ihok h.2]
      simp [Nat.add_assoc]

/-! ## The invalid address and `int64` -/

theorem nextAddr_addr {i : Nat} (hi : i + 1 < p.size) :
    nextAddr (mask p.addr p.bits + BitVec.ofNat 32 i) =
      some (mask p.addr p.bits + BitVec.ofNat 32 (i + 1)) := by
  have hlt := base_add_lt hi
  have hne : mask p.addr p.bits + BitVec.ofNat 32 i ≠ BitVec.allOnes 32 := by
    intro h
    have hnat := congrArg BitVec.toNat h
    rw [toNat_addr (by omega), BitVec.toNat_allOnes] at hnat
    omega
  rw [nextAddr, if_neg hne, add_ofNat_succ]

theorem expandLoopNext_eq (exclusions : List Prefix) (p : Prefix4) (n i : Nat)
    (hn : i + n = p.size) (acc : List String × Nat) (next : Option (BitVec 32))
    (hnext : 0 < n → next = some (mask p.addr p.bits + BitVec.ofNat 32 i)) :
    expandLoopNext p.bits p.size exclusions n i next acc =
      some (expandLoop p.bits p.size exclusions n i (mask p.addr p.bits + BitVec.ofNat 32 i)
        acc) := by
  induction n generalizing i acc next with
  | zero => rfl
  | succ n ih =>
    obtain ⟨addrs, excluded⟩ := acc
    have hstep := fun acc => ih (i + 1) (by omega) acc
      (nextAddr (mask p.addr p.bits + BitVec.ofNat 32 i)) fun hpos => nextAddr_addr (by omega)
    rw [hnext (Nat.succ_pos n), expandLoopNext, expandLoop, add_ofNat_succ]
    simp only [hstep, apply_ite some]

/-- In `int64` and with the invalid address, the walk is the same, and never uses that address.
-/
theorem expandFromNext_eq (exclusions : List Prefix) (cidrs : List Prefix4)
    (acc : List String × Nat) (hacc : acc.1.length ≤ maxSweepAddresses) :
    expandFromNext exclusions cidrs acc =
      some (expandFrom exclusions (cidrs.map Prefix4.toPrefix) acc) := by
  induction cidrs generalizing acc with
  | nil => rfl
  | cons p rest ih =>
    have hsize := size_le p
    have hcast : ((2 : Int) ^ (32 - p.bits)) = (p.size : Nat) := by simp [Prefix4.size]
    have h64 : wrap64 (2 ^ (32 - p.bits)) = (p.size : Nat) := by
      rw [hcast]
      exact wrap64_of_small (by omega) (by omega)
    have hsum : wrap64 (acc.1.length + (p.size : Nat)) = acc.1.length + (p.size : Nat) :=
      wrap64_of_small (by omega) (by unfold maxSweepAddresses at hacc; omega)
    rw [expandFromNext, h64, hsum, List.map_cons, expandFrom_cons]
    by_cases hover : acc.1.length + p.size > maxSweepAddresses
    · rw [if_pos (by exact_mod_cast hover), if_pos hover]
    · rw [if_neg (by exact_mod_cast hover), if_neg hover, Int.toNat_natCast,
        expandLoopNext_eq exclusions p p.size 0 (Nat.zero_add _) acc _ (fun _ => by simp),
        BitVec.add_zero, expandLoop_eq]
      refine ih _ ?_
      have hkept := kept_length_le exclusions p
      rw [List.length_append, List.length_map]
      omega

theorem last_check {pre : List Prefix4} {last : Prefix4}
    (h : ¬ Overruns exclusions 0 (pre ++ [last])) :
    (pre.flatMap (Prefix4.kept exclusions)).length + last.size ≤ maxSweepAddresses := by
  by_contra hgt
  exact h ⟨pre, last, [], rfl, by omega⟩

theorem length_of_not_overruns {cidrs : List Prefix4} (h : ¬ Overruns exclusions 0 cidrs) :
    (cidrs.flatMap (Prefix4.kept exclusions)).length ≤ maxSweepAddresses := by
  rcases List.eq_nil_or_concat' cidrs with rfl | ⟨pre, last, rfl⟩
  · exact Nat.zero_le _
  · have hcheck := last_check h
    have hkept := kept_length_le exclusions last
    rw [List.flatMap_append, List.flatMap_singleton, List.length_append]
    omega

theorem expandCIDRs_ok_iff (cidrs : List Prefix4) (exclusions : List Prefix)
    (out : List String × Nat) :
    expandCIDRs (cidrs.map Prefix4.toPrefix) exclusions = .ok out ↔
      ¬ Overruns exclusions 0 cidrs ∧
      out = ((cidrs.flatMap (Prefix4.kept exclusions)).map string4,
        (cidrs.map (Prefix4.dropped exclusions)).sum) := by
  obtain ⟨hfail, hok⟩ := expandFrom_eq exclusions cidrs ([], 0)
  rw [List.nil_append, Nat.zero_add] at hok
  unfold expandCIDRs
  constructor
  · intro h
    have hfits : ¬ Overruns exclusions 0 cidrs := fun hover => by
      rw [hfail hover] at h
      cases h
    rw [hok hfits] at h
    exact ⟨hfits, (Except.ok.inj h).symm⟩
  · rintro ⟨hfits, rfl⟩
    exact hok hfits

end SweepExpandLemmas

/-! ## Exactness -/

open SweepExpandLemmas in
/-- What `expandCIDRs` returns and when it fails. The walk over the machine's integers and
addresses is the same one, and the addresses of a prefix are those it contains, in
ascending order. -/
theorem expandCIDRs_exact (cidrs : List Prefix4) (exclusions : List Prefix) :
    (∀ addrs excluded,
      expandCIDRs (cidrs.map Prefix4.toPrefix) exclusions = .ok (addrs, excluded) →
      addrs = (cidrs.flatMap (Prefix4.kept exclusions)).map string4 ∧
      excluded = (cidrs.map (Prefix4.dropped exclusions)).sum ∧
      addrs.length ≤ maxSweepAddresses) ∧
    ((∃ err, expandCIDRs (cidrs.map Prefix4.toPrefix) exclusions = .error err) ↔
      ∃ pre p post, cidrs = pre ++ p :: post ∧
        (pre.flatMap (Prefix4.kept exclusions)).length + p.size > maxSweepAddresses) ∧
    expandFromNext exclusions cidrs ([], 0) =
      some (expandCIDRs (cidrs.map Prefix4.toPrefix) exclusions) ∧
    ∀ p : Prefix4, p.addrs.Pairwise (· < ·) ∧
      ∀ a, a ∈ p.addrs ↔ p.toPrefix.contains (.v4 a) := by
  refine ⟨fun addrs excluded h => ?_, ?_, expandFromNext_eq exclusions cidrs _ (Nat.zero_le _),
    fun p => ⟨addrs_pairwise p, mem_addrs p⟩⟩
  · obtain ⟨hfits, hout⟩ := (expandCIDRs_ok_iff cidrs exclusions _).mp h
    obtain ⟨rfl, rfl⟩ := Prod.mk.inj hout
    refine ⟨rfl, rfl, ?_⟩
    rw [List.length_map]
    exact length_of_not_overruns hfits
  · have hover : Overruns exclusions 0 cidrs ↔ ∃ pre p post, cidrs = pre ++ p :: post ∧
        (pre.flatMap (Prefix4.kept exclusions)).length + p.size > maxSweepAddresses := by
      simp only [Overruns, Nat.zero_add]
    rw [← hover]
    constructor
    · rintro ⟨err, herr⟩
      by_contra hfits
      rw [(expandCIDRs_ok_iff cidrs exclusions _).mpr ⟨hfits, rfl⟩] at herr
      cases herr
    · exact fun h => ⟨_, (expandFrom_eq exclusions cidrs ([], 0)).1 h⟩

/-! ## The cap -/

/-- The prefix has no network and broadcast address, and no exclusion has an address of it. -/
structure Prefix4.Intact (exclusions : List Prefix) (p : Prefix4) : Prop where
  bits : 31 ≤ p.bits
  swept : ∀ a ∈ p.addrs, isExcluded (.v4 a) exclusions = false

namespace SweepExpandLemmas

variable {exclusions : List Prefix}

end SweepExpandLemmas

end Forager
