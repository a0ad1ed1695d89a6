import Forager.Sweep

/-!
# Prefix containment of a sweep

`prefixWithinAny` compares the first address and the length of a requested
prefix with each configured network, and `net.IPNet.Contains` decides about a
single address. The two agree about IPv4: a requested prefix is accepted because
one network contains all its addresses, and a network that was written in IPv4
and contains them is a reason to accept it. A network written as IPv4-mapped
IPv6 has a length over 32 and is never one.
-/

namespace Forager

open Go GoNet

/-- The network contains every IPv4 address of the prefix, in its 4-byte and in
its 16-byte form. -/
def ContainsPrefix (n : IPNet) (r : Prefix) : Prop :=
  ∀ x, r.contains (.v4 x) = true → ∀ ip : IP, ip.to4 = some x → n.contains ip = true

/-- The entry is an IPv4 address, or one before a length. -/
def WrittenInIPv4 (c : String) : Prop :=
  ∃ a, parseAddr (String.ofList (c.toList.takeWhile (· ≠ '/'))) = some (.v4 a)

namespace PrefixScopeLemmas

variable {c : String} {n : IPNet} {a q : BitVec 32} {b : Nat}

/-! ## Acceptance as inclusion -/

theorem masked_v4 {q : BitVec 32} (hb : b ≤ 32) :
    (prefixFrom (.v4 q) b).masked = ⟨.v4 (mask q b), some b⟩ := by
  simp [prefixFrom, Prefix.masked, Addr.bitLen, hb]

theorem prefixFrom_within {ones b : Nat} :
    ((prefixFrom (.v4 a) ones).contains (.v4 q) &&
      decide ((Prefix.mk (.v4 q) (some b)).bitCount ≥ (prefixFrom (.v4 a) ones).bitCount)) = true ↔
      ones ≤ 32 ∧ block q b ⊆ block a ones := by
  by_cases hones : ones ≤ 32
  · have hfrom : prefixFrom (.v4 a) ones = ⟨.v4 a, some ones⟩ := by
      simp [prefixFrom, Addr.bitLen, hones]
    rw [hfrom, Bool.and_eq_true, Prefix.contains_iff_block, block_subset_iff hones]
    simp [Prefix.bitCount, hones, and_comm]
  · simp [prefixFrom, Addr.bitLen, hones, Prefix.contains]

theorem prefixWithinAny_iff {q : BitVec 32} {nets : List IPNet} :
    prefixWithinAny ⟨.v4 q, some b⟩ nets = true ↔
      ∃ n ∈ nets, ∃ a, n.ip.to4 = some a ∧ n.ones ≤ 32 ∧ block q b ⊆ block a n.ones := by
  unfold prefixWithinAny
  rw [List.any_eq_true]
  refine exists_congr fun n => and_congr_right fun _ => ?_
  cases h4 : n.ip.to4 with
  | none => simp
  | some a => simpa using prefixFrom_within

theorem containsPrefix_iff (h4 : n.ip.to4 = some a) (hmask : n.mask4 = true) :
    ContainsPrefix n ⟨.v4 q, some b⟩ ↔ block q b ⊆ block a n.ones := by
  constructor
  · intro h x hx
    exact (IPNet.contains_iff_block h4 hmask rfl).mp
      (h x (Prefix.contains_iff_block.mpr hx) (.b4 x) rfl)
  · intro h x hx ip hip
    exact (IPNet.contains_iff_block h4 hmask hip).mpr (h (Prefix.contains_iff_block.mp hx))

theorem containsPrefix_of_subset (h4 : n.ip.to4 = some a) (hones : n.ones ≤ 32)
    (h : block q b ⊆ block a n.ones) : ContainsPrefix n ⟨.v4 q, some b⟩ := by
  intro x hx ip hip
  exact IPNet.contains_of_mem_block h4 hones hip (h (Prefix.contains_iff_block.mp hx))

/-! ## Entries written in IPv4 -/

theorem parseIPv6_ne_v4 (s : List Char) (a : BitVec 32) : parseIPv6 s ≠ some (.v4 a) := by
  intro h
  dsimp only [parseIPv6] at h
  split at h
  · cases h
  · obtain ⟨gs, -, hgs⟩ := Option.map_eq_some_iff.mp h
    cases hgs

theorem find_dot_of_parseAddr {s : String} {a : BitVec 32} (h : parseAddr s = some (.v4 a)) :
    s.toList.find? (fun c => c = '.' ∨ c = ':' ∨ c = '%') = some '.' := by
  unfold parseAddr at h
  split at h
  · assumption
  · exact absurd h (parseIPv6_ne_v4 _ a)
  · cases h

theorem parseIPv4_v4 {s : List Char} {addr : Addr} (h : parseIPv4 s = some addr) :
    ∃ a, addr = .v4 a := by
  obtain ⟨fields, -, rfl⟩ := Option.map_eq_some_iff.mp h
  exact ⟨_, rfl⟩

theorem parseAddr_of_written {addr : Addr} (hc : WrittenInIPv4 c) (h : parseAddr c = some addr) :
    ∃ a, addr = .v4 a := by
  obtain ⟨a, ha⟩ := hc
  have hdot := find_dot_of_parseAddr ha
  rw [String.toList_ofList] at hdot
  have hfind : c.toList.find? (fun c => c = '.' ∨ c = ':' ∨ c = '%') = some '.' := by
    rw [← List.takeWhile_append_dropWhile (p := (· ≠ '/')) (l := c.toList), List.find?_append,
      hdot, Option.some_or]
  unfold parseAddr at h
  rw [hfind] at h
  exact parseIPv4_v4 h

theorem parseCIDR_ipv4 (hc : WrittenInIPv4 c) (h : parseCIDR c = some n) :
    ∃ a, n.ip.to4 = some a ∧ n.ones ≤ 32 ∧ n.mask4 = true := by
  obtain ⟨a, ha⟩ := hc
  unfold parseCIDR at h
  split at h
  · cases h
  · rw [ha, Option.bind_some] at h
    obtain ⟨m, -, hm⟩ := Option.bind_eq_some_iff.mp h
    split at hm
    · cases hm
    · next hle =>
      cases hm
      exact ⟨_, rfl, Nat.le_of_not_gt hle, rfl⟩

theorem parseIP_ipv4 {ip : IP} (hc : WrittenInIPv4 c) (h : parseIP c = some ip) :
    ∃ a, ip.to4 = some a := by
  unfold parseIP at h
  cases haddr : parseAddr c with
  | none => rw [haddr] at h; cases h
  | some addr =>
    obtain ⟨a, rfl⟩ := parseAddr_of_written hc haddr
    rw [haddr] at h
    cases h
    exact ⟨a, to4_mapped a⟩

theorem parseAllowed_ipv4 (hc : WrittenInIPv4 c) (h : parseAllowed c = .ok n) :
    ∃ a, n.ip.to4 = some a ∧ n.ones ≤ 32 ∧ n.mask4 = true := by
  unfold parseAllowed at h
  split at h
  · next m hm =>
    cases h
    exact parseCIDR_ipv4 hc hm
  · split at h
    · next ip hip =>
      obtain ⟨a, ha⟩ := parseIP_ipv4 hc hip
      rw [ha] at h
      cases h
      exact ⟨a, ha, Nat.le_refl _, rfl⟩
    · cases h

theorem mem_allowedNets {L : List String} (hc : c ∈ L) (h : parseAllowed c = .ok n) :
    n ∈ (parseAllowedCIDRs L).1 :=
  List.mem_filterMap.mpr ⟨c, hc, by rw [h]; rfl⟩

end PrefixScopeLemmas

open PrefixScopeLemmas

/-! ## Exactness -/

/-- Prefix containment is exact. An accepted prefix is contained, address by
address, in one of the networks of the list; and it is accepted if a network
that the list writes in IPv4 contains it. -/
theorem prefixWithinAny_exact (L : List String) (q : BitVec 32) {b : Nat} (hb : b ≤ 32) :
    (prefixWithinAny (prefixFrom (.v4 q) b).masked (parseAllowedCIDRs L).1 = true →
      ∃ n ∈ (parseAllowedCIDRs L).1, ContainsPrefix n (prefixFrom (.v4 q) b).masked) ∧
    ((∃ c ∈ L, WrittenInIPv4 c ∧
        ∃ n, parseAllowed c = .ok n ∧ ContainsPrefix n (prefixFrom (.v4 q) b).masked) →
      prefixWithinAny (prefixFrom (.v4 q) b).masked (parseAllowedCIDRs L).1 = true) := by
  rw [masked_v4 hb, prefixWithinAny_iff]
  constructor
  · rintro ⟨n, hn, a, h4, hones, hsub⟩
    exact ⟨n, hn, containsPrefix_of_subset h4 hones hsub⟩
  · rintro ⟨c, hc, hwritten, n, hn, hall⟩
    obtain ⟨a, h4, hones, hmask⟩ := parseAllowed_ipv4 hwritten hn
    exact ⟨n, mem_allowedNets hc hn, a, h4, hones, (containsPrefix_iff h4 hmask).mp hall⟩

/-- `10.1.0.0/16` against a list with a host name, an IPv6 network and
`10.0.0.0/8`. -/
theorem prefixWithinAny_exact_ten :
    16 ≤ 32 ∧ WrittenInIPv4 "10.0.0.0/8" ∧
    prefixWithinAny (prefixFrom (.v4 0x0a010000) 16).masked
      (parseAllowedCIDRs ["db.local", "fd00::/8", "10.0.0.0/8"]).1 = true ∧
    ∃ n ∈ (parseAllowedCIDRs ["db.local", "fd00::/8", "10.0.0.0/8"]).1,
      ContainsPrefix n (prefixFrom (.v4 0x0a010000) 16).masked := by
  have hin : prefixWithinAny (prefixFrom (.v4 0x0a010000) 16).masked
      (parseAllowedCIDRs ["db.local", "fd00::/8", "10.0.0.0/8"]).1 = true := by decide
  exact ⟨by decide, ⟨0x0a000000, by decide⟩, hin,
    (prefixWithinAny_exact ["db.local", "fd00::/8", "10.0.0.0/8"] 0x0a010000 (by decide)).1 hin⟩

-- the same network written as IPv4-mapped IPv6 contains the prefix and does not accept it
example : prefixWithinAny (prefixFrom (.v4 0x0a010000) 16).masked
    (parseAllowedCIDRs ["::ffff:10.0.0.0/104"]).1 = false := by decide

end Forager
