import Mathlib.Data.Set.Basic
import Mathlib.Tactic.Common
import Forager.GoValue

/-!
# IP addresses and networks of the Go standard library

The two libraries for addresses: `net/netip` (`Addr`, `Prefix`) and `net`
(`IP`, `IPNet`), as far as parsing, containment and printing go. A byte string
of length 4 or 16 is the bit vector it spells big-endian, and a mask is the
number of its leading ones.
-/

namespace GoNet

/-! ## `net/netip` -/

/-- A valid `netip.Addr`. A zone of `""` is no zone. -/
inductive Addr
  | v4 (n : BitVec 32)
  | v6 (n : BitVec 128) (zone : String)
deriving DecidableEq, Repr

def Addr.bitLen : Addr → Nat
  | .v4 _ => 32
  | .v6 _ _ => 128

def isDigit (c : Char) : Bool := '0' ≤ c ∧ c ≤ '9'

/-- `parseIPv4Fields`, with `fields` the octets read so far. A dot with no digit
before it, or at the end, is an error; a digit after a leading zero is one too. -/
def parseIPv4Fields (fields : List Nat) (val digLen : Nat) : List Char → Option (List Nat)
  | [] => if fields.length < 3 then none else some (fields ++ [val])
  | c :: rest =>
    if isDigit c then
      if digLen = 1 ∧ val = 0 then none
      else
        let val := val * 10 + (c.toNat - '0'.toNat)
        if val > 255 then none else parseIPv4Fields fields val (digLen + 1) rest
    else if c = '.' then
      if digLen = 0 ∨ rest = [] then none
      else if fields.length = 3 then none
      else parseIPv4Fields (fields ++ [val]) 0 0 rest
    else none

def ofDigits (w : Nat) (ds : List Nat) : Nat := ds.foldl (fun acc d => acc * 2 ^ w + d) 0

def parseIPv4 (s : List Char) : Option Addr :=
  (parseIPv4Fields [] 0 0 s).map fun fields => .v4 (BitVec.ofNat 32 (ofDigits 8 fields))

def hexVal (c : Char) : Option Nat :=
  if isDigit c then some (c.toNat - '0'.toNat)
  else if 'a' ≤ c ∧ c ≤ 'f' then some (c.toNat - 'a'.toNat + 10)
  else if 'A' ≤ c ∧ c ≤ 'F' then some (c.toNat - 'A'.toNat + 10)
  else none

/-- The 16-bit groups of an IPv6 address as the loop of `parseIPv6` collects
them: those read so far, and the position of the ellipsis. -/
structure Groups where
  read : List Nat
  ellipsis : Option Nat

/-- The loop of `parseIPv6`, at most one iteration per group. It stops at the
end of the text, after an embedded IPv4 address or after eight groups. -/
def parseIPv6Loop : Nat → Groups → List Char → Option Groups
  | 0, g, s => if s = [] then some g else none
  | n + 1, g, s =>
    let hex := s.takeWhile fun c => (hexVal c).isSome
    let rest := s.dropWhile fun c => (hexVal c).isSome
    if hex.length > 4 ∨ hex.length = 0 then none
    else match rest with
      | '.' :: _ =>
        if (g.ellipsis.isNone ∧ g.read.length ≠ 6) ∨ g.read.length > 6 then none
        else (parseIPv4Fields [] 0 0 s).bind fun fields => match fields with
          | [a, b, c, d] => some ⟨g.read ++ [a * 256 + b, c * 256 + d], g.ellipsis⟩
          | _ => none
      | _ =>
        let g := { g with read := g.read ++ [ofDigits 4 (hex.filterMap hexVal)] }
        match rest with
        | [] => some g
        | [':'] => none
        | [':', ':'] => if g.ellipsis.isSome then none
          else some { g with ellipsis := some g.read.length }
        | ':' :: ':' :: rest => if g.ellipsis.isSome then none
          else parseIPv6Loop n { g with ellipsis := some g.read.length } rest
        | ':' :: rest => parseIPv6Loop n g rest
        | _ => none

/-- The ellipsis stands for at least one group of zeros. -/
def expandEllipsis (g : Groups) : Option (List Nat) :=
  if g.read.length < 8 then
    g.ellipsis.map fun e =>
      g.read.take e ++ List.replicate (8 - g.read.length) 0 ++ g.read.drop e
  else if g.ellipsis.isSome then none else some g.read

def parseIPv6 (s : List Char) : Option Addr :=
  let body := s.takeWhile (· ≠ '%')
  let zone := s.dropWhile (· ≠ '%')
  if zone = ['%'] then none
  else
    let groups : Option Groups := match body with
      | [':', ':'] => some ⟨[], some 0⟩
      | ':' :: ':' :: rest => parseIPv6Loop 8 ⟨[], some 0⟩ rest
      | _ => parseIPv6Loop 8 ⟨[], none⟩ body
    (groups.bind expandEllipsis).map fun gs =>
      .v6 (BitVec.ofNat 128 (ofDigits 16 gs)) (String.ofList (zone.drop 1))

def parseAddr (s : String) : Option Addr :=
  match s.toList.find? fun c => c = '.' ∨ c = ':' ∨ c = '%' with
  | some '.' => parseIPv4 s.toList
  | some ':' => parseIPv6 s.toList
  | _ => none

/-- `netip.Prefix`. `bits` is `none` for the invalid prefix `Bits() = -1`. -/
structure Prefix where
  addr : Addr
  bits : Option Nat
deriving DecidableEq, Repr

def prefixFrom (ip : Addr) (bits : Nat) : Prefix :=
  { addr := match ip with
      | .v4 n => .v4 n
      | .v6 n _ => .v6 n ""
    bits := if bits ≤ ip.bitLen then some bits else none }

/-- `Prefix.Bits`: -1 on the invalid prefix. -/
def Prefix.bitCount (p : Prefix) : Int := (p.bits.map Int.ofNat).getD (-1)

/-- The leading `ones` bits of `n`. -/
def mask {w : Nat} (n : BitVec w) (ones : Nat) : BitVec w :=
  n &&& (BitVec.allOnes w <<< (w - ones))

def Prefix.masked (p : Prefix) : Prefix :=
  { p with addr := match p.addr, p.bits with
      | .v4 n, some b => .v4 (mask n b)
      | .v6 n z, some b => .v6 (mask n b) z
      | a, none => a }

def Prefix.contains (p : Prefix) (ip : Addr) : Bool :=
  match p.addr, p.bits, ip with
  | .v4 n, some b, .v4 m => (m ^^^ n) >>> (32 - b) = 0
  | .v6 n _, some b, .v6 m zone => zone = "" ∧ mask (m ^^^ n) b = 0
  | _, _, _ => false

/-- `netip.ParsePrefix`: the length stands after the last slash, without sign
or leading zero. -/
def parsePrefix (s : String) : Option Prefix :=
  let revBits := s.toList.reverse.takeWhile (· ≠ '/')
  match s.toList.reverse.dropWhile (· ≠ '/') with
  | [] => none
  | _ :: revAddr =>
    let bitsStr := revBits.reverse
    (parseAddr (String.ofList revAddr.reverse)).bind fun ip =>
      let zoned : Bool := match ip with
        | .v6 _ zone => zone ≠ ""
        | .v4 _ => false
      if zoned then none
      else if bitsStr.length > 1 ∧ ¬ (bitsStr.head?.any fun c => '1' ≤ c ∧ c ≤ '9') then none
      else match Go.atoi (String.ofList bitsStr) with
        | none => none
        | some b => if b < 0 ∨ b > ip.bitLen then none else some (prefixFrom ip b.toNat)

/-- One octet of `Addr.String`: `appendDecimal`. -/
def appendDecimal (x : Nat) : List Char :=
  let digit (k : Nat) : Char := Char.ofNat ('0'.toNat + k)
  (if x ≥ 100 then [digit (x / 100)] else []) ++ (if x ≥ 10 then [digit (x / 10 % 10)] else []) ++
    [digit (x % 10)]

def octet (n : BitVec 32) (i : Nat) : Nat := n.toNat / 2 ^ (8 * (3 - i)) % 256

def string4 (n : BitVec 32) : String :=
  String.ofList (appendDecimal (octet n 0) ++ '.' :: (appendDecimal (octet n 1) ++
    '.' :: (appendDecimal (octet n 2) ++ '.' :: appendDecimal (octet n 3))))

/-! ## `net` -/

/-- A `net.IP` of 4 or 16 bytes. -/
inductive IP
  | b4 (n : BitVec 32)
  | b16 (n : BitVec 128)
deriving DecidableEq, Repr

/-- The IPv4-mapped form `::ffff:n`. -/
def mapped (n : BitVec 32) : BitVec 128 := BitVec.ofNat 128 (0xffff * 2 ^ 32 + n.toNat)

def IP.to4 : IP → Option (BitVec 32)
  | .b4 n => some n
  | .b16 n => if n.toNat / 2 ^ 32 = 0xffff then some (BitVec.ofNat 32 n.toNat) else none

def Addr.as16 : Addr → BitVec 128
  | .v4 n => mapped n
  | .v6 n _ => n

/-- `net.ParseIP`: always 16 bytes, and no zone. -/
def parseIP (s : String) : Option IP :=
  match parseAddr s with
  | some (.v6 n zone) => if zone = "" then some (.b16 n) else none
  | some (.v4 n) => some (.b16 (Addr.v4 n).as16)
  | none => none

/-- `net.IPNet`: its mask is `net.CIDRMask(ones, 32)`, of 4 bytes, or
`net.CIDRMask(ones, 128)`, of 16. -/
structure IPNet where
  ip : IP
  ones : Nat
  mask4 : Bool
deriving DecidableEq, Repr

/-- `dtoi` on the whole text: digits only, below `big`. -/
def dtoi (s : List Char) : Option Nat :=
  if s = [] then none else (Go.digitsVal s).bind fun n => if n ≥ 0xFFFFFF then none else some n

/-- `net.ParseCIDR`: the length stands after the first slash, and may have
leading zeros. -/
def parseCIDR (s : String) : Option IPNet :=
  match s.toList.dropWhile (· ≠ '/') with
  | [] => none
  | _ :: bitsStr =>
    (parseAddr (String.ofList (s.toList.takeWhile (· ≠ '/')))).bind fun ip =>
      (dtoi bitsStr).bind fun n =>
        if n > ip.bitLen then none
        else match ip with
          | .v4 a => some ⟨.b4 (mask a n), n, true⟩
          | .v6 a zone => if zone = "" then some ⟨.b16 (mask a n), n, false⟩ else none

/-- `IPNet.Contains`: a 16-byte mask on an IPv4 network is cut to its last
four bytes. -/
def IPNet.contains (n : IPNet) (ip : IP) : Bool :=
  match n.ip.to4, ip.to4 with
  | some nn, some x =>
    let ones := if n.mask4 then n.ones else n.ones - 96
    mask nn ones = mask x ones
  | none, none => match n.ip, ip with
    | .b16 nn, .b16 x => ¬ n.mask4 ∧ mask nn n.ones = mask x n.ones
    | _, _ => false
  | _, _ => false

example : parseCIDR "fd00::/08" = some ⟨.b16 (0xfd00 <<< 112), 8, false⟩ := by decide
example : parseCIDR "10.0.0.0/33" = none ∧ parseIP "10.0.0.01" = none := by decide

/-! ## Printing and reading back -/

theorem isDigit_digit : ∀ k < 10, isDigit (Char.ofNat ('0'.toNat + k)) = true ∧
    (Char.ofNat ('0'.toNat + k)).toNat - '0'.toNat = k := by decide

theorem parseIPv4Fields_digit {fields : List Nat} {val digLen k : Nat} {rest : List Char}
    (hk : k < 10) (hz : ¬ (digLen = 1 ∧ val = 0)) (hv : val * 10 + k ≤ 255) :
    parseIPv4Fields fields val digLen (Char.ofNat ('0'.toNat + k) :: rest) =
      parseIPv4Fields fields (val * 10 + k) (digLen + 1) rest := by
  obtain ⟨hd, hn⟩ := isDigit_digit k hk
  simp only [parseIPv4Fields, hd, hn, if_true, if_neg hz]
  exact if_neg (by omega)

theorem parseIPv4Fields_octet (fields : List Nat) {x : Nat} (hx : x < 256) (rest : List Char) :
    ∃ d, d ≠ 0 ∧ parseIPv4Fields fields 0 0 (appendDecimal x ++ rest) =
      parseIPv4Fields fields x d rest := by
  unfold appendDecimal
  by_cases h100 : x ≥ 100
  · have h10 : x ≥ 10 := by omega
    refine ⟨3, by simp, ?_⟩
    simp only [if_pos h100, if_pos h10, List.cons_append, List.nil_append]
    rw [parseIPv4Fields_digit (by omega) (by omega) (by omega),
      parseIPv4Fields_digit (by omega) (by omega) (by omega),
      parseIPv4Fields_digit (by omega) (by omega) (by omega)]
    congr 1
    omega
  · by_cases h10 : x ≥ 10
    · refine ⟨2, by simp, ?_⟩
      simp only [if_neg h100, if_pos h10, List.cons_append, List.nil_append]
      rw [parseIPv4Fields_digit (by omega) (by omega) (by omega),
        parseIPv4Fields_digit (by omega) (by omega) (by omega)]
      congr 1
      omega
    · refine ⟨1, by simp, ?_⟩
      simp only [if_neg h100, if_neg h10, List.cons_append, List.nil_append]
      rw [parseIPv4Fields_digit (by omega) (by omega) (by omega)]
      congr 1
      omega

theorem parseIPv4Fields_dot {fields : List Nat} {val digLen : Nat} {rest : List Char}
    (hd : digLen ≠ 0) (hr : rest ≠ []) (hf : fields.length ≠ 3) :
    parseIPv4Fields fields val digLen ('.' :: rest) =
      parseIPv4Fields (fields ++ [val]) 0 0 rest := by
  have hdot : isDigit '.' = false := by decide
  simp [parseIPv4Fields, hdot, hd, hr, hf]

theorem appendDecimal_ne_nil (x : Nat) : appendDecimal x ≠ [] := by simp [appendDecimal]

theorem octet_lt (n : BitVec 32) (i : Nat) : octet n i < 256 := Nat.mod_lt _ (by decide)

theorem ofDigits_octets (n : BitVec 32) :
    ofDigits 8 [octet n 0, octet n 1, octet n 2, octet n 3] = n.toNat := by
  have hn := n.isLt
  simp only [ofDigits, octet, List.foldl_cons, List.foldl_nil]
  omega

theorem parseIPv4_string4 (n : BitVec 32) : parseIPv4 (string4 n).toList = some (.v4 n) := by
  unfold parseIPv4 string4
  rw [String.toList_ofList]
  obtain ⟨d0, hd0, h0⟩ := parseIPv4Fields_octet [] (octet_lt n 0) ('.' ::
    (appendDecimal (octet n 1) ++ '.' :: (appendDecimal (octet n 2) ++ '.' ::
      appendDecimal (octet n 3))))
  obtain ⟨d1, hd1, h1⟩ := parseIPv4Fields_octet [octet n 0] (octet_lt n 1) ('.' ::
    (appendDecimal (octet n 2) ++ '.' :: appendDecimal (octet n 3)))
  obtain ⟨d2, hd2, h2⟩ := parseIPv4Fields_octet [octet n 0, octet n 1] (octet_lt n 2)
    ('.' :: appendDecimal (octet n 3))
  obtain ⟨d3, hd3, h3⟩ := parseIPv4Fields_octet [octet n 0, octet n 1, octet n 2]
    (octet_lt n 3) []
  rw [h0, parseIPv4Fields_dot hd0 (by simp) (by simp), List.nil_append, h1,
    parseIPv4Fields_dot hd1 (by simp) (by simp), List.singleton_append, h2,
    parseIPv4Fields_dot hd2 (appendDecimal_ne_nil _) (by simp)]
  rw [List.append_nil] at h3
  simp only [List.cons_append, List.nil_append, h3]
  simp only [parseIPv4Fields, List.length_cons, List.length_nil, Nat.lt_irrefl, if_false,
    List.cons_append, List.nil_append, Option.map_some, ofDigits_octets]
  simp

theorem digit_not_mark : ∀ k < 10, ¬ (Char.ofNat ('0'.toNat + k) = '.' ∨
    Char.ofNat ('0'.toNat + k) = ':' ∨ Char.ofNat ('0'.toNat + k) = '%') := by decide

theorem appendDecimal_not_mark {x : Nat} (hx : x < 256) {c : Char} (hc : c ∈ appendDecimal x) :
    ¬ (c = '.' ∨ c = ':' ∨ c = '%') := by
  unfold appendDecimal at hc
  simp only [List.mem_append, List.mem_singleton] at hc
  rcases hc with (hc | hc) | hc
  · split at hc
    · rw [List.mem_singleton.mp hc]; exact digit_not_mark _ (by omega)
    · cases hc
  · split at hc
    · rw [List.mem_singleton.mp hc]; exact digit_not_mark _ (by omega)
    · cases hc
  · rw [hc]; exact digit_not_mark _ (by omega)

theorem parseAddr_string4 (n : BitVec 32) : parseAddr (string4 n) = some (.v4 n) := by
  have hfind : (string4 n).toList.find? (fun c => c = '.' ∨ c = ':' ∨ c = '%') = some '.' := by
    rw [string4, String.toList_ofList, List.find?_append,
      List.find?_eq_none.mpr fun c hc => by simpa using appendDecimal_not_mark (octet_lt n 0) hc]
    rfl
  unfold parseAddr
  rw [hfind]
  exact parseIPv4_string4 n

theorem to4_mapped (n : BitVec 32) : (IP.b16 (mapped n)).to4 = some n := by
  have hn := n.isLt
  have hm : (mapped n).toNat = 0xffff * 2 ^ 32 + n.toNat := by
    simp only [mapped, BitVec.toNat_ofNat]
    omega
  simp only [IP.to4, hm]
  rw [if_pos (by omega)]
  congr 1
  apply BitVec.eq_of_toNat_eq
  rw [BitVec.toNat_ofNat]
  omega

theorem parseIP_string4 (n : BitVec 32) : parseIP (string4 n) = some (.b16 (mapped n)) := by
  simp [parseIP, parseAddr_string4, Addr.as16]

/-! ## Containment -/

theorem mask_eq_iff {w : Nat} (a b : BitVec w) (ones : Nat) :
    mask a ones = mask b ones ↔ a >>> (w - ones) = b >>> (w - ones) := by
  unfold mask
  constructor
  · intro h
    apply BitVec.eq_of_getLsbD_eq
    intro i hi
    simp only [BitVec.getLsbD_ushiftRight]
    by_cases hlt : w - ones + i < w
    · have hbit := congrArg (fun v => v.getLsbD (w - ones + i)) h
      simpa [hlt] using hbit
    · rw [BitVec.getLsbD_of_ge _ _ (by omega), BitVec.getLsbD_of_ge _ _ (by omega)]
  · intro h
    apply BitVec.eq_of_getLsbD_eq
    intro i hi
    by_cases hlt : i < w - ones
    · simp [hi, hlt]
    · have hbit := congrArg (fun v => v.getLsbD (i - (w - ones))) h
      simp only [BitVec.getLsbD_ushiftRight] at hbit
      rw [show w - ones + (i - (w - ones)) = i by omega] at hbit
      simp only [BitVec.getLsbD_and, hbit]

theorem xor_shift_eq_zero {w : Nat} (a b : BitVec w) (k : Nat) :
    (a ^^^ b) >>> k = 0 ↔ a >>> k = b >>> k := by
  rw [BitVec.ushiftRight_xor_distrib]
  exact BitVec.xor_eq_zero_iff

theorem mask_toNat (q : BitVec 32) (ones : Nat) :
    (mask q ones).toNat = q.toNat / 2 ^ (32 - ones) * 2 ^ (32 - ones) := by
  have hshift : mask q ones = (q >>> (32 - ones)) <<< (32 - ones) := by
    apply BitVec.eq_of_getLsbD_eq
    intro i hi
    by_cases hlt : i < 32 - ones
    · simp [mask, hi, hlt]
    · simp only [mask, BitVec.getLsbD_and, BitVec.getLsbD_shiftLeft, BitVec.getLsbD_ushiftRight,
        BitVec.getLsbD_allOnes, hi, hlt]
      rw [show 32 - ones + (i - (32 - ones)) = i by omega, show i - (32 - ones) < 32 by omega |>
        decide_eq_true]
      simp
  have hle : q.toNat / 2 ^ (32 - ones) * 2 ^ (32 - ones) ≤ q.toNat := Nat.div_mul_le_self _ _
  have hq := q.isLt
  rw [hshift, BitVec.toNat_shiftLeft, BitVec.toNat_ushiftRight, Nat.shiftRight_eq_div_pow,
    Nat.shiftLeft_eq, Nat.mod_eq_of_lt (by omega)]

theorem shift_mask_add {q : BitVec 32} {bits ones i : Nat} (ho : ones ≤ bits)
    (hi : i < 2 ^ (32 - bits)) :
    (mask q bits + BitVec.ofNat 32 i) >>> (32 - ones) = q >>> (32 - ones) := by
  have hq := q.isLt
  have hsplit : 2 ^ (32 - ones) = 2 ^ (32 - bits) * 2 ^ (32 - ones - (32 - bits)) := by
    rw [← Nat.pow_add]
    congr 1
    omega
  -- no carry leaves the low bits
  have hlt : q.toNat / 2 ^ (32 - bits) * 2 ^ (32 - bits) + i < 2 ^ 32 := by
    have hdiv : q.toNat / 2 ^ (32 - bits) < 2 ^ 32 / 2 ^ (32 - bits) := by
      rw [Nat.div_lt_iff_lt_mul (Nat.two_pow_pos _), Nat.pow_div (by omega) (by decide),
        ← Nat.pow_add, show 32 - (32 - bits) + (32 - bits) = 32 by omega]
      exact hq
    have hmul := Nat.mul_le_mul_right (2 ^ (32 - bits)) (Nat.succ_le_of_lt hdiv)
    rw [Nat.succ_mul, Nat.pow_div (by omega) (by decide), ← Nat.pow_add,
      show 32 - (32 - bits) + (32 - bits) = 32 by omega] at hmul
    omega
  have hi32 : i < 2 ^ 32 := by omega
  apply BitVec.eq_of_toNat_eq
  rw [BitVec.toNat_ushiftRight, BitVec.toNat_ushiftRight, BitVec.toNat_add, mask_toNat,
    BitVec.toNat_ofNat, Nat.mod_eq_of_lt hi32, Nat.mod_eq_of_lt hlt, Nat.shiftRight_eq_div_pow,
    Nat.shiftRight_eq_div_pow, hsplit, ← Nat.div_div_eq_div_mul, ← Nat.div_div_eq_div_mul,
    Nat.mul_comm, Nat.mul_add_div (Nat.two_pow_pos _), Nat.div_eq_of_lt hi, Nat.add_zero]

/-! ## Blocks of addresses -/

section Blocks

variable {w : Nat} {a q x : BitVec w} {b m : Nat}

/-- The addresses that agree with `a` on the leading `ones` bits. -/
def block (a : BitVec w) (ones : Nat) : Set (BitVec w) :=
  {x | x >>> (w - ones) = a >>> (w - ones)}

theorem mem_block : x ∈ block a m ↔ x >>> (w - m) = a >>> (w - m) := Iff.rfl

theorem block_anti (h : m ≤ b) : block q b ⊆ block q m := by
  intro x hx
  have hsplit : w - m = (w - b) + (w - m - (w - b)) := by omega
  rw [mem_block] at hx ⊢
  rw [hsplit, BitVec.shiftRight_add, BitVec.shiftRight_add, hx]

theorem block_subset_iff (hm : m ≤ w) : block q b ⊆ block a m ↔ m ≤ b ∧ q ∈ block a m := by
  constructor
  · intro h
    have hq : q ∈ block a m := h (mem_block.mpr rfl)
    refine ⟨?_, hq⟩
    by_contra hlt
    -- the last bit of the longer prefix is free in the shorter one
    have hx : q ^^^ BitVec.twoPow w (w - m) ∈ block q b := by
      refine mem_block.mpr (BitVec.eq_of_getLsbD_eq fun i _ => ?_)
      have hne : w - m ≠ w - b + i := by omega
      simp [BitVec.getLsbD_ushiftRight, BitVec.getLsbD_twoPow, hne]
    have hsame : (q ^^^ BitVec.twoPow w (w - m)) >>> (w - m) = q >>> (w - m) :=
      (h hx).trans hq.symm
    have hbit := congrArg (fun v => v.getLsbD 0) hsame
    have hpos : w - m < w := by omega
    simp [BitVec.getLsbD_ushiftRight, hpos] at hbit
  · rintro ⟨hle, hq⟩ x hx
    exact (block_anti hle hx).trans hq

end Blocks

theorem Prefix.contains_iff_block {q x : BitVec 32} {b : Nat} :
    (Prefix.mk (.v4 q) (some b)).contains (.v4 x) = true ↔ x ∈ block q b := by
  rw [mem_block, ← xor_shift_eq_zero]
  exact decide_eq_true_iff

theorem IPNet.contains_iff_block {n : IPNet} {a x : BitVec 32} {ip : IP}
    (h4 : n.ip.to4 = some a) (hmask : n.mask4 = true) (hx : ip.to4 = some x) :
    n.contains ip = true ↔ x ∈ block a n.ones := by
  unfold IPNet.contains
  simp only [h4, hx, hmask, if_true, decide_eq_true_eq]
  rw [mask_eq_iff, mem_block, eq_comm]

theorem IPNet.contains_of_mem_block {n : IPNet} {a x : BitVec 32} {ip : IP}
    (h4 : n.ip.to4 = some a) (hones : n.ones ≤ 32) (hx : ip.to4 = some x)
    (h : x ∈ block a n.ones) : n.contains ip = true := by
  cases hmask : n.mask4 with
  | true => exact (IPNet.contains_iff_block h4 hmask hx).mpr h
  | false =>
    -- a 16-byte mask this short is zero on the last four bytes
    unfold IPNet.contains
    simp only [h4, hx, hmask, decide_eq_true_eq]
    rw [mask_eq_iff, if_neg Bool.false_ne_true, show n.ones - 96 = 0 by omega,
      BitVec.ushiftRight_eq_zero (Nat.le_refl _), BitVec.ushiftRight_eq_zero (Nat.le_refl _)]

theorem contains_mapped {n : IPNet} {nn a : BitVec 32} (h4 : n.ip.to4 = some nn)
    (hones : n.ones ≤ 32)
    (h : a >>> (32 - n.ones) = nn >>> (32 - n.ones)) : n.contains (.b16 (mapped a)) = true :=
  IPNet.contains_of_mem_block h4 hones (to4_mapped a) h

end GoNet
