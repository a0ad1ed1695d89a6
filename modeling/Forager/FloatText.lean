import Forager.GoValue
import Mathlib.Algebra.Order.Field.Power
import Mathlib.Data.Nat.Log
import Mathlib.Data.Rat.Cast.Order
import Mathlib.Tactic.Ring

/-!
# Doubles as decimal text

`strconv.FormatFloat(f, fmt, -1, 64)`: the shortest decimal that reads back as
the double, and of several the nearest. The search tries every length up to
seventeen digits.
-/

namespace Go

namespace Float64

variable {f : Float64} {p q : Nat}

/-- A double as rounding produces it: a subnormal one, or one whose mantissa
has 53 bits. -/
structure Canonical (f : Float64) : Prop where
  mant_lt : f.mant < 2 ^ 53
  least : -1074 ≤ f.exp
  most : f.exp ≤ 971
  normal : f.exp = -1074 ∨ 2 ^ 52 ≤ f.mant

instance (f : Float64) : Decidable f.Canonical :=
  decidable_of_iff (f.mant < 2 ^ 53 ∧ -1074 ≤ f.exp ∧ f.exp ≤ 971 ∧
      (f.exp = -1074 ∨ 2 ^ 52 ≤ f.mant))
    ⟨fun h => ⟨h.1, h.2.1, h.2.2.1, h.2.2.2⟩, fun h => ⟨h.1, h.2, h.3, h.4⟩⟩

/-! ## The shortest decimal -/

def num (f : Float64) : Nat := f.mant * 2 ^ f.exp.toNat

def den (f : Float64) : Nat := 2 ^ (-f.exp).toNat

def log10Ratio (p q : Nat) : Int :=
  let e : Int := ((Nat.toDigits 10 p).length : Int) - (Nat.toDigits 10 q).length
  if q * 10 ^ e.toNat ≤ p * 10 ^ (-e).toNat then e else e - 1

/-- The two multiples of `10 ^ k` next to `p / q`, the nearer one first. -/
def neighbours (p q : Nat) (k : Int) : List Nat :=
  let num := p * 10 ^ (-k).toNat
  let den := q * 10 ^ k.toNat
  let d := num / den
  if roundHalfEven num den = d then [d, d + 1] else [d + 1, d]

/-- The shortest decimal `d · 10 ^ k` that reads back as `f`. -/
def shortest (f : Float64) : Option (Nat × Int) :=
  if f.mant = 0 then some (0, 0)
  else (List.range 17).findSome? fun n =>
    let k := log10Ratio f.num f.den - n
    ((neighbours f.num f.den k).find? fun d => ofDecimal f.neg d k = some f).map (·, k)

/-- The decimal without trailing zeros: its digits, and where the point stands
among them. -/
def digitsAndPoint (d : Nat) (k : Int) : List Char × Int :=
  let ds := Nat.toDigits 10 d
  ((ds.reverse.dropWhile (· = '0')).reverse, ds.length + k)

/-- `%f` with as many digits as there are. -/
def formatF (ds : List Char) (point : Int) : List Char :=
  let whole := if point ≤ 0 then ['0']
    else ds.take point.toNat ++ List.replicate (point.toNat - ds.length) '0'
  let fraction := List.replicate (-point).toNat '0' ++ ds.drop point.toNat
  if ds.drop point.toNat = [] then whole else whole ++ '.' :: fraction

/-- `%e` with as many digits as there are, and the exponent as `encoding/json`
leaves it. -/
def formatE (ds : List Char) (point : Int) : List Char :=
  let mantissa := match ds with
    | [] => ['0']
    | [d] => [d]
    | d :: rest => d :: '.' :: rest
  let e := point - 1
  let sign := if e < 0 then '-' else '+'
  let padded := if sign = '+' ∧ e.natAbs < 10 then '0' :: Nat.toDigits 10 e.natAbs
    else Nat.toDigits 10 e.natAbs
  mantissa ++ 'e' :: sign :: padded

def absLt (f : Float64) (p q : Nat) : Bool := f.num * q < p * f.den

/-- The double nearest to `10 ^ -6`, as a ratio. -/
def smallest : Nat × Nat :=
  let c := (ofDecimal false 1 (-6)).getD ⟨false, 0, 0⟩
  (c.num, c.den)

/-- The text of a double in JSON, if one of at most seventeen digits reads back. -/
def jsonText (f : Float64) : Option (List Char) :=
  f.shortest.map fun (d, k) =>
    let (ds, point) := digitsAndPoint d k
    let sign := if f.neg then ['-'] else []
    if f.mant = 0 then sign ++ ['0']
    else if absLt f smallest.1 smallest.2 ∨ ¬ absLt f (10 ^ 21) 1 then sign ++ formatE ds point
    else sign ++ formatF ds point

example : (Float64.ofDecimal false 5432 0).bind jsonText = some ['5', '4', '3', '2'] := by
  decide +kernel

example : (Float64.ofDecimal true 125 (-10)).bind jsonText =
    some ['-', '1', '.', '2', '5', 'e', '-', '8'] := by
  decide +kernel

/-! ## The exact decimal -/

theorem zpow_eq_ratio (e : Int) : (2 : ℚ) ^ e = 2 ^ e.toNat / 2 ^ (-e).toNat := by
  rw [← zpow_natCast, ← zpow_natCast, ← zpow_sub₀ two_ne_zero]
  congr 1
  omega

theorem pow_le_ratio_iff (hq : 0 < q) (e : Int) :
    q * 2 ^ e.toNat ≤ p * 2 ^ (-e).toNat ↔ (2 : ℚ) ^ e ≤ (p : ℚ) / q := by
  have hq' : (0 : ℚ) < q := by exact_mod_cast hq
  rw [zpow_eq_ratio, div_le_div_iff₀ (pow_pos two_pos _) hq', ← Nat.cast_le (α := ℚ)]
  push_cast
  rw [mul_comm (q : ℚ)]

theorem log2_bounds {n : Nat} (hn : 0 < n) :
    (2 : ℚ) ^ (n.log2 : Int) ≤ n ∧ (n : ℚ) < 2 ^ ((n.log2 : Int) + 1) := by
  have hlow : 2 ^ n.log2 ≤ n := Nat.log2_self_le hn.ne'
  have hhigh : n < 2 ^ (n.log2 + 1) := Nat.lt_log2_self
  constructor
  · rw [zpow_natCast]
    exact_mod_cast hlow
  · have hcast : ((n.log2 : Int) + 1) = ((n.log2 + 1 : Nat) : Int) := by push_cast; rfl
    rw [hcast, zpow_natCast]
    exact_mod_cast hhigh

theorem log2Ratio_eq (hp : 0 < p) (hq : 0 < q) {e : Int} (hlow : (2 : ℚ) ^ e ≤ (p : ℚ) / q)
    (hhigh : (p : ℚ) / q < 2 ^ (e + 1)) : log2Ratio p q = e := by
  have hq' : (0 : ℚ) < q := by exact_mod_cast hq
  obtain ⟨hp1, hp2⟩ := log2_bounds hp
  obtain ⟨hq1, hq2⟩ := log2_bounds hq
  have htwo : (0 : ℚ) < 2 := two_pos
  -- the estimate is off by one at most
  have habove : (p : ℚ) / q < 2 ^ ((p.log2 : Int) - q.log2 + 1) := by
    rw [div_lt_iff₀ hq']
    calc (p : ℚ) < 2 ^ ((p.log2 : Int) + 1) := hp2
      _ = 2 ^ ((p.log2 : Int) - q.log2 + 1) * 2 ^ (q.log2 : Int) := by
          rw [← zpow_add₀ htwo.ne']
          congr 1
          omega
      _ ≤ 2 ^ ((p.log2 : Int) - q.log2 + 1) * q := by
          exact mul_le_mul_of_nonneg_left hq1 (zpow_pos htwo _).le
  have hbelow : (2 : ℚ) ^ ((p.log2 : Int) - q.log2 - 1) < (p : ℚ) / q := by
    rw [lt_div_iff₀ hq']
    calc (2 : ℚ) ^ ((p.log2 : Int) - q.log2 - 1) * q
        < 2 ^ ((p.log2 : Int) - q.log2 - 1) * 2 ^ ((q.log2 : Int) + 1) := by
          exact mul_lt_mul_of_pos_left hq2 (zpow_pos htwo _)
      _ = 2 ^ (p.log2 : Int) := by
          rw [← zpow_add₀ htwo.ne']
          congr 1
          omega
      _ ≤ p := hp1
  have hlt : (2 : ℚ) ^ e < 2 ^ ((p.log2 : Int) - q.log2 + 1) := hlow.trans_lt habove
  have hlt' : (2 : ℚ) ^ ((p.log2 : Int) - q.log2 - 1) < 2 ^ (e + 1) := hbelow.trans hhigh
  rw [zpow_lt_zpow_iff_right₀ one_lt_two] at hlt hlt'
  unfold log2Ratio
  dsimp only
  split
  · next hle =>
    have hest := (pow_le_ratio_iff hq _).mp hle
    have hlt'' : (2 : ℚ) ^ ((p.log2 : Int) - q.log2) < 2 ^ (e + 1) := hest.trans_lt hhigh
    rw [zpow_lt_zpow_iff_right₀ one_lt_two] at hlt''
    omega
  · next hnle =>
    have hest := not_le.mp (mt (pow_le_ratio_iff hq _).mpr hnle)
    have hlt'' : (2 : ℚ) ^ e < 2 ^ ((p.log2 : Int) - q.log2) := hlow.trans_lt hest
    rw [zpow_lt_zpow_iff_right₀ one_lt_two] at hlt''
    omega

theorem roundHalfEven_mul {m den : Nat} (hden : 0 < den) : roundHalfEven (m * den) den = m := by
  unfold roundHalfEven
  dsimp only
  rw [Nat.mul_div_cancel m hden, Nat.mul_mod_left, if_neg (by omega)]

theorem ofRatio_exact (hf : f.Canonical) (hq : 0 < q)
    (hpq : p * 2 ^ (-f.exp).toNat = f.mant * (q * 2 ^ f.exp.toNat)) :
    ofRatio f.neg p q = some f := by
  obtain ⟨neg, mant, exp⟩ := f
  obtain ⟨hlt, hleast, hmost, hnormal⟩ := hf
  dsimp only at hlt hleast hmost hnormal hpq ⊢
  have hden : 0 < q * 2 ^ exp.toNat := Nat.mul_pos hq (pow_pos two_pos _)
  by_cases hm : mant = 0
  · subst hm
    have hp : p = 0 := by
      rw [Nat.zero_mul] at hpq
      exact (Nat.mul_eq_zero.mp hpq).resolve_right (pow_pos two_pos _).ne'
    obtain rfl : exp = -1074 := hnormal.resolve_right (by norm_num)
    rw [ofRatio, if_pos hp]
  · have hmpos : 0 < mant := Nat.pos_of_ne_zero hm
    have hp : p ≠ 0 := by
      rintro rfl
      rw [Nat.zero_mul] at hpq
      exact (Nat.mul_pos hmpos hden).ne hpq
    have hratio : (p : ℚ) / q = 2 ^ exp * mant := by
      have hq' : (q : ℚ) ≠ 0 := by exact_mod_cast hq.ne'
      have hcast : (p : ℚ) * 2 ^ (-exp).toNat = mant * (q * 2 ^ exp.toNat) := by
        exact_mod_cast hpq
      rw [zpow_eq_ratio, div_mul_eq_mul_div, div_eq_div_iff hq' (pow_pos two_pos _).ne', hcast]
      ring
    obtain ⟨hlog1, hlog2⟩ := log2_bounds hmpos
    have hlog : log2Ratio p q = exp + mant.log2 := by
      have hpos : (0 : ℚ) < 2 ^ exp := zpow_pos two_pos _
      refine log2Ratio_eq (Nat.pos_of_ne_zero hp) hq ?_ ?_
      · rw [hratio, zpow_add₀ two_ne_zero]
        exact mul_le_mul_of_nonneg_left hlog1 hpos.le
      · rw [hratio, add_assoc, zpow_add₀ two_ne_zero]
        exact mul_lt_mul_of_pos_left hlog2 hpos
    have hk : max (log2Ratio p q - 52) (-1074) = exp := by
      have hle : mant.log2 ≤ 52 := by
        have := (Nat.log2_lt hm).mpr hlt
        omega
      rw [hlog]
      rcases hnormal with rfl | hge
      · omega
      · have hge' := (Nat.le_log2 hm).mpr hge
        omega
    rw [ofRatio, if_neg hp]
    dsimp only
    rw [hk, hpq, roundHalfEven_mul hden, if_neg hlt.ne]
    exact if_neg (not_lt.mpr hmost)

theorem ofDecimal_int (hf : f.Canonical) (he : 0 ≤ f.exp) :
    ofDecimal f.neg (f.mant * 2 ^ f.exp.toNat) 0 = some f := by
  refine ofRatio_exact hf (by norm_num) ?_
  rw [show (-f.exp).toNat = 0 by omega]
  simp

theorem ofDecimal_frac (hf : f.Canonical) (he : f.exp < 0) :
    ofDecimal f.neg (f.mant * 5 ^ (-f.exp).toNat) (-((-f.exp).toNat : Int)) = some f := by
  refine ofRatio_exact hf (pow_pos (by norm_num) _) ?_
  have hexp : (-(-((-f.exp).toNat : Int))).toNat = (-f.exp).toNat := by omega
  rw [hexp, show f.exp.toNat = 0 by omega, show (-((-f.exp).toNat : Int)).toNat = 0 by omega]
  rw [pow_zero, mul_one, pow_zero, mul_one, mul_assoc, ← mul_pow]
  rfl

end Float64

end Go
