import Forager.FloatText
import Forager.Json

/-!
# Numbers in JSON

What `encoding/json` reads from a number literal and writes for a number.
-/

namespace GoJson

open JsonText Go

/-- `strconv.ParseFloat` on a number literal; `none` if it is out of range. -/
def toFloat (n : NumLit) : Option Float64 :=
  let (neg, cs) := match n.text with
    | '-' :: cs => (true, cs)
    | cs => (false, cs)
  let int := cs.takeWhile isDigit
  let (frac, cs) := match cs.dropWhile isDigit with
    | '.' :: cs => (cs.takeWhile isDigit, cs.dropWhile isDigit)
    | cs => ([], cs)
  let val (ds : List Char) : Nat := (digitsVal ds).getD 0
  let exp : Int := match cs with
    | _ :: '-' :: ds => -(val ds : Int)
    | _ :: '+' :: ds => val ds
    | _ :: ds => val ds
    | [] => 0
  Float64.ofDecimal neg (val (int ++ frac)) (exp - frac.length)

/-- `strconv.ParseInt` on a number literal: a fraction or an exponent is an error. -/
def toInt (n : NumLit) : Option Int := atoi (String.ofList n.text)

/-- `strconv.ParseUint` on a number literal, for a type of `w` bits. -/
def toUint (w : Nat) (n : NumLit) : Option Nat :=
  (digitsVal n.text).bind fun v => if v < 2 ^ w then some v else none

/-- The exact decimal of a double. -/
def exactText (f : Float64) : List Char :=
  (if f.neg then ['-'] else []) ++
    if 0 ≤ f.exp then Nat.toDigits 10 (f.mant * 2 ^ f.exp.toNat)
    else Nat.toDigits 10 (f.mant * 5 ^ (-f.exp).toNat) ++
      'e' :: '-' :: Nat.toDigits 10 (-f.exp).toNat

def floatLit (f : Float64) : NumLit :=
  let exact : NumLit := if h : isNumber (exactText f) = true then ⟨exactText f, h⟩
    else ⟨['0'], by decide⟩
  match f.jsonText with
  | none => exact
  | some text =>
    if h : isNumber text = true then if toFloat ⟨text, h⟩ = some f then ⟨text, h⟩ else exact
    else exact

def intLit (n : Int) : NumLit :=
  let text := (if n < 0 then ['-'] else []) ++ Nat.toDigits 10 n.natAbs
  if h : isNumber text = true then ⟨text, h⟩ else ⟨['0'], by decide⟩

/-! ## Decimal digits -/

theorem digitsVal_snoc (ds : List Char) (c : Char) :
    digitsVal (ds ++ [c]) = (digitsVal ds).bind fun n =>
      if '0' ≤ c ∧ c ≤ '9' then some (n * 10 + (c.toNat - '0'.toNat)) else none := by
  simp [digitsVal]

theorem digitChar_spec : ∀ k < 10, isDigit (Nat.digitChar k) = true ∧
    (Nat.digitChar k).toNat - '0'.toNat = k := by
  decide

theorem digitChar_ne_zero : ∀ k < 10, 0 < k → Nat.digitChar k ≠ '0' := by decide

theorem digitsVal_toDigits (n : Nat) : digitsVal (Nat.toDigits 10 n) = some n := by
  induction n using Nat.strong_induction_on with
  | _ n ih =>
    obtain ⟨hdigit, hval⟩ := digitChar_spec (n % 10) (Nat.mod_lt n (by decide))
    have hrange : '0' ≤ Nat.digitChar (n % 10) ∧ Nat.digitChar (n % 10) ≤ '9' := by
      simpa [isDigit] using hdigit
    by_cases hlt : n < 10
    · rw [Nat.mod_eq_of_lt hlt] at hrange hval
      rw [Nat.toDigits_of_lt_base hlt, ← List.nil_append [_], digitsVal_snoc]
      simp only [digitsVal, List.foldl_nil, Option.bind_some]
      rw [if_pos hrange, hval, Nat.zero_mul, Nat.zero_add]
    · rw [Nat.toDigits_of_base_le (by decide) (by omega), digitsVal_snoc, ih _ (by omega),
        Option.bind_some, if_pos hrange, hval]
      congr 1
      omega

theorem isDigit_of_mem_toDigits {n : Nat} {c : Char} (h : c ∈ Nat.toDigits 10 n) :
    isDigit c = true := by
  have hc := Nat.isDigit_of_mem_toDigits (by decide) (by decide) h
  simpa [isDigit, Char.isDigit, Char.le_def] using hc

theorem toDigits_pos {n : Nat} (hn : 0 < n) :
    ∃ c cs, Nat.toDigits 10 n = c :: cs ∧ isDigit c = true ∧ c ≠ '0' := by
  induction n using Nat.strong_induction_on with
  | _ n ih =>
    by_cases hlt : n < 10
    · exact ⟨Nat.digitChar n, [], Nat.toDigits_of_lt_base hlt, (digitChar_spec n hlt).1,
        digitChar_ne_zero n hlt hn⟩
    · obtain ⟨c, cs, hcs, hc⟩ := ih (n / 10) (by omega) (by omega)
      rw [Nat.toDigits_of_base_le (by decide) (by omega), hcs]
      exact ⟨c, cs ++ [_], rfl, hc⟩

/-! ## The scanner on exact decimals -/

theorem steps_append (s : NumState) (as bs : List Char) :
    s.steps (as ++ bs) = (s.steps as).bind (·.steps bs) := by
  induction as generalizing s with
  | nil => rfl
  | cons a as ih =>
    simp only [List.cons_append, NumState.steps]
    cases s.step a with
    | none => rfl
    | some s' => exact ih s'

theorem steps_digits {s : NumState} (hs : ∀ c, isDigit c = true → s.step c = some s)
    {ds : List Char} (hds : ∀ c ∈ ds, isDigit c = true) : s.steps ds = some s := by
  induction ds with
  | nil => rfl
  | cons c ds ih =>
    rw [NumState.steps, hs c (hds c List.mem_cons_self), Option.bind_some]
    exact ih fun d hd => hds d (List.mem_cons_of_mem _ hd)

theorem steps_whole {s : NumState} (hs : s = .start ∨ s = .neg) (n : Nat) :
    ∃ s', s.steps (Nat.toDigits 10 n) = some s' ∧ (s' = .zero ∨ s' = .int) := by
  by_cases hn : n = 0
  · subst hn
    refine ⟨.zero, ?_, .inl rfl⟩
    rcases hs with rfl | rfl <;> decide
  · obtain ⟨c, cs, hcs, hc, hne⟩ := toDigits_pos (Nat.pos_of_ne_zero hn)
    refine ⟨.int, ?_, .inr rfl⟩
    have hstep : s.step c = some .int := by
      have hminus : c ≠ '-' := by
        rintro rfl
        revert hc
        decide
      rcases hs with rfl | rfl <;> simp [NumState.step, hc, hne, hminus]
    rw [hcs, NumState.steps, hstep, Option.bind_some]
    refine steps_digits (fun d hd => by simp [NumState.step, hd]) fun d hd => ?_
    exact isDigit_of_mem_toDigits (hcs ▸ List.mem_cons_of_mem _ hd)

theorem steps_exponent (k : Nat) :
    NumState.expSign.steps (Nat.toDigits 10 k) = some .expDigits := by
  obtain ⟨c, cs, hcs⟩ := List.exists_cons_of_ne_nil (Nat.toDigits_ne_nil (n := k) (b := 10))
  have hdigits : ∀ d ∈ c :: cs, isDigit d = true := fun d hd =>
    isDigit_of_mem_toDigits (hcs ▸ hd)
  rw [hcs, NumState.steps]
  simp only [NumState.step, hdigits c List.mem_cons_self, if_true, Option.bind_some]
  exact steps_digits (fun d hd => by simp [NumState.step, hd]) fun d hd =>
    hdigits d (List.mem_cons_of_mem _ hd)

theorem steps_sign (neg : Bool) :
    ∃ s, NumState.start.steps (if neg then ['-'] else []) = some s ∧ (s = .start ∨ s = .neg) := by
  cases neg with
  | false => exact ⟨.start, rfl, .inl rfl⟩
  | true => exact ⟨.neg, rfl, .inr rfl⟩

theorem isNumber_exactText (f : Float64) : isNumber (exactText f) = true := by
  obtain ⟨s, hsign, hs⟩ := steps_sign f.neg
  unfold isNumber exactText
  rw [steps_append, hsign, Option.bind_some]
  split
  · obtain ⟨s', hs', hfinal⟩ := steps_whole hs (f.mant * 2 ^ f.exp.toNat)
    rw [hs']
    rcases hfinal with rfl | rfl <;> rfl
  · obtain ⟨s', hs', hwhole⟩ := steps_whole hs (f.mant * 5 ^ (-f.exp).toNat)
    have hexp : s'.steps ['e', '-'] = some .expSign := by
      rcases hwhole with rfl | rfl <;> decide
    rw [steps_append, hs', Option.bind_some,
      show 'e' :: '-' :: Nat.toDigits 10 (-f.exp).toNat =
        ['e', '-'] ++ Nat.toDigits 10 (-f.exp).toNat from rfl,
      steps_append, hexp, Option.bind_some, steps_exponent]
    rfl

/-! ## Reading back -/

theorem takeWhile_digits {ds rest : List Char} (hds : ∀ c ∈ ds, isDigit c = true)
    (hrest : rest.takeWhile isDigit = []) :
    (ds ++ rest).takeWhile isDigit = ds ∧ (ds ++ rest).dropWhile isDigit = rest := by
  have hdrop : rest.dropWhile isDigit = rest := by
    have h := List.takeWhile_append_dropWhile (p := isDigit) (l := rest)
    rwa [hrest, List.nil_append] at h
  rw [List.takeWhile_append_of_pos hds, List.dropWhile_append_of_pos hds, hrest, hdrop,
    List.append_nil]
  exact ⟨rfl, rfl⟩

theorem toFloat_text {n : NumLit} {neg : Bool} {d : Nat} {rest : List Char} {e : Int}
    (htext : n.text = (if neg then ['-'] else []) ++ (Nat.toDigits 10 d ++ rest))
    (hrest : rest = [] ∧ e = 0 ∨ ∃ k, rest = 'e' :: '-' :: Nat.toDigits 10 k ∧ e = -(k : Int)) :
    toFloat n = Float64.ofDecimal neg d e := by
  have hdigits : ∀ x ∈ Nat.toDigits 10 d, isDigit x = true := fun x => isDigit_of_mem_toDigits
  have hnone : rest.takeWhile isDigit = [] := by
    rcases hrest with ⟨rfl, -⟩ | ⟨k, rfl, -⟩ <;> rfl
  obtain ⟨htake, hdrop⟩ := takeWhile_digits hdigits hnone
  obtain ⟨c, cs, hcs⟩ := List.exists_cons_of_ne_nil (Nat.toDigits_ne_nil (n := d) (b := 10))
  have hsign : n.text = '-' :: (Nat.toDigits 10 d ++ rest) ∧ neg = true ∨
      n.text = Nat.toDigits 10 d ++ rest ∧ neg = false := by
    cases neg with
    | true => exact .inl ⟨htext, rfl⟩
    | false => exact .inr ⟨htext, rfl⟩
  unfold toFloat
  rcases hsign with ⟨hn, rfl⟩ | ⟨hn, rfl⟩
  · rw [hn]
    simp only [htake, hdrop]
    rcases hrest with ⟨rfl, rfl⟩ | ⟨k, rfl, rfl⟩ <;> simp [digitsVal_toDigits]
  · rw [hn]
    dsimp only
    split
    · next cs' hminus =>
      have hc : '-' ∈ Nat.toDigits 10 d := by
        rw [hcs, List.cons_append] at hminus
        rw [hcs, (List.cons.inj hminus).1]
        exact List.mem_cons_self
      exact absurd (hdigits '-' hc) (by decide)
    · simp only [htake, hdrop]
      rcases hrest with ⟨rfl, rfl⟩ | ⟨k, rfl, rfl⟩ <;> simp [digitsVal_toDigits]

theorem toFloat_exactText {f : Float64} (hf : f.Canonical) (h : isNumber (exactText f) = true) :
    toFloat ⟨exactText f, h⟩ = some f := by
  by_cases he : 0 ≤ f.exp
  · have htext : exactText f = (if f.neg then ['-'] else []) ++
        (Nat.toDigits 10 (f.mant * 2 ^ f.exp.toNat) ++ []) := by
      rw [exactText, if_pos he, List.append_nil]
    rw [toFloat_text htext (.inl ⟨rfl, rfl⟩)]
    exact Float64.ofDecimal_int hf he
  · have htext : exactText f = (if f.neg then ['-'] else []) ++
        (Nat.toDigits 10 (f.mant * 5 ^ (-f.exp).toNat) ++
          'e' :: '-' :: Nat.toDigits 10 (-f.exp).toNat) := by
      rw [exactText, if_neg he]
    rw [toFloat_text htext (.inr ⟨_, rfl, rfl⟩)]
    exact Float64.ofDecimal_frac hf (not_le.mp he)

theorem toFloat_floatLit {f : Float64} (hf : f.Canonical) : toFloat (floatLit f) = some f := by
  have hexact := toFloat_exactText hf (isNumber_exactText f)
  unfold floatLit
  simp only [isNumber_exactText, dite_true]
  split
  · exact hexact
  · split
    · split
      · assumption
      · exact hexact
    · exact hexact

end GoJson
