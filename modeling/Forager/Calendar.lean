import Mathlib.Order.Monotone.Basic
import Mathlib.Tactic.IntervalCases
import Forager.GoTime

/-!
# Printed instants read back

`time.Parse(time.RFC3339, t.UTC().Format(time.RFC3339))` gives `t` without its
fraction of a second, for the years 0000 to 9999 that RFC 3339 has.

The calendar goes through eras of 400 years that start on 1 March. The year of a
day of an era comes from a formula; `yearStart_le` ties it to the first days of
the years, by monotonicity from the 400 first and last days.
-/

namespace GoTime

/-! ## Years of an era -/

/-- The day of the era on which a year of the era starts. -/
def yearStart (yoe : Nat) : Nat := 365 * yoe + yoe / 4 - yoe / 100 + yoe / 400

/-- The year of the era of a day of the era. -/
def yearOf (doe : Nat) : Nat := (doe - doe / 1460 + doe / 36524 - doe / 146096) / 365

theorem yearOf_mono : Monotone yearOf := by
  refine monotone_nat_of_le_succ fun n => Nat.div_le_div_right ?_
  omega

theorem yearOf_yearStart : ∀ y < 400,
    yearOf (yearStart y) = y ∧ yearOf (yearStart (y + 1) - 1) = y := by
  decide +kernel

theorem yearStart_succ : ∀ y < 400,
    yearStart (y + 1) = yearStart y + 365 + if isLeap (y + 1) then 1 else 0 := by
  decide +kernel

theorem yearStart_le {doe : Nat} (h : doe < 146097) :
    yearOf doe < 400 ∧ yearStart (yearOf doe) ≤ doe ∧ doe < yearStart (yearOf doe + 1) := by
  have hlt : yearOf doe < 400 := by
    have hle : yearOf doe ≤ yearOf 146096 := yearOf_mono (Nat.le_of_lt_succ h)
    have hlast : yearOf 146096 = 399 := by decide
    omega
  refine ⟨hlt, ?_, ?_⟩
  · by_contra hlow
    -- the day before the year starts is in the year before
    cases hy : yearOf doe with
    | zero => simp [hy, yearStart] at hlow
    | succ y =>
      rw [hy] at hlow
      have hle := yearOf_mono (Nat.le_sub_one_of_lt (not_le.mp hlow))
      rw [(yearOf_yearStart y (by omega)).2, hy] at hle
      exact Nat.not_succ_le_self y hle
  · by_contra hhigh
    rcases Nat.lt_or_ge (yearOf doe + 1) 400 with hy | hy
    · have hle := yearOf_mono (not_lt.mp hhigh)
      rw [(yearOf_yearStart _ hy).1] at hle
      exact Nat.not_succ_le_self _ hle
    · have hend : yearOf doe + 1 = 400 := by omega
      rw [hend] at hhigh
      exact hhigh h

/-! ## Months of a year that starts in March -/

theorem daysBefore_eq (year : Nat) {month : Nat} (h1 : 1 ≤ month) (h2 : month ≤ 12) :
    ((List.range (month - 1)).map fun m => daysIn (m + 1) year).sum =
      if month ≤ 2 then 31 * (month - 1) else (153 * (month - 3) + 2) / 5 + 59 +
        if isLeap year then 1 else 0 := by
  interval_cases month <;> cases h : isLeap year <;> simp [List.range_succ, daysIn, h]

theorem month_of_day : ∀ doy < 366,
    let mp := (5 * doy + 2) / 153
    let d := doy - (153 * mp + 2) / 5 + 1
    mp < 12 ∧ doy + 1 = (153 * mp + 2) / 5 + d ∧
      ((mp = 11 ∧ d = 29 ∧ doy = 365) ∨ d ≤ daysIn (if mp < 10 then mp + 3 else mp - 9) 1) := by
  decide +kernel

theorem leap_count (y : Nat) :
    (y + 3) / 4 + (y + 399) / 400 + y / 100 + (if isLeap y then 1 else 0) =
      y / 4 + y / 400 + (y + 99) / 100 + 1 := by
  unfold isLeap
  split
  · next h =>
    simp only [decide_eq_true_eq] at h
    omega
  · next h =>
    simp only [decide_eq_true_eq] at h
    omega

theorem isLeap_congr {a b : Nat} (h : a % 400 = b % 400) : isLeap a = isLeap b := by
  unfold isLeap
  refine decide_eq_decide.mpr ?_
  omega

theorem daysIn_common_le (month year : Nat) : daysIn month 1 ≤ daysIn month year := by
  have hcommon : isLeap 1 = false := by decide
  unfold daysIn
  rw [hcommon]
  split
  · cases isLeap year <;> simp
  · exact Nat.le_refl _

/-! ## Civil dates -/

theorem leapDays_eq {yoe : Nat} (h : yoe < 400) (e : Nat) :
    (yoe + 400 * e) / 4 = yoe / 4 + 100 * e ∧ (yoe + 400 * e) / 100 = yoe / 100 + 4 * e ∧
      (yoe + 400 * e) / 400 = e := by
  omega

theorem unixDay_eq (year month day : Nat) :
    unixDay year month day = ((365 * year + (year + 3) / 4 + (year + 399) / 400 +
      ((List.range (month - 1)).map fun m => daysIn (m + 1) year).sum + day : Nat) : Int) -
      ((year + 99) / 100 : Nat) - 719529 := by
  unfold unixDay
  push_cast
  omega

theorem unixDay_march {yoe e mp doy d : Nat} (hyoe : yoe < 400) (hmp : mp < 10)
    (hday : doy + 1 = (153 * mp + 2) / 5 + d) :
    unixDay (yoe + 400 * e) (mp + 3) d =
      146097 * e + (365 * yoe + yoe / 4 - (yoe / 100 : Nat) + doy : Int) - 719468 := by
  obtain ⟨h4, h100, h400⟩ := leapDays_eq hyoe e
  have hcount := leap_count (yoe + 400 * e)
  rw [h4, h100, h400] at hcount
  rw [unixDay_eq, daysBefore_eq _ (by omega) (by omega), if_neg (by omega), Nat.add_sub_cancel]
  generalize (153 * mp + 2) / 5 = q at *
  generalize (if isLeap (yoe + 400 * e) = true then 1 else 0) = leap at *
  generalize (yoe + 400 * e + 3) / 4 = a at *
  generalize (yoe + 400 * e + 399) / 400 = b at *
  generalize (yoe + 400 * e + 99) / 100 = c at *
  push_cast
  omega

theorem unixDay_january {yoe n mp doy d : Nat} (hyoe : yoe < 400) (hmp : 10 ≤ mp) (hmp' : mp < 12)
    (hday : doy + 1 = (153 * mp + 2) / 5 + d) {e : Int} (hn : (n : Int) = yoe + 400 * e + 1) :
    unixDay n (mp - 9) d =
      146097 * e + (365 * yoe + yoe / 4 - (yoe / 100 : Nat) + doy : Int) - 719468 := by
  have hdays : ((n + 3) / 4 : Nat) = (yoe / 4 : Nat) + 100 * e + 1 ∧
      ((n + 99) / 100 : Nat) = (yoe / 100 : Nat) + 4 * e + 1 ∧ ((n + 399) / 400 : Nat) = e + 1 := by
    omega
  obtain ⟨h4, h100, h400⟩ := hdays
  rw [unixDay_eq, daysBefore_eq _ (by omega) (by omega), if_pos (by omega)]
  generalize (n + 3) / 4 = a at *
  generalize (n + 399) / 400 = b at *
  generalize (n + 99) / 100 = c at *
  push_cast at *
  omega

theorem daysIn_le (month year : Nat) : daysIn month year ≤ 31 := by
  unfold daysIn
  repeat' split
  all_goals decide

theorem era_bounds {era : Int} {doe yoe mp doy d : Nat} (hyoe : yoe < 400) (hmp : mp < 12)
    (hdoe : doe = 365 * yoe + yoe / 4 - yoe / 100 + doy) (hdoy : doy < 366)
    (hday : doy + 1 = (153 * mp + 2) / 5 + d) (hd : 1 ≤ d) (hd' : d ≤ 31)
    (hlo : -60 ≤ 146097 * era + doe) (hhi : 146097 * era + doe ≤ 3652364) :
    (mp < 10 → 0 ≤ era ∧ era ≤ 24) ∧
      (10 ≤ mp → 0 ≤ yoe + 400 * era + 1 ∧ yoe + 400 * era + 1 < 10000) := by
  have hera : -1 ≤ era ∧ era ≤ 24 := by omega
  constructor
  · intro hm
    refine ⟨?_, hera.2⟩
    by_contra hneg
    have hlast : 146037 ≤ doe := by omega
    have hyear : yoe = 399 := by omega
    omega
  · intro hm
    refine ⟨?_, ?_⟩
    · by_contra hneg
      have hlast : 146037 ≤ doe := by omega
      omega
    · by_contra hbig
      have hyear : yoe = 399 ∧ era = 24 := by omega
      omega

theorem civil_eq (day : Int) :
    let z := day + 719468
    let doe := (z % 146097).toNat
    let doy := doe - (365 * yearOf doe + yearOf doe / 4 - yearOf doe / 100)
    let mp := (5 * doy + 2) / 153
    let m := if mp < 10 then mp + 3 else mp - 9
    civil day = (yearOf doe + z / 146097 * 400 + (if m ≤ 2 then 1 else 0), m,
      doy - (153 * mp + 2) / 5 + 1) := rfl

theorem unixDay_civil {day : Int} (hlo : -719528 ≤ day) (hhi : day ≤ 2932896) :
    ∃ year : Nat, (civil day).1 = year ∧ year < 10000 ∧ 1 ≤ (civil day).2.1 ∧
      (civil day).2.1 ≤ 12 ∧ 1 ≤ (civil day).2.2 ∧ (civil day).2.2 ≤ daysIn (civil day).2.1 year ∧
      unixDay year (civil day).2.1 (civil day).2.2 = day := by
  have hdoe : ((day + 719468) % 146097).toNat < 146097 := by omega
  obtain ⟨hyoe, hstart, hend⟩ := yearStart_le hdoe
  have hera : day + 719468 = 146097 * ((day + 719468) / 146097) +
      ((day + 719468) % 146097).toNat := by omega
  have hciv := civil_eq day
  dsimp only at hciv
  generalize (day + 719468) / 146097 = era at *
  generalize ((day + 719468) % 146097).toNat = doe at *
  generalize yearOf doe = yoe at *
  rw [yearStart_succ yoe hyoe] at hend
  have hstartEq : yearStart yoe = 365 * yoe + yoe / 4 - yoe / 100 := by
    simp [yearStart, Nat.div_eq_of_lt hyoe]
  rw [hstartEq] at hstart hend
  have hdoeEq : doe = 365 * yoe + yoe / 4 - yoe / 100 +
      (doe - (365 * yoe + yoe / 4 - yoe / 100)) := by omega
  have hdoyLt : doe - (365 * yoe + yoe / 4 - yoe / 100) <
      365 + if isLeap (yoe + 1) then 1 else 0 := by omega
  generalize doe - (365 * yoe + yoe / 4 - yoe / 100) = doy at *
  have hdoy : doy < 366 := lt_of_lt_of_le hdoyLt (by split <;> decide)
  obtain ⟨hmp, hday, hlen⟩ := month_of_day doy hdoy
  have hd1 : 1 ≤ doy - (153 * ((5 * doy + 2) / 153) + 2) / 5 + 1 := Nat.le_add_left _ _
  generalize (5 * doy + 2) / 153 = mp at *
  generalize doy - (153 * mp + 2) / 5 + 1 = d at *
  have hd31 : d ≤ 31 := by
    rcases hlen with ⟨-, rfl, -⟩ | hlen
    · decide
    · exact hlen.trans (daysIn_le _ _)
  obtain ⟨hmarch, hjanuary⟩ := era_bounds hyoe hmp hdoeEq hdoy hday hd1 hd31
    (by omega) (by omega : 146097 * era + doe ≤ 3652364)
  have hdayEq :
      day = 146097 * era + (365 * yoe + yoe / 4 - (yoe / 100 : Nat) + doy : Int) - 719468 := by
    omega
  rw [hciv]
  rcases Nat.lt_or_ge mp 10 with hm | hm
  · obtain ⟨hnn, hle⟩ := hmarch hm
    obtain ⟨e, rfl⟩ := Int.eq_ofNat_of_zero_le hnn
    have hlate : ¬ mp + 3 ≤ 2 := by omega
    simp only [if_pos hm, if_neg hlate] at hlen ⊢
    refine ⟨yoe + 400 * e, by push_cast; omega, by omega, by omega, by omega, hd1, ?_, ?_⟩
    · rcases hlen with ⟨h11, -⟩ | hlen
      · omega
      · exact hlen.trans (daysIn_common_le _ _)
    · rw [unixDay_march hyoe hm hday, hdayEq]
  · obtain ⟨hnn, hlt⟩ := hjanuary hm
    obtain ⟨n, hn⟩ := Int.eq_ofNat_of_zero_le hnn
    have hearly : mp - 9 ≤ 2 := by omega
    simp only [if_neg (not_lt.mpr hm), if_pos hearly] at hlen ⊢
    refine ⟨n, by omega, by omega, by omega, by omega, hd1, ?_, ?_⟩
    · rcases hlen with ⟨rfl, rfl, rfl⟩ | hlen
      · -- 29 February, in a leap year
        have hleap : isLeap (yoe + 1) = true := by
          by_contra hcommon
          simp [hcommon] at hdoyLt
        have hn' : isLeap n = isLeap (yoe + 1) := isLeap_congr (by omega)
        simp [daysIn, hn', hleap]
      · exact hlen.trans (daysIn_common_le _ _)
    · rw [unixDay_january hyoe hm hmp hday hn.symm, hdayEq]

/-! ## Digits -/

theorem digit?_digitChar : ∀ k < 10, digit? (Nat.digitChar k) = some k := by decide

theorem pad_succ (w n : Nat) :
    pad (w + 2) n = pad (w + 1) (n / 10) ++ [Nat.digitChar (n % 10)] := by
  unfold pad
  rcases Nat.lt_or_ge n 10 with hn | hn
  · have hzero : Nat.toDigits 10 0 = ['0'] := by decide
    rw [Nat.toDigits_of_lt_base hn, Nat.div_eq_of_lt hn, Nat.mod_eq_of_lt hn, hzero]
    simp [List.replicate_succ']
  · rw [Nat.toDigits_of_base_le (by decide) hn]
    simp only [List.length_append, List.length_singleton, List.append_assoc]
    congr 2
    exact Nat.add_sub_add_right (w + 1) 1 _

theorem pad_one {n : Nat} (h : n < 10) : pad 1 n = [Nat.digitChar n] := by
  unfold pad
  rw [Nat.toDigits_of_lt_base h]
  rfl

theorem pad_two {n : Nat} (h : n < 100) :
    pad 2 n = [Nat.digitChar (n / 10), Nat.digitChar (n % 10)] := by
  rw [pad_succ, pad_one (Nat.div_lt_of_lt_mul h)]
  rfl

theorem getnum_pad {n : Nat} (h : n < 100) (fixed : Bool) (s : List Char) :
    getnum fixed (pad 2 n ++ s) = some (n, s) := by
  have htens := digit?_digitChar (n / 10) (Nat.div_lt_of_lt_mul h)
  have hunits := digit?_digitChar (n % 10) (Nat.mod_lt _ (by decide))
  rw [pad_two h]
  simp only [List.cons_append, List.nil_append, getnum, htens, List.head?_cons, Option.bind_some,
    hunits, List.tail_cons]
  rw [Nat.div_add_mod']

theorem getYear_pad {n : Nat} (h : n < 10000) (s : List Char) :
    getYear (pad 4 n ++ s) = some (n, s) := by
  have hdigit : ∀ m, digit? (Nat.digitChar (m % 10)) = some (m % 10) := fun m =>
    digit?_digitChar _ (Nat.mod_lt _ (by decide))
  have hpad : pad 4 n = [Nat.digitChar (n / 1000 % 10), Nat.digitChar (n / 100 % 10),
      Nat.digitChar (n / 10 % 10), Nat.digitChar (n % 10)] := by
    have h100 : n / 10 / 10 = n / 100 := Nat.div_div_eq_div_mul n 10 10
    have h1000 : n / 100 / 10 = n / 1000 := Nat.div_div_eq_div_mul n 100 10
    rw [pad_succ, pad_succ, pad_succ, h100, h1000, pad_one (by omega),
      Nat.mod_eq_of_lt (show n / 1000 < 10 by omega)]
    rfl
  rw [hpad]
  simp only [List.cons_append, List.nil_append, getYear, hdigit, Option.bind_eq_bind,
    Option.bind_some]
  congr 2
  omega

/-! ## The printed instant -/

theorem skip_cons (c : Char) (s : List Char) : skip c (c :: s) = some s := if_pos rfl

theorem within_some {lo hi n : Nat} (h : lo ≤ n ∧ n ≤ hi) (s : List Char) :
    within lo hi (some (n, s)) = some (n, s) := by
  simp [within, h]

theorem parseRFC3339_text {year month day hour min sec : Nat} (hyear : year < 10000)
    (hmonth : 1 ≤ month ∧ month ≤ 12) (hday : 1 ≤ day ∧ day ≤ daysIn month year)
    (hhour : hour ≤ 23) (hmin : min ≤ 59) (hsec : sec ≤ 59) :
    parseRFC3339 (pad 4 year ++ '-' :: (pad 2 month ++ '-' :: (pad 2 day ++ 'T' ::
      (pad 2 hour ++ ':' :: (pad 2 min ++ ':' :: (pad 2 sec ++ ['Z'])))))) =
      some ((unixDay year month day * 86400 + (hour * 60 + min) * 60 + sec) * second) := by
  have hday31 := hday.2.trans (daysIn_le _ _)
  have hzone : getFraction ['Z'] = (0, ['Z']) ∧ getZone ['Z'] = some 0 := by decide
  -- one step of the reader at a time: simp would go through all the steps that follow
  have hbind : ∀ {α β : Type} (x : α) (f : α → Option β), (some x >>= f) = f x := fun _ _ => rfl
  unfold parseRFC3339
  rw [getYear_pad hyear, hbind]
  dsimp only
  rw [skip_cons, hbind, getnum_pad (show month < 100 by omega), within_some hmonth, hbind]
  dsimp only
  rw [skip_cons, hbind, getnum_pad (show day < 100 by omega), hbind]
  dsimp only
  rw [skip_cons, hbind, getnum_pad (show hour < 100 by omega),
    within_some ⟨Nat.zero_le hour, hhour⟩, hbind]
  dsimp only
  rw [skip_cons, hbind, getnum_pad (show min < 100 by omega),
    within_some ⟨Nat.zero_le min, hmin⟩, hbind]
  dsimp only
  rw [skip_cons, hbind, getnum_pad (show sec < 100 by omega),
    within_some ⟨Nat.zero_le sec, hsec⟩, hbind]
  dsimp only
  rw [hzone.1, hzone.2, hbind, if_pos hday]
  push_cast
  rw [Int.sub_zero, Int.add_zero]

/-- An instant of the years 0 to 9999, given in whole seconds. -/
def InYears (t : Int) : Prop := -62167219200 ≤ t / second ∧ t / second ≤ 253402300799

instance : DecidablePred InYears := fun t =>
  inferInstanceAs (Decidable (-62167219200 ≤ t / second ∧ t / second ≤ 253402300799))

theorem parseRFC3339_formatRFC3339 {t : Int} (h : InYears t) :
    parseRFC3339 (formatRFC3339 t).toList = some (t / second * second) := by
  unfold InYears at h
  obtain ⟨year, hyear, hlt, hm1, hm12, hd1, hdays, hunix⟩ :=
    @unixDay_civil (t / second / 86400) (by omega) (by omega)
  have hsplit : t / second = t / second / 86400 * 86400 + (t / second % 86400).toNat := by omega
  have hs : (t / second % 86400).toNat < 86400 := by omega
  unfold formatRFC3339
  dsimp only
  rw [hyear, if_neg (by omega), Int.toNat_natCast]
  generalize (t / second % 86400).toNat = s at *
  simp only [String.toList_ofList, List.append_assoc, List.cons_append]
  rw [parseRFC3339_text hlt ⟨hm1, hm12⟩ ⟨hd1, hdays⟩ (by omega) (by omega) (by omega), hunix]
  congr 2
  omega

end GoTime
