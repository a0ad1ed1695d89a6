import Mathlib.Algebra.Ring.Int.Defs
import Mathlib.Algebra.Ring.Nat
import Mathlib.Data.Int.Order.Basic
import Mathlib.Tactic.Common

/-!
# Instants and durations of Go's `time`

An instant is its number of nanoseconds since the Unix epoch, a duration a
64-bit number of nanoseconds.

* `parseRFC3339`: `time.Parse(time.RFC3339, s)`, which takes more than RFC 3339
  does: an hour of one digit, a comma before the fraction, offsets up to 24:60.
* `formatRFC3339`: `t.UTC().Format(time.RFC3339)`.
* `sub`: `t.Sub(u)`, which saturates; `wrap64`: 64-bit arithmetic, which wraps.
* `sub_of_lt`, `wrap64_neg`: both away from the lower limit; `wrap64_of_small`.
-/

namespace GoTime

/-! ## Durations -/

def second : Int := 10 ^ 9

def minute : Int := 60 * second

def minDuration : Int := -2 ^ 63

def maxDuration : Int := 2 ^ 63 - 1

/-- `t.Sub(u)`. -/
def sub (t u : Int) : Int := max minDuration (min maxDuration (t - u))

/-- A 64-bit signed integer. -/
def wrap64 (x : Int) : Int := x.bmod (2 ^ 64)

theorem sub_of_lt {t u : Int} (h : minDuration < t - u) : sub t u = min maxDuration (t - u) := by
  unfold sub
  unfold minDuration maxDuration at *
  omega

theorem wrap64_neg {d : Int} (hmin : minDuration < d) (hneg : d < 0) : wrap64 (-d) = -d := by
  unfold wrap64 minDuration at *
  rw [Int.bmod_eq_of_le] <;> omega

theorem wrap64_of_small {x : Int} (h0 : 0 ≤ x) (h : x < 2 ^ 63) : wrap64 x = x := by
  unfold wrap64
  rw [Int.bmod_eq_of_le_mul_two] <;> omega

/-! ## Calendar -/

def isLeap (year : Nat) : Bool := year % 4 = 0 ∧ (year % 100 ≠ 0 ∨ year % 400 = 0)

def daysIn (month year : Nat) : Nat :=
  if month = 2 then (if isLeap year then 29 else 28)
  else if month ∈ [4, 6, 9, 11] then 30 else 31

/-- Days from the epoch to a day of the proleptic Gregorian calendar. -/
def unixDay (year month day : Nat) : Int :=
  let before := ((List.range (month - 1)).map fun m => daysIn (m + 1) year).sum
  365 * year + (year + 3) / 4 - (year + 99) / 100 + (year + 399) / 400 + before + day - 1 - 719528

/-! ## Parsing -/

def digit? (c : Char) : Option Nat :=
  if '0' ≤ c ∧ c ≤ '9' then some (c.toNat - '0'.toNat) else none

/-- `getnum`: one or two digits, two if `fixed`. -/
def getnum (fixed : Bool) : List Char → Option (Nat × List Char)
  | [] => none
  | c :: s => (digit? c).bind fun a =>
    match s.head?.bind digit? with
    | some b => some (a * 10 + b, s.tail)
    | none => if fixed then none else some (a, s)

def getYear : List Char → Option (Nat × List Char)
  | a :: b :: c :: d :: s => do
    let a ← digit? a
    let b ← digit? b
    let c ← digit? c
    let d ← digit? d
    some (((a * 10 + b) * 10 + c) * 10 + d, s)
  | _ => none

def skip (c : Char) : List Char → Option (List Char)
  | [] => none
  | d :: s => if d = c then some s else none

def within (lo hi : Nat) (r : Option (Nat × List Char)) : Option (Nat × List Char) :=
  r.filter fun r => lo ≤ r.1 ∧ r.1 ≤ hi

/-- The fraction of a second, which the layout does not have: nanoseconds from
its first nine digits. -/
def getFraction : List Char → Nat × List Char
  | [] => (0, [])
  | c :: s =>
    let ds := s.takeWhile fun d => (digit? d).isSome
    if (c = '.' ∨ c = ',') ∧ ds ≠ [] then
      let kept := (ds.filterMap digit?).take 9
      (kept.foldl (fun n d => n * 10 + d) 0 * 10 ^ (9 - kept.length), s.drop ds.length)
    else (0, c :: s)

/-- The zone offset in seconds, which ends the text. -/
def getZone : List Char → Option Int
  | ['Z'] => some 0
  | [sign, h1, h2, colon, m1, m2] => do
    let (hour, _) ← within 0 24 (getnum true [h1, h2])
    let (min, _) ← within 0 60 (getnum true [m1, m2])
    let offset : Int := ((hour * 60 + min) * 60 : Nat)
    if colon ≠ ':' then none
    else if sign = '+' then some offset
    else if sign = '-' then some (-offset)
    else none
  | _ => none

def parseRFC3339 (s : List Char) : Option Int := do
  let (year, s) ← getYear s
  let (month, s) ← within 1 12 (getnum true (← skip '-' s))
  let (day, s) ← getnum true (← skip '-' s)
  let (hour, s) ← within 0 23 (getnum false (← skip 'T' s))
  let (min, s) ← within 0 59 (getnum true (← skip ':' s))
  let (sec, s) ← within 0 59 (getnum true (← skip ':' s))
  let (nsec, s) := getFraction s
  let offset ← getZone s
  if 1 ≤ day ∧ day ≤ daysIn month year then
    some ((unixDay year month day * 86400 + (hour * 60 + min) * 60 + sec - offset) * second + nsec)
  else none

/-! ## Formatting -/

def pad (width n : Nat) : List Char :=
  let ds := Nat.toDigits 10 n
  List.replicate (width - ds.length) '0' ++ ds

def civil (day : Int) : Int × Nat × Nat :=
  let z := day + 719468
  let era := z / 146097
  let doe := (z % 146097).toNat
  let yoe := (doe - doe / 1460 + doe / 36524 - doe / 146096) / 365
  let doy := doe - (365 * yoe + yoe / 4 - yoe / 100)
  let mp := (5 * doy + 2) / 153
  let d := doy - (153 * mp + 2) / 5 + 1
  let m := if mp < 10 then mp + 3 else mp - 9
  (yoe + era * 400 + (if m ≤ 2 then 1 else 0), m, d)

def formatRFC3339 (t : Int) : String :=
  let sec := t / second
  let (y, m, d) := civil (sec / 86400)
  let s := (sec % 86400).toNat
  let year := if y < 0 then '-' :: pad 4 y.natAbs else pad 4 y.toNat
  String.ofList (year ++ '-' :: pad 2 m ++ '-' :: pad 2 d ++ 'T' :: pad 2 (s / 3600) ++
    ':' :: pad 2 (s / 60 % 60) ++ ':' :: pad 2 (s % 60) ++ ['Z'])

example : parseRFC3339 "2024-02-29T23:59:59.5+01:00".toList = some 1709247599500000000 := by decide

example : formatRFC3339 1709247599500000000 = "2024-02-29T22:59:59Z" := by decide

end GoTime
