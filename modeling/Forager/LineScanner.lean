import Mathlib.Data.List.Basic
import Mathlib.Tactic.Common

/-!
# Reading lines with a bounded buffer

A scanner that reads a byte string line by line, as `bufio.Scanner` does with its
defaults. A line is what stands before a line feed, without one carriage return at
its end; the bytes behind the last line feed are a line if there are any. The scanner
stops with an error at the first line that, without its line feed, fills the buffer.
-/

namespace LineScanner

def lineFeed : UInt8 := 0x0A
def carriageReturn : UInt8 := 0x0D

def lines : List UInt8 → List (List UInt8)
  | [] => []
  | b :: s =>
    if b = lineFeed then [] :: lines s
    else match lines s with
      | [] => [[b]]
      | l :: ls => (b :: l) :: ls

def dropReturn (l : List UInt8) : List UInt8 :=
  if l.getLast? = some carriageReturn then l.dropLast else l

/-- The lines up to the first that has `limit` bytes, and whether there is one. -/
def scan (limit : Nat) (s : List UInt8) : List (List UInt8) × Bool :=
  (((lines s).takeWhile fun l => l.length < limit).map dropReturn,
    (lines s).any fun l => limit ≤ l.length)

variable {l s : List UInt8} {limit : Nat}

@[simp] theorem lines_nil : lines [] = [] := rfl

theorem lines_line (h : lineFeed ∉ l) (s : List UInt8) :
    lines (l ++ lineFeed :: s) = l :: lines s := by
  induction l with
  | nil => exact if_pos rfl
  | cons b l ih =>
    obtain ⟨hb, hl⟩ := not_or.mp (List.mem_cons.not.mp h)
    rw [List.cons_append, lines, if_neg (Ne.symm hb), ih hl]

theorem scan_line (h : lineFeed ∉ l) (hlen : l.length < limit) (s : List UInt8) :
    scan limit (l ++ lineFeed :: s) =
      (dropReturn l :: (scan limit s).1, (scan limit s).2) := by
  unfold scan
  rw [lines_line h]
  simp [hlen, Nat.not_le.mpr hlen]

theorem scan_long (h : lineFeed ∉ l) (hlen : limit ≤ l.length) (s : List UInt8) :
    scan limit (l ++ lineFeed :: s) = ([], true) := by
  unfold scan
  rw [lines_line h]
  simp [hlen]

theorem dropReturn_of_last (h : l.getLast? ≠ some carriageReturn) : dropReturn l = l := if_neg h

end LineScanner
