import Forager.GoText
import Forager.Lines

/-!
# Unicode case and white space

The simple case mappings of Go's `unicode` package (Unicode 15) as ranges of
characters with one distance each, `strings.ToLower` and `strings.ToUpper` as
case maps, and the functions of `strings` that cut at white space.

* `lower_high`, `upper_high`: the only characters outside ASCII that are mapped
  into it are U+0130 and U+212A to lower case, and U+0131 and U+017F to upper case.
* `trimSpace_frame`: text between two bytes that are no white space is kept, and
  what is left of the text after it is trimmed.
-/

namespace GoText

variable {mark : List UInt8} {r : Nat}

/-! ## Case ranges -/

/-- Every `step`-th character from `lo` to `hi`, which is mapped to the character
`delta` further on. -/
structure CaseRange where
  lo : Nat
  hi : Nat
  step : Nat
  delta : Int

def CaseRange.Holds (c : CaseRange) (r : Nat) : Prop :=
  c.lo ≤ r ∧ r ≤ c.hi ∧ (r - c.lo) % c.step = 0

instance (c : CaseRange) (r : Nat) : Decidable (c.Holds r) := inferInstanceAs (Decidable (_ ∧ _))

def convert (ranges : List CaseRange) (r : Nat) : Nat :=
  match ranges.find? (fun c => c.Holds r) with
  | some c => ((r : Int) + c.delta).toNat
  | none => r

/-- The way back of a range. -/
def CaseRange.back (c : CaseRange) : CaseRange :=
  ⟨(c.lo + c.delta).toNat, (c.hi + c.delta).toNat, c.step, -c.delta⟩

/-- Capital letters, and the small letters that have them as their capital letters. -/
def letterPairs : List CaseRange :=
  [⟨0x41, 0x5a, 1, 32⟩, ⟨0xc0, 0xd6, 1, 32⟩, ⟨0xd8, 0xde, 1, 32⟩, ⟨0x100, 0x12e, 2, 1⟩,
   ⟨0x132, 0x136, 2, 1⟩, ⟨0x139, 0x147, 2, 1⟩, ⟨0x14a, 0x176, 2, 1⟩, ⟨0x178, 0x178, 1, -121⟩,
   ⟨0x179, 0x17d, 2, 1⟩, ⟨0x181, 0x181, 1, 210⟩, ⟨0x182, 0x184, 2, 1⟩, ⟨0x186, 0x186, 1, 206⟩,
   ⟨0x187, 0x187, 1, 1⟩, ⟨0x189, 0x18a, 1, 205⟩, ⟨0x18b, 0x18b, 1, 1⟩, ⟨0x18e, 0x18e, 1, 79⟩,
   ⟨0x18f, 0x18f, 1, 202⟩, ⟨0x190, 0x190, 1, 203⟩, ⟨0x191, 0x191, 1, 1⟩, ⟨0x193, 0x193, 1, 205⟩,
   ⟨0x194, 0x194, 1, 207⟩, ⟨0x196, 0x196, 1, 211⟩, ⟨0x197, 0x197, 1, 209⟩, ⟨0x198, 0x198, 1, 1⟩,
   ⟨0x19c, 0x19c, 1, 211⟩, ⟨0x19d, 0x19d, 1, 213⟩, ⟨0x19f, 0x19f, 1, 214⟩, ⟨0x1a0, 0x1a4, 2, 1⟩,
   ⟨0x1a6, 0x1a6, 1, 218⟩, ⟨0x1a7, 0x1a7, 1, 1⟩, ⟨0x1a9, 0x1a9, 1, 218⟩, ⟨0x1ac, 0x1ac, 1, 1⟩,
   ⟨0x1ae, 0x1ae, 1, 218⟩, ⟨0x1af, 0x1af, 1, 1⟩, ⟨0x1b1, 0x1b2, 1, 217⟩, ⟨0x1b3, 0x1b5, 2, 1⟩,
   ⟨0x1b7, 0x1b7, 1, 219⟩, ⟨0x1b8, 0x1b8, 1, 1⟩, ⟨0x1bc, 0x1bc, 1, 1⟩, ⟨0x1c4, 0x1c4, 1, 2⟩,
   ⟨0x1c7, 0x1c7, 1, 2⟩, ⟨0x1ca, 0x1ca, 1, 2⟩, ⟨0x1cd, 0x1db, 2, 1⟩, ⟨0x1de, 0x1ee, 2, 1⟩,
   ⟨0x1f1, 0x1f1, 1, 2⟩, ⟨0x1f4, 0x1f4, 1, 1⟩, ⟨0x1f6, 0x1f6, 1, -97⟩, ⟨0x1f7, 0x1f7, 1, -56⟩,
   ⟨0x1f8, 0x21e, 2, 1⟩, ⟨0x220, 0x220, 1, -130⟩, ⟨0x222, 0x232, 2, 1⟩, ⟨0x23a, 0x23a, 1, 10795⟩,
   ⟨0x23b, 0x23b, 1, 1⟩, ⟨0x23d, 0x23d, 1, -163⟩, ⟨0x23e, 0x23e, 1, 10792⟩, ⟨0x241, 0x241, 1, 1⟩,
   ⟨0x243, 0x243, 1, -195⟩, ⟨0x244, 0x244, 1, 69⟩, ⟨0x245, 0x245, 1, 71⟩, ⟨0x246, 0x24e, 2, 1⟩,
   ⟨0x370, 0x372, 2, 1⟩, ⟨0x376, 0x376, 1, 1⟩, ⟨0x37f, 0x37f, 1, 116⟩, ⟨0x386, 0x386, 1, 38⟩,
   ⟨0x388, 0x38a, 1, 37⟩, ⟨0x38c, 0x38c, 1, 64⟩, ⟨0x38e, 0x38f, 1, 63⟩, ⟨0x391, 0x3a1, 1, 32⟩,
   ⟨0x3a3, 0x3ab, 1, 32⟩, ⟨0x3cf, 0x3cf, 1, 8⟩, ⟨0x3d8, 0x3ee, 2, 1⟩, ⟨0x3f7, 0x3f7, 1, 1⟩,
   ⟨0x3f9, 0x3f9, 1, -7⟩, ⟨0x3fa, 0x3fa, 1, 1⟩, ⟨0x3fd, 0x3ff, 1, -130⟩, ⟨0x400, 0x40f, 1, 80⟩,
   ⟨0x410, 0x42f, 1, 32⟩, ⟨0x460, 0x480, 2, 1⟩, ⟨0x48a, 0x4be, 2, 1⟩, ⟨0x4c0, 0x4c0, 1, 15⟩,
   ⟨0x4c1, 0x4cd, 2, 1⟩, ⟨0x4d0, 0x52e, 2, 1⟩, ⟨0x531, 0x556, 1, 48⟩, ⟨0x10a0, 0x10c5, 1, 7264⟩,
   ⟨0x10c7, 0x10c7, 1, 7264⟩, ⟨0x10cd, 0x10cd, 1, 7264⟩, ⟨0x13a0, 0x13ef, 1, 38864⟩,
   ⟨0x13f0, 0x13f5, 1, 8⟩, ⟨0x1c90, 0x1cba, 1, -3008⟩, ⟨0x1cbd, 0x1cbf, 1, -3008⟩,
   ⟨0x1e00, 0x1e94, 2, 1⟩, ⟨0x1ea0, 0x1efe, 2, 1⟩, ⟨0x1f08, 0x1f0f, 1, -8⟩, ⟨0x1f18, 0x1f1d, 1, -8⟩,
   ⟨0x1f28, 0x1f2f, 1, -8⟩, ⟨0x1f38, 0x1f3f, 1, -8⟩, ⟨0x1f48, 0x1f4d, 1, -8⟩,
   ⟨0x1f59, 0x1f5f, 2, -8⟩, ⟨0x1f68, 0x1f6f, 1, -8⟩, ⟨0x1f88, 0x1f8f, 1, -8⟩,
   ⟨0x1f98, 0x1f9f, 1, -8⟩, ⟨0x1fa8, 0x1faf, 1, -8⟩, ⟨0x1fb8, 0x1fb9, 1, -8⟩,
   ⟨0x1fba, 0x1fbb, 1, -74⟩, ⟨0x1fbc, 0x1fbc, 1, -9⟩, ⟨0x1fc8, 0x1fcb, 1, -86⟩,
   ⟨0x1fcc, 0x1fcc, 1, -9⟩, ⟨0x1fd8, 0x1fd9, 1, -8⟩, ⟨0x1fda, 0x1fdb, 1, -100⟩,
   ⟨0x1fe8, 0x1fe9, 1, -8⟩, ⟨0x1fea, 0x1feb, 1, -112⟩, ⟨0x1fec, 0x1fec, 1, -7⟩,
   ⟨0x1ff8, 0x1ff9, 1, -128⟩, ⟨0x1ffa, 0x1ffb, 1, -126⟩, ⟨0x1ffc, 0x1ffc, 1, -9⟩,
   ⟨0x2132, 0x2132, 1, 28⟩, ⟨0x2160, 0x216f, 1, 16⟩, ⟨0x2183, 0x2183, 1, 1⟩,
   ⟨0x24b6, 0x24cf, 1, 26⟩, ⟨0x2c00, 0x2c2f, 1, 48⟩, ⟨0x2c60, 0x2c60, 1, 1⟩,
   ⟨0x2c62, 0x2c62, 1, -10743⟩, ⟨0x2c63, 0x2c63, 1, -3814⟩, ⟨0x2c64, 0x2c64, 1, -10727⟩,
   ⟨0x2c67, 0x2c6b, 2, 1⟩, ⟨0x2c6d, 0x2c6d, 1, -10780⟩, ⟨0x2c6e, 0x2c6e, 1, -10749⟩,
   ⟨0x2c6f, 0x2c6f, 1, -10783⟩, ⟨0x2c70, 0x2c70, 1, -10782⟩, ⟨0x2c72, 0x2c72, 1, 1⟩,
   ⟨0x2c75, 0x2c75, 1, 1⟩, ⟨0x2c7e, 0x2c7f, 1, -10815⟩, ⟨0x2c80, 0x2ce2, 2, 1⟩,
   ⟨0x2ceb, 0x2ced, 2, 1⟩, ⟨0x2cf2, 0x2cf2, 1, 1⟩, ⟨0xa640, 0xa66c, 2, 1⟩, ⟨0xa680, 0xa69a, 2, 1⟩,
   ⟨0xa722, 0xa72e, 2, 1⟩, ⟨0xa732, 0xa76e, 2, 1⟩, ⟨0xa779, 0xa77b, 2, 1⟩,
   ⟨0xa77d, 0xa77d, 1, -35332⟩, ⟨0xa77e, 0xa786, 2, 1⟩, ⟨0xa78b, 0xa78b, 1, 1⟩,
   ⟨0xa78d, 0xa78d, 1, -42280⟩, ⟨0xa790, 0xa792, 2, 1⟩, ⟨0xa796, 0xa7a8, 2, 1⟩,
   ⟨0xa7aa, 0xa7aa, 1, -42308⟩, ⟨0xa7ab, 0xa7ab, 1, -42319⟩, ⟨0xa7ac, 0xa7ac, 1, -42315⟩,
   ⟨0xa7ad, 0xa7ad, 1, -42305⟩, ⟨0xa7ae, 0xa7ae, 1, -42308⟩, ⟨0xa7b0, 0xa7b0, 1, -42258⟩,
   ⟨0xa7b1, 0xa7b1, 1, -42282⟩, ⟨0xa7b2, 0xa7b2, 1, -42261⟩, ⟨0xa7b3, 0xa7b3, 1, 928⟩,
   ⟨0xa7b4, 0xa7c2, 2, 1⟩, ⟨0xa7c4, 0xa7c4, 1, -48⟩, ⟨0xa7c5, 0xa7c5, 1, -42307⟩,
   ⟨0xa7c6, 0xa7c6, 1, -35384⟩, ⟨0xa7c7, 0xa7c9, 2, 1⟩, ⟨0xa7d0, 0xa7d0, 1, 1⟩,
   ⟨0xa7d6, 0xa7d8, 2, 1⟩, ⟨0xa7f5, 0xa7f5, 1, 1⟩, ⟨0xff21, 0xff3a, 1, 32⟩,
   ⟨0x10400, 0x10427, 1, 40⟩, ⟨0x104b0, 0x104d3, 1, 40⟩, ⟨0x10570, 0x1057a, 1, 39⟩,
   ⟨0x1057c, 0x1058a, 1, 39⟩, ⟨0x1058c, 0x10592, 1, 39⟩, ⟨0x10594, 0x10595, 1, 39⟩,
   ⟨0x10c80, 0x10cb2, 1, 64⟩, ⟨0x118a0, 0x118bf, 1, 32⟩, ⟨0x16e40, 0x16e5f, 1, 32⟩,
   ⟨0x1e900, 0x1e921, 1, 34⟩]

def lowerRanges : List CaseRange :=
  letterPairs ++
    [⟨0x130, 0x130, 1, -199⟩, ⟨0x1c5, 0x1c5, 1, 1⟩, ⟨0x1c8, 0x1c8, 1, 1⟩, ⟨0x1cb, 0x1cb, 1, 1⟩,
     ⟨0x1f2, 0x1f2, 1, 1⟩, ⟨0x3f4, 0x3f4, 1, -60⟩, ⟨0x1e9e, 0x1e9e, 1, -7615⟩,
     ⟨0x2126, 0x2126, 1, -7517⟩, ⟨0x212a, 0x212a, 1, -8383⟩, ⟨0x212b, 0x212b, 1, -8262⟩]

def upperRanges : List CaseRange :=
  letterPairs.map .back ++
    [⟨0xb5, 0xb5, 1, 743⟩, ⟨0x131, 0x131, 1, -232⟩, ⟨0x17f, 0x17f, 1, -300⟩, ⟨0x1c5, 0x1c5, 1, -1⟩,
     ⟨0x1c8, 0x1c8, 1, -1⟩, ⟨0x1cb, 0x1cb, 1, -1⟩, ⟨0x1f2, 0x1f2, 1, -1⟩, ⟨0x345, 0x345, 1, 84⟩,
     ⟨0x3c2, 0x3c2, 1, -31⟩, ⟨0x3d0, 0x3d0, 1, -62⟩, ⟨0x3d1, 0x3d1, 1, -57⟩, ⟨0x3d5, 0x3d5, 1, -47⟩,
     ⟨0x3d6, 0x3d6, 1, -54⟩, ⟨0x3f0, 0x3f0, 1, -86⟩, ⟨0x3f1, 0x3f1, 1, -80⟩, ⟨0x3f5, 0x3f5, 1, -96⟩,
     ⟨0x1c80, 0x1c80, 1, -6254⟩, ⟨0x1c81, 0x1c81, 1, -6253⟩, ⟨0x1c82, 0x1c82, 1, -6244⟩,
     ⟨0x1c83, 0x1c84, 1, -6242⟩, ⟨0x1c85, 0x1c85, 1, -6243⟩, ⟨0x1c86, 0x1c86, 1, -6236⟩,
     ⟨0x1c87, 0x1c87, 1, -6181⟩, ⟨0x1c88, 0x1c88, 1, 35266⟩, ⟨0x1e9b, 0x1e9b, 1, -59⟩,
     ⟨0x1fbe, 0x1fbe, 1, -7205⟩]

def lowerRune (r : Nat) : Nat := convert lowerRanges r

def upperRune (r : Nat) : Nat := convert upperRanges r

theorem convert_high {ranges : List CaseRange} {exceptions : List Nat}
    (h : ∀ c ∈ ranges, c.hi < 0x80 ∨ (0x80 : Int) ≤ c.lo + c.delta ∨ (c.lo = c.hi ∧ c.lo ∈
      exceptions)) (hr : 0x80 ≤ r) (hnot : r ∉ exceptions) : 0x80 ≤ convert ranges r := by
  unfold convert
  split
  · next c hc =>
    have hholds : c.Holds r := by simpa using List.find?_some hc
    obtain ⟨hlo, hhi, -⟩ := hholds
    rcases h c (List.mem_of_find?_eq_some hc) with hascii | hfar | ⟨hone, hmem⟩
    · omega
    · omega
    · exact absurd (by rwa [show r = c.lo by omega]) hnot
  · exact hr

theorem lower_high (hr : 0x80 ≤ r) (hnot : r ∉ [0x130, 0x212a]) :
    0x80 ≤ lowerRune r := convert_high (by decide +kernel) hr hnot

theorem upper_high (hr : 0x80 ≤ r) (hnot : r ∉ [0x131, 0x17f]) :
    0x80 ≤ upperRune r := convert_high (by decide +kernel) hr hnot

/-! ## The case maps -/

def lowerByte (b : UInt8) : UInt8 := if 0x41 ≤ b ∧ b ≤ 0x5A then b + 32 else b

def upperByte (b : UInt8) : UInt8 := if 0x61 ≤ b ∧ b ≤ 0x7A then b - 32 else b

theorem convert_ascii {c : CaseRange} {rest : List CaseRange} {byte : UInt8 → UInt8}
    (hrest : ∀ d ∈ rest, 0x80 ≤ d.lo)
    (h : ∀ n < 0x80, IsAscii (byte (.ofNat n)) ∧ convert [c] n = (byte (.ofNat n)).toNat)
    (b : UInt8) (hb : IsAscii b) :
    IsAscii (byte b) ∧ convert (c :: rest) b.toNat = (byte b).toNat := by
  have hnone : rest.find? (fun d => d.Holds b.toNat) = none := by
    refine List.find?_eq_none.mpr fun d hd => ?_
    rw [decide_eq_true_eq]
    exact fun hholds => absurd (Nat.lt_of_le_of_lt hholds.1 hb) (Nat.not_lt.mpr (hrest d hd))
  have hfirst : convert (c :: rest) b.toNat = convert [c] b.toNat := by
    unfold convert
    rw [List.find?_cons, List.find?_cons, hnone, List.find?_nil]
  have hbyte := h b.toNat hb
  rw [UInt8.ofNat_toNat] at hbyte
  rwa [hfirst]

theorem ite_high {b b' lo hi : UInt8} (hhi : IsAscii hi) (hb : ¬ IsAscii b) :
    ¬ IsAscii (if lo ≤ b ∧ b ≤ hi then b' else b) := by
  rw [if_neg]
  · exact hb
  · exact fun h => hb (Nat.lt_of_le_of_lt (UInt8.le_iff_toNat_le.mp h.2) hhi)

def lower : CaseMap where
  rune := lowerRune
  byte := lowerByte
  ascii := convert_ascii (by decide +kernel) (by decide +kernel)
  high := fun _ => ite_high (by decide)

def upper : CaseMap where
  rune := upperRune
  byte := upperByte
  ascii := convert_ascii (by decide +kernel) (by decide +kernel)
  high := fun _ => ite_high (by decide)

theorem isMark_of_exceptions {κ : CaseMap} {exceptions : List Nat} {letters : List UInt8}
    (hhigh : ∀ r, 0x80 ≤ r → r ∉ exceptions → 0x80 ≤ κ.rune r)
    (hletters : ∀ r ∈ exceptions, .ofNat (κ.rune r) ∈ letters)
    (h : ∀ a ∈ mark, IsAscii a ∧ a ∉ letters) : κ.IsMark mark := by
  intro a ha
  obtain ⟨hascii, hnot⟩ := h a ha
  refine ⟨hascii, fun r hr heq => ?_⟩
  by_cases hex : r ∈ exceptions
  · have hletter := hletters r hex
    rw [heq, UInt8.ofNat_toNat] at hletter
    exact hnot hletter
  · have hge := hhigh r hr hex
    rw [heq] at hge
    exact absurd hascii (Nat.not_lt.mpr hge)

theorem isMark_lower (h : ∀ a ∈ mark, IsAscii a ∧ a ∉ [0x69, 0x6b]) : lower.IsMark mark :=
  isMark_of_exceptions (fun _ => lower_high) (by decide +kernel) h

theorem isMark_upper (h : ∀ a ∈ mark, IsAscii a ∧ a ∉ [0x49, 0x53]) : upper.IsMark mark :=
  isMark_of_exceptions (fun _ => upper_high) (by decide +kernel) h

/-! ## White space -/

section DropSeqs

variable {α : Type} [DecidableEq α] {seqs : List (List α)}
variable {a : α}

/-- `s` after its first `skip` letters, without the sequences it then starts with. -/
def dropSeqsFrom (seqs : List (List α)) : Nat → List α → List α
  | _, [] => []
  | skip + 1, _ :: s => dropSeqsFrom seqs skip s
  | 0, a :: s => match Lines.sepAt seqs (a :: s) with
    | none => a :: s
    | some q => dropSeqsFrom seqs (q.length - 1) s

/-- `s` without the sequences it starts with. -/
def dropSeqs (seqs : List (List α)) (s : List α) : List α := dropSeqsFrom seqs 0 s

theorem dropSeqsFrom_eq (seqs : List (List α)) (skip : Nat) (s : List α) :
    dropSeqsFrom seqs skip s = dropSeqs seqs (s.drop skip) := by
  induction s generalizing skip with
  | nil => simp [dropSeqsFrom, dropSeqs]
  | cons a s ih =>
    cases skip with
    | zero => rfl
    | succ skip => exact ih skip

theorem dropSeqs_cons_none {s : List α} (h : Lines.sepAt seqs (a :: s) = none) :
    dropSeqs seqs (a :: s) = a :: s := by
  simp only [dropSeqs, dropSeqsFrom, h]

theorem dropSeqs_cons_some {s q : List α} (h : Lines.sepAt seqs (a :: s) = some q) :
    dropSeqs seqs (a :: s) = dropSeqs seqs (s.drop (q.length - 1)) := by
  rw [← dropSeqsFrom_eq]
  simp only [dropSeqs, dropSeqsFrom, h]

theorem dropSeqs_suffix (seqs : List (List α)) (s : List α) : dropSeqs seqs s <:+ s := by
  induction hn : s.length using Nat.strong_induction_on generalizing s with
  | _ n ih =>
    cases s with
    | nil => exact List.suffix_rfl
    | cons a s =>
      cases h : Lines.sepAt seqs (a :: s) with
      | none =>
        rw [dropSeqs_cons_none h]
      | some q =>
        rw [dropSeqs_cons_some h]
        have hshort : (s.drop (q.length - 1)).length < n := by
          rw [List.length_drop, ← hn, List.length_cons]
          exact Nat.lt_succ_of_le (Nat.sub_le _ _)
        exact (ih _ hshort (s.drop (q.length - 1)) rfl).trans
          ((List.drop_suffix _ _).trans (List.suffix_cons a s))

theorem sepAt_append_quiet (ha : ∀ q ∈ seqs, a ∉ q) (y x : List α) :
    Lines.sepAt seqs (y ++ a :: x) = Lines.sepAt seqs y := by
  cases h : Lines.sepAt seqs (y ++ a :: x) with
  | none => exact (Lines.sepAt_none_of_prefix (List.prefix_append _ _) h).symm
  | some q =>
    obtain ⟨hq, hprefix⟩ := Lines.sepAt_mem h
    refine (Lines.sepAt_of_prefix (List.prefix_append _ _) h ?_).symm
    refine List.prefix_of_prefix_length_le hprefix (List.prefix_append _ _) ?_
    by_contra hlong
    have hya : y ++ [a] <+: q := by
      refine List.prefix_of_prefix_length_le ⟨x, by simp⟩ hprefix ?_
      rw [List.length_append, List.length_singleton]
      exact Nat.not_le.mp hlong
    exact ha q hq (hya.subset (by simp))

theorem dropSeqs_append_quiet (ha : ∀ q ∈ seqs, q ≠ [] ∧ a ∉ q) (y x : List α) :
    dropSeqs seqs (y ++ a :: x) = dropSeqs seqs y ++ a :: x := by
  have hsep := sepAt_append_quiet (fun q hq => (ha q hq).2)
  induction hn : y.length using Nat.strong_induction_on generalizing y with
  | _ n ih =>
    cases y with
    | nil =>
      refine dropSeqs_cons_none ((hsep [] x).trans (Lines.sepAt_eq_none.mpr fun q hq h => ?_))
      exact (ha q hq).1 (List.prefix_nil.mp h)
    | cons c y =>
      have hc := hsep (c :: y) x
      rw [List.cons_append] at hc ⊢
      cases h : Lines.sepAt seqs (c :: y) with
      | none =>
        rw [dropSeqs_cons_none (hc.trans h), dropSeqs_cons_none h, List.cons_append]
      | some q =>
        have hlength := (Lines.sepAt_mem h).2.length_le
        rw [List.length_cons] at hlength
        rw [dropSeqs_cons_some (hc.trans h), dropSeqs_cons_some h,
          List.drop_append_of_le_length (by omega)]
        exact ih _ (by rw [List.length_drop, ← hn, List.length_cons]; omega) _ rfl

theorem dropSeqs_snoc {b : α} (hb : ∀ q ∈ seqs, b ∈ q → q = [b]) {y : List α}
    (hne : dropSeqs seqs y ≠ []) : dropSeqs seqs (y ++ [b]) = dropSeqs seqs y ++ [b] := by
  induction hn : y.length using Nat.strong_induction_on generalizing y with
  | _ n ih =>
    cases y with
    | nil => exact absurd rfl hne
    | cons c y =>
      have hc := Lines.sepAt_snoc hb c y
      cases h : Lines.sepAt seqs (c :: y) with
      | none =>
        rw [List.cons_append, dropSeqs_cons_none (hc.trans h), dropSeqs_cons_none h,
          List.cons_append]
      | some q =>
        have hlength := (Lines.sepAt_mem h).2.length_le
        rw [List.length_cons] at hlength
        rw [dropSeqs_cons_some h] at hne
        rw [List.cons_append, dropSeqs_cons_some (hc.trans h), dropSeqs_cons_some h,
          List.drop_append_of_le_length (by omega)]
        exact ih _ (by rw [List.length_drop, ← hn, List.length_cons]; omega) hne rfl

end DropSeqs

/-- The characters for which `unicode.IsSpace` holds. -/
def spaceRunes : List Nat :=
  [0x09, 0x0A, 0x0B, 0x0C, 0x0D, 0x20, 0x85, 0xA0, 0x1680, 0x2000, 0x2001, 0x2002, 0x2003, 0x2004,
   0x2005, 0x2006, 0x2007, 0x2008, 0x2009, 0x200A, 0x2028, 0x2029, 0x202F, 0x205F, 0x3000]

def spaces : List (List UInt8) := spaceRunes.map encodeRune

def trimLeftSpace (s : List UInt8) : List UInt8 := dropSeqs spaces s

def trimRightSpace (s : List UInt8) : List UInt8 :=
  (dropSeqs (spaces.map List.reverse) s.reverse).reverse

def trimSpace (s : List UInt8) : List UInt8 := trimRightSpace (trimLeftSpace s)

def fields (s : List UInt8) : List (List UInt8) := (Lines.split spaces s).filter (· ≠ [])

/-- A byte that no white space is written with. -/
def IsSolid (b : UInt8) : Prop := ∀ q ∈ spaces, b ∉ q

instance (b : UInt8) : Decidable (IsSolid b) := inferInstanceAs (Decidable (∀ q ∈ spaces, b ∉ q))

theorem spaces_ne_nil : ∀ q ∈ spaces, q ≠ [] := by
  intro q hq
  obtain ⟨r, -, rfl⟩ := List.mem_map.mp hq
  exact encodeRune_ne_nil r

theorem trimLeftSpace_append {b : UInt8} (hb : IsSolid b) (y x : List UInt8) :
    trimLeftSpace (y ++ b :: x) = trimLeftSpace y ++ b :: x :=
  dropSeqs_append_quiet (fun q hq => ⟨spaces_ne_nil q hq, hb q hq⟩) y x

theorem trimRightSpace_append {b : UInt8} (hb : IsSolid b) (x y : List UInt8) :
    trimRightSpace (x ++ b :: y) = x ++ b :: trimRightSpace y := by
  have hquiet : ∀ q ∈ spaces.map List.reverse, q ≠ [] ∧ b ∉ q := by
    intro q hq
    obtain ⟨q, hspace, rfl⟩ := List.mem_map.mp hq
    exact ⟨fun h => spaces_ne_nil q hspace (List.reverse_eq_nil_iff.mp h),
      fun h => hb q hspace (List.mem_reverse.mp h)⟩
  have h := dropSeqs_append_quiet hquiet y.reverse x.reverse
  unfold trimRightSpace
  rw [List.reverse_append, List.reverse_cons, List.append_assoc, List.singleton_append, h]
  simp

theorem trimRightSpace_prefix_self (s : List UInt8) : trimRightSpace s <+: s := by
  have h := dropSeqs_suffix (spaces.map List.reverse) s.reverse
  rw [← List.reverse_prefix, List.reverse_reverse] at h
  exact h

theorem trimSpace_snoc_newline {s : List UInt8} (h : trimSpace s ≠ []) :
    trimSpace (s ++ [0x0A]) = trimSpace s := by
  have honly : ∀ q ∈ spaces, 0x0A ∈ q → q = [0x0A] := by decide
  have hleft : trimLeftSpace s ≠ [] := by
    intro hnil
    rw [trimSpace, hnil] at h
    exact h rfl
  have hsep : ∀ t, Lines.sepAt (spaces.map List.reverse) (0x0A :: t) = some [0x0A] := fun _ => rfl
  rw [trimSpace, trimLeftSpace, dropSeqs_snoc honly hleft, trimRightSpace,
    List.reverse_append, List.reverse_singleton, List.singleton_append, dropSeqs_cons_some (hsep _)]
  rfl

theorem trimSpace_frame {a b : UInt8} (ha : IsSolid a) (hb : IsSolid b) (x y : List UInt8) :
    trimSpace (a :: x ++ b :: y) = a :: x ++ b :: trimRightSpace y := by
  have hleft : trimLeftSpace (a :: x ++ b :: y) = a :: x ++ b :: y :=
    trimLeftSpace_append ha [] (x ++ b :: y)
  rw [trimSpace, hleft, trimRightSpace_append hb]

end GoText
