import Mathlib.Data.Bool.AllAny
import Mathlib.Data.List.Infix
import Mathlib.Tactic.Common

/-!
# Searching case-mapped text

Go strings are byte lists. `index` and `lastIndex` are `strings.Index` and
`strings.LastIndex`. `mapRunes` is `strings.Map`, which decodes UTF-8, maps each
character and encodes the result, so a character may get longer or shorter and
an invalid byte becomes the three bytes of U+FFFD.

A `CaseMap` is a map of characters that keeps ASCII within ASCII; its `byte`
maps the ASCII bytes alone and leaves every position where it is.
-/

namespace GoText

/-- A Go string or `[]byte`. -/
abbrev Bytes := List UInt8

def ascii (s : String) : Bytes := s.toList.map fun c => UInt8.ofNat c.toNat

def lf : UInt8 := 10

def cr : UInt8 := 13

variable {b : UInt8} {a : UInt8}

/-! ## Occurrences -/

section Occurrences

variable {α : Type}

/-- `sub` occurs in `s` after `i` letters. -/
def OccursAt (s sub : List α) (i : Nat) : Prop := ∃ u v, s = u ++ sub ++ v ∧ u.length = i

variable [DecidableEq α]
variable {s sub : List α} {i : Nat} {a : α}

def index : List α → List α → Option Nat
  | [], sub => if sub = [] then some 0 else none
  | a :: s, sub => if sub <+: a :: s then some 0 else (index s sub).map (· + 1)

def lastIndex : List α → List α → Option Nat
  | [], sub => if sub = [] then some 0 else none
  | a :: s, sub => match lastIndex s sub with
    | some i => some (i + 1)
    | none => if sub <+: a :: s then some 0 else none

omit [DecidableEq α] in
theorem occursAt_zero : OccursAt s sub 0 ↔ sub <+: s := by
  constructor
  · rintro ⟨u, v, rfl, hu⟩
    rw [List.length_eq_zero_iff] at hu
    subst hu
    exact List.prefix_append sub v
  · rintro ⟨v, rfl⟩
    exact ⟨[], v, rfl, rfl⟩

omit [DecidableEq α] in
theorem occursAt_cons_succ : OccursAt (a :: s) sub (i + 1) ↔ OccursAt s sub i := by
  constructor
  · rintro ⟨u, v, h, hu⟩
    obtain ⟨b, u, rfl⟩ := List.exists_cons_of_length_eq_add_one hu
    rw [List.cons_append, List.cons_append, List.cons.injEq] at h
    exact ⟨u, v, h.2, Nat.succ.inj hu⟩
  · rintro ⟨u, v, rfl, rfl⟩
    exact ⟨a :: u, v, rfl, rfl⟩

omit [DecidableEq α] in
theorem occursAt_nil {sub : List α} : OccursAt [] sub i ↔ sub = [] ∧ i = 0 := by
  constructor
  · rintro ⟨u, v, h, rfl⟩
    obtain ⟨hu, -⟩ := List.append_eq_nil_iff.mp h.symm
    obtain ⟨rfl, rfl⟩ := List.append_eq_nil_iff.mp hu
    exact ⟨rfl, rfl⟩
  · rintro ⟨rfl, rfl⟩
    exact ⟨[], [], rfl, rfl⟩

theorem index_spec (s sub : List α) : match index s sub with
    | some i => OccursAt s sub i ∧ ∀ j, OccursAt s sub j → i ≤ j
    | none => ∀ j, ¬ OccursAt s sub j := by
  induction s with
  | nil =>
    rw [index]
    split_ifs with hsub
    · exact ⟨occursAt_nil.mpr ⟨hsub, rfl⟩, fun j _ => Nat.zero_le j⟩
    · exact fun j h => hsub (occursAt_nil.mp h).1
  | cons a s ih =>
    rw [index]
    split_ifs with hsub
    · exact ⟨occursAt_zero.mpr hsub, fun j _ => Nat.zero_le j⟩
    · cases hi : index s sub with
      | none =>
        rw [hi] at ih
        rintro (_ | j) h
        · exact hsub (occursAt_zero.mp h)
        · exact ih j (occursAt_cons_succ.mp h)
      | some i =>
        rw [hi] at ih
        refine ⟨occursAt_cons_succ.mpr ih.1, ?_⟩
        rintro (_ | j) h
        · exact absurd (occursAt_zero.mp h) hsub
        · exact Nat.succ_le_succ (ih.2 j (occursAt_cons_succ.mp h))

theorem lastIndex_spec (s sub : List α) : match lastIndex s sub with
    | some i => OccursAt s sub i ∧ ∀ j, OccursAt s sub j → j ≤ i
    | none => ∀ j, ¬ OccursAt s sub j := by
  induction s with
  | nil =>
    rw [lastIndex]
    split_ifs with hsub
    · exact ⟨occursAt_nil.mpr ⟨hsub, rfl⟩, fun j h => (occursAt_nil.mp h).2.le⟩
    · exact fun j h => hsub (occursAt_nil.mp h).1
  | cons a s ih =>
    rw [lastIndex]
    cases hi : lastIndex s sub with
    | some i =>
      rw [hi] at ih
      refine ⟨occursAt_cons_succ.mpr ih.1, ?_⟩
      rintro (_ | j) h
      · exact Nat.zero_le _
      · exact Nat.succ_le_succ (ih.2 j (occursAt_cons_succ.mp h))
    | none =>
      rw [hi] at ih
      have hlater : ∀ j, OccursAt (a :: s) sub j → j = 0 := by
        rintro (_ | j) h
        · rfl
        · exact absurd (occursAt_cons_succ.mp h) (ih j)
      dsimp only
      split_ifs with hsub
      · exact ⟨occursAt_zero.mpr hsub, fun j h => (hlater j h).le⟩
      · intro j h
        obtain rfl := hlater j h
        exact hsub (occursAt_zero.mp h)

theorem index_eq_some (hi : OccursAt s sub i) (hmin : ∀ j, OccursAt s sub j → i ≤ j) :
    index s sub = some i := by
  have hspec := index_spec s sub
  cases h : index s sub with
  | none =>
    rw [h] at hspec
    exact absurd hi (hspec i)
  | some j =>
    rw [h] at hspec
    rw [Nat.le_antisymm (hspec.2 i hi) (hmin j hspec.1)]

theorem index_transfer {s t sub : List α} {φ : Nat → Nat}
    (h : ∀ j, OccursAt t sub j ↔ ∃ i, OccursAt s sub i ∧ φ i = j)
    (hmono : ∀ i i', OccursAt s sub i → OccursAt s sub i' → i ≤ i' → φ i ≤ φ i') :
    index t sub = (index s sub).map φ := by
  have hs := index_spec s sub
  have ht := index_spec t sub
  cases hi : index s sub with
  | none =>
    rw [hi] at hs
    cases hj : index t sub with
    | none => rfl
    | some j =>
      rw [hj] at ht
      obtain ⟨i, hocc, -⟩ := (h j).mp ht.1
      exact absurd hocc (hs i)
  | some i =>
    rw [hi] at hs
    refine index_eq_some ((h _).mpr ⟨i, hs.1, rfl⟩) fun j hj => ?_
    obtain ⟨i', hocc, rfl⟩ := (h j).mp hj
    exact hmono i i' hs.1 hocc (hs.2 i' hocc)

theorem lastIndex_transfer {s t sub : List α} {φ : Nat → Nat}
    (h : ∀ j, OccursAt t sub j ↔ ∃ i, OccursAt s sub i ∧ φ i = j)
    (hmono : ∀ i i', OccursAt s sub i → OccursAt s sub i' → i ≤ i' → φ i ≤ φ i') :
    lastIndex t sub = (lastIndex s sub).map φ := by
  have hs := lastIndex_spec s sub
  have ht := lastIndex_spec t sub
  cases hi : lastIndex s sub with
  | none =>
    rw [hi] at hs
    cases hj : lastIndex t sub with
    | none => rfl
    | some j =>
      rw [hj] at ht
      obtain ⟨i, hocc, -⟩ := (h j).mp ht.1
      exact absurd hocc (hs i)
  | some i =>
    rw [hi] at hs
    have hocc := (h (φ i)).mpr ⟨i, hs.1, rfl⟩
    cases hj : lastIndex t sub with
    | none =>
      rw [hj] at ht
      exact absurd hocc (ht _)
    | some j =>
      rw [hj] at ht
      obtain ⟨i', hocc', rfl⟩ := (h j).mp ht.1
      exact congrArg some
        (Nat.le_antisymm (hmono i' i hocc' hs.1 (hs.2 i' hocc')) (ht.2 _ hocc))

theorem index_le (h : index s sub = some i) : i + sub.length ≤ s.length := by
  have hspec := index_spec s sub
  rw [h] at hspec
  obtain ⟨⟨u, v, rfl, rfl⟩, -⟩ := hspec
  rw [List.length_append, List.length_append]
  exact Nat.le_add_right _ _

theorem lastIndex_le (h : lastIndex s sub = some i) : i + sub.length ≤ s.length := by
  have hspec := lastIndex_spec s sub
  rw [h] at hspec
  obtain ⟨⟨u, v, rfl, rfl⟩, -⟩ := hspec
  rw [List.length_append, List.length_append]
  exact Nat.le_add_right _ _

/-! ## One letter -/

theorem index_letter {w : List α} (hw : a ∉ w) (t : List α) :
    index (w ++ a :: t) [a] = some w.length := by
  induction w with
  | nil => simp [index]
  | cons b w ih =>
    rw [List.mem_cons, not_or] at hw
    rw [List.cons_append, index, if_neg, ih hw.2]
    · rfl
    · rw [List.cons_prefix_cons]
      exact fun h => hw.1 h.1

theorem index_letter_none {s : List α} (hs : a ∉ s) : index s [a] = none := by
  induction s with
  | nil => simp [index]
  | cons b s ih =>
    rw [List.mem_cons, not_or] at hs
    rw [index, if_neg, ih hs.2]
    · rfl
    · rw [List.cons_prefix_cons]
      exact fun h => hs.1 h.1

omit [DecidableEq α] in
theorem eq_append_cons_of_last {s : List α} (h : a ∈ s) : ∃ w t, s = w ++ a :: t ∧ a ∉ t := by
  obtain ⟨t, w, hs, ht⟩ := List.eq_append_cons_of_mem (List.mem_reverse.mpr h)
  refine ⟨w.reverse, t.reverse, ?_, fun hmem => ht (List.mem_reverse.mp hmem)⟩
  rw [← List.reverse_reverse s, hs]
  simp

theorem lastIndex_letter_none {s : List α} (hs : a ∉ s) : lastIndex s [a] = none := by
  induction s with
  | nil => simp [lastIndex]
  | cons b s ih =>
    rw [List.mem_cons, not_or] at hs
    rw [lastIndex, ih hs.2]
    refine if_neg ?_
    rw [List.cons_prefix_cons]
    exact fun h => hs.1 h.1

theorem lastIndex_letter {t : List α} (ht : a ∉ t) (w : List α) :
    lastIndex (w ++ a :: t) [a] = some w.length := by
  induction w with
  | nil => simp [lastIndex, lastIndex_letter_none ht]
  | cons b w ih => rw [List.cons_append, lastIndex, ih, List.length_cons]

theorem lastIndex_letter_some {s : List α} (h : lastIndex s [a] = some i) :
    ∃ w t, s = w ++ a :: t ∧ a ∉ t ∧ w.length = i := by
  by_cases hs : a ∈ s
  · obtain ⟨w, t, rfl, ht⟩ := eq_append_cons_of_last hs
    rw [lastIndex_letter ht, Option.some_inj] at h
    exact ⟨w, t, rfl, ht, h⟩
  · rw [lastIndex_letter_none hs] at h
    cases h

end Occurrences

/-! ## UTF-8 -/

def runeError : Nat := 0xFFFD

/-- Byte `i` of `t`, and zero, which continues no character, past the end. -/
def byteAt (t : List UInt8) (i : Nat) : Nat := (t.getD i 0).toNat

def IsCont (c : Nat) : Prop := 0x80 ≤ c ∧ c ≤ 0xBF

instance (c : Nat) : Decidable (IsCont c) := inferInstanceAs (Decidable (_ ∧ _))

/-- The second bytes that Go accepts after the first byte `lead`. -/
def IsSecond (lead c : Nat) : Prop :=
  (if lead = 0xE0 then 0xA0 else if lead = 0xF0 then 0x90 else 0x80) ≤ c ∧
  c ≤ (if lead = 0xED then 0x9F else if lead = 0xF4 then 0x8F else 0xBF)

instance (lead c : Nat) : Decidable (IsSecond lead c) := inferInstanceAs (Decidable (_ ∧ _))

/-- `utf8.DecodeRune`: the first character and its width. -/
def decodeRune : List UInt8 → Nat × Nat
  | [] => (runeError, 0)
  | b :: t =>
    let lead := b.toNat
    let c := byteAt t 0
    let d := byteAt t 1
    let e := byteAt t 2
    if lead < 0x80 then (lead, 1)
    else if 0xC2 ≤ lead ∧ lead ≤ 0xDF ∧ IsCont c then
      ((lead - 0xC0) * 64 + (c - 0x80), 2)
    else if 0xE0 ≤ lead ∧ lead ≤ 0xEF ∧ IsSecond lead c ∧ IsCont d then
      ((lead - 0xE0) * 4096 + (c - 0x80) * 64 + (d - 0x80), 3)
    else if 0xF0 ≤ lead ∧ lead ≤ 0xF4 ∧ IsSecond lead c ∧ IsCont d ∧ IsCont e then
      ((lead - 0xF0) * 262144 + (c - 0x80) * 4096 + (d - 0x80) * 64 + (e - 0x80), 4)
    else (runeError, 1)

/-- `utf8.AppendRune`: a value that is no character is written as `runeError`. -/
def encodeRune (r : Nat) : List UInt8 :=
  if r < 0x80 then [.ofNat r]
  else if r < 0x800 then [.ofNat (0xC0 + r / 64), .ofNat (0x80 + r % 64)]
  else if (0xD800 ≤ r ∧ r ≤ 0xDFFF) ∨ 0x10FFFF < r then [0xEF, 0xBF, 0xBD]
  else if r < 0x10000 then
    [.ofNat (0xE0 + r / 4096), .ofNat (0x80 + r / 64 % 64), .ofNat (0x80 + r % 64)]
  else
    [.ofNat (0xF0 + r / 262144), .ofNat (0x80 + r / 4096 % 64), .ofNat (0x80 + r / 64 % 64),
      .ofNat (0x80 + r % 64)]

def utf8 (s : String) : Bytes := s.toList.flatMap fun c => encodeRune c.toNat

/-- The mapped text after the first `skip` bytes. -/
def mapRunesFrom (κ : Nat → Nat) : Nat → List UInt8 → List UInt8
  | _, [] => []
  | skip + 1, _ :: s => mapRunesFrom κ skip s
  | 0, b :: s =>
    let rune := decodeRune (b :: s)
    encodeRune (κ rune.1) ++ mapRunesFrom κ (rune.2 - 1) s

def mapRunes (κ : Nat → Nat) (s : List UInt8) : List UInt8 := mapRunesFrom κ 0 s

theorem mapRunesFrom_eq (κ : Nat → Nat) (skip : Nat) (s : List UInt8) :
    mapRunesFrom κ skip s = mapRunes κ (s.drop skip) := by
  induction s generalizing skip with
  | nil => simp [mapRunesFrom, mapRunes]
  | cons b s ih =>
    cases skip with
    | zero => rfl
    | succ skip => exact ih skip

theorem mapRunes_cons (κ : Nat → Nat) (b : UInt8) (s : List UInt8) :
    mapRunes κ (b :: s) = encodeRune (κ (decodeRune (b :: s)).1) ++
      mapRunes κ (s.drop ((decodeRune (b :: s)).2 - 1)) := by
  rw [← mapRunesFrom_eq]
  rfl

def IsAscii (b : UInt8) : Prop := b.toNat < 0x80

instance (b : UInt8) : Decidable (IsAscii b) := inferInstanceAs (Decidable (_ < _))

theorem decodeRune_ascii (hb : IsAscii b) (s : List UInt8) :
    decodeRune (b :: s) = (b.toNat, 1) := if_pos hb

theorem decodeRune_high (hb : ¬ IsAscii b) (s : List UInt8) : 0x80 ≤ (decodeRune (b :: s)).1 := by
  unfold IsAscii at hb
  simp only [decodeRune]
  rw [if_neg hb]
  split_ifs with h2 h3 h4
  · simp only [IsCont] at h2 ⊢
    omega
  · simp only [IsSecond] at h3
    split_ifs at h3 <;> simp only <;> omega
  · simp only [IsSecond] at h4
    split_ifs at h4 <;> simp only <;> omega
  · decide

theorem lt_length_of_byteAt {t : List UInt8} {i : Nat} (h : byteAt t i ≠ 0) : i < t.length := by
  by_contra hi
  exact h (by simp [byteAt, List.getElem?_eq_none (Nat.not_lt.mp hi)])

theorem lt_length_of_isCont {t : List UInt8} {i : Nat} (h : IsCont (byteAt t i)) :
    i < t.length := lt_length_of_byteAt fun hz => absurd h.1 (by rw [hz]; decide)

theorem decodeRune_width (b : UInt8) (t : List UInt8) :
    (decodeRune (b :: t)).2 - 1 ≤ t.length := by
  simp only [decodeRune]
  split_ifs with h1 h2 h3 h4
  · exact Nat.zero_le _
  · exact lt_length_of_isCont h2.2.2
  · exact lt_length_of_isCont h3.2.2.2
  · exact lt_length_of_isCont h4.2.2.2.2
  · exact Nat.zero_le _

theorem not_isCont_of_ascii (ha : IsAscii a) : ¬ IsCont a.toNat :=
  fun h => Nat.not_le.mpr ha h.1

theorem not_isSecond_of_ascii (ha : IsAscii a) (lead : Nat) : ¬ IsSecond lead a.toNat := by
  unfold IsAscii at ha
  unfold IsSecond
  split_ifs <;> omega

theorem not_isSecond_zero (lead : Nat) : ¬ IsSecond lead 0 := by
  unfold IsSecond
  split_ifs <;> omega

theorem not_isCont_zero : ¬ IsCont 0 := by decide

theorem decodeRune_append (ha : IsAscii a) (t y : List UInt8) :
    decodeRune (b :: (t ++ a :: y)) = decodeRune (b :: t) := by
  have hc := not_isCont_of_ascii ha
  have hs := not_isSecond_of_ascii ha
  -- The first byte that is not a continuation decides, and it is `a` at the latest.
  rcases t with _ | ⟨c, _ | ⟨d, _ | ⟨e, t⟩⟩⟩
  · simp [decodeRune, byteAt, hc, hs, not_isSecond_zero, not_isCont_zero]
  · simp [decodeRune, byteAt, hc, not_isCont_zero]
  · simp [decodeRune, byteAt, hc, not_isCont_zero]
  · simp [decodeRune, byteAt]

theorem encodeRune_ascii {r : Nat} (hr : r < 0x80) : encodeRune r = [.ofNat r] := if_pos hr

theorem encodeRune_ne_nil (r : Nat) : encodeRune r ≠ [] := by
  unfold encodeRune
  split_ifs <;> exact List.cons_ne_nil _ _

theorem encodeRune_prefix {r n : Nat} (hr : r < 0xD800) {y z : List UInt8}
    (h : encodeRune r ++ z = encodeRune n ++ y) : r = n := by
  have hbytes := congrArg (List.map UInt8.toNat) h
  unfold encodeRune at hbytes
  split_ifs at hbytes <;> simp at hbytes <;> omega

theorem encodeRune_high {r : Nat} (hr : 0x80 ≤ r) : ∀ b ∈ encodeRune r, ¬ IsAscii b := by
  unfold encodeRune IsAscii
  rw [if_neg (Nat.not_lt.mpr hr)]
  split_ifs <;> simp <;> omega

/-! ## Case maps -/

/-- A map of characters that keeps ASCII within ASCII, and the same map on bytes,
which leaves a byte of any other character alone. -/
structure CaseMap where
  rune : Nat → Nat
  byte : UInt8 → UInt8
  ascii : ∀ b, IsAscii b → IsAscii (byte b) ∧ rune b.toNat = (byte b).toNat
  high : ∀ b, ¬ IsAscii b → ¬ IsAscii (byte b)

namespace CaseMap

variable (κ : CaseMap)

/-- The mapped text: `strings.ToLower` and its like. -/
def map (s : List UInt8) : List UInt8 := mapRunes κ.rune s

/-- The text with its ASCII letters mapped in place. -/
def inPlace (s : List UInt8) : List UInt8 := s.map κ.byte

/-- An ASCII text to which the map takes no other character. -/
def IsMark (mark : List UInt8) : Prop :=
  ∀ a ∈ mark, IsAscii a ∧ ∀ r, 0x80 ≤ r → κ.rune r ≠ a.toNat

variable {κ}
variable {mark : List UInt8}

theorem map_nil : κ.map [] = [] := rfl

theorem map_cons_ascii {b : UInt8} (hb : IsAscii b) (s : List UInt8) :
    κ.map (b :: s) = κ.byte b :: κ.map s := by
  obtain ⟨hbyte, hrune⟩ := κ.ascii b hb
  show mapRunes κ.rune (b :: s) = _
  rw [mapRunes_cons, decodeRune_ascii hb, hrune, encodeRune_ascii hbyte, UInt8.ofNat_toNat]
  rfl

theorem map_eq_nil {s : List UInt8} (h : κ.map s = []) : s = [] := by
  cases s with
  | nil => rfl
  | cons b s =>
    have hcons := mapRunes_cons κ.rune b s
    rw [show mapRunes κ.rune (b :: s) = [] from h] at hcons
    exact absurd (List.append_eq_nil_iff.mp hcons.symm).1 (encodeRune_ne_nil _)

theorem map_append {a : UInt8} (ha : IsAscii a) (x y : List UInt8) :
    κ.map (x ++ a :: y) = κ.map x ++ κ.map (a :: y) := by
  induction hn : x.length using Nat.strong_induction_on generalizing x with
  | _ n ih =>
    cases x with
    | nil => rfl
    | cons b t =>
      show mapRunes κ.rune (b :: (t ++ a :: y)) = mapRunes κ.rune (b :: t) ++ _
      have hdecode := decodeRune_append (b := b) ha t y
      have hwidth : (decodeRune (b :: t)).2 - 1 ≤ t.length := decodeRune_width b t
      rw [mapRunes_cons, mapRunes_cons, hdecode, List.drop_append_of_le_length hwidth,
        List.append_assoc]
      congr 1
      exact ih _ (by rw [List.length_drop, ← hn, List.length_cons]; omega) _ rfl

theorem exists_byte_of_map {a : UInt8} (ha : IsAscii a) (hmark : ∀ r, 0x80 ≤ r → κ.rune r ≠ a.toNat)
    {q u v : List UInt8} (h : κ.map q = u ++ a :: v) :
    ∃ x b y, q = x ++ b :: y ∧ IsAscii b ∧ κ.byte b = a ∧ κ.map x = u ∧ κ.map y = v := by
  induction hn : q.length using Nat.strong_induction_on generalizing q u with
  | _ n ih =>
    cases q with
    | nil => exact absurd h.symm (List.append_ne_nil_of_right_ne_nil _ (List.cons_ne_nil _ _))
    | cons b t =>
      have hcons := mapRunes_cons κ.rune b t
      rw [show mapRunes κ.rune (b :: t) = u ++ a :: v from h] at hcons
      set r := (decodeRune (b :: t)).1 with hr
      set k := (decodeRune (b :: t)).2 - 1 with hk
      have hwidth : k ≤ t.length := decodeRune_width b t
      -- Either the byte is past the first character, or it is all of it.
      have hlater : ∀ u', u = encodeRune (κ.rune r) ++ u' →
          mapRunes κ.rune (t.drop k) = u' ++ a :: v →
          ∃ x b' y, b :: t = x ++ b' :: y ∧ IsAscii b' ∧ κ.byte b' = a ∧ κ.map x = u ∧
            κ.map y = v := by
        rintro u' rfl hrest
        obtain ⟨x, b', y, hq, hb', hbyte, hx, hy⟩ := ih (t.drop k).length
          (by rw [List.length_drop, ← hn, List.length_cons]; omega) hrest rfl
        have ht : t = (t.take k ++ x) ++ b' :: y := by
          rw [List.append_assoc, ← hq, List.take_append_drop]
        refine ⟨b :: (t.take k ++ x), b', y, congrArg (b :: ·) ht, hb', hbyte, ?_, hy⟩
        have hdecode : decodeRune (b :: (t.take k ++ x)) = decodeRune (b :: t) := by
          conv_rhs => rw [ht]
          exact (decodeRune_append hb' _ y).symm
        show mapRunes κ.rune (b :: (t.take k ++ x)) = _
        rw [mapRunes_cons, hdecode, ← hr, ← hk]
        have hdrop : (t.take k ++ x).drop k = x := by
          rw [List.drop_append_of_le_length (by rw [List.length_take, min_eq_left hwidth]),
            List.drop_take, Nat.sub_self, List.take_zero, List.nil_append]
        rw [hdrop]
        exact congrArg _ hx
      rcases List.append_eq_append_iff.mp hcons with ⟨e, henc, hrest⟩ | ⟨u', hu, hrest⟩
      · cases e with
        | nil =>
          rw [List.append_nil] at henc
          exact hlater [] (by rw [List.append_nil, henc]) hrest.symm
        | cons a' e =>
          obtain ⟨rfl, hv⟩ := List.cons.inj hrest
          have hlow : κ.rune r < 0x80 := by
            by_contra hhigh
            exact encodeRune_high (Nat.not_lt.mp hhigh) a (by rw [henc]; simp) ha
          rw [encodeRune_ascii hlow] at henc
          obtain ⟨rfl, hae⟩ : u = [] ∧ [UInt8.ofNat (κ.rune r)] = a :: e := by
            cases u with
            | nil => exact ⟨rfl, henc⟩
            | cons c u => simp at henc
          obtain ⟨hra, rfl⟩ := List.cons.inj hae
          have hrune : κ.rune r = a.toNat := by
            rw [← hra, UInt8.toNat_ofNat_of_lt' (hlow.trans (by decide))]
          have hb : IsAscii b := by
            by_contra hhigh
            exact hmark r (decodeRune_high hhigh t) hrune
          rw [decodeRune_ascii hb] at hr hk
          refine ⟨[], b, t, rfl, hb, ?_, rfl, ?_⟩
          · rw [hr, (κ.ascii b hb).2] at hrune
            exact UInt8.toNat_inj.mp hrune
          · rw [hv, hk]
            rfl
      · exact hlater u' hu hrest

theorem exists_mark_of_map (hmark : κ.IsMark mark) {q u v : List UInt8} (hne : mark ≠ [])
    (h : κ.map q = u ++ mark ++ v) :
    ∃ x m y, q = x ++ m ++ y ∧ (∀ b ∈ m, IsAscii b) ∧ κ.inPlace m = mark ∧ κ.map x = u ∧
      κ.map y = v := by
  induction mark generalizing q u with
  | nil => exact absurd rfl hne
  | cons a mark ih =>
    obtain ⟨⟨ha, hfrom⟩, hrest⟩ := List.forall_mem_cons.mp hmark
    rw [List.append_assoc, List.cons_append] at h
    obtain ⟨x, b, y, rfl, hb, rfl, hx, hy⟩ := exists_byte_of_map ha hfrom h
    rcases eq_or_ne mark [] with rfl | hmark'
    · exact ⟨x, [b], y, by simp, by simpa using hb, rfl, hx, hy⟩
    · obtain ⟨x', m, y', rfl, hm, rfl, hx', hy'⟩ := ih hrest hmark' (u := []) hy
      obtain rfl := map_eq_nil hx'
      exact ⟨x, b :: m, y', by simp, List.forall_mem_cons.mpr ⟨hb, hm⟩, rfl, hx, hy'⟩

theorem map_ascii_append {m : List UInt8} (hm : ∀ b ∈ m, IsAscii b) (y : List UInt8) :
    κ.map (m ++ y) = κ.inPlace m ++ κ.map y := by
  induction m with
  | nil => rfl
  | cons b m ih =>
    obtain ⟨hb, hm⟩ := List.forall_mem_cons.mp hm
    rw [List.cons_append, map_cons_ascii hb, ih hm]
    rfl

theorem ascii_of_inPlace {mark m : List UInt8} (hmark : κ.IsMark mark)
    (h : κ.inPlace m = mark) : ∀ b ∈ m, IsAscii b := by
  intro b hb
  by_contra hhigh
  have hmem : κ.byte b ∈ mark := h ▸ List.mem_map_of_mem hb
  exact κ.high b hhigh (hmark _ hmem).1

theorem map_append_mark (hmark : κ.IsMark mark) (hne : mark ≠ []) {m : List UInt8}
    (hm : κ.inPlace m = mark) (x y : List UInt8) :
    κ.map (x ++ m ++ y) = κ.map x ++ mark ++ κ.map y := by
  have hascii := ascii_of_inPlace hmark hm
  cases m with
  | nil => exact absurd hm.symm hne
  | cons b m =>
    rw [List.append_assoc, List.cons_append, map_append (hascii b List.mem_cons_self),
      ← List.cons_append, map_ascii_append hascii, hm, List.append_assoc]

theorem occursAt_inPlace {s mark : List UInt8} {i : Nat} :
    OccursAt (κ.inPlace s) mark i ↔
      ∃ x m y, s = x ++ m ++ y ∧ κ.inPlace m = mark ∧ x.length = i := by
  constructor
  · rintro ⟨u, v, h, rfl⟩
    obtain ⟨xm, y, rfl, hxm, -⟩ := List.map_eq_append_iff.mp h
    obtain ⟨x, m, rfl, rfl, hm⟩ := List.map_eq_append_iff.mp hxm
    exact ⟨x, m, y, rfl, hm, (List.length_map _).symm⟩
  · rintro ⟨x, m, y, rfl, rfl, rfl⟩
    exact ⟨κ.inPlace x, κ.inPlace y, by simp [inPlace], List.length_map _⟩

/-- The offset in the mapped text of what follows the first `i` bytes. -/
def offset (κ : CaseMap) (s : List UInt8) (i : Nat) : Nat := (κ.map (s.take i)).length

theorem occursAt_map (hmark : κ.IsMark mark) (hne : mark ≠ []) (s : List UInt8) (j : Nat) :
    OccursAt (κ.map s) mark j ↔ ∃ i, OccursAt (κ.inPlace s) mark i ∧ κ.offset s i = j := by
  constructor
  · rintro ⟨u, v, h, rfl⟩
    obtain ⟨x, m, y, rfl, -, hm, rfl, -⟩ := exists_mark_of_map hmark hne h
    refine ⟨x.length, occursAt_inPlace.mpr ⟨x, m, y, rfl, hm, rfl⟩, ?_⟩
    rw [offset, List.append_assoc, List.take_left]
  · rintro ⟨i, h, rfl⟩
    obtain ⟨x, m, y, rfl, hm, rfl⟩ := occursAt_inPlace.mp h
    refine ⟨κ.map x, κ.map y, map_append_mark hmark hne hm x y, ?_⟩
    rw [offset, List.append_assoc, List.take_left]

theorem offset_mono (hmark : κ.IsMark mark) (hne : mark ≠ []) {s : List UInt8} {i i' : Nat}
    (hi : OccursAt (κ.inPlace s) mark i) (hle : i ≤ i') : κ.offset s i ≤ κ.offset s i' := by
  obtain ⟨x, m, y, rfl, hm, rfl⟩ := occursAt_inPlace.mp hi
  have hascii := ascii_of_inPlace hmark hm
  unfold offset
  rw [List.append_assoc, List.take_left]
  obtain ⟨k, rfl⟩ := Nat.exists_eq_add_of_le hle
  rw [List.take_length_add_append]
  cases hk : (m ++ y).take k with
  | nil => rw [List.append_nil]
  | cons b z =>
    have hb : IsAscii b := by
      cases m with
      | nil => exact absurd hm.symm hne
      | cons b' m =>
        cases k with
        | zero => cases hk
        | succ k =>
          obtain ⟨rfl, -⟩ := List.cons.inj hk
          exact hascii b' List.mem_cons_self
    rw [map_append hb, List.length_append]
    exact Nat.le_add_right _ _

theorem index_map (hmark : κ.IsMark mark) (hne : mark ≠ []) (s : List UInt8) :
    index (κ.map s) mark = (index (κ.inPlace s) mark).map (κ.offset s) :=
  index_transfer (occursAt_map hmark hne s) fun _ _ hi _ hle => offset_mono hmark hne hi hle

theorem lastIndex_map (hmark : κ.IsMark mark) (hne : mark ≠ []) (s : List UInt8) :
    lastIndex (κ.map s) mark = (lastIndex (κ.inPlace s) mark).map (κ.offset s) :=
  lastIndex_transfer (occursAt_map hmark hne s) fun _ _ hi _ hle => offset_mono hmark hne hi hle

theorem isPrefix_map (hmark : κ.IsMark mark) (hne : mark ≠ []) (s : List UInt8) :
    mark <+: κ.map s ↔ mark <+: κ.inPlace s := by
  rw [← occursAt_zero, ← occursAt_zero, occursAt_map hmark hne]
  constructor
  · rintro ⟨i, hi, hoff⟩
    have htake : s.take i = [] := map_eq_nil (List.length_eq_zero_iff.mp hoff)
    rcases List.take_eq_nil_iff.mp htake with rfl | rfl
    · exact hi
    · exact absurd (occursAt_nil.mp hi).1 hne
  · exact fun h => ⟨0, h, rfl⟩

end CaseMap

end GoText
