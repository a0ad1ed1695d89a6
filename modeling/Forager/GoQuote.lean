import Mathlib.Data.Bool.AllAny
import Forager.JsonDecode

/-!
# Go string literals read as JSON

`strconv.Quote`, which is `%q` of `fmt` for a string, and the literals it writes
read by the scanner of `encoding/json`. Both put a string between double quotes
and escape with a backslash, but they do not have the same escape sequences.

`IsPrint` is exact up to U+00FF. The table of the characters above is a
parameter: which of them are printable does not matter below U+10000.
-/

namespace GoQuote

open JsonText GoJson

/-! ## Quoting -/

section Quoting

variable (wide : Char → Bool)

/-- `strconv.IsPrint`; `wide` is its table above U+00FF. -/
def isPrint (c : Char) : Bool :=
  if c.toNat ≤ 0xFF then
    (0x20 ≤ c.toNat ∧ c.toNat < 0x7F) ∨ (0xA1 ≤ c.toNat ∧ c.toNat ≠ 0xAD)
  else wide c

/-- The characters with an escape letter of their own. -/
def letters : List (Char × Char) :=
  [(Char.ofNat 0x07, 'a'), (Char.ofNat 0x08, 'b'), (Char.ofNat 0x0C, 'f'), (Char.ofNat 0x0A, 'n'),
   (Char.ofNat 0x0D, 'r'), (Char.ofNat 0x09, 't'), (Char.ofNat 0x0B, 'v')]

/-- The last `k` hexadecimal digits of a number, in lower case. -/
def hex : Nat → Nat → List Char
  | 0, _ => []
  | k + 1, n => hex k (n / 16) ++ [Nat.digitChar (n % 16)]

def escapedRune (c : Char) : List Char :=
  if c = dquote ∨ c = backslash then [backslash, c]
  else if isPrint wide c then [c]
  else
    match letters.lookup c with
    | some l => [backslash, l]
    | none =>
      if c.toNat < 0x20 ∨ c.toNat = 0x7F then backslash :: 'x' :: hex 2 c.toNat
      else if c.toNat < 0x10000 then backslash :: 'u' :: hex 4 c.toNat
      else backslash :: 'U' :: hex 8 c.toNat

/-- The literal after its opening quote. -/
def quoteTail (cs : List Char) : List Char := cs.flatMap (escapedRune wide) ++ [dquote]

def quote (s : String) : String := String.ofList (dquote :: quoteTail wide s.toList)

/-! ## The escapes that JSON has too -/

/-- The control characters with an escape letter in both. -/
def sharedControls : List Char :=
  [Char.ofNat 0x08, Char.ofNat 0x0C, Char.ofNat 0x0A, Char.ofNat 0x0D, Char.ofNat 0x09]

/-- The character is printed, or its escape sequence is one of JSON. -/
def Shared (c : Char) : Prop :=
  (c.toNat < 0x20 ∨ c.toNat = 0x7F → c ∈ sharedControls) ∧
    (0x10000 ≤ c.toNat → isPrint wide c = true)

instance decidableShared (c : Char) : Decidable (Shared wide c) :=
  inferInstanceAs (Decidable (_ ∧ _))

end Quoting

variable {wide : Char → Bool} {c : Char}

theorem isPrint_bounds (h : isPrint wide c = true) : 0x20 ≤ c.toNat ∧ c.toNat ≠ 0x7F := by
  unfold isPrint at h
  split at h
  · simp only [decide_eq_true_eq] at h
    omega
  · omega

/-- What `escapedRune` writes: an item of a JSON string that means the character,
or an escape sequence with a letter that JSON does not know. -/
inductive Written (wide : Char → Bool) (c : Char) : Prop
  | item (i : StrItem) (shared : Shared wide c) (text : escapedRune wide c = i.print)
      (means : ∀ s, unquote (i :: s) = c :: unquote s)
  | foreign (e : Char) (t : List Char) (own : ¬ Shared wide c)
      (text : escapedRune wide c = backslash :: e :: t) (letter : e ∈ ['a', 'v', 'x', 'U'])

theorem written_letter {l : Char} (hp : isPrint wide c = false)
    (hq : ¬ (c = dquote ∨ c = backslash)) (h : letters.lookup c = some l) : Written wide c := by
  have htext : escapedRune wide c = [backslash, l] := by
    rw [escapedRune, if_neg hq, hp, h]
    rfl
  obtain ⟨l₁, l₂, hl, -⟩ := List.lookup_eq_some_iff.mp h
  have hmem : (c, l) ∈ letters := by
    rw [hl]
    exact List.mem_append_right _ List.mem_cons_self
  simp only [letters, List.mem_cons, Prod.mk.injEq, List.not_mem_nil, or_false] at hmem
  obtain ⟨rfl, rfl⟩ | ⟨rfl, rfl⟩ | ⟨rfl, rfl⟩ | ⟨rfl, rfl⟩ | ⟨rfl, rfl⟩ | ⟨rfl, rfl⟩ | ⟨rfl, rfl⟩ :=
    hmem
  · exact .foreign 'a' [] (fun hs => absurd (hs.1 (by decide)) (by decide)) htext (by decide)
  · exact .item (.esc .b) ⟨fun _ => by decide, fun hw => absurd hw (by decide)⟩ htext fun _ => rfl
  · exact .item (.esc .f) ⟨fun _ => by decide, fun hw => absurd hw (by decide)⟩ htext fun _ => rfl
  · exact .item (.esc .n) ⟨fun _ => by decide, fun hw => absurd hw (by decide)⟩ htext fun _ => rfl
  · exact .item (.esc .r) ⟨fun _ => by decide, fun hw => absurd hw (by decide)⟩ htext fun _ => rfl
  · exact .item (.esc .t) ⟨fun _ => by decide, fun hw => absurd hw (by decide)⟩ htext fun _ => rfl
  · exact .foreign 'v' [] (fun hs => absurd (hs.1 (by decide)) (by decide)) htext (by decide)

theorem mem_letters_of_shared : ∀ c ∈ sharedControls, (letters.lookup c).isSome = true :=
  List.all_iff_forall_prop.mp (by decide)

theorem written_number (hp : isPrint wide c = false) (hq : ¬ (c = dquote ∨ c = backslash))
    (h : letters.lookup c = none) : Written wide c := by
  have hrune : escapedRune wide c =
      if c.toNat < 0x20 ∨ c.toNat = 0x7F then backslash :: 'x' :: hex 2 c.toNat
      else if c.toNat < 0x10000 then backslash :: 'u' :: hex 4 c.toNat
      else backslash :: 'U' :: hex 8 c.toNat := by
    rw [escapedRune, if_neg hq, hp, h]
    rfl
  have hcontrol : c ∉ sharedControls := by
    intro hc
    have hsome := mem_letters_of_shared c hc
    rw [h] at hsome
    exact Bool.noConfusion hsome
  split at hrune
  case isTrue hx => exact .foreign 'x' _ (fun hs => hcontrol (hs.1 hx)) hrune (by decide)
  case isFalse hx =>
    split at hrune
    case isTrue hu =>
      refine .item (unicodeItem c.toNat) ⟨fun h => absurd h hx, fun h => absurd h (by omega)⟩
        ?_ fun s => ?_
      · rw [hrune]
        simp [hex, unicodeItem, hexDigit, StrItem.print, Nat.div_div_eq_div_mul]
      · rw [unquote_unicodeItem hu (isSurrogate_toNat c), Char.ofNat_toNat]
    case isFalse hu =>
      refine .foreign 'U' _ (fun hs => ?_) hrune (by decide)
      rw [hs.2 (Nat.le_of_not_lt hu)] at hp
      exact Bool.noConfusion hp

theorem written (wide : Char → Bool) (c : Char) : Written wide c := by
  by_cases hq : c = dquote ∨ c = backslash
  · obtain rfl | rfl := hq
    · exact .item (.esc .quote) ⟨fun h => absurd h (by decide), fun h => absurd h (by decide)⟩ rfl
        fun _ => rfl
    · exact .item (.esc .backslash) ⟨fun h => absurd h (by decide), fun h => absurd h (by decide)⟩
        rfl fun _ => rfl
  · cases hp : isPrint wide c with
    | true =>
      have hbounds := isPrint_bounds hp
      have hplain : isPlain c = true := by
        simpa [isPlain, hbounds.1] using hq
      refine .item (.plain c hplain) ⟨fun h => ?_, fun _ => hp⟩ ?_ fun _ => rfl
      · omega
      · rw [escapedRune, if_neg hq, if_pos hp]
        rfl
    | false =>
      cases hl : letters.lookup c with
      | some l => exact written_letter hp hq hl
      | none => exact written_number hp hq hl

/-! ## Reading -/

theorem readStr_quoteTail {cs : List Char} (h : ∀ c ∈ cs, Shared wide c) (r : List Char) :
    ∃ items, readStr (quoteTail wide cs ++ r) = some (items, r) ∧ unquote items = cs := by
  induction cs with
  | nil => exact ⟨[], readStr_dquote r, rfl⟩
  | cons c cs ih =>
    obtain ⟨hc, hcs⟩ := List.forall_mem_cons.mp h
    obtain ⟨items, hread, hitems⟩ := ih hcs
    cases written wide c with
    | foreign e t own => exact absurd hc own
    | item i _ text means =>
      refine ⟨i :: items, ?_, by rw [means, hitems]⟩
      rw [quoteTail, List.flatMap_cons, text, List.append_assoc, List.append_assoc, readStr_item,
        ← List.append_assoc, ← quoteTail, hread]
      rfl

theorem readStr_foreign {e : Char} (he : e ∈ ['a', 'v', 'x', 'U']) (s : List Char) :
    readStr (backslash :: e :: s) = none := by
  have hunknown : ∀ e ∈ ['a', 'v', 'x', 'U'], e ≠ 'u' ∧ Esc.ofLetter e = none :=
    List.all_iff_forall_prop.mp (by decide)
  obtain ⟨hu, hletter⟩ := hunknown e he
  have hbd : backslash ≠ dquote := by decide
  rw [readStr.eq_def]
  simp only [hbd, hu, hletter, if_false, if_true]
  rfl

theorem readStr_quoteTail_none {cs : List Char} (h : ∃ c ∈ cs, ¬ Shared wide c) (r : List Char) :
    readStr (quoteTail wide cs ++ r) = none := by
  induction cs with
  | nil => simp at h
  | cons c cs ih =>
    rw [quoteTail, List.flatMap_cons, List.append_assoc, List.append_assoc,
      ← List.append_assoc _ _ r, ← quoteTail]
    cases written wide c with
    | foreign e t _ text letter =>
      rw [text]
      exact readStr_foreign letter _
    | item i shared text =>
      obtain ⟨d, hd, hown⟩ := h
      have hd' : d ∈ cs := (List.mem_cons.mp hd).resolve_left fun he => hown (he ▸ shared)
      rw [text, readStr_item, ih ⟨d, hd', hown⟩]
      rfl

end GoQuote
