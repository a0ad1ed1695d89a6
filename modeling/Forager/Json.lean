import Mathlib.Data.List.Basic
import Mathlib.Tactic.Common

/-!
# JSON texts

The concrete syntax of JSON as the scanner of Go's `encoding/json` accepts it.
A `Json` keeps number literals and string escapes as they are written and
forgets white space only, so it also stands for a `json.RawMessage`. Texts are
lists of characters.
-/

namespace JsonText

/-! ## Numbers -/

def isDigit (c : Char) : Bool := '0' ≤ c ∧ c ≤ '9'

def isNumChar (c : Char) : Bool := isDigit c ∨ c ∈ ['-', '+', '.', 'e', 'E']

inductive NumState
  | start | neg | zero | int | dot | frac | exp | expSign | expDigits
deriving DecidableEq, Repr

namespace NumState

/-- One more character of a number. -/
def step (s : NumState) (c : Char) : Option NumState :=
  match s with
  | start =>
    if c = '-' then some neg
    else if c = '0' then some zero
    else if isDigit c then some int else none
  | neg => if c = '0' then some zero else if isDigit c then some int else none
  | zero => fraction c
  | int => if isDigit c then some int else fraction c
  | dot => if isDigit c then some frac else none
  | frac => if isDigit c then some frac else exponent c
  | exp => if c ∈ ['+', '-'] then some expSign else if isDigit c then some expDigits else none
  | expSign => if isDigit c then some expDigits else none
  | expDigits => if isDigit c then some expDigits else none
where
  exponent (c : Char) : Option NumState := if c ∈ ['e', 'E'] then some exp else none
  fraction (c : Char) : Option NumState := if c = '.' then some dot else exponent c

def final : NumState → Bool
  | zero | int | frac | expDigits => true
  | _ => false

def steps (s : NumState) : List Char → Option NumState
  | [] => some s
  | c :: cs => (s.step c).bind (steps · cs)

end NumState

def isNumber (cs : List Char) : Bool := (NumState.start.steps cs).any (·.final)

structure NumLit where
  text : List Char
  valid : isNumber text = true
deriving DecidableEq, Repr

/-! ## Strings -/

def dquote : Char := Char.ofNat 0x22

def backslash : Char := Char.ofNat 0x5C

def isPlain (c : Char) : Bool := 0x20 ≤ c.toNat ∧ c ≠ dquote ∧ c ≠ backslash

inductive Esc
  | quote | backslash | slash | b | f | n | r | t
deriving DecidableEq, Repr

def Esc.letter : Esc → Char
  | .quote => dquote
  | .backslash => JsonText.backslash
  | .slash => '/'
  | .b => 'b'
  | .f => 'f'
  | .n => 'n'
  | .r => 'r'
  | .t => 't'

def Esc.ofLetter (c : Char) : Option Esc :=
  [Esc.quote, .backslash, .slash, .b, .f, .n, .r, .t].find? (·.letter = c)

def isHex (c : Char) : Bool := isDigit c ∨ ('a' ≤ c ∧ c ≤ 'f') ∨ ('A' ≤ c ∧ c ≤ 'F')

structure Hex where
  char : Char
  valid : isHex char = true
deriving DecidableEq, Repr

inductive StrItem
  | plain (c : Char) (h : isPlain c = true)
  | esc (e : Esc)
  | unicode (a b c d : Hex)
deriving DecidableEq, Repr

/-- A string literal, without its quotes. -/
abbrev StrLit := List StrItem

/-! ## Trees -/

inductive Json
  | null
  | bool (b : Bool)
  | num (n : NumLit)
  | str (s : StrLit)
  | arr (xs : List Json)
  | obj (ms : List (StrLit × Json))

variable {r : List Char} {c : Char} {x : Json} {n : Nat}

def StrItem.print : StrItem → List Char
  | .plain c _ => [c]
  | .esc e => [backslash, e.letter]
  | .unicode a b c d => [backslash, 'u', a.char, b.char, c.char, d.char]

def printStr (s : StrLit) : List Char := s.flatMap StrItem.print ++ [dquote]

def lbrace : Char := Char.ofNat 0x7B

def rbrace : Char := Char.ofNat 0x7D

mutual
def print : Json → List Char
  | .null => ['n', 'u', 'l', 'l']
  | .bool true => ['t', 'r', 'u', 'e']
  | .bool false => ['f', 'a', 'l', 's', 'e']
  | .num n => n.text
  | .str s => dquote :: printStr s
  | .arr [] => ['[', ']']
  | .arr (x :: xs) => '[' :: (print x ++ printElements xs)
  | .obj [] => [lbrace, rbrace]
  | .obj ((k, x) :: ms) => lbrace :: dquote :: (printStr k ++ ':' :: (print x ++ printMembers ms))

def printElements : List Json → List Char
  | [] => [']']
  | x :: xs => ',' :: (print x ++ printElements xs)

def printMembers : List (StrLit × Json) → List Char
  | [] => [rbrace]
  | (k, x) :: ms => ',' :: dquote :: (printStr k ++ ':' :: (print x ++ printMembers ms))
end

mutual
/-- How deep arrays and objects are nested. -/
def depth : Json → Nat
  | .arr xs => depthElements xs + 1
  | .obj ms => depthMembers ms + 1
  | _ => 0

def depthElements : List Json → Nat
  | [] => 0
  | x :: xs => max (depth x) (depthElements xs)

def depthMembers : List (StrLit × Json) → Nat
  | [] => 0
  | (_, x) :: ms => max (depth x) (depthMembers ms)
end

/-! ## Reading -/

def isSpace (c : Char) : Bool := c ∈ [' ', '\t', '\r', '\n']

def skipSpace (s : List Char) : List Char := s.dropWhile isSpace

def hex? (c : Char) : Option Hex := if h : isHex c = true then some ⟨c, h⟩ else none

/-- A string literal after its opening quote, and the text behind it. -/
def readStr : List Char → Option (StrLit × List Char)
  | [] => none
  | c :: s =>
    if c = dquote then some ([], s)
    else if c = backslash then
      match s with
      | [] => none
      | e :: s =>
        if e = 'u' then
          match s with
          | a :: b :: c :: d :: s => do
            let item := StrItem.unicode (← hex? a) (← hex? b) (← hex? c) (← hex? d)
            let (items, s) ← readStr s
            some (item :: items, s)
          | _ => none
        else do
          let e ← Esc.ofLetter e
          let (items, s) ← readStr s
          some (.esc e :: items, s)
    else if h : isPlain c = true then do
      let (items, s) ← readStr s
      some (.plain c h :: items, s)
    else none

def readWord (word : List Char) (j : Json) (s : List Char) : Option (Json × List Char) :=
  if word.isPrefixOf s then some (j, s.drop word.length) else none

def readNum (s : List Char) : Option (Json × List Char) :=
  if h : isNumber (s.takeWhile isNumChar) = true then
    some (.num ⟨_, h⟩, s.dropWhile isNumChar)
  else none

mutual
/-- A value and the text behind it; `n` bounds the recursion. -/
def readValue : Nat → List Char → Option (Json × List Char)
  | 0, _ => none
  | n + 1, s =>
    match skipSpace s with
    | [] => none
    | c :: s =>
      if c = '[' then
        match skipSpace s with
        | [] => none
        | c :: s =>
          if c = ']' then some (.arr [], s)
          else do
            let (x, s) ← readValue n (c :: s)
            let (xs, s) ← readElements n s
            some (.arr (x :: xs), s)
      else if c = lbrace then
        match skipSpace s with
        | [] => none
        | c :: s =>
          if c = rbrace then some (.obj [], s)
          else do
            let (m, s) ← readMember n (c :: s)
            let (ms, s) ← readMembers n s
            some (.obj (m :: ms), s)
      else if c = dquote then (readStr s).map fun (items, s) => (.str items, s)
      else if c = 'n' then readWord ['u', 'l', 'l'] .null s
      else if c = 't' then readWord ['r', 'u', 'e'] (.bool true) s
      else if c = 'f' then readWord ['a', 'l', 's', 'e'] (.bool false) s
      else readNum (c :: s)

def readElements : Nat → List Char → Option (List Json × List Char)
  | 0, _ => none
  | n + 1, s =>
    match skipSpace s with
    | [] => none
    | c :: s =>
      if c = ']' then some ([], s)
      else if c = ',' then do
        let (x, s) ← readValue n s
        let (xs, s) ← readElements n s
        some (x :: xs, s)
      else none

def readMember : Nat → List Char → Option ((StrLit × Json) × List Char)
  | 0, _ => none
  | n + 1, s =>
    match skipSpace s with
    | [] => none
    | c :: s =>
      if c = dquote then do
        let (k, s) ← readStr s
        match skipSpace s with
        | [] => none
        | c :: s =>
          if c = ':' then do
            let (x, s) ← readValue n s
            some ((k, x), s)
          else none
      else none

def readMembers : Nat → List Char → Option (List (StrLit × Json) × List Char)
  | 0, _ => none
  | n + 1, s =>
    match skipSpace s with
    | [] => none
    | c :: s =>
      if c = rbrace then some ([], s)
      else if c = ',' then do
        let (m, s) ← readMember n s
        let (ms, s) ← readMembers n s
        some (m :: ms, s)
      else none
end

def maxNestingDepth : Nat := 10000

def parse (s : List Char) : Option Json := do
  let (j, rest) ← readValue (s.length + 1) s
  if skipSpace rest = [] ∧ depth j ≤ maxNestingDepth then some j else none

/-! ## What is printed reads back -/

theorem skipSpace_cons (h : isSpace c = false) (s : List Char) : skipSpace (c :: s) = c :: s := by
  simp [skipSpace, h]

theorem isNumChar_of_step {s s' : NumState} (h : s.step c = some s') : isNumChar c = true := by
  unfold isNumChar
  by_contra hc
  simp only [List.mem_cons, List.not_mem_nil, or_false, decide_eq_true_eq, not_or] at hc
  obtain ⟨hd, h1, h2, h3, h4, h5⟩ := hc
  have h0 : c ≠ '0' := fun h => hd (h ▸ by decide)
  cases s <;>
    simp only [NumState.step, NumState.step.fraction, NumState.step.exponent, List.mem_cons,
      List.not_mem_nil, hd, h0, h1, h2, h3, h4, h5, if_false, reduceCtorEq,
      Bool.false_eq_true, or_self] at h

theorem isNumChar_of_steps {s : NumState} {cs : List Char} (h : (s.steps cs).isSome) :
    ∀ c ∈ cs, isNumChar c = true := by
  induction cs generalizing s with
  | nil => simp
  | cons c cs ih =>
    cases hs : s.step c with
    | none => simp [NumState.steps, hs] at h
    | some s' =>
      rw [NumState.steps, hs] at h
      rw [List.forall_mem_cons]
      exact ⟨isNumChar_of_step hs, ih h⟩

theorem NumLit.numChars (n : NumLit) : ∀ c ∈ n.text, isNumChar c = true := by
  have h := n.valid
  unfold isNumber at h
  cases hs : NumState.start.steps n.text with
  | none => simp [hs] at h
  | some s => exact isNumChar_of_steps (s := .start) (by rw [hs]; rfl)

theorem NumLit.text_cons (n : NumLit) :
    ∃ c t, n.text = c :: t ∧ (c = '-' ∨ isDigit c = true) := by
  have h := n.valid
  unfold isNumber at h
  cases ht : n.text with
  | nil => simp [ht, NumState.steps, NumState.final] at h
  | cons c t =>
    refine ⟨c, t, rfl, ?_⟩
    by_contra hc
    obtain ⟨h1, h2⟩ := not_or.mp hc
    have h0 : c ≠ '0' := fun h => h2 (h ▸ by decide)
    simp [ht, NumState.steps, NumState.step, h1, h2, h0] at h

theorem numStart_ne (hc : c = '-' ∨ isDigit c = true) :
    isSpace c = false ∧ c ∉ [']', '[', lbrace, dquote, 'n', 't', 'f'] := by
  constructor
  · by_contra hs
    simp only [isSpace, List.mem_cons, List.not_mem_nil, or_false, Bool.not_eq_false,
      decide_eq_true_eq] at hs
    rcases hs with rfl | rfl | rfl | rfl <;> revert hc <;> decide
  · intro hmem
    simp only [List.mem_cons, List.not_mem_nil, or_false] at hmem
    rcases hmem with rfl | rfl | rfl | rfl | rfl | rfl | rfl <;> revert hc <;> decide

/-- The text `r` does not continue a number. -/
def Ends (r : List Char) : Prop := r.head?.all (!isNumChar ·) = true

theorem readNum_print (n : NumLit) (hr : Ends r) : readNum (n.text ++ r) = some (.num n, r) := by
  have htake : (n.text ++ r).takeWhile isNumChar = n.text := by
    rw [List.takeWhile_append_of_pos n.numChars]
    cases r with
    | nil => simp
    | cons c r =>
      have hc : isNumChar c = false := by simpa [Ends] using hr
      simp [hc]
  have hdrop : (n.text ++ r).dropWhile isNumChar = r := by
    rw [List.dropWhile_append_of_pos n.numChars]
    cases r with
    | nil => rfl
    | cons c r =>
      have hc : isNumChar c = false := by simpa [Ends] using hr
      simp [hc]
  unfold readNum
  simp [htake, hdrop, n.valid]

theorem readStr_dquote (s : List Char) : readStr (dquote :: s) = some ([], s) := by
  rw [readStr.eq_def]
  simp

theorem readStr_item (item : StrItem) (s : List Char) :
    readStr (item.print ++ s) = (readStr s).map fun r => (item :: r.1, r.2) := by
  have hbd : backslash ≠ dquote := by decide
  rw [readStr.eq_def]
  cases item with
  | plain c h =>
    have hc := h
    simp only [isPlain, decide_eq_true_eq] at hc
    simp only [StrItem.print, List.cons_append, List.nil_append, hc.2.1, hc.2.2, h, if_false,
      dif_pos]
    cases readStr s <;> rfl
  | esc e =>
    have he : Esc.ofLetter e.letter = some e := by cases e <;> decide
    have hu : e.letter ≠ 'u' := by cases e <;> decide
    simp only [StrItem.print, List.cons_append, List.nil_append, hbd, hu, he, if_false, if_true]
    cases readStr s <;> rfl
  | unicode a b c d =>
    have hhex : ∀ x : Hex, hex? x.char = some x := fun x => dif_pos x.valid
    simp only [StrItem.print, List.cons_append, List.nil_append, hbd, hhex, if_false, if_true]
    cases readStr s <;> rfl

theorem readStr_print (k : StrLit) (r : List Char) : readStr (printStr k ++ r) = some (k, r) := by
  induction k with
  | nil => exact readStr_dquote r
  | cons item k ih =>
    simp only [printStr, List.append_assoc, List.flatMap_cons] at ih ⊢
    rw [readStr_item, ih]
    rfl

theorem print_cons (j : Json) : ∃ c t, print j = c :: t ∧ isSpace c = false ∧ c ≠ ']' := by
  cases j with
  | null => exact ⟨_, _, rfl, by decide, by decide⟩
  | bool b => cases b <;> exact ⟨_, _, rfl, by decide, by decide⟩
  | num n =>
    obtain ⟨c, t, ht, hc⟩ := n.text_cons
    obtain ⟨hs, hne⟩ := numStart_ne hc
    exact ⟨c, t, ht, hs, fun h => hne (h ▸ List.mem_cons_self)⟩
  | str s => exact ⟨_, _, rfl, by decide, by decide⟩
  | arr xs => cases xs <;> exact ⟨_, _, rfl, by decide, by decide⟩
  | obj ms => cases ms <;> exact ⟨_, _, rfl, by decide, by decide⟩

theorem ends_printElements (xs : List Json) (r : List Char) : Ends (printElements xs ++ r) := by
  cases xs <;> simp [printElements, Ends, isNumChar, isDigit]

theorem ends_printMembers (ms : List (StrLit × Json)) (r : List Char) :
    Ends (printMembers ms ++ r) := by
  cases ms <;> simp [printMembers, Ends, isNumChar, isDigit, rbrace]

theorem readMember_print (k : StrLit) (h : readValue n (print x ++ r) = some (x, r)) :
    readMember (n + 1) (dquote :: (printStr k ++ ':' :: (print x ++ r))) = some ((k, x), r) := by
  rw [readMember, skipSpace_cons (by decide)]
  simp only [if_true]
  rw [readStr_print]
  simp only [Option.bind_eq_bind, Option.bind_some]
  rw [skipSpace_cons (by decide)]
  simp [h]

theorem readValue_num (l : NumLit) (n : Nat) (hr : Ends r) :
    readValue (n + 1) (print (.num l) ++ r) = some (.num l, r) := by
  obtain ⟨c, t, ht, hc⟩ := l.text_cons
  obtain ⟨hs, hne⟩ := numStart_ne hc
  simp only [List.mem_cons, List.not_mem_nil, or_false, not_or] at hne
  obtain ⟨-, h1, h2, h3, h4, h5, h6⟩ := hne
  have hnum := readNum_print l hr
  rw [print, readValue, ht, List.cons_append, skipSpace_cons hs]
  rw [ht, List.cons_append] at hnum
  simp only [h1, h2, h3, h4, h5, h6, if_false, hnum]

theorem readValue_str (s : StrLit) (n : Nat) (r : List Char) :
    readValue (n + 1) (print (.str s) ++ r) = some (.str s, r) := by
  rw [print, readValue, List.cons_append, skipSpace_cons (by decide)]
  simp only [show dquote ≠ '[' by decide, show dquote ≠ lbrace by decide, if_false, if_true]
  rw [readStr_print]
  rfl

theorem readValue_arr {xs : List Json}
    (hx : readValue n (print x ++ (printElements xs ++ r)) = some (x, printElements xs ++ r))
    (hxs : readElements n (printElements xs ++ r) = some (xs, r)) :
    readValue (n + 1) (print (.arr (x :: xs)) ++ r) = some (.arr (x :: xs), r) := by
  obtain ⟨c, t, hc, hs, hne⟩ := print_cons x
  rw [hc, List.cons_append] at hx
  rw [print, readValue, List.cons_append, skipSpace_cons (by decide), hc, List.append_assoc,
    List.cons_append]
  simp only [if_true]
  rw [skipSpace_cons hs]
  simp [hne, hx, hxs]

theorem readValue_obj {k : StrLit} {ms : List (StrLit × Json)}
    (hx : readMember n (dquote :: (printStr k ++ ':' :: (print x ++ (printMembers ms ++ r)))) =
      some ((k, x), printMembers ms ++ r))
    (hms : readMembers n (printMembers ms ++ r) = some (ms, r)) :
    readValue (n + 1) (print (.obj ((k, x) :: ms)) ++ r) = some (.obj ((k, x) :: ms), r) := by
  rw [print, readValue, List.cons_append, skipSpace_cons (by decide)]
  simp only [show lbrace ≠ '[' by decide, if_false, if_true, List.cons_append, List.append_assoc]
  rw [skipSpace_cons (by decide)]
  simp [show dquote ≠ rbrace by decide, hx, hms]

mutual
theorem readValue_print : ∀ (j : Json) (n : Nat) (r : List Char), (print j).length ≤ n → Ends r →
    readValue n (print j ++ r) = some (j, r)
  | j, 0, r => by
    obtain ⟨c, t, hc, -⟩ := print_cons j
    simp [hc]
  | .null, n + 1, r => fun _ _ => rfl
  | .bool true, n + 1, r => fun _ _ => rfl
  | .bool false, n + 1, r => fun _ _ => rfl
  | .num l, n + 1, r => fun _ hr => readValue_num l n hr
  | .str s, n + 1, r => fun _ _ => readValue_str s n r
  | .arr [], n + 1, r => fun _ _ => rfl
  | .arr (x :: xs), n + 1, r => fun hn _ => by
    simp only [print, List.length_cons, List.length_append] at hn
    exact readValue_arr (readValue_print x n _ (by omega) (ends_printElements xs r))
      (readElements_print xs n r (by omega))
  | .obj [], n + 1, r => fun _ _ => rfl
  | .obj ((k, x) :: ms), n + 1, r => fun hn _ => by
    simp only [print, List.length_cons, List.length_append] at hn
    obtain ⟨m, rfl⟩ : ∃ m, n = m + 1 := ⟨n - 1, by omega⟩
    exact readValue_obj
      (readMember_print k (readValue_print x m _ (by omega) (ends_printMembers ms r)))
      (readMembers_print ms (m + 1) r (by omega))

theorem readElements_print : ∀ (xs : List Json) (n : Nat) (r : List Char),
    (printElements xs).length ≤ n → readElements n (printElements xs ++ r) = some (xs, r)
  | xs, 0, r => by cases xs <;> simp [printElements]
  | [], n + 1, r => fun _ => rfl
  | x :: xs, n + 1, r => fun hn => by
    simp only [printElements, List.length_cons, List.length_append] at hn
    have hx := readValue_print x n _ (by omega) (ends_printElements xs r)
    have hxs := readElements_print xs n r (by omega)
    rw [printElements, readElements, List.cons_append, skipSpace_cons (by decide)]
    simp [hx, hxs]

theorem readMembers_print : ∀ (ms : List (StrLit × Json)) (n : Nat) (r : List Char),
    (printMembers ms).length ≤ n → readMembers n (printMembers ms ++ r) = some (ms, r)
  | ms, 0, r => by
    match ms with
    | [] => simp [printMembers]
    | (k, x) :: ms => simp [printMembers]
  | [], n + 1, r => fun _ => rfl
  | (k, x) :: ms, n + 1, r => fun hn => by
    simp only [printMembers, List.length_cons, List.length_append] at hn
    obtain ⟨m, rfl⟩ : ∃ m, n = m + 1 := ⟨n - 1, by omega⟩
    have hx := readMember_print k (readValue_print x m _ (by omega) (ends_printMembers ms r))
    have hms := readMembers_print ms (m + 1) r (by omega)
    rw [printMembers, readMembers, List.cons_append, skipSpace_cons (by decide)]
    simp [show ',' ≠ rbrace by decide, hx, hms]
end

theorem parse_print (j : Json) :
    parse (print j) = if depth j ≤ maxNestingDepth then some j else none := by
  have hread := readValue_print j ((print j).length + 1) [] (by omega) rfl
  rw [List.append_nil] at hread
  unfold parse
  rw [hread]
  exact if_congr (and_iff_right rfl) rfl rfl

end JsonText
