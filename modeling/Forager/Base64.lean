import Mathlib.Algebra.Ring.Nat
import Mathlib.Tactic.Common

/-!
# Base64

`base64.StdEncoding` of Go's standard library. The decoder skips carriage
returns and line feeds anywhere, asks for padding, and does not look at the
unused low bits of the last digit, so several texts decode to the same bytes.
-/

namespace Base64

def digit (v : Nat) : Char :=
  if v < 26 then Char.ofNat ('A'.toNat + v)
  else if v < 52 then Char.ofNat ('a'.toNat + (v - 26))
  else if v < 62 then Char.ofNat ('0'.toNat + (v - 52))
  else if v = 62 then '+' else '/'

def digitVal (c : Char) : Option Nat :=
  if 'A' ≤ c ∧ c ≤ 'Z' then some (c.toNat - 'A'.toNat)
  else if 'a' ≤ c ∧ c ≤ 'z' then some (c.toNat - 'a'.toNat + 26)
  else if '0' ≤ c ∧ c ≤ '9' then some (c.toNat - '0'.toNat + 52)
  else if c = '+' then some 62
  else if c = '/' then some 63
  else none

/-- `EncodeToString`: three bytes to four digits, the last group padded. -/
def encode : List UInt8 → List Char
  | [] => []
  | [a] =>
    let v := a.toNat * 2 ^ 16
    [digit (v / 2 ^ 18), digit (v / 2 ^ 12 % 64), '=', '=']
  | [a, b] =>
    let v := a.toNat * 2 ^ 16 + b.toNat * 2 ^ 8
    [digit (v / 2 ^ 18), digit (v / 2 ^ 12 % 64), digit (v / 2 ^ 6 % 64), '=']
  | a :: b :: c :: rest =>
    let v := a.toNat * 2 ^ 16 + b.toNat * 2 ^ 8 + c.toNat
    digit (v / 2 ^ 18) :: digit (v / 2 ^ 12 % 64) :: digit (v / 2 ^ 6 % 64) :: digit (v % 64) ::
      encode rest

def quantum (n d0 d1 d2 d3 : Nat) : List UInt8 :=
  let v := d0 * 2 ^ 18 + d1 * 2 ^ 12 + d2 * 2 ^ 6 + d3
  [UInt8.ofNat (v / 2 ^ 16), UInt8.ofNat (v / 2 ^ 8), UInt8.ofNat v].take n

/-- `decodeQuantum` after `decodeQuantum`, on a text without line breaks. -/
def decodeGroups : List Char → Option (List UInt8)
  | [] => some []
  | c0 :: c1 :: c2 :: c3 :: rest =>
    match digitVal c0, digitVal c1, digitVal c2, digitVal c3 with
    | some d0, some d1, some d2, some d3 =>
      (decodeGroups rest).map (quantum 3 d0 d1 d2 d3 ++ ·)
    | some d0, some d1, some d2, none =>
      if c3 = '=' ∧ rest = [] then some (quantum 2 d0 d1 d2 0) else none
    | some d0, some d1, none, none =>
      if c2 = '=' ∧ c3 = '=' ∧ rest = [] then some (quantum 1 d0 d1 0 0) else none
    | _, _, _, _ => none
  | _ => none

def isBreak (c : Char) : Bool := c = '\n' ∨ c = '\r'

def decode (s : List Char) : Option (List UInt8) := decodeGroups (s.filter (¬ isBreak ·))

/-! ## Round trip -/

theorem digitVal_digit : ∀ v < 64, digitVal (digit v) = some v := by decide

theorem isBreak_digit : ∀ v < 64, isBreak (digit v) = false := by decide

theorem digitVal_pad : digitVal '=' = none := by decide

theorem quantum_three (a b c : UInt8) :
    let v := a.toNat * 2 ^ 16 + b.toNat * 2 ^ 8 + c.toNat
    quantum 3 (v / 2 ^ 18) (v / 2 ^ 12 % 64) (v / 2 ^ 6 % 64) (v % 64) = [a, b, c] := by
  intro v
  have ha := a.toNat_lt
  have hb := b.toNat_lt
  have hc := c.toNat_lt
  have hv : v / 2 ^ 18 * 2 ^ 18 + v / 2 ^ 12 % 64 * 2 ^ 12 + v / 2 ^ 6 % 64 * 2 ^ 6 + v % 64 =
      v := by
    omega
  have h0 : UInt8.ofNat (v / 2 ^ 16) = a := by
    apply UInt8.toNat_inj.mp
    rw [UInt8.toNat_ofNat']
    omega
  have h1 : UInt8.ofNat (v / 2 ^ 8) = b := by
    apply UInt8.toNat_inj.mp
    rw [UInt8.toNat_ofNat']
    omega
  have h2 : UInt8.ofNat v = c := by
    apply UInt8.toNat_inj.mp
    rw [UInt8.toNat_ofNat']
    omega
  simp only [quantum, hv, h0, h1, h2]
  rfl

theorem quantum_take (n d0 d1 d2 d3 : Nat) :
    quantum n d0 d1 d2 d3 = (quantum 3 d0 d1 d2 d3).take n := by
  simp [quantum]

theorem decodeGroups_encode (bs : List UInt8) : decodeGroups (encode bs) = some bs := by
  induction bs using encode.induct with
  | case1 => rfl
  | case2 a =>
    have h := quantum_three a 0 0
    have ha := a.toNat_lt
    simp only [UInt8.toNat_zero, Nat.zero_mul, Nat.add_zero] at h
    rw [show a.toNat * 2 ^ 16 / 2 ^ 6 % 64 = 0 by omega,
      show a.toNat * 2 ^ 16 % 64 = 0 by omega] at h
    simp only [encode, decodeGroups,
      digitVal_digit _ (show a.toNat * 2 ^ 16 / 2 ^ 18 < 64 by omega),
      digitVal_digit _ (show a.toNat * 2 ^ 16 / 2 ^ 12 % 64 < 64 by omega), digitVal_pad, and_self,
      if_true]
    rw [quantum_take, h]
    rfl
  | case3 a b =>
    have h := quantum_three a b 0
    have ha := a.toNat_lt
    have hb := b.toNat_lt
    simp only [UInt8.toNat_zero, Nat.add_zero] at h
    rw [show (a.toNat * 2 ^ 16 + b.toNat * 2 ^ 8) % 64 = 0 by omega] at h
    simp only [encode, decodeGroups,
      digitVal_digit _ (show (a.toNat * 2 ^ 16 + b.toNat * 2 ^ 8) / 2 ^ 18 < 64 by omega),
      digitVal_digit _ (show (a.toNat * 2 ^ 16 + b.toNat * 2 ^ 8) / 2 ^ 12 % 64 < 64 by omega),
      digitVal_digit _ (show (a.toNat * 2 ^ 16 + b.toNat * 2 ^ 8) / 2 ^ 6 % 64 < 64 by omega),
      digitVal_pad, and_self, if_true]
    rw [quantum_take, h]
    rfl
  | case4 a b c rest ih =>
    have h := quantum_three a b c
    have ha := a.toNat_lt
    have hb := b.toNat_lt
    have hc := c.toNat_lt
    simp only [encode, decodeGroups, ih,
      digitVal_digit _ (show (a.toNat * 2 ^ 16 + b.toNat * 2 ^ 8 + c.toNat) / 2 ^ 18 < 64 by omega),
      digitVal_digit _ (show (a.toNat * 2 ^ 16 + b.toNat * 2 ^ 8 + c.toNat) / 2 ^ 12 % 64 < 64
        by omega),
      digitVal_digit _ (show (a.toNat * 2 ^ 16 + b.toNat * 2 ^ 8 + c.toNat) / 2 ^ 6 % 64 < 64
        by omega),
      digitVal_digit _ (show (a.toNat * 2 ^ 16 + b.toNat * 2 ^ 8 + c.toNat) % 64 < 64 by omega),
      Option.map_some]
    rw [h]
    rfl

theorem mem_encode {bs : List UInt8} {x : Char} (hx : x ∈ encode bs) :
    (∃ v < 64, x = digit v) ∨ x = '=' := by
  induction bs using encode.induct with
  | case1 => cases hx
  | case2 a =>
    have ha := a.toNat_lt
    simp only [encode, List.mem_cons, List.not_mem_nil, or_false] at hx
    rcases hx with hx | hx | hx | hx
    · exact .inl ⟨_, by omega, hx⟩
    · exact .inl ⟨_, by omega, hx⟩
    · exact .inr hx
    · exact .inr hx
  | case3 a b =>
    have ha := a.toNat_lt
    have hb := b.toNat_lt
    simp only [encode, List.mem_cons, List.not_mem_nil, or_false] at hx
    rcases hx with hx | hx | hx | hx
    · exact .inl ⟨_, by omega, hx⟩
    · exact .inl ⟨_, by omega, hx⟩
    · exact .inl ⟨_, by omega, hx⟩
    · exact .inr hx
  | case4 a b c rest ih =>
    have ha := a.toNat_lt
    have hb := b.toNat_lt
    have hc := c.toNat_lt
    simp only [encode, List.mem_cons] at hx
    rcases hx with hx | hx | hx | hx | hx
    · exact .inl ⟨_, by omega, hx⟩
    · exact .inl ⟨_, by omega, hx⟩
    · exact .inl ⟨_, by omega, hx⟩
    · exact .inl ⟨_, by omega, hx⟩
    · exact ih hx

theorem forall_encode {p : Char → Prop} (hdigit : ∀ v < 64, p (digit v)) (hpad : p '=')
    (bs : List UInt8) : ∀ x ∈ encode bs, p x := by
  intro x hx
  rcases mem_encode hx with ⟨v, hv, rfl⟩ | rfl
  · exact hdigit v hv
  · exact hpad

theorem decode_encode (bs : List UInt8) : decode (encode bs) = some bs := by
  have hfilter : (encode bs).filter (¬ isBreak ·) = encode bs :=
    List.filter_eq_self.mpr fun c hc => by
      simp [forall_encode (p := fun c => isBreak c = false) isBreak_digit (by decide) bs c hc]
  rw [decode, hfilter, decodeGroups_encode]

end Base64
