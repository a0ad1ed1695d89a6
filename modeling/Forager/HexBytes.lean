import Mathlib.Data.List.Basic
import Mathlib.Tactic.Common

/-!
# Bytes and numbers in hexadecimal

`encode` is Go's `hex.EncodeToString`: two lower-case digits for each byte, the
high one first. `number w n` has the last `w` digits of a number.
-/

namespace HexBytes

def table : List Char :=
  ['0', '1', '2', '3', '4', '5', '6', '7', '8', '9', 'a', 'b', 'c', 'd', 'e', 'f']

def digit (n : Nat) : Char := table.getD n '0'

def high (b : UInt8) : Nat := (b >>> 4).toNat

def low (b : UInt8) : Nat := (b &&& 0x0f).toNat

def byte (b : UInt8) : List Char := [digit (high b), digit (low b)]

def encode (bs : List UInt8) : List Char := bs.flatMap byte

def littleEndian : List UInt8 → Nat
  | [] => 0
  | b :: bs => b.toNat + 256 * littleEndian bs

def number : Nat → Nat → List Char
  | 0, _ => []
  | w + 1, n => number w (n / 16) ++ [digit (n % 16)]

/-! ## One byte -/

theorem high_eq (b : UInt8) : high b = b.toNat / 16 := by
  simp [high, Nat.shiftRight_eq_div_pow]

theorem low_eq (b : UInt8) : low b = b.toNat % 16 := by
  have hmask : b.toNat &&& 15 = b.toNat % 2 ^ 4 := Nat.and_two_pow_sub_one_eq_mod b.toNat 4
  simpa [low] using hmask

theorem high_lt (b : UInt8) : high b < 16 := by
  have := b.toNat_lt
  rw [high_eq]
  omega

theorem low_lt (b : UInt8) : low b < 16 := by
  rw [low_eq]
  omega

theorem digit_injective : ∀ m < 16, ∀ n < 16, digit m = digit n → m = n := by decide

theorem digit_ne_dash : ∀ n < 16, digit n ≠ '-' := by decide

theorem byte_injective : Function.Injective byte := by
  intro b c h
  obtain ⟨hhigh, hrest⟩ := List.cons.inj h
  obtain ⟨hlow, -⟩ := List.cons.inj hrest
  have hhigh := digit_injective _ (high_lt b) _ (high_lt c) hhigh
  have hlow := digit_injective _ (low_lt b) _ (low_lt c) hlow
  rw [high_eq, high_eq] at hhigh
  rw [low_eq, low_eq] at hlow
  exact UInt8.toNat_inj.mp (by omega)

/-! ## Many bytes -/

theorem encode_cons (b : UInt8) (bs : List UInt8) : encode (b :: bs) = byte b ++ encode bs := rfl

theorem encode_append (bs cs : List UInt8) : encode (bs ++ cs) = encode bs ++ encode cs :=
  List.flatMap_append

theorem length_encode (bs : List UInt8) : (encode bs).length = 2 * bs.length := by
  induction bs with
  | nil => rfl
  | cons b bs ih =>
    rw [encode_cons, List.length_append, ih, List.length_cons, Nat.mul_succ, Nat.add_comm]
    rfl

theorem encode_injective : Function.Injective encode := by
  intro bs
  induction bs with
  | nil =>
    intro cs h
    cases cs with
    | nil => rfl
    | cons c cs => cases h
  | cons b bs ih =>
    intro cs h
    cases cs with
    | nil => cases h
    | cons c cs =>
      rw [encode_cons, encode_cons] at h
      obtain ⟨hbyte, hrest⟩ := List.append_inj h rfl
      rw [byte_injective hbyte, ih hrest]

theorem dash_notMem_encode (bs : List UInt8) : '-' ∉ encode bs := by
  intro h
  obtain ⟨b, -, hb⟩ := List.mem_flatMap.mp h
  rcases List.mem_cons.mp hb with hb | hb
  · exact digit_ne_dash _ (high_lt b) hb.symm
  · exact digit_ne_dash _ (low_lt b) (List.mem_singleton.mp hb).symm

theorem number_littleEndian (bs : List UInt8) :
    number (2 * bs.length) (littleEndian bs) = encode bs.reverse := by
  induction bs with
  | nil => rfl
  | cons b bs ih =>
    have hlt := b.toNat_lt
    have hrest : littleEndian (b :: bs) / 16 / 16 = littleEndian bs := by
      rw [littleEndian]
      omega
    have hhigh : littleEndian (b :: bs) / 16 % 16 = high b := by
      rw [littleEndian, high_eq]
      omega
    have hlow : littleEndian (b :: bs) % 16 = low b := by
      rw [littleEndian, low_eq]
      omega
    rw [List.length_cons, Nat.mul_succ, number, number, hrest, hhigh, hlow, ih,
      List.reverse_cons, encode_append, List.append_assoc]
    rfl

end HexBytes
