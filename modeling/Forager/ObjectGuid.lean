import Forager.HexBytes

/-!
# Directory GUIDs

`formatObjectGUID` of `pkg/proxy/discovery/ldap.go` writes the `objectGUID` of a
machine. A directory stores the first three fields with the low byte first and the
others in order. A value that has not sixteen bytes is written in hexadecimal.
-/

namespace Forager

open HexBytes

def guidByte (raw : List UInt8) (i : Nat) : List Char :=
  byte (raw.getD i 0)

def formatObjectGUID (raw : List UInt8) : List Char :=
  if raw.length ≠ 16 then
    if raw.length = 0 then [] else encode raw
  else
    -- Data1, Data2 and Data3, the low byte first in the value
    guidByte raw 3 ++ guidByte raw 2 ++ guidByte raw 1 ++ guidByte raw 0 ++ ['-'] ++
    guidByte raw 5 ++ guidByte raw 4 ++ ['-'] ++
    guidByte raw 7 ++ guidByte raw 6 ++ ['-'] ++
    -- Data4 and Data5, in order
    guidByte raw 8 ++ guidByte raw 9 ++ ['-'] ++
    guidByte raw 10 ++ guidByte raw 11 ++ guidByte raw 12 ++ guidByte raw 13 ++
    guidByte raw 14 ++ guidByte raw 15

/-- The canonical form 8-4-4-4-12 of sixteen bytes: three little-endian integers and two
runs of bytes. -/
def canonicalGUID (raw : List UInt8) : List Char :=
  number 8 (littleEndian (raw.take 4)) ++ '-' ::
    (number 4 (littleEndian ((raw.drop 4).take 2)) ++ '-' ::
      (number 4 (littleEndian ((raw.drop 6).take 2)) ++ '-' ::
        (encode ((raw.drop 8).take 2) ++ '-' :: encode (raw.drop 10))))

namespace ObjectGuidLemmas

variable {raw raw' : List UInt8}

theorem formatObjectGUID_sixteen (h : raw.length = 16) :
    formatObjectGUID raw = encode (raw.take 4).reverse ++ '-' ::
      (encode ((raw.drop 4).take 2).reverse ++ '-' ::
        (encode ((raw.drop 6).take 2).reverse ++ '-' ::
          (encode ((raw.drop 8).take 2) ++ '-' :: encode (raw.drop 10)))) := by
  rw [formatObjectGUID, if_neg (not_not.mpr h)]
  match raw, h with
  | [_, _, _, _, _, _, _, _, _, _, _, _, _, _, _, _], _ => simp [guidByte, encode]

theorem formatObjectGUID_other (h : raw.length ≠ 16) : formatObjectGUID raw = encode raw := by
  rw [formatObjectGUID, if_pos h]
  split
  · rename_i hzero
    rw [List.length_eq_zero_iff.mp hzero]
    rfl
  · rfl

theorem fields_append (raw : List UInt8) :
    raw.take 4 ++ ((raw.drop 4).take 2 ++ ((raw.drop 6).take 2 ++
      ((raw.drop 8).take 2 ++ raw.drop 10))) = raw := by
  have hjoin (i : Nat) : (raw.drop i).take 2 ++ raw.drop (i + 2) = raw.drop i := by
    rw [← List.drop_drop, List.take_append_drop]
  rw [hjoin 8, hjoin 6, hjoin 4, List.take_append_drop]

theorem eq_of_sixteen (h : raw.length = 16) (h' : raw'.length = 16)
    (heq : formatObjectGUID raw = formatObjectGUID raw') : raw = raw' := by
  rw [formatObjectGUID_sixteen h, formatObjectGUID_sixteen h'] at heq
  -- every field has the same width in both texts
  obtain ⟨h1, heq⟩ := List.append_inj heq (by simp [length_encode, h, h'])
  obtain ⟨h2, heq⟩ := List.append_inj (List.cons.inj heq).2 (by simp [length_encode, h, h'])
  obtain ⟨h3, heq⟩ := List.append_inj (List.cons.inj heq).2 (by simp [length_encode, h, h'])
  obtain ⟨h4, heq⟩ := List.append_inj (List.cons.inj heq).2 (by simp [length_encode, h, h'])
  have h1 := List.reverse_injective (encode_injective h1)
  have h2 := List.reverse_injective (encode_injective h2)
  have h3 := List.reverse_injective (encode_injective h3)
  have h4 := encode_injective h4
  have h5 := encode_injective (List.cons.inj heq).2
  rw [← fields_append raw, h1, h2, h3, h4, h5, fields_append]

theorem dash_mem_iff : '-' ∈ formatObjectGUID raw ↔ raw.length = 16 := by
  by_cases h : raw.length = 16
  · rw [formatObjectGUID_sixteen h]
    simp [h]
  · rw [formatObjectGUID_other h]
    exact iff_of_false (dash_notMem_encode raw) h

theorem formatObjectGUID_injective : Function.Injective formatObjectGUID := by
  intro raw raw' heq
  have hlen : raw.length = 16 ↔ raw'.length = 16 := by
    rw [← dash_mem_iff, ← dash_mem_iff, heq]
  by_cases h : raw.length = 16
  · exact eq_of_sixteen h (hlen.mp h) heq
  · rw [formatObjectGUID_other h, formatObjectGUID_other (mt hlen.mpr h)] at heq
    exact encode_injective heq

theorem formatObjectGUID_canonical (h : raw.length = 16) :
    formatObjectGUID raw = canonicalGUID raw := by
  have hnumber {bs : List UInt8} {w : Nat} (hw : w = 2 * bs.length) :
      number w (littleEndian bs) = encode bs.reverse := by
    rw [hw, number_littleEndian]
  rw [formatObjectGUID_sixteen h, canonicalGUID, hnumber (w := 8), hnumber (w := 4),
    hnumber (w := 4)]
  all_goals simp [h]

end ObjectGuidLemmas

open ObjectGuidLemmas in
/-- A text names one value, and that of sixteen bytes is the canonical one. -/
theorem object_guid_exact (x y : List UInt8) :
    (formatObjectGUID x = formatObjectGUID y → x = y) ∧
    (x.length = 16 → formatObjectGUID x = canonicalGUID x) :=
  ⟨fun h => formatObjectGUID_injective h, formatObjectGUID_canonical⟩

/-- The GUID of the test of `formatObjectGUID`. -/
example : formatObjectGUID [0x78, 0x56, 0x34, 0x12, 0xbc, 0x9a, 0xf0, 0xde, 0x12, 0x34, 0x56,
    0x78, 0x9a, 0xbc, 0xde, 0xf0] = "12345678-9abc-def0-1234-56789abcdef0".toList := by
  decide

end Forager
