import Forager.JsonNumber
import Forager.PackTrust
import Mathlib.Data.List.Sort

/-!
# The advertised pack versions

`packVersions` of `pkg/proxy/discovery/proxy.go` lists the versions of the files in
`pack_dir` whose names match a pattern. `resolvePack` opens the file whose name it
prints from the requested version. The pattern accepts leading zeros, which are never
printed. File names are byte strings.
-/

namespace Forager

open Go GoJson JsonText
open GoText (Bytes ascii)

/-! ## The list -/

structure DirEntry where
  name : Bytes
  isDir : Bool
deriving DecidableEq, Repr

def packFileName (version : Int) : Bytes :=
  ascii "linux-inventory-v" ++ (ascii (toString version) ++ ascii ".yaml")

def isDigitByte (b : UInt8) : Bool := 48 ≤ b ∧ b ≤ 57

/-- `packVersionPattern.FindStringSubmatch`: what `(\d+)` matches in
`^linux-inventory-v(\d+)\.yaml$`. -/
def packVersionSubmatch (name : Bytes) : Option Bytes :=
  let numeral := (name.drop 17).take (name.length - 22)
  if name = ascii "linux-inventory-v" ++ (numeral ++ ascii ".yaml") ∧ numeral ≠ [] ∧
      numeral.all isDigitByte then
    some numeral
  else none

def textOf (s : Bytes) : String := String.ofList (s.map Char.ofUInt8)

def versionOf (name : Bytes) : Option Int :=
  match packVersionSubmatch name with
  | none => none
  | some numeral =>
    match atoi (textOf numeral) with
    | none => none
    | some v => if v ≤ 0 then none else some v

def packVersions (packDir : String) (readDir : String → Option (List DirEntry)) : List Int :=
  if packDir = "" then []
  else match readDir packDir with
    | none => []
    | some entries =>
      let versions := entries.filterMap fun e => if e.isDir then none else versionOf e.name
      versions.insertionSort (· ≤ ·)

/-- The list is strictly ascending, and holds the version `v` iff `resolvePack` finds
its file. -/
def Loadable (names : List Bytes) (versions : List Int) : Prop :=
  versions.Pairwise (· < ·) ∧
    ∀ v : Int, v < 2 ^ 63 → (v ∈ versions ↔ 0 < v ∧ packFileName v ∈ names)

/-- The numeral in the name has leading zeros and a positive value that fits. -/
def PaddedName (name : Bytes) : Prop :=
  ∃ numeral, packVersionSubmatch name = some numeral ∧ numeral.head? = some 48 ∧
    ∃ v, atoi (textOf numeral) = some v ∧ 0 < v

namespace PackVersionLemmas

variable {name numeral : Bytes} {v : Int} {cs : List Char}

/-! ## Numerals -/

theorem submatch_eq_some : packVersionSubmatch name = some numeral ↔
    name = ascii "linux-inventory-v" ++ (numeral ++ ascii ".yaml") ∧ numeral ≠ [] ∧
      numeral.all isDigitByte = true := by
  unfold packVersionSubmatch
  dsimp only
  constructor
  · intro h
    split at h
    · next hmatch => exact Option.some.inj h ▸ hmatch
    · cases h
  · rintro ⟨hname, hmatch⟩
    have hlength : name.length - 22 = numeral.length := by
      have hparts : name.length = 17 + (numeral.length + 5) := by
        rw [hname, List.length_append, List.length_append]
        rfl
      omega
    have hnumeral : (name.drop 17).take (name.length - 22) = numeral := by
      rw [hlength, hname]
      exact List.take_left
    rw [hnumeral, if_pos ⟨hname, hmatch⟩]

theorem digit_range {c : Char} (h : isDigit c = true) : 48 ≤ c.toNat ∧ c.toNat ≤ 57 := by
  obtain ⟨h0, h9⟩ := of_decide_eq_true h
  exact ⟨UInt32.le_iff_toNat_le.mp (Char.le_def.mp h0),
    UInt32.le_iff_toNat_le.mp (Char.le_def.mp h9)⟩

theorem isDigit_ofUInt8 (b : UInt8) : isDigit (Char.ofUInt8 b) = isDigitByte b := by
  rw [isDigit, isDigitByte, decide_eq_decide, Char.le_def, Char.le_def, UInt32.le_iff_toNat_le,
    UInt32.le_iff_toNat_le, UInt8.le_iff_toNat_le, UInt8.le_iff_toNat_le]
  rfl

theorem ascii_digits (h : ∀ c ∈ cs, isDigit c = true) :
    (ascii (String.ofList cs)).map Char.ofUInt8 = cs := by
  unfold ascii
  rw [String.toList_ofList, List.map_map]
  conv_rhs => rw [← List.map_id cs]
  refine List.map_congr_left fun c hc => Char.ext (UInt32.toNat_inj.mp ?_)
  have hrange := digit_range (h c hc)
  change (UInt8.ofNat c.toNat).toNat = c.toNat
  rw [UInt8.toNat_ofNat', Nat.mod_eq_of_lt (by omega)]

theorem ascii_map_ofUInt8 (s : Bytes) : ascii (String.ofList (s.map Char.ofUInt8)) = s := by
  unfold ascii
  rw [String.toList_ofList, List.map_map]
  conv_rhs => rw [← List.map_id s]
  refine List.map_congr_left fun b _ => ?_
  have hb : (Char.ofUInt8 b).toNat = b.toNat := rfl
  rw [Function.comp_apply, hb, UInt8.ofNat_toNat, id]

theorem digitChar_of_digit {c : Char} (h : isDigit c = true) :
    c.toNat - '0'.toNat < 10 ∧ Nat.digitChar (c.toNat - '0'.toNat) = c := by
  obtain ⟨h0, h9⟩ := digit_range h
  have hall : ∀ k < 10, Nat.digitChar k = Char.ofNat (48 + k) := by decide
  have hz : '0'.toNat = 48 := rfl
  have hlt : c.toNat - 48 < 10 := by omega
  rw [hz, hall _ hlt, Nat.add_sub_cancel' h0, Char.ofNat_toNat]
  exact ⟨hlt, rfl⟩

theorem canonical_of_val {n : Nat} (hne : cs ≠ []) (hzero : cs.head? ≠ some '0')
    (h : digitsVal cs = some n) : cs = Nat.toDigits 10 n := by
  induction cs using List.reverseRecOn generalizing n with
  | nil => exact absurd rfl hne
  | append_singleton ds c ih =>
    rw [digitsVal_snoc, Option.bind_eq_some_iff] at h
    obtain ⟨m, hm, hc⟩ := h
    split at hc
    · next hdigit =>
      obtain ⟨hlt, hchar⟩ := digitChar_of_digit (decide_eq_true hdigit)
      obtain rfl := Option.some.inj hc
      by_cases hds : ds = []
      · obtain rfl : 0 = m := by
          rw [hds] at hm
          exact Option.some.inj hm
        rw [hds, List.nil_append, Nat.zero_mul, Nat.zero_add, Nat.toDigits_of_lt_base hlt, hchar]
      · rw [List.head?_append_of_ne_nil _ hds] at hzero
        have hprev := ih hds hzero hm
        have hpos : 0 < m := by
          rcases Nat.eq_zero_or_pos m with rfl | hpos
          · exact absurd (congrArg List.head? hprev) hzero
          · exact hpos
        rw [Nat.toDigits_of_base_le (by decide) (by omega), hprev]
        have hdiv : (m * 10 + (c.toNat - '0'.toNat)) / 10 = m := by omega
        have hmod : (m * 10 + (c.toNat - '0'.toNat)) % 10 = c.toNat - '0'.toNat := by omega
        rw [hdiv, hmod, hchar]
    · cases hc

theorem atoi_digits (hne : cs ≠ []) (h : ∀ c ∈ cs, isDigit c = true) :
    atoi (String.ofList cs) =
      (digitsVal cs).bind fun n => if (n : Int) < 2 ^ 63 then some (n : Int) else none := by
  unfold atoi
  rw [String.toList_ofList]
  split
  next neg ds hsign =>
    have hplain : (neg, ds) = (false, cs) := by
      rw [← hsign]
      split
      · exact absurd (h '-' List.mem_cons_self) (by decide)
      · exact absurd (h '+' List.mem_cons_self) (by decide)
      · rfl
    obtain ⟨rfl, rfl⟩ := Prod.mk.inj hplain
    rw [if_neg hne]
    refine congrArg _ (funext fun n => if_congr ?_ rfl rfl)
    simp only [Bool.false_eq_true, if_false, and_iff_right_iff_imp]
    omega

/-! ## Versions and names -/

theorem digit_of_all (h : numeral.all isDigitByte = true) :
    ∀ c ∈ numeral.map Char.ofUInt8, isDigit c = true := by
  intro c hc
  obtain ⟨b, hb, rfl⟩ := List.mem_map.mp hc
  rw [isDigit_ofUInt8]
  exact List.all_eq_true.mp h b hb

theorem atoi_textOf (h : packVersionSubmatch name = some numeral) :
    atoi (textOf numeral) = (digitsVal (numeral.map Char.ofUInt8)).bind fun n =>
      if (n : Int) < 2 ^ 63 then some (n : Int) else none := by
  obtain ⟨-, hne, hdigits⟩ := submatch_eq_some.mp h
  exact atoi_digits (by simpa using hne) (digit_of_all hdigits)

theorem atoi_textOf_eq_some (h : packVersionSubmatch name = some numeral) :
    atoi (textOf numeral) = some v ↔
      ∃ n, digitsVal (numeral.map Char.ofUInt8) = some n ∧ v = n ∧ v < 2 ^ 63 := by
  rw [atoi_textOf h, Option.bind_eq_some_iff]
  refine exists_congr fun n => and_congr_right fun _ => ?_
  constructor
  · intro hn
    split at hn
    · next hfit =>
      obtain rfl := Option.some.inj hn
      exact ⟨rfl, hfit⟩
    · cases hn
  · rintro ⟨rfl, hfit⟩
    rw [if_pos hfit]

theorem versionOf_eq_some : versionOf name = some v ↔
    ∃ numeral, packVersionSubmatch name = some numeral ∧ atoi (textOf numeral) = some v ∧
      0 < v := by
  unfold versionOf
  constructor
  · intro h
    split at h
    · cases h
    · next numeral hsub =>
      split at h
      · cases h
      · next w hatoi =>
        split at h
        · cases h
        · next hpos =>
          obtain rfl := Option.some.inj h
          exact ⟨numeral, hsub, hatoi, Int.not_le.mp hpos⟩
  · rintro ⟨numeral, hsub, hatoi, hpos⟩
    rw [hsub]
    dsimp only
    rw [hatoi]
    exact if_neg (Int.not_le.mpr hpos)

theorem digits_packFileName (n : Nat) :
    (ascii (toString (n : Int))).map Char.ofUInt8 = Nat.toDigits 10 n := by
  have htext : toString (n : Int) = String.ofList (Nat.toDigits 10 n) :=
    String.toList_inj.mp (Nat.toList_repr.trans String.toList_ofList.symm)
  rw [htext]
  exact ascii_digits fun c hc => isDigit_of_mem_toDigits hc

theorem submatch_packFileName (n : Nat) :
    packVersionSubmatch (packFileName n) = some (ascii (toString (n : Int))) := by
  have hdigits := digits_packFileName n
  refine submatch_eq_some.mpr ⟨rfl, ?_, ?_⟩
  · intro hnil
    rw [hnil] at hdigits
    exact Nat.toDigits_ne_nil hdigits.symm
  · rw [List.all_eq_true]
    intro b hb
    rw [← isDigit_ofUInt8]
    exact isDigit_of_mem_toDigits (hdigits ▸ List.mem_map_of_mem hb)

theorem versionOf_packFileName (hpos : 0 < v) (hfit : v < 2 ^ 63) :
    versionOf (packFileName v) = some v := by
  obtain ⟨n, rfl⟩ := Int.eq_ofNat_of_zero_le hpos.le
  have hsub := submatch_packFileName n
  refine versionOf_eq_some.mpr ⟨_, hsub, (atoi_textOf_eq_some hsub).mpr ⟨n, ?_, rfl, hfit⟩, hpos⟩
  rw [digits_packFileName, digitsVal_toDigits]

theorem printed_iff_not_padded (h : versionOf name = some v) :
    name = packFileName v ↔ ¬ PaddedName name := by
  obtain ⟨numeral, hsub, hatoi, hpos⟩ := versionOf_eq_some.mp h
  obtain ⟨n, hval, rfl, -⟩ := (atoi_textOf_eq_some hsub).mp hatoi
  obtain ⟨hname, hne, hdigits⟩ := submatch_eq_some.mp hsub
  constructor
  · rintro rfl ⟨numeral', hsub', hhead, -⟩
    obtain ⟨c, cs, hcs, -, hc⟩ := toDigits_pos (Int.natCast_pos.mp hpos)
    have hfirst := congrArg List.head? (digits_packFileName n)
    rw [← Option.some.inj (hsub'.symm.trans (submatch_packFileName n)), List.head?_map, hhead,
      hcs] at hfirst
    exact hc (Option.some.inj hfirst).symm
  · intro hpadded
    have hhead : (numeral.map Char.ofUInt8).head? ≠ some '0' := by
      intro hzero
      rw [List.head?_map, Option.map_eq_some_iff] at hzero
      obtain ⟨b, hb, hb0⟩ := hzero
      have hb48 : b = 48 := by
        have hnat : b.toNat = 48 := congrArg Char.toNat hb0
        exact UInt8.toNat_inj.mp hnat
      exact hpadded ⟨numeral, hsub, hb48 ▸ hb, n, hatoi, hpos⟩
    have hcanonical := canonical_of_val (by simpa using hne) hhead hval
    rw [hname, packFileName, ← ascii_map_ofUInt8 numeral, hcanonical, ← digits_packFileName,
      ascii_map_ofUInt8]

theorem pairwise_lt_iff {names : List Bytes} (hnames : names.Nodup) :
    ((names.filterMap versionOf).insertionSort (· ≤ ·)).Pairwise (· < ·) ↔
      ∀ a ∈ names, ∀ b ∈ names, ∀ v, versionOf a = some v → versionOf b = some v → a = b := by
  have hnodup : ((names.filterMap versionOf).insertionSort (· ≤ ·)).Pairwise (· < ·) ↔
      (names.filterMap versionOf).Nodup := by
    rw [← (List.perm_insertionSort (· ≤ ·) _).nodup_iff]
    constructor
    · exact fun h => h.imp ne_of_lt
    · exact fun h => ((List.pairwise_insertionSort (· ≤ ·) _).and h).imp
        fun hab => lt_of_le_of_ne hab.1 hab.2
  rw [hnodup, List.Nodup, List.pairwise_filterMap]
  constructor
  · intro h a ha b hb v hav hbv
    by_contra hab
    have hsymm : Std.Symm fun a b =>
        ∀ v, versionOf a = some v → ∀ w, versionOf b = some w → v ≠ w :=
      ⟨fun _ _ h v hv w hw => (h w hw v hv).symm⟩
    exact h.forall ha hb hab v hav v hbv rfl
  · intro h
    refine List.Pairwise.imp_of_mem ?_ hnames
    rintro a b ha hb hab v hv w hw rfl
    exact hab (h a ha b hb v hv hw)

end PackVersionLemmas

/-! ## Results -/

open PackVersionLemmas in
/-- For the files of a directory: the advertised versions are strictly ascending and
are those whose files `resolvePack` opens, iff no file name has a padded numeral. -/
theorem pack_versions_loadable_iff (packDir : String) (readDir : String → Option (List DirEntry))
    (names : List Bytes) (hdir : packDir ≠ "")
    (hread : readDir packDir = some (names.map fun name => ⟨name, false⟩))
    (hnames : names.Nodup) :
    Loadable names (packVersions packDir readDir) ↔ ∀ name ∈ names, ¬ PaddedName name := by
  have hlist : packVersions packDir readDir =
      (names.filterMap versionOf).insertionSort (· ≤ ·) := by
    unfold packVersions
    rw [if_neg hdir, hread]
    dsimp only
    rw [List.filterMap_map]
    rfl
  have hmem : ∀ v, v ∈ packVersions packDir readDir ↔ ∃ name ∈ names, versionOf name = some v := by
    intro v
    rw [hlist, List.mem_insertionSort, List.mem_filterMap]
  rw [Loadable, hlist, pairwise_lt_iff hnames, ← hlist]
  constructor
  · rintro ⟨hinj, hfile⟩ name hname hpadded
    have ⟨numeral, hsub, _, v, hatoi, hpos⟩ := hpadded
    have hversion : versionOf name = some v := versionOf_eq_some.mpr ⟨numeral, hsub, hatoi, hpos⟩
    obtain ⟨-, -, -, hfit⟩ := (atoi_textOf_eq_some hsub).mp hatoi
    obtain ⟨-, hprinted⟩ := (hfile v hfit).mp ((hmem v).mpr ⟨name, hname, hversion⟩)
    have heq := hinj name hname _ hprinted v hversion (versionOf_packFileName hpos hfit)
    exact (printed_iff_not_padded hversion).mp heq hpadded
  · intro hnone
    refine ⟨fun a ha b hb v hav hbv => ?_, fun v hfit => ?_⟩
    · rw [(printed_iff_not_padded hav).mpr (hnone a ha),
        (printed_iff_not_padded hbv).mpr (hnone b hb)]
    · rw [hmem]
      constructor
      · rintro ⟨name, hname, hversion⟩
        obtain ⟨-, -, -, hpos⟩ := versionOf_eq_some.mp hversion
        exact ⟨hpos, (printed_iff_not_padded hversion).mpr (hnone name hname) ▸ hname⟩
      · rintro ⟨hpos, hname⟩
        exact ⟨_, hname, versionOf_packFileName hpos hfit⟩

/-- A directory with version 2 only. -/
theorem pack_version_two_loadable :
    Loadable [ascii "linux-inventory-v2.yaml"]
      (packVersions "/packs" fun _ => some [⟨ascii "linux-inventory-v2.yaml", false⟩]) := by
  refine (pack_versions_loadable_iff "/packs" _ [ascii "linux-inventory-v2.yaml"] (by decide) rfl
    (List.nodup_singleton _)).mpr ?_
  rintro name hname ⟨numeral, hsub, hhead, -⟩
  rw [List.mem_singleton.mp hname] at hsub
  have hnumeral : packVersionSubmatch (ascii "linux-inventory-v2.yaml") = some [50] := by decide
  obtain rfl := Option.some.inj (hnumeral.symm.trans hsub)
  exact absurd hhead (by decide)

/-- A padded name advertises version 1, whose file is not there. Beside the file of
version 1 it makes the list repeat the version. -/
theorem padded_version_advertised :
    packVersions "/packs" (fun _ => some [⟨ascii "linux-inventory-v01.yaml", false⟩]) = [1] ∧
      packFileName 1 ∉ [ascii "linux-inventory-v01.yaml"] ∧
      packVersions "/packs" (fun _ => some [⟨ascii "linux-inventory-v01.yaml", false⟩,
        ⟨ascii "linux-inventory-v1.yaml", false⟩]) = [1, 1] := by
  decide

end Forager
