import Forager.GoCase
import Forager.GoValue

/-!
# The facts of a host

`pkg/proxy/discovery/facts.go`. One command prints `/etc/os-release`, a line of three
dashes and the architecture; `parseFacts` cuts what it printed at the first
`\n---\n`. The file is printed as it is: without a newline at its end the dashes
do not stand on a line of their own, and if it is missing they are the first line.
Texts are byte strings.
-/

namespace Forager

open GoText Go

/-! ## The probe -/

def stringsCut (s sep : Bytes) : Bytes × Bytes × Bool :=
  match index s sep with
  | some i => (s.take i, s.drop (i + sep.length), true)
  | none => (s, [], false)

def dashes : Bytes := ascii "---"

/-- What `factsProbe` prints for the contents `release` of `/etc/os-release`, empty if
there is no such file, and the line `arch` that `uname -m` prints. -/
def probeOutput (release arch : Bytes) : Bytes := release ++ (dashes ++ [lf]) ++ (arch ++ [lf])

def factsSeparator : Bytes := [lf] ++ dashes ++ [lf]

/-! ## The file -/

/-- The last value of the key `k`, or the empty text. -/
def valueOf (kv : List (Bytes × Bytes)) (k : String) : Bytes := (kv.lookup (ascii k)).getD []

/-- One round of the loop of `parseOSRelease`, with the last assignment first. -/
def osReleaseLine (kv : List (Bytes × Bytes)) (line : Bytes) : List (Bytes × Bytes) :=
  let line := GoText.trimSpace line
  if line = [] ∨ ascii "#" <+: line then kv
  else match stringsCut line (ascii "=") with
    | (_, _, false) => kv
    | (key, val, true) =>
      (GoText.trimSpace key, Lines.trim (· ∈ ascii "\"'") (GoText.trimSpace val)) :: kv

def parseOSRelease (s : Bytes) : List (Bytes × Bytes) :=
  (Lines.split [[lf]] s).foldl osReleaseLine []

def osFamilyByID (id : Bytes) : Option Bytes :=
  let isOne (names : List String) : Bool := names.any fun name => ascii name = id
  if isOne ["rhel", "centos", "rocky", "almalinux", "ol", "oracle", "amzn", "fedora"] then
    some (ascii "rhel")
  else if isOne ["debian", "ubuntu", "linuxmint", "raspbian"] then some (ascii "debian")
  else if isOne ["sles", "sled", "opensuse", "opensuse-leap", "opensuse-tumbleweed"] then
    some (ascii "suse")
  else if isOne ["alpine"] then some (ascii "alpine")
  else none

/-- `osFamily`, the empty text if there is none. -/
def osFamily (id idLike : Bytes) : Bytes :=
  match osFamilyByID id with
  | some fam => fam
  | none =>
    ((fields idLike).findSome? fun like =>
      match osFamilyByID like with
      | some fam => some fam
      | none => if ascii "suse" <+: like then some (ascii "suse") else none).getD []

def setFact (facts : StrMap Bytes) (fact : String) (value : Bytes) : StrMap Bytes :=
  if value ≠ [] then facts.insert fact value else facts

/-- The facts that `parseFacts` derives from the file. -/
def osFacts (kv : List (Bytes × Bytes)) (facts : StrMap Bytes) : StrMap Bytes :=
  let id := valueOf kv "ID"
  let version := valueOf kv "VERSION_ID"
  let facts := setFact facts "os_id" id
  let facts :=
    if version ≠ [] then setFact facts "os_major" (stringsCut version (ascii ".")).1 else facts
  setFact facts "os_family" (osFamily id (valueOf kv "ID_LIKE"))

def parseFacts (probeOutput : Bytes) : StrMap Bytes :=
  let (osRelease, arch, _) := stringsCut probeOutput factsSeparator
  osFacts (parseOSRelease osRelease) (setFact [] "arch" (GoText.trimSpace arch))

namespace HostFactsLemmas

variable {sep p s r a v : Bytes}

/-! ## Cutting -/

theorem cut_not_found (h : ¬ sep <:+: s) : stringsCut s sep = (s, [], false) := by
  have hspec := index_spec s sep
  unfold stringsCut
  cases hi : index s sep with
  | none => rfl
  | some i =>
    rw [hi] at hspec
    obtain ⟨u, v, hs, -⟩ := hspec.1
    exact absurd ⟨u, v, hs.symm⟩ h

theorem cut_clear (h : Lines.Clear sep p) (rest : Bytes) :
    stringsCut (p ++ (sep ++ rest)) sep = (p, rest, true) := by
  have hi : index (p ++ (sep ++ rest)) sep = some p.length := by
    refine index_eq_some ⟨p, rest, by simp, rfl⟩ ?_
    rintro j ⟨u, v, huv, rfl⟩
    by_contra hlt
    rw [List.append_assoc] at huv
    rcases List.append_eq_append_iff.mp huv with ⟨t, rfl, ht⟩ | ⟨t, rfl, ht⟩
    · simp at hlt
    · have ht' : t ≠ [] := by
        rintro rfl
        simp at hlt
      have hpre := Lines.prefix_append_dropLast ht' ⟨v, ht⟩
      exact h (hpre.isInfix.trans ⟨u, [], by simp⟩)
  unfold stringsCut
  rw [hi]
  dsimp only
  rw [List.take_left, ← List.append_assoc, ← List.length_append, List.drop_left]

/-! ## Where the dashes stand -/

theorem factsSeparator_eq : factsSeparator = lf :: (dashes ++ [lf]) := rfl

theorem line_of_separator (p d : Bytes) :
    dashes ∈ Lines.split [[lf]] (p ++ (factsSeparator ++ d)) := by
  have hdashes : Lines.split [[lf]] dashes = [dashes] := by decide
  have hlines : Lines.split [[lf]] (p ++ (factsSeparator ++ d)) =
      Lines.split [[lf]] p ++ ([dashes] ++ Lines.split [[lf]] d) := by
    rw [← hdashes, ← Lines.split_letter_append, ← Lines.split_letter_append]
    simp [factsSeparator_eq]
  rw [hlines]
  exact List.mem_append_right _ (List.mem_append_left _ List.mem_cons_self)

theorem newline_of_separator {c : Bytes} (h : p ++ factsSeparator = r ++ c) (hc : c ≠ []) :
    lf ∈ c := by
  have hlast := congrArg List.getLast? h
  rw [List.getLast?_append_of_ne_nil _ hc, factsSeparator, ← List.append_assoc,
    List.getLast?_concat] at hlast
  exact List.mem_of_getLast? hlast.symm

theorem dashes_of_separator (h : p ++ (factsSeparator ++ v) = r ++ dashes) :
    dashes ∈ Lines.split [[lf]] r := by
  rw [← List.append_assoc] at h
  rcases List.append_eq_append_iff.mp h with ⟨d, rfl, -⟩ | ⟨c, hr, hdashes⟩
  · rw [List.append_assoc]
    exact line_of_separator p d
  · by_cases hc : c = []
    · rw [hc, List.append_nil] at hr
      rw [← hr]
      simpa using line_of_separator p []
    · have hmem : lf ∈ dashes := hdashes ▸ List.mem_append_left _ (newline_of_separator hr hc)
      exact absurd hmem (by decide)

theorem clear_of_newline (hr : dashes ∉ Lines.split [[lf]] (r ++ [lf])) :
    Lines.Clear factsSeparator r := by
  rintro ⟨u, v, huv⟩
  refine hr (dashes_of_separator (p := u) (v := v) ?_)
  rw [← List.append_assoc, huv, List.append_assoc]
  rfl

theorem newline_of_rest {rest : Bytes} (hr : dashes ∉ Lines.split [[lf]] r) (ha : lf ∉ a)
    (hrest : rest ≠ []) (h : probeOutput r a = p ++ (factsSeparator ++ rest)) :
    r = p ++ [lf] := by
  have hhere : r ++ (dashes ++ [lf]) = p ++ factsSeparator → r = p ++ [lf] := fun heq => by
    rw [factsSeparator, List.append_assoc [lf], ← List.append_assoc p] at heq
    exact List.append_cancel_right heq
  rw [probeOutput, ← List.append_assoc p] at h
  rcases List.append_eq_append_iff.mp h with ⟨c, hp, hrest'⟩ | ⟨d, hp, -⟩
  · -- the separator ends after the first line of dashes: in the line of the architecture
    by_cases hc : c = []
    · exact hhere (by rw [hp, hc, List.append_nil])
    · have hlf := newline_of_separator hp hc
      have hmem : lf ∈ a := by
        have hinit : c <+: a := by
          have hpre : c <+: a ++ [lf] := hrest' ▸ List.prefix_append c rest
          refine List.prefix_of_prefix_length_le hpre (List.prefix_append a [lf]) ?_
          have hlength := congrArg List.length hrest'
          have hpos := List.length_pos_iff.mpr hrest
          simp only [List.length_append, List.length_singleton] at hlength
          omega
        exact hinit.subset hlf
      exact absurd hmem ha
  · -- the separator ends before the dashes do
    cases d using List.reverseRecOn with
    | nil => exact hhere (by rw [hp, List.append_nil])
    | append_singleton d x =>
      have hcut : r ++ dashes = p ++ (factsSeparator ++ d) := by
        rw [← List.append_assoc, ← List.append_assoc] at hp
        rw [← List.append_assoc]
        exact (List.append_inj' hp rfl).1
      exact absurd (dashes_of_separator hcut.symm) hr

/-! ## The facts -/

theorem get_setFact (facts : StrMap Bytes) (fact : String) (value : Bytes) {k : String}
    (hk : k ≠ fact) : (setFact facts fact value).get k = facts.get k := by
  unfold setFact
  split
  · rw [StrMap.get_insert, if_neg hk]
  · rfl

theorem get_osFacts_arch (kv : List (Bytes × Bytes)) (facts : StrMap Bytes) :
    (osFacts kv facts).get "arch" = facts.get "arch" := by
  unfold osFacts
  dsimp only
  rw [get_setFact _ _ _ (by decide)]
  split
  · rw [get_setFact _ _ _ (by decide), get_setFact _ _ _ (by decide)]
  · rw [get_setFact _ _ _ (by decide)]

theorem parseOSRelease_newline (r : Bytes) : parseOSRelease (r ++ [lf]) = parseOSRelease r := by
  unfold parseOSRelease
  rw [Lines.split_letter_append, List.foldl_append]
  rfl

theorem parseFacts_of_cut {osRelease arch : Bytes} {found : Bool} {out : Bytes}
    (h : stringsCut out factsSeparator = (osRelease, arch, found)) :
    parseFacts out =
      osFacts (parseOSRelease osRelease) (setFact [] "arch" (GoText.trimSpace arch)) := by
  unfold parseFacts
  rw [h]

theorem cut_cases (s : Bytes) : stringsCut s factsSeparator = (s, [], false) ∨
    ∃ p rest, s = p ++ (factsSeparator ++ rest) ∧
      stringsCut s factsSeparator = (p, rest, true) := by
  rcases Lines.split_cases (List.cons_ne_nil _ _ : factsSeparator ≠ []) s with
    ⟨hnot, -⟩ | ⟨p, rest, rfl, hclear, -⟩
  · exact .inl (cut_not_found hnot)
  · exact .inr ⟨p, rest, rfl, cut_clear hclear rest⟩

end HostFactsLemmas

open HostFactsLemmas in
/-- For a file without a line of dashes and a line `a` that is not blank: the facts are
those of the file, with `a` as the architecture, iff the file ends with a newline. -/
theorem facts_decoded_iff (r a : Bytes) (hr : dashes ∉ Lines.split [[lf]] r) (ha : lf ∉ a)
    (hblank : GoText.trimSpace a ≠ []) :
    parseFacts (probeOutput r a) =
        osFacts (parseOSRelease r) [("arch", GoText.trimSpace a)] ↔
      r.getLast? = some lf := by
  constructor
  · intro h
    have harch := congrArg (StrMap.get · "arch") h
    rcases cut_cases (probeOutput r a) with hcut | ⟨p, rest, hout, hcut⟩
    · rw [parseFacts_of_cut hcut] at harch
      simp only [get_osFacts_arch] at harch
      cases harch
    · have hrest : rest ≠ [] := by
        rintro rfl
        rw [parseFacts_of_cut hcut] at harch
        simp only [get_osFacts_arch] at harch
        cases harch
      rw [newline_of_rest hr ha hrest hout, List.getLast?_concat]
  · intro h
    obtain ⟨r', rfl⟩ := List.getLast?_eq_some_iff.mp h
    have hout : probeOutput (r' ++ [lf]) a = r' ++ (factsSeparator ++ (a ++ [lf])) := by
      simp [probeOutput, factsSeparator]
    have harch : GoText.trimSpace (a ++ [lf]) = GoText.trimSpace a := trimSpace_snoc_newline hblank
    rw [hout, parseFacts_of_cut (cut_clear (clear_of_newline hr) _), parseOSRelease_newline,
      setFact, harch, if_pos hblank]
    rfl

/-- The facts of a Debian host. -/
theorem debian_facts : parseFacts (probeOutput (ascii "ID=debian" ++ [lf]) (ascii "x86_64")) =
    osFacts (parseOSRelease (ascii "ID=debian" ++ [lf])) [("arch", ascii "x86_64")] :=
  (facts_decoded_iff (ascii "ID=debian" ++ [lf]) (ascii "x86_64") (by decide) (by decide)
    (by decide)).mpr (by decide)

/-- A host without the file has no architecture. If the file does not end with a
newline, the dashes are part of its last value, and there is no architecture. -/
theorem facts_of_missing_file :
    parseFacts (probeOutput [] (ascii "x86_64")) = [] ∧
      osFacts (parseOSRelease []) [("arch", ascii "x86_64")] = [("arch", ascii "x86_64")] ∧
      parseFacts (probeOutput (ascii "ID=debian") (ascii "x86_64")) =
        [("os_id", ascii "debian---")] := by
  decide

end Forager
