import Forager.DbQuery

/-!
# Offsets found in a case-mapped copy

`sanitizeQuery` and `extractFlagArg` (`pkg/proxy/db/proxy.go`) and
`redactLDAPError` (`pkg/proxy/discovery/ldap.go`) look for a mark in the
`strings.ToLower` or `strings.ToUpper` copy of a text and cut the text itself
at the offset they find. A character may have more or fewer bytes in the other
case, and then the offset belongs to another place, or to none.

`unwrapped`, `argAfter` and `redacted` state what the three functions are for:
the same cuts, at the places where the marks stand in the text.
-/

namespace Forager

open GoText

/-! ## The LDAP error -/

def redactLDAPError (msg : Bytes) : Option Bytes :=
  match index (lower.map msg) (ascii "dn:") with
  | some i => do
    let kept ← sliceRange msg 0 i
    return kept ++ ascii "(dn redacted)"
  | none => some msg

/-! ## The intended cuts -/

/-- The argument after `flag` in any case, empty if there is none. -/
def argAfter (q flag : Bytes) : Bytes :=
  match index (lower.inPlace q) flag with
  | none => []
  | some i => flagArg (GoText.trimSpace (q.drop (i + flag.length)))

/-- The offsets of the text between the first `(` and the last `) TO` in any case. -/
def copySpan (arg : Bytes) : Option (Nat × Nat) :=
  copyRange arg (lastIndex (upper.inPlace arg) (ascii ") TO"))

/-- The SQL text of a `\copy` argument; without the form it is the query `q`. -/
def copyText (q arg : Bytes) : Bytes :=
  match copySpan arg with
  | none => q
  | some (i, j) => GoText.trimSpace ((arg.take j).drop i)

/-- The text before `| sqlplus` in any case. -/
def beforePipe (q : Bytes) : Bytes :=
  match index (lower.inPlace q) (ascii "| sqlplus") with
  | none => q
  | some i => q.take i

def unwrapped (query : Bytes) : Bytes :=
  let q := GoText.trimSpace query
  let orQuery := fun arg : Bytes => if arg = [] then q else arg
  match wrapping (lower.map q) with
  | .psql =>
    let arg := argAfter q (ascii " -c ")
    if arg = [] then q else if IsCopy arg then copyText q arg else arg
  | .mariadb => orQuery (argAfter q (ascii " -e "))
  | .sqlcmd => orQuery (argAfter q (ascii " -q "))
  | .piped _ =>
    let before := GoText.trimSpace (beforePipe q)
    if ascii "echo " <+: lower.inPlace before then
      stripQuotes (GoText.trimSpace (before.drop 5))
    else q
  | .sqlplus =>
    let arg := argAfter q (ascii " -q ")
    if arg ≠ [] then Lines.trimRight (· ∈ ascii "; \t\n") arg
    else match index q (ascii "<<<") with
      | some hereIdx => stripQuotes (GoText.trimSpace (q.drop (hereIdx + 3)))
      | none => q
  | .plain => q

/-- An error text without anything at or after its first `dn:` in any case. -/
def redacted (msg : Bytes) : Bytes :=
  match index (lower.inPlace msg) (ascii "dn:") with
  | some i => msg.take i ++ ascii "(dn redacted)"
  | none => msg

/-! ## Right offsets -/

def cliFlags : List Bytes := [ascii " -c ", ascii " -e ", ascii " -q "]

def Wrapping.flag : Wrapping → Option Bytes
  | .psql => some (ascii " -c ")
  | .mariadb => some (ascii " -e ")
  | .sqlcmd => some (ascii " -q ")
  | .sqlplus => some (ascii " -q ")
  | .piped _ => none
  | .plain => none

/-- The offset of the flag is the one in the text and in range, and the argument is
what follows the flag. -/
structure FlagExact (original flag : Bytes) : Prop where
  same : index (lower.map original) flag = index (lower.inPlace original) flag
  inRange : ∀ i, index (lower.map original) flag = some i → i + flag.length ≤ original.length
  argument : extractFlagArg original (lower.map original) flag = some (argAfter original flag)

/-- The offsets of a `\copy` argument are the ones in the text and in range. -/
structure CopyExact (arg : Bytes) : Prop where
  same : copyRange arg (lastIndex (upper.map arg) (ascii ") TO")) = copySpan arg
  inRange : ∀ i j, copyRange arg (lastIndex (upper.map arg) (ascii ") TO")) = some (i, j) →
    i ≤ j ∧ j ≤ arg.length

/-- Every offset that `sanitizeQuery` finds in a mapped copy and cuts at is right, it
does not panic, and it returns the SQL text. -/
structure SanitizeExact (query : Bytes) : Prop where
  flag : ∀ flag, (wrapping (lower.map (GoText.trimSpace query))).flag = some flag →
    FlagExact (GoText.trimSpace query) flag
  copy : wrapping (lower.map (GoText.trimSpace query)) = .psql →
    ∀ arg, extractFlagArg (GoText.trimSpace query) (lower.map (GoText.trimSpace query))
      (ascii " -c ") = some arg → IsCopy arg → CopyExact arg
  pipe : ∀ i, wrapping (lower.map (GoText.trimSpace query)) = .piped i →
    index (lower.inPlace (GoText.trimSpace query)) (ascii "| sqlplus") = some i ∧
    i ≤ (GoText.trimSpace query).length
  result : sanitizeQuery query = some (unwrapped query)

/-- The offset of `dn:` is the one in the text and in range, and nothing at or after it
is emitted. -/
structure RedactExact (msg : Bytes) : Prop where
  same : index (lower.map msg) (ascii "dn:") = index (lower.inPlace msg) (ascii "dn:")
  inRange : ∀ i, index (lower.map msg) (ascii "dn:") = some i → i ≤ msg.length
  result : redactLDAPError msg = some (redacted msg)

/-! ## The condition -/

/-- The case map keeps the length of the text before the place, if there is one. -/
def KeepsOffset (κ : CaseMap) (s : Bytes) (place : Option Nat) : Prop :=
  ∀ i, place = some i → κ.offset s i = i

/-- The case map keeps the length of the text before the last `) TO`, or takes the mark to
where it is no more of use than in the text: at or before the first `(`. -/
def KeepsCopy (arg : Bytes) : Prop :=
  ∀ open_ close, index arg (ascii "(") = some open_ →
    lastIndex (upper.inPlace arg) (ascii ") TO") = some close →
    upper.offset arg close = close ∨ (upper.offset arg close ≤ open_ ∧ close ≤ open_)

/-- The case maps keep the length of the text before each mark that is used. -/
structure KeepsOffsets (query : Bytes) : Prop where
  flag : ∀ flag, (wrapping (lower.map (GoText.trimSpace query))).flag = some flag →
    KeepsOffset lower (GoText.trimSpace query)
      (index (lower.inPlace (GoText.trimSpace query)) flag)
  copy : wrapping (lower.map (GoText.trimSpace query)) = .psql →
    IsCopy (argAfter (GoText.trimSpace query) (ascii " -c ")) →
    KeepsCopy (argAfter (GoText.trimSpace query) (ascii " -c "))
  pipe : (∃ i, wrapping (lower.map (GoText.trimSpace query)) = .piped i) →
    KeepsOffset lower (GoText.trimSpace query)
      (index (lower.inPlace (GoText.trimSpace query)) (ascii "| sqlplus"))

namespace CaseOffsetsLemmas

open DbQueryLemmas

/-! ## Marks -/

theorem isMark_cliFlags : ∀ flag ∈ cliFlags, lower.IsMark flag ∧ flag ≠ [] := by
  intro flag hflag
  refine ⟨isMark_lower fun a ha => ?_, ?_⟩
  · have hall : ∀ a ∈ cliFlags.flatten, IsAscii a ∧ a ∉ [0x69, 0x6b] :=
      List.all_iff_forall_prop.mp (by decide)
    exact hall a (List.mem_flatten_of_mem hflag ha)
  · rintro rfl
    exact absurd hflag (by decide)

theorem isMark_dn : lower.IsMark (ascii "dn:") :=
  isMark_lower (List.all_iff_forall_prop.mp (by decide))

theorem isMark_pipe : lower.IsMark (ascii "| sqlplus") :=
  isMark_lower (List.all_iff_forall_prop.mp (by decide))

theorem isMark_echo : lower.IsMark (ascii "echo ") :=
  isMark_lower (List.all_iff_forall_prop.mp (by decide))

theorem isMark_closeTo : upper.IsMark (ascii ") TO") :=
  isMark_upper (List.all_iff_forall_prop.mp (by decide))

theorem flag_mem_cliFlags {w : Wrapping} {flag : Bytes} (h : w.flag = some flag) :
    flag ∈ cliFlags := by
  cases w <;> simp_all [Wrapping.flag, cliFlags]

theorem length_inPlace (κ : CaseMap) (s : Bytes) : (κ.inPlace s).length = s.length :=
  List.length_map _

/-! ## When an offset is kept -/

theorem map_eq_self_iff {o : Option Nat} {φ : Nat → Nat} :
    o.map φ = o ↔ ∀ i, o = some i → φ i = i := by
  cases o with
  | none => simp
  | some i => simp

theorem index_same_iff {mark : Bytes} (hmark : lower.IsMark mark) (hne : mark ≠ []) (s : Bytes) :
    index (lower.map s) mark = index (lower.inPlace s) mark ↔
      KeepsOffset lower s (index (lower.inPlace s) mark) := by
  rw [CaseMap.index_map hmark hne]
  exact map_eq_self_iff

theorem copyRange_map_iff (arg : Bytes) (close : Option Nat) (φ : Nat → Nat) :
    copyRange arg (close.map φ) = copyRange arg close ↔
      ∀ open_ p, index arg (ascii "(") = some open_ → close = some p →
        φ p = p ∨ (φ p ≤ open_ ∧ p ≤ open_) := by
  unfold copyRange
  cases hopen : index arg (ascii "(") with
  | none => simp
  | some open_ =>
    cases close with
    | none => simp
    | some p =>
      simp only [Option.map_some, Option.some.injEq]
      refine Iff.trans ?_ ⟨fun h a q ha hq => ha ▸ hq ▸ h, fun h => h open_ p rfl rfl⟩
      split_ifs <;> simp <;> omega

theorem copy_same_iff (arg : Bytes) :
    copyRange arg (lastIndex (upper.map arg) (ascii ") TO")) = copySpan arg ↔ KeepsCopy arg := by
  rw [CaseMap.lastIndex_map isMark_closeTo (by decide)]
  exact copyRange_map_iff _ _ _

/-! ## Cuts at the right offsets -/

theorem extractFlagArg_same {q flag : Bytes}
    (h : index (lower.map q) flag = index (lower.inPlace q) flag) : FlagExact q flag := by
  have hrange : ∀ i, index (lower.map q) flag = some i → i + flag.length ≤ q.length := by
    intro i hi
    rw [← length_inPlace lower q]
    exact index_le (h ▸ hi)
  refine ⟨h, hrange, ?_⟩
  unfold extractFlagArg argAfter
  rw [← h]
  cases hi : index (lower.map q) flag with
  | none => rfl
  | some i =>
    show (sliceFrom _ _ >>= fun argPart => _) = _
    rw [sliceFrom, if_pos (hrange i hi)]
    rfl

theorem copySpan_inRange {arg : Bytes} {i j : Nat} (h : copySpan arg = some (i, j)) :
    i ≤ j ∧ j ≤ arg.length := by
  unfold copySpan copyRange at h
  split at h
  · next close _ hclose =>
    have hle := lastIndex_le hclose
    rw [length_inPlace] at hle
    split at h
    · cases h
    · cases h
      omega
  · cases h

theorem copyExact_of_same {arg : Bytes}
    (h : copyRange arg (lastIndex (upper.map arg) (ascii ") TO")) = copySpan arg) :
    CopyExact arg := ⟨h, fun _ _ hij => copySpan_inRange (h ▸ hij)⟩

theorem copyQuery_same {arg : Bytes} (h : CopyExact arg) (q : Bytes) :
    copyQuery q arg = some (copyText q arg) := by
  unfold copyQuery copyText
  rw [h.same]
  cases hspan : copySpan arg with
  | none => rfl
  | some ij =>
    show (sliceRange _ _ _ >>= fun text => _) = _
    rw [sliceRange, if_pos (copySpan_inRange hspan)]
    rfl

theorem flagQuery_same {q flag : Bytes} (h : FlagExact q flag) :
    flagQuery q (lower.map q) flag =
      some (if argAfter q flag = [] then q else argAfter q flag) := by
  rw [flagQuery, h.argument]
  rfl

theorem sliceRange_zero {s : Bytes} {i : Nat} (h : i ≤ s.length) :
    sliceRange s 0 i = some (s.take i) :=
  if_pos ⟨Nat.zero_le i, h⟩

theorem echo_length {s : Bytes} (h : ascii "echo " <+: lower.map s) : 5 ≤ s.length := by
  have hle := ((CaseMap.isPrefix_map isMark_echo (by decide) s).mp h).length_le
  rwa [length_inPlace] at hle

theorem sanitizeQuery_same {query : Bytes}
    (hflag : ∀ flag, (wrapping (lower.map (GoText.trimSpace query))).flag = some flag →
      FlagExact (GoText.trimSpace query) flag)
    (hcopy : wrapping (lower.map (GoText.trimSpace query)) = .psql →
      ∀ arg, extractFlagArg (GoText.trimSpace query) (lower.map (GoText.trimSpace query))
        (ascii " -c ") = some arg → IsCopy arg → CopyExact arg)
    (hpipe : ∀ i, wrapping (lower.map (GoText.trimSpace query)) = .piped i →
      index (lower.inPlace (GoText.trimSpace query)) (ascii "| sqlplus") = some i ∧
      i ≤ (GoText.trimSpace query).length) :
    sanitizeQuery query = some (unwrapped query) := by
  unfold sanitizeQuery unwrapped
  dsimp only
  generalize GoText.trimSpace query = q at *
  cases hw : wrapping (lower.map q) with
  | psql =>
    rw [hw] at hflag
    have harg := (hflag _ rfl).argument
    show (extractFlagArg _ _ _ >>= fun arg => _) = _
    rw [harg]
    show (if argAfter q _ = [] then _ else if ascii "\\copy" <+: lower.map (argAfter q _) then _
      else _) = _
    dsimp only
    split_ifs with hnil hmapped hplain hplain
    · rfl
    · exact copyQuery_same (hcopy hw _ harg hplain) q
    · exact absurd ((isCopy_iff _).mp hmapped) hplain
    · exact absurd ((isCopy_iff _).mpr hplain) hmapped
    · rfl
  | mariadb =>
    rw [hw] at hflag
    exact flagQuery_same (hflag _ rfl)
  | sqlcmd =>
    rw [hw] at hflag
    exact flagQuery_same (hflag _ rfl)
  | piped i =>
    obtain ⟨hindex, hle⟩ := hpipe i hw
    have hbefore : beforePipe q = q.take i := by rw [beforePipe, hindex]
    show (sliceRange q 0 i >>= fun before => _) = _
    rw [sliceRange_zero hle, hbefore]
    show (if ascii "echo " <+: lower.map (GoText.trimSpace (q.take i)) then _ else _) = _
    dsimp only
    have hecho := CaseMap.isPrefix_map isMark_echo (by decide) (GoText.trimSpace (q.take i))
    by_cases h : ascii "echo " <+: lower.map (GoText.trimSpace (q.take i))
    · rw [if_pos h, if_pos (hecho.mp h), sliceFrom, if_pos (echo_length h)]
      rfl
    · rw [if_neg h, if_neg fun h' => h (hecho.mpr h')]
      rfl
  | sqlplus =>
    rw [hw] at hflag
    have harg := (hflag _ rfl).argument
    show (extractFlagArg _ _ _ >>= fun arg => _) = _
    rw [harg]
    show (if argAfter q _ ≠ [] then _ else _) = _
    dsimp only
    split_ifs with hne
    · rfl
    · cases hhere : index q (ascii "<<<") with
      | none => rfl
      | some hereIdx =>
        show (sliceFrom q (hereIdx + 3) >>= fun text => _) = _
        rw [sliceFrom, if_pos (show hereIdx + 3 ≤ q.length from index_le hhere)]
        rfl
  | plain => rfl

theorem redact_same {msg : Bytes}
    (h : index (lower.map msg) (ascii "dn:") = index (lower.inPlace msg) (ascii "dn:")) :
    RedactExact msg := by
  have hrange : ∀ i, index (lower.map msg) (ascii "dn:") = some i → i ≤ msg.length := by
    intro i hi
    rw [← length_inPlace lower msg]
    exact (Nat.le_add_right _ _).trans (index_le (h ▸ hi))
  refine ⟨h, hrange, ?_⟩
  unfold redactLDAPError redacted
  rw [← h]
  cases hi : index (lower.map msg) (ascii "dn:") with
  | none => rfl
  | some i =>
    show (sliceRange msg 0 i >>= fun kept => _) = _
    rw [sliceRange_zero (hrange i hi)]
    rfl

/-! ## The three functions -/

theorem flagExact_iff {flag : Bytes} (hflag : flag ∈ cliFlags) (original : Bytes) :
    FlagExact original flag ↔
      KeepsOffset lower original (index (lower.inPlace original) flag) := by
  obtain ⟨hmark, hne⟩ := isMark_cliFlags flag hflag
  rw [← index_same_iff hmark hne]
  exact ⟨FlagExact.same, extractFlagArg_same⟩

theorem redactExact_iff (msg : Bytes) :
    RedactExact msg ↔ KeepsOffset lower msg (index (lower.inPlace msg) (ascii "dn:")) := by
  rw [← index_same_iff isMark_dn (by decide)]
  exact ⟨RedactExact.same, redact_same⟩

theorem index_of_piped {lowered : Bytes} {i : Nat} (h : wrapping lowered = .piped i) :
    index lowered (ascii "| sqlplus") = some i := by
  unfold wrapping at h
  cases hi : index lowered (ascii "| sqlplus") with
  | none =>
    rw [hi] at h
    split_ifs at h
  | some j =>
    rw [hi] at h
    dsimp only at h
    split_ifs at h
    cases h
    rfl

theorem sanitizeExact_iff (query : Bytes) : SanitizeExact query ↔ KeepsOffsets query := by
  constructor
  · intro h
    refine ⟨fun flag hf => ?_, fun hw hcopy => ?_, ?_⟩
    · exact (flagExact_iff (flag_mem_cliFlags hf) _).mp (h.flag flag hf)
    · have harg := (h.flag (ascii " -c ") (by rw [hw]; rfl)).argument
      exact (copy_same_iff _).mp (h.copy hw _ harg hcopy).same
    · rintro ⟨i, hw⟩
      rw [← index_same_iff isMark_pipe (by decide), index_of_piped hw, (h.pipe i hw).1]
  · intro h
    have hflag : ∀ flag, (wrapping (lower.map (GoText.trimSpace query))).flag = some flag →
        FlagExact (GoText.trimSpace query) flag :=
      fun flag hf => (flagExact_iff (flag_mem_cliFlags hf) _).mpr (h.flag flag hf)
    have hcopy : wrapping (lower.map (GoText.trimSpace query)) = .psql →
        ∀ arg, extractFlagArg (GoText.trimSpace query) (lower.map (GoText.trimSpace query))
          (ascii " -c ") = some arg → IsCopy arg → CopyExact arg := by
      intro hw arg harg hcopy
      rw [(hflag (ascii " -c ") (by rw [hw]; rfl)).argument] at harg
      cases harg
      exact copyExact_of_same ((copy_same_iff _).mpr (h.copy hw hcopy))
    have hpipe : ∀ i, wrapping (lower.map (GoText.trimSpace query)) = .piped i →
        index (lower.inPlace (GoText.trimSpace query)) (ascii "| sqlplus") = some i ∧
        i ≤ (GoText.trimSpace query).length := by
      intro i hw
      have hsame := (index_same_iff isMark_pipe (by decide) _).mpr (h.pipe ⟨i, hw⟩)
      rw [index_of_piped hw] at hsame
      have hle := index_le hsame.symm
      rw [length_inPlace] at hle
      exact ⟨hsame.symm, (Nat.le_add_right _ _).trans hle⟩
    exact ⟨hflag, hcopy, hpipe, sanitizeQuery_same hflag hcopy hpipe⟩

end CaseOffsetsLemmas

open CaseOffsetsLemmas in
/-- The offsets that the three functions find in a mapped copy are right, so that none
panics and each cuts where it should, exactly when the case map keeps the length of the
text before each mark that is used. -/
theorem case_offsets_iff (query original flag msg : Bytes) (hflag : flag ∈ cliFlags) :
    (SanitizeExact query ↔ KeepsOffsets query) ∧
    (FlagExact original flag ↔
      KeepsOffset lower original (index (lower.inPlace original) flag)) ∧
    (RedactExact msg ↔ KeepsOffset lower msg (index (lower.inPlace msg) (ascii "dn:"))) :=
  ⟨sanitizeExact_iff query, flagExact_iff hflag original, redactExact_iff msg⟩

/-- A text with a capital O with diaeresis, which has two bytes in either case. -/
def umlautError : Bytes := [0xC3, 0x96] ++ ascii " DN: cn=a"

theorem case_offsets_umlaut : RedactExact umlautError := by
  refine ((case_offsets_iff [] [] (ascii " -c ") umlautError (by decide)).2.2).mpr fun i hi => ?_
  have hindex : index (lower.inPlace umlautError) (ascii "dn:") = some 3 := by decide +kernel
  rw [hindex] at hi
  cases hi
  decide +kernel

/-- U+023A, a capital A with stroke: two bytes, and three in lower case. -/
def strokeA : Bytes := [0xC8, 0xBA]

/-- Not in general: the offset of the flag passes the end of the query, and the offset of
`dn:` lies after it. -/
theorem case_offsets_drift :
    sanitizeQuery (ascii "psql " ++ strokeA ++ strokeA ++ ascii " -c x") = none ∧
    redactLDAPError (strokeA ++ strokeA ++ strokeA ++ ascii "dn:cn=a") =
      some (strokeA ++ strokeA ++ strokeA ++ ascii "dn:" ++ ascii "(dn redacted)") := by
  decide +kernel

end Forager
