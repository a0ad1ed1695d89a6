import Forager.Base64
import Forager.GoText
import Forager.Lines
import Forager.When
import Mathlib.Data.Bool.AllAny

/-!
# Signed content packs

`ParseAndVerify` of `pkg/proxy/discovery/pack.go`. A pack is a YAML document
with its Ed25519 signature on a line of its own; the signed bytes are the
document without that line. Which line that is, is decided by a line splitter
and a regular expression, while the commands come from the YAML parser, which
also breaks lines at U+0085, U+2028 and U+2029.

The YAML parser and Ed25519 are parameters. Documents are byte strings.
-/

namespace Forager

open Lines
open GoText (Bytes ascii lf cr)

/-! ## The document -/

/-- `Collector`, without the cached guard. -/
structure Collector where
  id : String
  guard : String
  cmd : String
deriving DecidableEq, Repr

structure Pack where
  version : Int
  kind : String
  collectors : List Collector
  signature : String
deriving DecidableEq, Repr

def isBlank (b : UInt8) : Bool := b = 32 ∨ b = 9

/-- `signatureLine.MatchString(line)`: `^signature[ \t]*:`. -/
def isSignatureLine (line : Bytes) : Bool :=
  (ascii "signature").isPrefixOf line ∧
    ((line.drop 9).dropWhile isBlank).head? = some 58

def goLines (raw : Bytes) : List Bytes :=
  let normalized := replaceAll [cr, lf] [lf] raw
  let normalized := replaceAll [cr] [lf] normalized
  split [[lf]] normalized

def joinLines (lines : List Bytes) : Bytes := List.intercalate [lf] lines

/-- `splitSignatureLine`: the signed bytes, and how many lines were removed. -/
def splitSignatureLine (raw : Bytes) : Bytes × Nat :=
  let lines := goLines raw
  let kept := lines.filter (¬ isSignatureLine ·)
  (trimRight (fun b => isBlank b ∨ b = lf) (joinLines kept), lines.countP (isSignatureLine ·))

/-! ## Verification -/

inductive PackError
  | empty
  | tooLarge (size : Nat)
  | signatureLines (found : Nat)
  | yaml (err : String)
  | noPublicKey
  | unsigned
  | badBase64
  | badSignature
  | badVersion (version : Int)
  | badKind (kind : String)
  | noCollectors
  | noId (i : Nat)
  | duplicateId (id : String)
  | noCmd (id : String)
  | badGuard (id : String) (err : WhenError)
deriving DecidableEq, Repr

/-- The loop of `validate` over the collectors, `i` of which are done. -/
def validateCollectors : Nat → List String → List Collector → Except PackError Unit
  | _, _, [] => .ok ()
  | i, seen, c :: rest =>
    if c.id = "" then .error (.noId i)
    else if c.id ∈ seen then .error (.duplicateId c.id)
    else if trimSpace c.cmd.toList = [] then .error (.noCmd c.id)
    else if c.guard = "" then validateCollectors (i + 1) (c.id :: seen) rest
    else match parseWhen c.guard with
      | .error e => .error (.badGuard c.id e)
      | .ok _ => validateCollectors (i + 1) (c.id :: seen) rest

def Pack.validate (p : Pack) : Except PackError Unit :=
  if p.version ≤ 0 then .error (.badVersion p.version)
  else if p.kind ≠ "inventory" then .error (.badKind p.kind)
  else if p.collectors.length = 0 then .error .noCollectors
  else validateCollectors 0 [] p.collectors

def maxPackBytes : Nat := 2 ^ 20

/-- The parts of `ParseAndVerify` outside the repository: `yaml.Unmarshal` and
`ed25519.Verify`. -/
structure PackTools where
  unmarshal : Bytes → Except String Pack
  verify : Bytes → Bytes → Bytes → Bool

def parseAndVerify (tools : PackTools) (raw pubKey : Bytes) : Except PackError Pack :=
  if raw.length = 0 then .error .empty
  else if raw.length > maxPackBytes then .error (.tooLarge raw.length)
  else
    let (signedBody, n) := splitSignatureLine raw
    if n ≠ 1 then .error (.signatureLines n)
    else match tools.unmarshal raw with
      | .error err => .error (.yaml err)
      | .ok p =>
        if pubKey.length ≠ 32 then .error .noPublicKey
        else if p.signature = "" then .error .unsigned
        else match Base64.decode p.signature.toList with
          | none => .error .badBase64
          | some sig =>
            if ¬ tools.verify pubKey signedBody sig then .error .badSignature
            else match p.validate with
              | .error err => .error err
              | .ok () => .ok p

/-! ## The lines of the YAML scanner -/

def lineBreaks : List Bytes := [[cr, lf], [cr], [lf]]

def wideBreaks : List Bytes := [[0xC2, 0x85], [0xE2, 0x80, 0xA8], [0xE2, 0x80, 0xA9]]

/-- The lines of a document as the YAML scanner sees them. -/
def yamlLines (raw : Bytes) : List Bytes := split (lineBreaks ++ wideBreaks) raw

/-- Lines up to trailing blanks. -/
def stripLines (lines : List Bytes) : List Bytes := strip isBlank lines

/-- Deleting one YAML line of `raw`, a signature line, leaves the lines of
`body` up to trailing blanks. -/
def OnlySignatureUnsigned (raw body : Bytes) : Prop :=
  ∃ i, ((yamlLines raw)[i]?.any fun l => isSignatureLine l) ∧
    stripLines ((yamlLines raw).eraseIdx i) = stripLines (yamlLines body)

/-- No line of the document but the signature line comes out of the line that
the splitter removes: it holds no wide break, or what follows its first one is
blank to the end of the document. -/
def SignatureLineAlone (raw : Bytes) : Prop :=
  ∀ pre line post, goLines raw = pre ++ line :: post → isSignatureLine line = true →
    (split wideBreaks line).tail = [] ∨
    ∀ l ∈ (split wideBreaks line).tail ++ post.flatMap (split wideBreaks),
      isBlankLine isBlank l = true

namespace PackLemmas

variable {l : Bytes}

/-! ## The two line splitters -/

/-- The splitter breaks at CRLF, CR and LF, and the YAML lines are the pieces of its lines at
the three wide breaks. -/
theorem goLines_eq (raw : Bytes) : goLines raw = split lineBreaks raw := by
  have hcr : goLines raw = split ([cr, lf].map ([·])) (replaceAll [cr, lf] [lf] raw) :=
    split_replaceAll (List.mem_singleton.mpr rfl) _
  have hcrlf : split ([cr, lf].map ([·])) (replaceAll [cr, lf] [lf] raw) = split lineBreaks raw :=
    split_replaceAll (List.mem_cons_of_mem _ List.mem_cons_self) raw
  rw [hcr, hcrlf]

theorem yamlLines_eq (raw : Bytes) : yamlLines raw = (goLines raw).flatMap (split wideBreaks) := by
  rw [goLines_eq, yamlLines, split_two]
  decide +kernel

theorem quiet_lineBreaks {c : UInt8} (hcr : c ≠ cr) (hlf : c ≠ lf) : Quiet lineBreaks c := by
  intro q hq
  simp only [lineBreaks, List.mem_cons, List.not_mem_nil, or_false] at hq
  rcases hq with rfl | rfl | rfl <;> simp [hcr.symm, hlf.symm]

theorem goLines_avoid (raw : Bytes) : ∀ l ∈ goLines raw, cr ∉ l ∧ lf ∉ l := by
  intro l hl
  rw [goLines_eq] at hl
  exact ⟨split_avoids (by decide) raw l hl, split_avoids (by decide) raw l hl⟩

theorem sepAt_lf (t : Bytes) : sepAt lineBreaks (lf :: t) = some [lf] := by
  simp [sepAt, lineBreaks, List.isPrefixOf, lf, cr]

theorem goLines_append_lf {s : Bytes} (hs : cr ∉ s) (t : Bytes) :
    goLines (s ++ lf :: t) = goLines s ++ goLines t := by
  simp only [goLines_eq]
  induction s with
  | nil => simpa using split_cons_some (sepAt_lf t)
  | cons a s ih =>
    obtain ⟨ha, hs'⟩ : cr ≠ a ∧ cr ∉ s := by simpa using hs
    by_cases hlf : a = lf
    · subst hlf
      rw [List.cons_append, split_cons_some (sepAt_lf _), split_cons_some (sepAt_lf _)]
      simpa using ih hs'
    · have hq := quiet_lineBreaks (Ne.symm ha) hlf
      obtain ⟨l, ls, hl, -⟩ := split_exists_cons lineBreaks s
      rw [List.cons_append, split_cons_none (hq.sepAt _), split_cons_none (hq.sepAt _), ih hs', hl]
      rfl

theorem goLines_line (hl : cr ∉ l ∧ lf ∉ l) : goLines l = [l] := by
  rw [goLines_eq]
  refine split_quiet fun c hc => quiet_lineBreaks ?_ ?_
  · exact fun h => hl.1 (h ▸ hc)
  · exact fun h => hl.2 (h ▸ hc)

theorem joinLines_cons_cons (l l' : Bytes) (ls : List Bytes) :
    joinLines (l :: l' :: ls) = l ++ lf :: joinLines (l' :: ls) := by
  simp [joinLines, List.intercalate_cons_cons]

theorem cr_not_mem_joinLines {lines : List Bytes} (h : ∀ l ∈ lines, cr ∉ l ∧ lf ∉ l) :
    cr ∉ joinLines lines := by
  induction lines with
  | nil => simp [joinLines]
  | cons l ls ih =>
    cases ls with
    | nil => simpa [joinLines] using (h l List.mem_cons_self).1
    | cons l' ls =>
      rw [joinLines_cons_cons]
      have hrest := ih fun x hx => h x (List.mem_cons_of_mem _ hx)
      simp only [List.mem_append, List.mem_cons, not_or]
      exact ⟨(h l List.mem_cons_self).1, by decide, hrest⟩

theorem goLines_joinLines {lines : List Bytes} (hne : lines ≠ [])
    (h : ∀ l ∈ lines, cr ∉ l ∧ lf ∉ l) : goLines (joinLines lines) = lines := by
  induction lines with
  | nil => exact absurd rfl hne
  | cons l ls ih =>
    have hl := h l List.mem_cons_self
    cases ls with
    | nil => simpa [joinLines] using goLines_line hl
    | cons l' ls =>
      rw [joinLines_cons_cons, goLines_append_lf hl.1, goLines_line hl,
        ih (by simp) fun x hx => h x (List.mem_cons_of_mem _ hx)]
      rfl

/-! ## The signed body -/

theorem strip_yamlLines_snoc {s : Bytes} (hs : cr ∉ s) {b : UInt8} (hb : isBlank b ∨ b = lf) :
    stripLines (yamlLines (s ++ [b])) = stripLines (yamlLines s) := by
  rcases hb with hb | rfl
  · have hnot : ∀ q ∈ lineBreaks ++ wideBreaks, q ≠ [] ∧ b ∉ q := by
      have hb' : b = 32 ∨ b = 9 := by simpa [isBlank] using hb
      rcases hb' with rfl | rfl <;> decide
    obtain ⟨P, l, hP, hPb⟩ := split_snoc hnot s
    rw [yamlLines, yamlLines, hP, hPb]
    exact strip_snoc_blank hb P l
  · rw [yamlLines_eq, goLines_append_lf hs, List.flatMap_append, ← yamlLines_eq]
    exact strip_append_of_nil rfl

theorem strip_yamlLines_trimRight (s : Bytes) (hs : cr ∉ s) :
    stripLines (yamlLines (trimRight (fun b => isBlank b ∨ b = lf) s)) =
      stripLines (yamlLines s) := by
  induction s using List.reverseRecOn with
  | nil => rfl
  | append_singleton s b ih =>
    have hs' : cr ∉ s := fun h => hs (List.mem_append_left _ h)
    by_cases hb : isBlank b ∨ b = lf
    · rw [trimRight_snoc (by simpa using hb), ih hs', strip_yamlLines_snoc hs' hb]
    · have hkeep : trimRight (fun b => decide (isBlank b ∨ b = lf)) (s ++ [b]) = s ++ [b] := by
        simp only [not_or] at hb
        simp [trimRight, hb.1, hb.2]
      rw [hkeep]

theorem strip_yamlLines_body (raw : Bytes) :
    stripLines (yamlLines (splitSignatureLine raw).1) =
      stripLines (((goLines raw).filter (¬ isSignatureLine ·)).flatMap (split wideBreaks)) := by
  have hkept : ∀ l ∈ (goLines raw).filter (¬ isSignatureLine ·), cr ∉ l ∧ lf ∉ l :=
    fun l hl => goLines_avoid raw l (List.mem_of_mem_filter hl)
  rw [splitSignatureLine, strip_yamlLines_trimRight _ (cr_not_mem_joinLines hkept), yamlLines_eq]
  by_cases hne : (goLines raw).filter (¬ isSignatureLine ·) = []
  · rw [hne]
    rfl
  · rw [goLines_joinLines hne hkept]

/-! ## Signature lines -/

theorem isSignatureLine_iff : isSignatureLine l = true ↔
    ∃ blanks rest, l = ascii "signature" ++ (blanks ++ 58 :: rest) ∧
      ∀ b ∈ blanks, isBlank b = true := by
  unfold isSignatureLine
  simp only [Bool.decide_and, Bool.and_eq_true, decide_eq_true_eq, List.isPrefixOf_iff_prefix]
  constructor
  · rintro ⟨⟨t, rfl⟩, hhead⟩
    have hdrop : (ascii "signature" ++ t).drop 9 = t := List.drop_left' (by decide)
    rw [hdrop] at hhead
    refine ⟨t.takeWhile isBlank, (t.dropWhile isBlank).tail, ?_, fun b hb => ?_⟩
    · rw [List.cons_head?_tail hhead, List.takeWhile_append_dropWhile]
    · exact List.all_eq_true.mp List.all_takeWhile b hb
  · rintro ⟨blanks, rest, rfl, hblanks⟩
    refine ⟨List.prefix_append _ _, ?_⟩
    rw [List.drop_left' (by decide), List.dropWhile_append_of_pos hblanks]
    rfl

theorem isSignatureLine_of_startsWith {l l' : Bytes} (h : isSignatureLine l = true)
    (hp : l <+: l') : isSignatureLine l' = true := by
  obtain ⟨blanks, rest, rfl, hblanks⟩ := isSignatureLine_iff.mp h
  obtain ⟨t, rfl⟩ := hp
  exact isSignatureLine_iff.mpr ⟨blanks, rest ++ t, by simp, hblanks⟩

theorem isSignatureLine_trimRight (h : isSignatureLine l = true) :
    isSignatureLine (trimRight isBlank l) = true := by
  obtain ⟨blanks, rest, rfl, hblanks⟩ := isSignatureLine_iff.mp h
  refine isSignatureLine_iff.mpr ⟨blanks, trimRight isBlank rest, ?_, hblanks⟩
  rw [← List.append_assoc, trimRight_append (by decide), List.append_assoc]

theorem not_blank_of_isSignatureLine (h : isSignatureLine l = true) :
    isBlankLine isBlank l = false := by
  obtain ⟨blanks, rest, rfl, -⟩ := isSignatureLine_iff.mp h
  rw [isBlankLine, List.all_append, show (ascii "signature").all isBlank = false by decide]
  rfl

theorem split_signatureLine (h : isSignatureLine l = true) :
    ∃ l₀ M, split wideBreaks l = l₀ :: M ∧ isSignatureLine l₀ = true := by
  obtain ⟨blanks, rest, rfl, hblanks⟩ := isSignatureLine_iff.mp h
  obtain ⟨r, M, hr, -⟩ := split_exists_cons wideBreaks rest
  have hword : ∀ c ∈ ascii "signature", Quiet wideBreaks c :=
    List.all_iff_forall_prop.mp (by decide +kernel)
  have hquiet : ∀ c ∈ ascii "signature" ++ (blanks ++ [58]), Quiet wideBreaks c := by
    intro c hc
    rcases List.mem_append.mp hc with hc | hc
    · exact hword c hc
    · rcases List.mem_append.mp hc with hc | hc
      · have hb : c = 32 ∨ c = 9 := by simpa [isBlank] using hblanks c hc
        rcases hb with rfl | rfl <;> decide
      · rw [List.mem_singleton.mp hc]
        decide
  refine ⟨ascii "signature" ++ (blanks ++ 58 :: r), M, ?_,
    isSignatureLine_iff.mpr ⟨_, _, rfl, hblanks⟩⟩
  have hsplit := split_append_quiet hquiet rest
  rw [hr, List.modifyHead_cons] at hsplit
  simpa using hsplit

/-! ## The removed line -/

theorem parseAndVerify_one {tools : PackTools} {raw key : Bytes} {p : Pack}
    (h : parseAndVerify tools raw key = .ok p) : (goLines raw).countP isSignatureLine = 1 := by
  by_contra hn
  rcases hs : splitSignatureLine raw with ⟨body, n⟩
  have hn' : n ≠ 1 := fun h1 => hn ((congrArg Prod.snd hs).trans h1)
  rw [parseAndVerify, hs] at h
  split at h
  · cases h
  · split at h
    · cases h
    · dsimp only at h
      rw [if_pos hn'] at h
      cases h

section RemovedLine

variable {raw line : Bytes} {pre post : List Bytes}
  (hlines : goLines raw = pre ++ line :: post) (hline : isSignatureLine line = true)
  (hone : (goLines raw).countP isSignatureLine = 1)
include hlines hline hone

theorem not_signatureLine : ∀ l ∈ pre ++ post, isSignatureLine l = false := by
  rw [hlines, List.countP_append, List.countP_cons_of_pos hline] at hone
  have hnone : (pre ++ post).countP isSignatureLine = 0 := by
    rw [List.countP_append]
    omega
  simpa using List.countP_eq_zero.mp hnone

theorem kept_eq : (goLines raw).filter (¬ isSignatureLine ·) = pre ++ post := by
  have hnot := not_signatureLine hlines hline hone
  rw [hlines, List.filter_append, List.filter_cons_of_neg (by simp [hline]), ← List.filter_append]
  exact List.filter_eq_self.mpr fun l hl => by simp [hnot l hl]

theorem yamlLines_around : ∃ A l₀ M B, isSignatureLine l₀ = true ∧
    split wideBreaks line = l₀ :: M ∧ B = post.flatMap (split wideBreaks) ∧
    yamlLines raw = (A ++ [l₀]) ++ (M ++ B) ∧
    stripLines (yamlLines (splitSignatureLine raw).1) = stripLines (A ++ B) := by
  obtain ⟨l₀, M, hsplit, hl₀⟩ := split_signatureLine hline
  refine ⟨pre.flatMap (split wideBreaks), l₀, M, _, hl₀, hsplit, rfl, ?_, ?_⟩
  · rw [yamlLines_eq, hlines, List.flatMap_append, List.flatMap_cons, hsplit]
    simp
  · rw [strip_yamlLines_body, kept_eq hlines hline hone, List.flatMap_append]

theorem not_signatureLine_next {b : Bytes} {B : List Bytes}
    (hB : b :: B = post.flatMap (split wideBreaks)) : isSignatureLine b = false := by
  cases post with
  | nil => cases hB
  | cons l post =>
    obtain ⟨b', B', hl, hp⟩ := split_exists_cons wideBreaks l
    rw [List.flatMap_cons, hl, List.cons_append] at hB
    have hnot := not_signatureLine hlines hline hone l (by simp)
    rw [← (List.cons.inj hB).1] at hp
    by_contra hb
    rw [isSignatureLine_of_startsWith (Bool.not_eq_false _ ▸ hb) hp] at hnot
    cases hnot

end RemovedLine

theorem all_blank_of_erase_le {A M B : List Bytes} {l₀ : Bytes} {i : Nat} (hi : i ≤ A.length)
    (h : stripLines (((A ++ [l₀]) ++ (M ++ B)).eraseIdx i) = stripLines (A ++ B)) :
    M = [] ∨ stripLines (M ++ B) = [] := by
  rw [or_iff_not_imp_right]
  intro hne
  unfold stripLines at h hne
  rw [List.eraseIdx_append_of_lt_length (by simp; omega), strip_append_of_ne_nil hne] at h
  have hlen := congrArg List.length h
  rw [List.length_append, List.length_eraseIdx_of_lt (by simp; omega)] at hlen
  by_cases hB : strip isBlank B = []
  · rw [@strip_append_of_nil _ _ A B hB] at hlen
    have hle := @length_strip_le _ isBlank A
    have hpos := List.length_pos_iff.mpr hne
    simp only [List.length_append, List.length_singleton] at hlen
    omega
  · rw [strip_append_of_ne_nil hB, strip_append_of_ne_nil hB] at hlen
    simp only [List.length_append, List.length_singleton] at hlen
    exact List.eq_nil_of_length_eq_zero (by omega)

theorem head_of_erase_gt {A R B : List Bytes} {l₀ : Bytes} {i : Nat} (hi : A.length < i)
    (hl₀ : isSignatureLine l₀ = true)
    (h : stripLines (((A ++ [l₀]) ++ R).eraseIdx i) = stripLines (A ++ B)) :
    ∃ b B', B = b :: B' ∧ isSignatureLine b = true := by
  unfold stripLines at h
  rw [List.eraseIdx_append_of_length_le (by simp; omega), List.append_assoc] at h
  generalize R.eraseIdx (i - (A ++ [l₀]).length) = R' at h
  have hne : strip isBlank ([l₀] ++ R') ≠ [] := by
    rw [Ne, strip_eq_nil]
    intro hall
    have hblank := hall l₀ (by simp)
    rw [not_blank_of_isSignatureLine hl₀] at hblank
    cases hblank
  rw [strip_append_of_ne_nil hne] at h
  obtain ⟨x, X, hx⟩ := List.exists_cons_of_ne_nil hne
  have hsig : isSignatureLine x = true := by
    rcases strip_cons_head hx with rfl | rfl
    · exact hl₀
    · exact isSignatureLine_trimRight hl₀
  by_cases hB : strip isBlank B = []
  · rw [strip_append_of_nil hB, hx] at h
    have hlen := congrArg List.length h
    have hle := @length_strip_le _ isBlank A
    simp at hlen
    omega
  · rw [strip_append_of_ne_nil hB, hx] at h
    have hhead := List.append_cancel_left h
    cases B with
    | nil => exact absurd rfl hB
    | cons b B =>
      refine ⟨b, B, rfl, isSignatureLine_of_startsWith hsig ?_⟩
      rcases strip_cons_head hhead.symm with rfl | rfl
      · exact List.prefix_refl _
      · exact trimRight_prefix_self b

theorem onlySignatureUnsigned_iff {raw line : Bytes} {pre post : List Bytes}
    (hlines : goLines raw = pre ++ line :: post) (hline : isSignatureLine line = true)
    (hone : (goLines raw).countP isSignatureLine = 1) :
    OnlySignatureUnsigned raw (splitSignatureLine raw).1 ↔
      ((split wideBreaks line).tail = [] ∨
        ∀ l ∈ (split wideBreaks line).tail ++ post.flatMap (split wideBreaks),
          isBlankLine isBlank l = true) := by
  obtain ⟨A, l₀, M, B, hl₀, hsplit, hB, hraw, hbody⟩ := yamlLines_around hlines hline hone
  unfold OnlySignatureUnsigned
  rw [hsplit, ← hB, ← strip_eq_nil, hraw, hbody, List.tail_cons]
  constructor
  · rintro ⟨i, -, h⟩
    by_cases hi : i ≤ A.length
    · exact all_blank_of_erase_le hi h
    · obtain ⟨b, B', rfl, hb⟩ := head_of_erase_gt (not_le.mp hi) hl₀ h
      rw [not_signatureLine_next hlines hline hone hB] at hb
      cases hb
  · intro h
    refine ⟨A.length, by simp [hl₀], ?_⟩
    have herase : ((A ++ [l₀]) ++ (M ++ B)).eraseIdx A.length = A ++ (M ++ B) := by
      rw [List.append_assoc, List.eraseIdx_append_of_length_le (Nat.le_refl _)]
      simp
    rw [herase]
    rcases h with rfl | hblank
    · rfl
    · have hBnil : strip isBlank B = [] :=
        strip_eq_nil.mpr fun l hl => strip_eq_nil.mp hblank l (List.mem_append_right M hl)
      unfold stripLines
      rw [strip_append_of_nil hblank, strip_append_of_nil hBnil]

end PackLemmas

/-! ## Results -/

open PackLemmas in
/-- For an accepted document, the signature line is the only unsigned YAML line
exactly if no other line comes out of the removed line. -/
theorem pack_only_signature_unsigned_iff (tools : PackTools) (raw key : Bytes) (p : Pack)
    (h : parseAndVerify tools raw key = .ok p) :
    OnlySignatureUnsigned raw (splitSignatureLine raw).1 ↔ SignatureLineAlone raw := by
  have hone := parseAndVerify_one h
  constructor
  · intro hraw pre line post hlines hline
    exact (onlySignatureUnsigned_iff hlines hline hone).mp hraw
  · intro halone
    obtain ⟨line, hmem, hline⟩ := List.countP_pos_iff.mp (hone ▸ Nat.one_pos)
    obtain ⟨pre, post, hlines⟩ := List.append_of_mem hmem
    exact (onlySignatureUnsigned_iff hlines hline hone).mpr (halone pre line post hlines hline)

def osPack : Pack := ⟨1, "inventory", [⟨"os", "", "uname"⟩], "c2ln"⟩

/-- A parser that reads `osPack`, and a verifier that accepts. -/
def lenientTools : PackTools where
  unmarshal _ := .ok osPack
  verify _ _ _ := true

def osPackBody : Bytes :=
  joinLines (["version: 1", "kind: inventory", "collectors:", "- id: os", "  cmd: uname"].map ascii)

def plainPack : Bytes := osPackBody ++ [lf] ++ ascii "signature: c2ln" ++ [lf]

def smuggledPack : Bytes :=
  osPackBody ++ [lf] ++ ascii "signature: c2ln" ++ [0xC2, 0x85] ++ ascii "note: x" ++ [lf]

theorem pack_only_signature_unsigned_plain :
    OnlySignatureUnsigned plainPack (splitSignatureLine plainPack).1 ↔
      SignatureLineAlone plainPack :=
  pack_only_signature_unsigned_iff lenientTools plainPack (List.replicate 32 0) osPack (by decide)

/-- Not every accepted document: behind U+0085 the removed line carries a YAML
line of its own. -/
theorem pack_unsigned_line :
    ¬ ∀ (tools : PackTools) (raw key : Bytes) (p : Pack), parseAndVerify tools raw key = .ok p →
      OnlySignatureUnsigned raw (splitSignatureLine raw).1 := by
  intro h
  obtain ⟨i, hi, hstrip⟩ := h lenientTools smuggledPack (List.replicate 32 0) osPack
    (by decide)
  have hlen : i < 8 := by
    by_contra hge
    have hnone : (yamlLines smuggledPack)[i]? = none :=
      List.getElem?_eq_none (Nat.le_trans (by decide) (not_lt.mp hge))
    simp [hnone] at hi
  have hnone : ∀ i < 8, stripLines ((yamlLines smuggledPack).eraseIdx i) ≠
      stripLines (yamlLines (splitSignatureLine smuggledPack).1) := by decide
  exact hnone i hlen hstrip

end Forager
