import Forager.Pack

/-!
# Signing a content pack

`pack sign` of `cmd/pack.go`: the document without its signature lines, and
behind it one signature line over these bytes. The text then travels through
checkouts, editors and HTTP, which rewrite line ends and pad the tail.
-/

namespace Forager

open Lines
open GoText (Bytes ascii lf cr)

structure PackScheme where
  publicKey : Bytes → Bytes
  sign : Bytes → Bytes → Bytes
  verify : Bytes → Bytes → Bytes → Bool
  correct : ∀ key msg, verify (publicKey key) msg (sign key msg) = true

def signedBytes (raw : Bytes) : Bytes := (splitSignatureLine raw).1

def signatureLineOf (sig : Bytes) : Bytes :=
  ascii "signature: " ++ (Base64.encode sig).map fun c => UInt8.ofNat c.toNat

def packSign (ed : PackScheme) (key raw : Bytes) : Bytes :=
  let body := signedBytes raw
  body ++ [lf] ++ signatureLineOf (ed.sign key body) ++ [lf]

inductive PackSignError
  | noKey
  | badBase64
  | keySize (found : Nat)
deriving DecidableEq, Repr

/-- `cmdPackSign` on the key material of its flags and the document read. -/
def cmdPackSign (ed : PackScheme) (material : List Char) (raw : Bytes) :
    Except PackSignError Bytes :=
  if material = [] then .error .noKey
  else match Base64.decode material with
    | none => .error .badBase64
    | some key =>
      if key.length ≠ 64 then .error (.keySize key.length) else .ok (packSign ed key raw)

/-- `t` is `s` with some of its LF turned into CRLF, and spaces, tabs and line
ends added behind it. -/
inductive Recoded : Bytes → Bytes → Prop
  | tail {t : Bytes} (h : ∀ b ∈ t, isBlank b ∨ b = lf ∨ b = cr) : Recoded [] t
  | keep (b : UInt8) {s t : Bytes} (h : Recoded s t) : Recoded (b :: s) (b :: t)
  | crlf {s t : Bytes} (h : Recoded s t) : Recoded (lf :: s) (cr :: lf :: t)

namespace PackSignLemmas

open PackLemmas

/-! ## Lines of a text without CR -/

theorem goLines_lf (t : Bytes) : goLines (lf :: t) = [] :: goLines t := by
  rw [goLines_eq, goLines_eq]
  exact split_cons_some (sepAt_lf t)

theorem goLines_crlf (t : Bytes) : goLines (cr :: lf :: t) = [] :: goLines t := by
  have hsep : sepAt lineBreaks (cr :: lf :: t) = some [cr, lf] := by
    simp [sepAt, lineBreaks, List.isPrefixOf]
  rw [goLines_eq, goLines_eq]
  exact split_cons_some hsep

theorem goLines_cons {b : UInt8} (hcr : b ≠ cr) (hlf : b ≠ lf) (t : Bytes) :
    goLines (b :: t) = (goLines t).modifyHead (b :: ·) := by
  rw [goLines_eq, goLines_eq]
  exact split_cons_none ((quiet_lineBreaks hcr hlf).sepAt t)

theorem goLines_exists_cons (t : Bytes) : ∃ l ls, goLines t = l :: ls := by
  obtain ⟨l, ls, h, -⟩ := split_exists_cons lineBreaks t
  exact ⟨l, ls, (goLines_eq t).trans h⟩

theorem joinLines_cons_head (b : UInt8) (l : Bytes) (ls : List Bytes) :
    joinLines ((b :: l) :: ls) = b :: joinLines (l :: ls) := by
  cases ls with
  | nil => simp [joinLines]
  | cons l' ls => rw [joinLines_cons_cons, joinLines_cons_cons, List.cons_append]

theorem joinLines_goLines {s : Bytes} (hs : cr ∉ s) : joinLines (goLines s) = s := by
  induction s with
  | nil => rfl
  | cons b s ih =>
    obtain ⟨hb, hs'⟩ : cr ≠ b ∧ cr ∉ s := by simpa using hs
    obtain ⟨l, ls, hl⟩ := goLines_exists_cons s
    have hjoin := ih hs'
    rw [hl] at hjoin
    by_cases hlf : b = lf
    · rw [hlf, goLines_lf, hl, joinLines_cons_cons, hjoin, List.nil_append]
    · rw [goLines_cons hb.symm hlf, hl, List.modifyHead_cons, joinLines_cons_head, hjoin]

theorem goLines_cut {s : Bytes} (hs : cr ∉ s) (t : Bytes) :
    ∃ l ls l' ls', goLines s = l :: ls ∧ goLines (s ++ t) = l' :: ls' ∧ l <+: l' ∧
      ∀ x ∈ ls, ∃ x' ∈ ls', x <+: x' := by
  induction s with
  | nil =>
    obtain ⟨l', ls', hl'⟩ := goLines_exists_cons t
    exact ⟨[], [], l', ls', rfl, hl', List.nil_prefix, nofun⟩
  | cons b s ih =>
    obtain ⟨hb, hs'⟩ : cr ≠ b ∧ cr ∉ s := by simpa using hs
    obtain ⟨l, ls, l', ls', hl, hl', hp, hps⟩ := ih hs'
    by_cases hlf : b = lf
    · refine ⟨[], l :: ls, [], l' :: ls', ?_, ?_, List.prefix_refl _, fun x hx => ?_⟩
      · rw [hlf, goLines_lf, hl]
      · rw [hlf, List.cons_append, goLines_lf, hl']
      · rcases List.mem_cons.mp hx with rfl | hx
        · exact ⟨l', List.mem_cons_self, hp⟩
        · obtain ⟨x', hx', hpx⟩ := hps x hx
          exact ⟨x', List.mem_cons_of_mem _ hx', hpx⟩
    · refine ⟨b :: l, ls, b :: l', ls', ?_, ?_, List.cons_prefix_cons.mpr ⟨rfl, hp⟩, hps⟩
      · rw [goLines_cons hb.symm hlf, hl, List.modifyHead_cons]
      · rw [List.cons_append, goLines_cons hb.symm hlf, hl', List.modifyHead_cons]

/-! ## The signed bytes -/

def isTail (b : UInt8) : Bool := isBlank b ∨ b = lf

theorem signedBytes_eq (raw : Bytes) :
    signedBytes raw =
      trimRight isTail (joinLines ((goLines raw).filter (¬ isSignatureLine ·))) := rfl

theorem kept_avoid (raw : Bytes) :
    ∀ l ∈ (goLines raw).filter (¬ isSignatureLine ·), cr ∉ l ∧ lf ∉ l :=
  fun l hl => goLines_avoid raw l (List.mem_of_mem_filter hl)

theorem cr_not_mem_signedBytes (raw : Bytes) : cr ∉ signedBytes raw := fun h =>
  cr_not_mem_joinLines (kept_avoid raw) ((trimRight_prefix_self _).subset h)

theorem trimRight_signedBytes (raw : Bytes) :
    trimRight isTail (signedBytes raw) = signedBytes raw := by
  rw [signedBytes_eq, trimRight_trimRight]

theorem signedBytes_clean (raw : Bytes) :
    ∀ l ∈ goLines (signedBytes raw), isSignatureLine l = false := by
  by_cases hne : (goLines raw).filter (¬ isSignatureLine ·) = []
  · rw [signedBytes_eq, hne]
    decide
  · obtain ⟨t, ht⟩ : signedBytes raw <+: joinLines ((goLines raw).filter (¬ isSignatureLine ·)) :=
      trimRight_prefix_self _
    obtain ⟨l, ls, l', ls', hl, hl', hp, hps⟩ := goLines_cut (cr_not_mem_signedBytes raw) t
    rw [ht, goLines_joinLines hne (kept_avoid raw)] at hl'
    have hkept : ∀ x ∈ l' :: ls', isSignatureLine x = false := by
      intro x hx
      rw [← hl'] at hx
      simpa using List.of_mem_filter hx
    have hprefix : ∀ x ∈ l :: ls, ∃ x' ∈ l' :: ls', x <+: x' := by
      intro x hx
      rcases List.mem_cons.mp hx with rfl | hx
      · exact ⟨l', List.mem_cons_self, hp⟩
      · obtain ⟨x', hx', hpx⟩ := hps x hx
        exact ⟨x', List.mem_cons_of_mem _ hx', hpx⟩
    intro x hx
    rw [hl] at hx
    obtain ⟨x', hx', hpx⟩ := hprefix x hx
    by_contra hsig
    have hsig' := isSignatureLine_of_startsWith (Bool.not_eq_false _ ▸ hsig) hpx
    rw [hkept x' hx'] at hsig'
    cases hsig'

/-! ## Rewritten texts -/

theorem isBlankLine_of_mem_tail {t : Bytes} (h : ∀ b ∈ t, isBlank b ∨ b = lf ∨ b = cr) :
    ∀ l ∈ goLines t, isBlankLine isBlank l = true := by
  intro l hl
  obtain ⟨hcr, hlf⟩ := goLines_avoid t l hl
  rw [goLines_eq] at hl
  refine List.all_eq_true.mpr fun b hb => ?_
  rcases h b (mem_of_mem_split hl hb) with hblank | rfl | rfl
  · exact hblank
  · exact absurd hb hlf
  · exact absurd hb hcr

theorem goLines_recoded {s t : Bytes} (h : Recoded s t) (hs : cr ∉ s) :
    ∃ L l w ls, goLines s = L ++ [l] ∧ goLines t = L ++ (l ++ w) :: ls ∧
      ∀ x ∈ w :: ls, isBlankLine isBlank x = true := by
  induction h with
  | @tail t ht =>
    obtain ⟨w, ls, hw⟩ := goLines_exists_cons t
    exact ⟨[], [], w, ls, rfl, hw, hw ▸ isBlankLine_of_mem_tail ht⟩
  | @keep b s t _ ih =>
    obtain ⟨hb, hs'⟩ : cr ≠ b ∧ cr ∉ s := by simpa using hs
    obtain ⟨L, l, w, ls, hl, hl', hblank⟩ := ih hs'
    by_cases hlf : b = lf
    · refine ⟨[] :: L, l, w, ls, ?_, ?_, hblank⟩
      · rw [hlf, goLines_lf, hl, List.cons_append]
      · rw [hlf, goLines_lf, hl', List.cons_append]
    · rw [goLines_cons hb.symm hlf, goLines_cons hb.symm hlf, hl, hl']
      cases L with
      | nil => exact ⟨[], b :: l, w, ls, rfl, rfl, hblank⟩
      | cons x L => exact ⟨(b :: x) :: L, l, w, ls, rfl, rfl, hblank⟩
  | @crlf s t _ ih =>
    obtain ⟨L, l, w, ls, hl, hl', hblank⟩ := ih fun hmem => hs (List.mem_cons_of_mem _ hmem)
    refine ⟨[] :: L, l, w, ls, ?_, ?_, hblank⟩
    · rw [goLines_lf, hl, List.cons_append]
    · rw [goLines_crlf, hl', List.cons_append]

/-! ## The text written -/

theorem signatureLineOf_avoid (sig : Bytes) :
    cr ∉ signatureLineOf sig ∧ lf ∉ signatureLineOf sig := by
  have htext : ∀ c ∈ Base64.encode sig,
      UInt8.ofNat c.toNat ≠ cr ∧ UInt8.ofNat c.toNat ≠ lf :=
    Base64.forall_encode (by decide +kernel) (by decide) sig
  have hword : cr ∉ ascii "signature: " ∧ lf ∉ ascii "signature: " := by decide
  unfold signatureLineOf
  constructor
  · intro h
    rcases List.mem_append.mp h with h | h
    · exact hword.1 h
    · obtain ⟨c, hc, he⟩ := List.mem_map.mp h
      exact (htext c hc).1 he
  · intro h
    rcases List.mem_append.mp h with h | h
    · exact hword.2 h
    · obtain ⟨c, hc, he⟩ := List.mem_map.mp h
      exact (htext c hc).2 he

theorem isSignatureLine_signatureLineOf (sig : Bytes) :
    isSignatureLine (signatureLineOf sig) = true :=
  isSignatureLine_of_startsWith (by decide) (List.prefix_append (ascii "signature: ") _)

theorem not_signatureLine_of_blank {l : Bytes} (h : isBlankLine isBlank l = true) :
    isSignatureLine l = false := by
  by_contra hsig
  rw [not_blank_of_isSignatureLine (Bool.not_eq_false _ ▸ hsig)] at h
  cases h

theorem goLines_packSign (ed : PackScheme) (key raw : Bytes) :
    goLines (packSign ed key raw) =
      (goLines (signedBytes raw) ++ [signatureLineOf (ed.sign key (signedBytes raw))]) ++ [[]] := by
  have hcr := cr_not_mem_signedBytes raw
  have hline := signatureLineOf_avoid (ed.sign key (signedBytes raw))
  unfold packSign
  simp only [List.append_assoc, List.cons_append, List.nil_append]
  rw [goLines_append_lf hcr, goLines_append_lf hline.1, goLines_line hline]
  rfl

theorem cr_not_mem_packSign (ed : PackScheme) (key raw : Bytes) : cr ∉ packSign ed key raw := by
  have hline := (signatureLineOf_avoid (ed.sign key (signedBytes raw))).1
  have hlf : cr ∉ [lf] := by decide
  unfold packSign
  simp only [List.mem_append, not_or]
  exact ⟨⟨⟨cr_not_mem_signedBytes raw, hlf⟩, hline⟩, hlf⟩

theorem joinLines_append {ls ls' : List Bytes} (hne : ls ≠ []) (hne' : ls' ≠ []) :
    joinLines (ls ++ ls') = joinLines ls ++ lf :: joinLines ls' := by
  obtain ⟨l', rest', rfl⟩ := List.exists_cons_of_ne_nil hne'
  induction ls with
  | nil => exact absurd rfl hne
  | cons l ls ih =>
    cases ls with
    | nil =>
      rw [List.singleton_append, joinLines_cons_cons]
      simp [joinLines]
    | cons l₂ ls =>
      rw [List.cons_append, List.cons_append, joinLines_cons_cons, ← List.cons_append,
        ih (List.cons_ne_nil _ _), joinLines_cons_cons, List.append_assoc, List.cons_append]

theorem isTail_of_mem_joinLines {ls : List Bytes} (h : ∀ x ∈ ls, isBlankLine isBlank x = true) :
    ∀ b ∈ joinLines ls, isTail b = true := by
  have hline : ∀ x ∈ ls, ∀ b ∈ x, isTail b = true := by
    intro x hx b hb
    have hblank : isBlank b = true := List.all_eq_true.mp (h x hx) b hb
    simp [isTail, hblank]
  induction ls with
  | nil => simp [joinLines]
  | cons l ls ih =>
    cases ls with
    | nil => simpa [joinLines] using hline l List.mem_cons_self
    | cons l' ls =>
      rw [joinLines_cons_cons]
      intro b hb
      rcases List.mem_append.mp hb with hb | hb
      · exact hline l List.mem_cons_self b hb
      · rcases List.mem_cons.mp hb with rfl | hb
        · decide
        · exact ih (fun x hx => h x (List.mem_cons_of_mem _ hx))
            (fun x hx => hline x (List.mem_cons_of_mem _ hx)) b hb

theorem splitSignatureLine_recoded (ed : PackScheme) (key raw : Bytes) {t : Bytes}
    (h : Recoded (packSign ed key raw) t) :
    splitSignatureLine t = (signedBytes raw, 1) ∧
      signatureLineOf (ed.sign key (signedBytes raw)) ∈ goLines t := by
  obtain ⟨L, l, w, ls, hl, hl', hblank⟩ := goLines_recoded h (cr_not_mem_packSign ed key raw)
  rw [goLines_packSign] at hl
  obtain ⟨rfl, hnil⟩ := List.append_inj' hl rfl
  obtain rfl := (List.cons.inj hnil).1
  have hbody := signedBytes_clean raw
  have hsig := isSignatureLine_signatureLineOf (ed.sign key (signedBytes raw))
  have htail : ∀ x ∈ w :: ls, isSignatureLine x = false :=
    fun x hx => not_signatureLine_of_blank (hblank x hx)
  rw [List.nil_append, List.append_assoc, List.singleton_append] at hl'
  refine ⟨?_, hl' ▸ by simp⟩
  have hkept : (goLines t).filter (¬ isSignatureLine ·) = goLines (signedBytes raw) ++ w :: ls := by
    rw [hl', List.filter_append, List.filter_cons_of_neg (by simp [hsig]),
      List.filter_eq_self.mpr fun x hx => by simp [hbody x hx],
      List.filter_eq_self.mpr fun x hx => by simp [htail x hx]]
  have hcount : (goLines t).countP (isSignatureLine ·) = 1 := by
    rw [hl', List.countP_append, List.countP_cons_of_pos hsig,
      List.countP_eq_zero.mpr fun x hx => by simp [hbody x hx],
      List.countP_eq_zero.mpr fun x hx => by simp [htail x hx]]
  obtain ⟨b, bs, hb⟩ := goLines_exists_cons (signedBytes raw)
  have hjoin : joinLines ((goLines t).filter (¬ isSignatureLine ·)) =
      signedBytes raw ++ lf :: joinLines (w :: ls) := by
    rw [hkept, joinLines_append (by simp [hb]) (by simp),
      joinLines_goLines (cr_not_mem_signedBytes raw)]
  refine Prod.ext ?_ hcount
  show trimRight isTail (joinLines ((goLines t).filter (¬ isSignatureLine ·))) = _
  rw [hjoin, trimRight_append_blank, trimRight_signedBytes]
  intro b hb
  rcases List.mem_cons.mp hb with rfl | hb
  · decide
  · exact isTail_of_mem_joinLines hblank b hb

end PackSignLemmas

open PackSignLemmas in
/-- Let `pack sign` write `s` for the document `d`, and let `t` be `s` with any
line feeds turned into CRLF and any blanks and line ends behind it. Then the
verifier splits `t` into the signed bytes of `d` and one signature line, the
signature on that line verifies over these bytes, and signing `t` with the same
key gives `s`. -/
theorem pack_sign_round_trip (ed : PackScheme) (material : List Char) (d s t : Bytes)
    (hs : cmdPackSign ed material d = .ok s) (ht : Recoded s t) :
    splitSignatureLine t = (signedBytes d, 1) ∧
    (∃ key sig, Base64.decode material = some key ∧ signatureLineOf sig ∈ goLines t ∧
      ed.verify (ed.publicKey key) (splitSignatureLine t).1 sig = true) ∧
    cmdPackSign ed material t = .ok s := by
  unfold cmdPackSign at hs ⊢
  split at hs
  · cases hs
  · next hmat =>
    split at hs
    · cases hs
    · next key hkey =>
      split at hs
      · cases hs
      · next hlen =>
        cases hs
        obtain ⟨hsplit, hline⟩ := splitSignatureLine_recoded ed key d ht
        have hbytes : signedBytes t = signedBytes d := by
          rw [signedBytes, hsplit]
        refine ⟨hsplit, ⟨key, _, hkey, hline, ?_⟩, ?_⟩
        · rw [hsplit]
          exact ed.correct key (signedBytes d)
        · rw [if_neg hmat, if_neg hlen, packSign, packSign, hbytes]

def echoScheme : PackScheme where
  publicKey key := key
  sign _ msg := msg
  verify _ msg sig := msg = sig
  correct := by simp

def zeroKey : List Char := Base64.encode (List.replicate 64 0)

theorem Recoded.append (w : Bytes) {s t : Bytes} (h : Recoded s t) : Recoded (w ++ s) (w ++ t) := by
  induction w with
  | nil => exact h
  | cons b w ih => exact .keep b ih

theorem pack_sign_round_trip_crlf :
    splitSignatureLine
        (ascii "a: 1" ++ cr :: lf :: (ascii "signature: YTogMQ==" ++ [lf, 32, cr, lf])) =
      (ascii "a: 1", 1) := by
  have hs : cmdPackSign echoScheme zeroKey (ascii "signature: old" ++ [cr] ++ ascii "a: 1 ") =
      .ok (ascii "a: 1" ++ lf :: (ascii "signature: YTogMQ==" ++ [lf])) := by
    decide +kernel
  have htail : Recoded [lf] [lf, 32, cr, lf] := .keep lf (.tail (by decide +kernel))
  have ht := Recoded.append (ascii "a: 1")
    (.crlf (Recoded.append (ascii "signature: YTogMQ==") htail))
  rw [(pack_sign_round_trip echoScheme zeroKey _ _ _ hs ht).1]
  decide +kernel

end Forager
