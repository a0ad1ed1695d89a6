import Mathlib.Data.Bool.AllAny
import Forager.When

/-!
# The language of the guard parser

`parseWhen` splits a guard at `||` and `&&` before it looks at quotes, and a
comparison at the first `==`, or else at the first `!=`. A guard in writing is the
disjunction of conjunctions with white space around the tokens and either quote
around each literal. A literal can be written if it holds no quote, no `&&`, no `||`
and, after `!=`, no `==`.
-/

namespace Forager

open Lines

/-! ## Guards in writing -/

def White (w : List Char) : Prop := ∀ c ∈ w, isSpace c = true

def orText : List Char := ['|', '|']

def andText : List Char := ['&', '&']

/-- The comparison `c` with `w₂` and `w₃` around the operator and the quote `q`. -/
def Comparison.write (c : Comparison) (w₂ w₃ : List Char) (q : Char) : List Char :=
  c.fact.toList ++ w₂ ++ (c.op.text ++ (w₃ ++ (q :: c.value.toList ++ [q])))

def WritesComparison (c : Comparison) (s : List Char) : Prop :=
  ∃ w₁ w₂ w₃ w₄ q, White w₁ ∧ White w₂ ∧ White w₃ ∧ White w₄ ∧ q ∈ quotes ∧
    s = w₁ ++ (c.write w₂ w₃ q ++ w₄)

/-- `s` is the items in writing, joined by `sep`. -/
def WritesJoined {α : Type} (writes : α → List Char → Prop) (sep : List Char) (items : List α)
    (s : List Char) : Prop :=
  ∃ parts, List.Forall₂ writes items parts ∧ s = List.intercalate sep parts

def WritesAnds : List Comparison → List Char → Prop := WritesJoined WritesComparison andText

def Writes : WhenExpr → List Char → Prop := WritesJoined WritesAnds orText

/-- The comparisons that can be read: the fact is known and the literal holds no
quote, and no `==` after `!=`. -/
structure Comparison.Readable (c : Comparison) : Prop where
  known : c.fact ∈ knownFacts
  noQuote : ∀ q ∈ quotes, q ∉ c.value.toList
  noEq : c.op = .ne → ¬ CmpOp.eq.text <:+: c.value.toList

/-- The comparisons that a guard can hold: the literal does not hold `&&` or `||`
either. -/
structure Comparison.Writable (c : Comparison) : Prop extends c.Readable where
  noAnd : ¬ andText <:+: c.value.toList
  noOr : ¬ orText <:+: c.value.toList

/-- A disjunction of conjunctions, none empty, of comparisons that a guard can hold. -/
def WhenExpr.Writable (e : WhenExpr) : Prop :=
  e ≠ [] ∧ ∀ ands ∈ e, ands ≠ [] ∧ ∀ c ∈ ands, c.Writable

namespace WhenGrammarLemmas

variable {s w : List Char} {c : Comparison} {q : Char}
variable {sep : List Char} {w' : List Char} {x : Char}

/-! ## Characters of the tokens -/

/-- The characters that have a meaning for the parser. -/
def marks : List Char := ['|', '&', '=', '!']

theorem white_mark (hw : White w) (hx : x ∈ marks) : x ∉ w := by
  intro hmem
  have hspace := hw x hmem
  have hnone : ∀ x ∈ marks, isSpace x = false := List.all_iff_forall_prop.mp (by decide)
  rw [hnone x hx] at hspace
  cases hspace

theorem fact_mark (hc : c.fact ∈ knownFacts) (hx : x ∈ marks) : x ∉ c.fact.toList := by
  have hall : ∀ f ∈ knownFacts, marks.all (· ∉ f.toList) := by decide
  exact List.all_iff_forall_prop.mp (hall _ hc) x hx

theorem fact_trimmed (hc : c.fact ∈ knownFacts) :
    (∀ b ∈ c.fact.toList.head?, isSpace b = false) ∧
      ∀ b ∈ c.fact.toList.getLast?, isSpace b = false := by
  have hall : ∀ f ∈ knownFacts, f.toList.head?.all (!isSpace ·) ∧
      f.toList.getLast?.all (!isSpace ·) := by decide
  simpa only [Option.all_eq_true, Bool.not_eq_true', Option.mem_def] using hall _ hc

theorem quote_not_space (hq : q ∈ quotes) : isSpace q = false := by
  have hall : ∀ q ∈ quotes, isSpace q = false := List.all_iff_forall_prop.mp (by decide)
  exact hall q hq

theorem quote_not_mark (hq : q ∈ quotes) : q ∉ marks := by
  have hall : ∀ q ∈ quotes, q ∉ marks := List.all_iff_forall_prop.mp (by decide)
  exact hall q hq

theorem trimSpace_eq (s : List Char) : trimSpace s = trim isSpace s := rfl

theorem containsText_iff {sub : List Char} : containsText s sub = true ↔ sub <:+: s := by
  simp only [containsText, List.any_eq_true, List.mem_tails, List.isPrefixOf_iff_prefix]
  rw [List.infix_iff_prefix_suffix]
  exact exists_congr fun t => and_comm

/-! ## Literals -/

theorem unquote_ok_iff {msg : String} {raw : List Char} {value : String} :
    unquote msg raw = .ok value ↔
      (∀ q ∈ quotes, q ∉ value.toList) ∧ ∃ q ∈ quotes, raw = q :: value.toList ++ [q] := by
  constructor
  · intro h
    unfold unquote at h
    split at h
    · cases h
    · next first rest =>
      split at h
      · cases h
      · next hquoted =>
        split at h
        · cases h
        · next hinner =>
          obtain ⟨hlast, hfirst⟩ := not_or.mp hquoted
          obtain rfl := Except.ok.inj h
          rw [String.toList_ofList]
          refine ⟨fun q hq hmem => hinner ?_, first, Decidable.not_not.mp hfirst, ?_⟩
          · exact List.any_eq_true.mpr ⟨q, hmem, decide_eq_true hq⟩
          · rw [List.cons_append,
              List.dropLast_append_getLast? _ (Option.mem_def.mpr (Decidable.not_not.mp hlast))]
  · rintro ⟨hinner, q, hq, rfl⟩
    have hquoted : ¬ ((value.toList ++ [q]).getLast? ≠ some q ∨ q ∉ quotes) := by simp [hq]
    have hnone : ¬ ((value.toList ++ [q]).dropLast.any (· ∈ quotes) = true) := by
      rw [List.dropLast_concat, List.any_eq_true]
      rintro ⟨x, hx, hmem⟩
      exact hinner x (of_decide_eq_true hmem) hx
    rw [List.cons_append, unquote, if_neg hquoted, if_neg hnone, List.dropLast_concat,
      String.ofList_toList]

/-! ## Comparisons -/

theorem cutText_clear {sep p : List Char} (hne : sep ≠ []) (h : Clear sep p) (rest : List Char) :
    cutText (p ++ (sep ++ rest)) sep = (p, rest) := by
  unfold cutText
  rw [split_clear_append hne h]
  dsimp only [List.headD_cons]
  rw [← List.length_append, ← List.append_assoc, List.drop_left]

theorem cutText_of_infix (hne : sep ≠ []) (h : sep <:+: s) :
    ∃ p rest, s = p ++ (sep ++ rest) ∧ cutText s sep = (p, rest) := by
  rcases split_cases hne s with ⟨hnot, -⟩ | ⟨p, rest, rfl, hclear, -⟩
  · exact absurd h hnot
  · exact ⟨p, rest, rfl, cutText_clear hne hclear rest⟩

theorem CmpOp.text_ne_nil (op : CmpOp) : op.text ≠ [] := by cases op <;> exact List.cons_ne_nil _ _

theorem white_append (hw : White w) (hw' : White w') : White (w ++ w') :=
  fun c hc => (List.mem_append.mp hc).elim (hw c) (hw' c)

theorem writes_pad (h : WritesComparison c s) (hw : White w) (hw' : White w') :
    WritesComparison c (w ++ (s ++ w')) := by
  obtain ⟨w₁, w₂, w₃, w₄, q, h₁, h₂, h₃, h₄, hq, rfl⟩ := h
  refine ⟨w ++ w₁, w₂, w₃, w₄ ++ w', q, white_append hw h₁, h₂, h₃, white_append h₄ hw', hq, ?_⟩
  simp only [List.append_assoc]

theorem infix_of_value (h : WritesComparison c s) : c.value.toList <:+: s := by
  obtain ⟨w₁, w₂, w₃, w₄, q, -, -, -, -, -, rfl⟩ := h
  exact ⟨w₁ ++ c.fact.toList ++ w₂ ++ c.op.text ++ w₃ ++ [q], [q] ++ w₄, by
    simp [Comparison.write]⟩

theorem parseSides_ok {op : CmpOp} (hin : op.text <:+: s) (h : parseSides s op = .ok c) :
    c.op = op ∧ c.fact ∈ knownFacts ∧ (∀ q ∈ quotes, q ∉ c.value.toList) ∧
      WritesComparison c s := by
  obtain ⟨left, right, rfl, hcut⟩ := cutText_of_infix (CmpOp.text_ne_nil op) hin
  unfold parseSides at h
  rw [hcut] at h
  dsimp only at h
  split at h
  · cases h
  · next hknown =>
    split at h
    · cases h
    · next value hvalue =>
      obtain ⟨hinner, q, hq, hraw⟩ := unquote_ok_iff.mp hvalue
      obtain ⟨w₁, w₂, h₁, h₂, hleft⟩ := exists_pad isSpace left
      obtain ⟨w₃, w₄, h₃, h₄, hright⟩ := exists_pad isSpace right
      obtain rfl := Except.ok.inj h
      refine ⟨rfl, Decidable.not_not.mp hknown, hinner, w₁, w₂, w₃, w₄, q, h₁, h₂, h₃, h₄, hq, ?_⟩
      rw [trimSpace_eq] at hraw
      rw [hraw] at hright
      rw [hright]
      nth_rewrite 1 [hleft]
      simp [trimSpace_eq, Comparison.write]

theorem parseSides_writes {w₂ w₃ : List Char} (hknown : c.fact ∈ knownFacts)
    (hvalue : ∀ q ∈ quotes, q ∉ c.value.toList) (h₂ : White w₂) (h₃ : White w₃) (hq : q ∈ quotes) :
    parseSides (c.write w₂ w₃ q) c.op = .ok c := by
  have hclear : Clear c.op.text (c.fact.toList ++ w₂) := by
    have hnot : '=' ∉ c.fact.toList ++ w₂ := by
      rw [List.mem_append, not_or]
      exact ⟨fact_mark hknown (by decide), white_mark h₂ (by decide)⟩
    cases c.op with
    | eq => exact Clear.of_notMem hnot ['=']
    | ne => exact Clear.of_notMem hnot ['!']
  have hfact : trimSpace (c.fact.toList ++ w₂) = c.fact.toList := by
    obtain ⟨hhead, hlast⟩ := fact_trimmed hknown
    exact trim_pad (w := []) (List.forall_mem_nil _) h₂ hhead hlast
  have hraw : trimSpace (w₃ ++ (q :: c.value.toList ++ [q])) = q :: c.value.toList ++ [q] := by
    have hpad : trim isSpace (w₃ ++ ((q :: c.value.toList ++ [q]) ++ [])) = _ :=
      trim_pad h₃ (List.forall_mem_nil _) (by simp [quote_not_space hq]) (by
        rw [List.getLast?_concat]
        simp [quote_not_space hq])
    rwa [List.append_nil] at hpad
  unfold parseSides Comparison.write
  rw [cutText_clear (CmpOp.text_ne_nil _) hclear]
  dsimp only
  rw [hfact, String.ofList_toList, if_neg (not_not_intro hknown), hraw,
    unquote_ok_iff.mpr ⟨hvalue, q, hq, rfl⟩]

theorem eq_not_within {w₂ w₃ : List Char} (hc : c.Readable) (hop : c.op = .ne) (h₂ : White w₂)
    (h₃ : White w₃) (hq : q ∈ quotes) : ¬ CmpOp.eq.text <:+: c.write w₂ w₃ q := by
  have hqeq : q ∉ CmpOp.eq.text := by
    have hall : ∀ q ∈ quotes, q ∉ CmpOp.eq.text := List.all_iff_forall_prop.mp (by decide)
    exact hall q hq
  have hnil : ¬ CmpOp.eq.text <:+: [] := by decide
  intro hin
  rw [Comparison.write, hop] at hin
  -- the text is parted at `!` and at the two quotes
  rcases infix_of_append_cons (x := '!') (by decide) hin with hin | hin
  · have hmem := hin.subset (show '=' ∈ CmpOp.eq.text by decide)
    rw [List.mem_append] at hmem
    exact hmem.elim (fact_mark hc.known (by decide)) (white_mark h₂ (by decide))
  · have hin : CmpOp.eq.text <:+: ('=' :: w₃) ++ q :: (c.value.toList ++ [q]) := hin
    rcases infix_of_append_cons hqeq hin with hin | hin
    · have hcount := hin.sublist.count_le '='
      rw [List.count_cons_self, List.count_eq_zero_of_not_mem (white_mark h₃ (by decide))] at hcount
      exact absurd hcount (by decide)
    · exact (infix_of_append_cons hqeq hin).elim (hc.noEq hop) hnil

theorem trim_write {w₁ w₂ w₃ w₄ : List Char} (hc : c.fact ∈ knownFacts) (h₁ : White w₁)
    (h₄ : White w₄) (hq : q ∈ quotes) :
    trimSpace (w₁ ++ (c.write w₂ w₃ q ++ w₄)) = c.write w₂ w₃ q := by
  have hnonempty : ∀ f ∈ knownFacts, f.toList ≠ [] := by decide
  refine trim_pad h₁ h₄ ?_ ?_
  · rw [Comparison.write, List.append_assoc, List.head?_append_of_ne_nil _ (hnonempty _ hc)]
    exact (fact_trimmed hc).1
  · have hsnoc : c.write w₂ w₃ q =
        c.fact.toList ++ w₂ ++ (c.op.text ++ (w₃ ++ q :: c.value.toList)) ++ [q] := by
      simp [Comparison.write]
    rw [hsnoc, List.getLast?_concat]
    simp [quote_not_space hq]

theorem parseComparison_iff : parseComparison s = .ok c ↔ c.Readable ∧ WritesComparison c s := by
  constructor
  · intro h
    obtain ⟨w, w', hw, hw', hs⟩ := exists_pad isSpace s
    unfold parseComparison at h
    dsimp only at h
    rw [trimSpace_eq] at h
    rw [hs]
    split at h
    · next hin =>
      obtain ⟨hop, hknown, hquote, hwrites⟩ := parseSides_ok (containsText_iff.mp hin) h
      exact ⟨⟨hknown, hquote, by simp [hop]⟩, writes_pad hwrites hw hw'⟩
    · next hnot =>
      split at h
      · next hin =>
        obtain ⟨-, hknown, hquote, hwrites⟩ := parseSides_ok (containsText_iff.mp hin) h
        refine ⟨⟨hknown, hquote, fun _ heq => hnot ?_⟩, writes_pad hwrites hw hw'⟩
        exact containsText_iff.mpr (heq.trans (infix_of_value hwrites))
      · cases h
  · rintro ⟨hc, w₁, w₂, w₃, w₄, q, h₁, h₂, h₃, h₄, hq, rfl⟩
    have hsides := parseSides_writes hc.known hc.noQuote h₂ h₃ hq
    have hin : c.op.text <:+: c.write w₂ w₃ q :=
      ⟨c.fact.toList ++ w₂, w₃ ++ (q :: c.value.toList ++ [q]), by simp [Comparison.write]⟩
    unfold parseComparison
    dsimp only
    rw [trim_write hc.known h₁ h₄ hq]
    cases hop : c.op with
    | eq => rw [if_pos (containsText_iff.mpr (hop ▸ hin)), ← hop, hsides]
    | ne =>
      rw [if_neg (mt containsText_iff.mp (eq_not_within hc hop h₂ h₃ hq)),
        if_pos (containsText_iff.mpr (hop ▸ hin)), ← hop, hsides]

/-! ## Joined items -/

theorem joined_iff {α : Type} {f : List Char → Except WhenError α} {writes : α → List Char → Prop}
    {P Q : α → Prop} {items : List α} (hne : sep ≠ []) (hf : ∀ p a, f p = .ok a ↔ P a ∧ writes a p)
    (hQ : ∀ a p, writes a p → P a → ¬ sep <:+: p → Q a) (hP : ∀ a, Q a → P a)
    (hclear : ∀ a p, writes a p → Q a → Clear sep p) :
    (split [sep] s).mapM f = .ok items ↔
      items ≠ [] ∧ (∀ a ∈ items, Q a) ∧ WritesJoined writes sep items s := by
  rw [Go.mapM_eq_ok_iff]
  constructor
  · intro h
    obtain ⟨hjoin, hnot⟩ := split_pieces hne s
    have hitems : items ≠ [] := by
      rintro rfl
      obtain ⟨l, ls, hl, -⟩ := split_exists_cons [sep] s
      cases hl.symm.trans (List.forall₂_nil_right_iff.mp h)
    have hboth : List.Forall₂ (fun p a => Q a ∧ writes a p) (split [sep] s) items :=
      ((List.forall₂_and_left _ _).mpr ⟨hnot, h⟩).imp fun p a ⟨hp, hpa⟩ =>
        have ⟨ha, hw⟩ := (hf p a).mp hpa
        ⟨hQ a p hw ha hp, hw⟩
    obtain ⟨hQs, hwrites⟩ := (List.forall₂_and_left _ _).mp hboth.flip
    exact ⟨hitems, hQs, split [sep] s, hwrites, hjoin.symm⟩
  · rintro ⟨hitems, hQs, parts, hparts, rfl⟩
    have hboth : List.Forall₂ (fun a p => Clear sep p ∧ f p = .ok a) items parts :=
      ((List.forall₂_and_left _ _).mpr ⟨hQs, hparts⟩).imp fun a p ⟨ha, hw⟩ =>
        ⟨hclear a p hw ha, (hf p a).mpr ⟨hP a ha, hw⟩⟩
    obtain ⟨hclears, hread⟩ := (List.forall₂_and_left _ _).mp hboth.flip
    have hne' : parts ≠ [] := by
      rintro rfl
      exact hitems (List.forall₂_nil_right_iff.mp hparts)
    rw [split_intercalate hne hne' hclears]
    exact hread

theorem doubled_clear (hx : x ∈ ['|', '&']) (h : WritesComparison c s)
    (hknown : c.fact ∈ knownFacts) (hv : ¬ [x, x] <:+: c.value.toList) : Clear [x, x] s := by
  obtain ⟨w₁, w₂, w₃, w₄, q, h₁, h₂, h₃, h₄, hq, rfl⟩ := h
  have hmark : x ∈ marks := List.mem_of_mem_take (i := 2) hx
  have hqx : q ∉ [x, x] := by
    intro hmem
    obtain rfl : q = x := by simpa using hmem
    exact quote_not_mark hq hmark
  have hop : x ∉ c.op.text := by
    have hall : ∀ op : CmpOp, ['|', '&'].all (· ∉ op.text) := fun op => by cases op <;> decide
    exact List.all_iff_forall_prop.mp (hall c.op) x hx
  intro hin
  have hin : [x, x] <:+: (w₁ ++ c.fact.toList ++ w₂ ++ c.op.text ++ w₃) ++
      q :: (c.value.toList ++ q :: (w₄ ++ [x])) := by
    simpa [Comparison.write] using hin
  rcases infix_of_append_cons hqx hin with hin | hin
  · have hmem := hin.subset (show x ∈ [x, x] by simp)
    simp only [List.mem_append] at hmem
    rcases hmem with (((hmem | hmem) | hmem) | hmem) | hmem
    · exact white_mark h₁ hmark hmem
    · exact fact_mark hknown hmark hmem
    · exact white_mark h₂ hmark hmem
    · exact hop hmem
    · exact white_mark h₃ hmark hmem
  · rcases infix_of_append_cons hqx hin with hin | hin
    · exact hv hin
    · exact Clear.of_notMem (white_mark h₄ hmark) [x] hin

theorem parseAnds_iff {ands : List Comparison} :
    (split [andText] s).mapM parseComparison = .ok ands ↔
      ands ≠ [] ∧ (∀ c ∈ ands, c.Readable ∧ ¬ andText <:+: c.value.toList) ∧ WritesAnds ands s :=
  joined_iff (List.cons_ne_nil _ _) (fun _ _ => parseComparison_iff)
    (fun _ _ hw hc hnot => ⟨hc, fun hin => hnot (hin.trans (infix_of_value hw))⟩) (fun _ h => h.1)
    fun _ _ hw hc => doubled_clear (by decide) hw hc.1.known hc.2

theorem infix_of_part {sep p : List Char} {ps : List (List Char)} (h : p ∈ ps) :
    p <:+: List.intercalate sep ps := by
  induction ps with
  | nil => cases h
  | cons p' ps ih =>
    cases ps with
    | nil => simpa using List.mem_singleton.mp h ▸ List.infix_rfl
    | cons p'' ps =>
      rw [List.intercalate_cons_cons]
      rcases List.mem_cons.mp h with rfl | h
      · exact ((List.prefix_append _ _).trans (List.prefix_append _ _)).isInfix
      · exact (ih h).trans (List.suffix_append _ _).isInfix

theorem ands_clear {ps : List (List Char)} (h : ∀ p ∈ ps, Clear orText p) :
    Clear orText (List.intercalate andText ps) := by
  induction ps with
  | nil => exact (by decide : ¬ orText <:+: [] ++ orText.dropLast)
  | cons p ps ih =>
    have hp := h p List.mem_cons_self
    have ih := ih fun x hx => h x (List.mem_cons_of_mem _ hx)
    cases ps with
    | nil => simpa using hp
    | cons p' ps =>
      intro hin
      rw [List.intercalate_cons_cons, List.append_assoc, List.append_assoc] at hin
      rcases infix_of_append_cons (x := '&') (by decide) hin with hin | hin
      · exact hp.not_infix hin
      · rcases infix_of_append_cons (x := '&') (a := []) (by decide) hin with hin | hin
        · exact absurd hin (by decide)
        · exact ih hin

theorem value_not_within {ands : List Comparison} (h : WritesAnds ands s) (hnot : ¬ sep <:+: s) :
    ∀ c ∈ ands, ¬ sep <:+: c.value.toList := by
  obtain ⟨parts, hparts, rfl⟩ := h
  intro c hc hin
  obtain ⟨p, hp, hw⟩ := Go.exists_right hparts hc
  exact hnot (hin.trans ((infix_of_value hw).trans (infix_of_part hp)))

theorem parseTerms_iff {e : WhenExpr} :
    (split [orText] s).mapM (fun orPart => (split [andText] orPart).mapM parseComparison) = .ok e ↔
      e.Writable ∧ Writes e s := by
  rw [WhenExpr.Writable, and_assoc]
  refine joined_iff (List.cons_ne_nil _ _) (fun _ _ => parseAnds_iff.trans and_assoc.symm) ?_ ?_ ?_
  · rintro ands p hw ⟨hne, hands⟩ hnot
    exact ⟨hne, fun c hc => ⟨(hands c hc).1, (hands c hc).2, value_not_within hw hnot c hc⟩⟩
  · rintro ands ⟨hne, hands⟩
    exact ⟨hne, fun c hc => ⟨(hands c hc).toReadable, (hands c hc).noAnd⟩⟩
  · rintro ands _ ⟨parts, hparts, rfl⟩ ⟨-, hands⟩
    refine ands_clear fun p hp => ?_
    obtain ⟨c, hc, hw⟩ := Go.exists_right hparts.flip hp
    exact doubled_clear (by decide) hw (hands c hc).known (hands c hc).noOr

/-! ## White space at the ends -/

/-- `f` ignores white space at the ends of its text. -/
def Padded {α : Type} (f : List Char → Except WhenError α) : Prop :=
  ∀ b, isSpace b = true → ∀ p, f (b :: p) = f p ∧ f (p ++ [b]) = f p

theorem padded_comparison : Padded parseComparison := by
  intro b hb p
  unfold parseComparison
  dsimp only
  rw [trimSpace_eq, trimSpace_eq, trimSpace_eq, trim_cons_blank hb, trim_snoc_blank hb]
  exact ⟨rfl, rfl⟩

theorem padded_split {α : Type} {f : List Char → Except WhenError α} (hf : Padded f)
    (sep : List Char) (hne : sep ≠ []) (hsep : ∀ c ∈ sep, isSpace c = false) :
    Padded fun s => (split [sep] s).mapM f := by
  intro b hb p
  have hnot : b ∉ sep := fun h => by rw [hsep b h] at hb; cases hb
  constructor
  · have hquiet : Quiet [sep] b := by
      intro q hq
      rw [List.mem_singleton.mp hq]
      cases sep with
      | nil => exact absurd rfl hne
      | cons x sep => simpa using fun h : x = b => hnot (h ▸ List.mem_cons_self)
    obtain ⟨l, ls, hl, -⟩ := split_exists_cons [sep] p
    dsimp only
    rw [split_cons_none (hquiet.sepAt p), hl, List.modifyHead_cons, List.mapM_cons, List.mapM_cons,
      (hf b hb l).1]
  · have hb' : ∀ q ∈ [sep], q ≠ [] ∧ b ∉ q := by simpa using ⟨hne, hnot⟩
    obtain ⟨P, l, hp, hpb⟩ := split_snoc hb' p
    dsimp only
    rw [hp, hpb, List.mapM_append, List.mapM_append, List.mapM_cons, List.mapM_cons, (hf b hb l).2]

theorem padded_white {α : Type} {f : List Char → Except WhenError α} (hf : Padded f) (hw : White w)
    (hw' : White w') : f (w ++ (s ++ w')) = f s := by
  induction w with
  | nil =>
    induction w' using List.reverseRecOn with
    | nil => simp
    | append_singleton w' b ih =>
      rw [List.nil_append, ← List.append_assoc, (hf b (hw' b (by simp)) _).2]
      exact ih fun c hc => hw' c (List.mem_append_left _ hc)
  | cons b w ih =>
    rw [List.cons_append, (hf b (hw b List.mem_cons_self) _).1]
    exact ih fun c hc => hw c (List.mem_cons_of_mem _ hc)

end WhenGrammarLemmas

open WhenGrammarLemmas in
/-- `parseWhen` returns the guard `e` for a text iff the text is `e` in writing and `e`
is a disjunction of conjunctions, none empty, of comparisons of known facts whose
literals hold no quote, no `&&`, no `||` and, after `!=`, no `==`. -/
theorem parseWhen_iff (s : String) (e : WhenExpr) :
    parseWhen s = .ok e ↔ e.Writable ∧ Writes e s.toList := by
  have hand : ∀ c ∈ andText, isSpace c = false := List.all_iff_forall_prop.mp (by decide)
  have hor : ∀ c ∈ orText, isSpace c = false := List.all_iff_forall_prop.mp (by decide)
  have hpadded := padded_split (padded_split padded_comparison andText (by decide) hand)
    orText (by decide) hor
  obtain ⟨w, w', hw, hw', hs⟩ := exists_pad isSpace s.toList
  have htrim := padded_white (s := trim isSpace s.toList) hpadded hw hw'
  rw [← hs] at htrim
  rw [← parseTerms_iff, htrim]
  unfold parseWhen
  dsimp only
  rw [trimSpace_eq]
  split
  · next hnil =>
    rw [hnil]
    have hempty : (split [orText] []).mapM
        (fun s => (split [andText] s).mapM parseComparison) = .error (.noOperator "") := rfl
    rw [hempty]
    constructor <;> exact nofun
  · rfl

/-- A literal may hold the operators of its comparison and single characters of the
others, and not `&&`. -/
example : parseWhen "os_id!='a==b'" = .error (.unknownFact "os_id!='a") ∧
    parseWhen "os_id=='a==b|c&'" = .ok [[⟨"os_id", .eq, "a==b|c&"⟩]] ∧
    parseWhen "os_id=='a&&b'" = .error (.notQuoted "os_id=='a") := by decide

end Forager
