import Mathlib.Data.List.DropRight
import Mathlib.Data.List.Basic
import Mathlib.Data.List.Infix
import Mathlib.Data.List.ModifyLast
import Mathlib.Tactic.Common

/-!
# Splitting text at separators

Text is a list over any alphabet, and a separator is one of a list of
sequences, the first one in the list that matches. `split [sep]` is Go's
`strings.Split(s, sep)` and `replaceAll` its `strings.ReplaceAll`.

* `split_append_quiet`: text in which no separator starts stays in one piece.
* `split_intercalate`, `split_pieces`: splitting and joining undo each other.
* `split_two`: splitting at two kinds of separators at once is splitting at the
  first kind and then each piece at the second, if no sequence of the second
  kind holds the start of one of the first.
* `split_replaceAll`: replacing a sequence by a one-letter separator before
  splitting is splitting at the sequence too.
* `strip`: lines without the trailing blank ones, and how it meets `++`.
-/

namespace Lines

variable {α : Type}

section Clear

/-! ## Where a separator starts -/

variable {sep p : List α}

/-- `sep` starts at no letter of `p` in `p ++ sep`. -/
def Clear (sep p : List α) : Prop := ¬ sep <:+: p ++ sep.dropLast

theorem prefix_append_dropLast {t rest : List α} (ht : t ≠ []) (h : sep <+: t ++ (sep ++ rest)) :
    sep <+: t ++ sep.dropLast := by
  refine List.prefix_of_prefix_length_le h ?_ ?_
  · exact (List.prefix_append_right_inj t).mpr
      ((List.dropLast_prefix sep).trans (List.prefix_append sep rest))
  · have := List.length_pos_iff.mpr ht
    rw [List.length_append, List.length_dropLast]
    omega

theorem Clear.tail {a : α} (h : Clear sep (a :: p)) : Clear sep p :=
  fun hp => h (hp.trans (List.suffix_cons a _).isInfix)

theorem Clear.not_infix (h : Clear sep p) : ¬ sep <:+: p :=
  fun hp => h (hp.trans (List.prefix_append p _).isInfix)

theorem Clear.of_notMem [DecidableEq α] {x : α} {p : List α} (h : x ∉ p) (init : List α) :
    Clear (init ++ [x]) p := by
  intro hin
  have hcount := hin.sublist.count_le x
  rw [List.dropLast_concat, List.count_append, List.count_append, List.count_eq_zero_of_not_mem h,
    List.count_singleton_self] at hcount
  omega

theorem prefix_of_append_cons {x : α} (hx : x ∉ sep) {a b : List α} (h : sep <+: a ++ x :: b) :
    sep <+: a := by
  rcases Nat.lt_or_ge a.length sep.length with hlt | hle
  · have hax : a ++ [x] <+: sep := by
      refine List.prefix_of_prefix_length_le ?_ h (by rw [List.length_append]; exact hlt)
      exact ⟨b, by simp⟩
    exact absurd (hax.subset (by simp)) hx
  · exact List.prefix_of_prefix_length_le h (List.prefix_append a _) hle

theorem infix_of_append_cons {x : α} (hx : x ∉ sep) {a b : List α} (h : sep <:+: a ++ x :: b) :
    sep <:+: a ∨ sep <:+: b := by
  induction a with
  | nil =>
    rcases List.infix_cons_iff.mp h with h | h
    · exact .inl (prefix_of_append_cons hx (a := []) h).isInfix
    · exact .inr h
  | cons c a ih =>
    rcases List.infix_cons_iff.mp h with h | h
    · exact .inl (prefix_of_append_cons hx (a := c :: a) h).isInfix
    · exact (ih h).imp (·.trans (List.suffix_cons c a).isInfix) id

end Clear

section Split

variable [DecidableEq α]

/-! ## Definitions -/

/-- The separator of `seqs` that `s` starts with. -/
def sepAt (seqs : List (List α)) (s : List α) : Option (List α) :=
  seqs.find? fun q => q.isPrefixOf s

/-- The pieces of `s` after its first `skip` letters. -/
def splitFrom (seqs : List (List α)) : Nat → List α → List (List α)
  | _, [] => [[]]
  | skip + 1, _ :: s => splitFrom seqs skip s
  | 0, a :: s => match sepAt seqs (a :: s) with
    | none => (splitFrom seqs 0 s).modifyHead (a :: ·)
    | some q => [] :: splitFrom seqs (q.length - 1) s

def split (seqs : List (List α)) (s : List α) : List (List α) := splitFrom seqs 0 s

/-- `s` after its first `skip` letters, with `old` replaced by `new`. -/
def replaceFrom (old new : List α) : Nat → List α → List α
  | _, [] => []
  | skip + 1, _ :: s => replaceFrom old new skip s
  | 0, a :: s =>
    if old.isPrefixOf (a :: s) then new ++ replaceFrom old new (old.length - 1) s
    else a :: replaceFrom old new 0 s

/-- `s` with every occurrence of `old` replaced by `new`, from left to right. -/
def replaceAll (old new s : List α) : List α := replaceFrom old new 0 s

/-! ## One letter at a time -/

variable {seqs : List (List α)} {s t w : List α} {a : α}

theorem splitFrom_drop (seqs : List (List α)) (k : Nat) (s : List α) :
    splitFrom seqs k s = split seqs (s.drop k) := by
  induction k generalizing s with
  | zero => rfl
  | succ k ih => cases s with
    | nil => rfl
    | cons a s => exact ih s

theorem replaceFrom_drop (old new : List α) (k : Nat) (s : List α) :
    replaceFrom old new k s = replaceAll old new (s.drop k) := by
  induction k generalizing s with
  | zero => rfl
  | succ k ih => cases s with
    | nil => rfl
    | cons a s => exact ih s

@[simp] theorem split_nil : split seqs [] = [[]] := rfl

theorem split_cons_none (h : sepAt seqs (a :: s) = none) :
    split seqs (a :: s) = (split seqs s).modifyHead (a :: ·) := by
  simp [split, splitFrom, h]

theorem split_cons_some {q : List α} (h : sepAt seqs (a :: s) = some q) :
    split seqs (a :: s) = [] :: split seqs (s.drop (q.length - 1)) := by
  rw [split, splitFrom, h]
  exact congrArg _ (splitFrom_drop _ _ _)

theorem sepAt_eq_none : sepAt seqs s = none ↔ ∀ q ∈ seqs, ¬ q <+: s := by
  simp [sepAt]

theorem sepAt_mem {q : List α} (h : sepAt seqs s = some q) : q ∈ seqs ∧ q <+: s :=
  ⟨List.mem_of_find?_eq_some h, by simpa using List.find?_some h⟩

theorem split_exists_cons (seqs : List (List α)) (s : List α) :
    ∃ l ls, split seqs s = l :: ls ∧ l <+: s := by
  induction s with
  | nil => exact ⟨[], [], rfl, List.prefix_refl _⟩
  | cons a s ih =>
    cases h : sepAt seqs (a :: s) with
    | none =>
      obtain ⟨l, ls, hs, hp⟩ := ih
      refine ⟨a :: l, ls, ?_, List.cons_prefix_cons.mpr ⟨rfl, hp⟩⟩
      rw [split_cons_none h, hs]
      rfl
    | some q => exact ⟨[], _, split_cons_some h, List.nil_prefix⟩

/-- No separator starts with the letter `c`, and none is empty. -/
def Quiet (seqs : List (List α)) (c : α) : Prop := ∀ q ∈ seqs, q.head?.any (· ≠ c) = true

instance (seqs : List (List α)) (c : α) : Decidable (Quiet seqs c) :=
  inferInstanceAs (Decidable (∀ q ∈ seqs, _ = true))

theorem Quiet.sepAt {c : α} (h : Quiet seqs c) (s : List α) : sepAt seqs (c :: s) = none := by
  rw [sepAt_eq_none]
  intro q hq hp
  have hhead := h q hq
  cases q with
  | nil => cases hhead
  | cons b q => simp [(List.cons_prefix_cons.mp hp).1] at hhead

theorem split_append_quiet (hw : ∀ c ∈ w, Quiet seqs c) (t : List α) :
    split seqs (w ++ t) = (split seqs t).modifyHead (w ++ ·) := by
  induction w with
  | nil =>
    obtain ⟨l, ls, hs, -⟩ := split_exists_cons seqs t
    simp [hs]
  | cons c w ih =>
    rw [List.cons_append, split_cons_none ((hw c List.mem_cons_self).sepAt _),
      ih fun b hb => hw b (List.mem_cons_of_mem _ hb), List.modifyHead_modifyHead]
    rfl

theorem split_quiet (hw : ∀ c ∈ w, Quiet seqs c) : split seqs w = [w] := by
  have h := split_append_quiet hw []
  simpa using h

theorem split_avoids {c : α} (hc : [c] ∈ seqs) (s : List α) : ∀ l ∈ split seqs s, c ∉ l := by
  induction hn : s.length using Nat.strong_induction_on generalizing s with
  | _ n ih =>
    subst hn
    cases s with
    | nil => simp
    | cons a s =>
      cases h : sepAt seqs (a :: s) with
      | some q =>
        rw [split_cons_some h]
        intro l hl
        rcases List.mem_cons.mp hl with rfl | hl
        · simp
        · exact ih _ (by rw [List.length_drop, List.length_cons]; omega) _ rfl l hl
      | none =>
        obtain ⟨l, ls, hs, -⟩ := split_exists_cons seqs s
        have ihs := ih _ (by simp) s rfl
        have hac : c ≠ a := by
          rintro rfl
          exact sepAt_eq_none.mp h _ hc (List.cons_prefix_cons.mpr ⟨rfl, List.nil_prefix⟩)
        rw [hs] at ihs
        rw [split_cons_none h, hs, List.modifyHead_cons]
        intro l' hl'
        rcases List.mem_cons.mp hl' with rfl | hl'
        · simp [hac, ihs l List.mem_cons_self]
        · exact ihs l' (List.mem_cons_of_mem _ hl')

theorem mem_of_mem_split {l : List α} {c : α} (hl : l ∈ split seqs s) (hc : c ∈ l) : c ∈ s := by
  induction hn : s.length using Nat.strong_induction_on generalizing s l with
  | _ n ih =>
    subst hn
    cases s with
    | nil =>
      obtain rfl := List.mem_singleton.mp hl
      cases hc
    | cons a s =>
      cases h : sepAt seqs (a :: s) with
      | some q =>
        rw [split_cons_some h] at hl
        rcases List.mem_cons.mp hl with rfl | hl
        · cases hc
        · have hlt : (s.drop (q.length - 1)).length < (a :: s).length := by
            rw [List.length_drop, List.length_cons]
            omega
          exact List.mem_cons_of_mem _ (List.mem_of_mem_drop (ih _ hlt hl hc rfl))
      | none =>
        obtain ⟨l', ls, hs, -⟩ := split_exists_cons seqs s
        rw [split_cons_none h, hs, List.modifyHead_cons] at hl
        rcases List.mem_cons.mp hl with rfl | hl
        · rcases List.mem_cons.mp hc with rfl | hc
          · exact List.mem_cons_self
          · exact List.mem_cons_of_mem _
              (ih _ (Nat.lt_succ_self _) (hs ▸ List.mem_cons_self) hc rfl)
        · exact List.mem_cons_of_mem _
            (ih _ (Nat.lt_succ_self _) (hs ▸ List.mem_cons_of_mem _ hl) hc rfl)

theorem sepAt_snoc {b : α} (hb : ∀ q ∈ seqs, b ∈ q → q = [b]) (a : α) (s : List α) :
    sepAt seqs (a :: (s ++ [b])) = sepAt seqs (a :: s) := by
  unfold sepAt
  rw [← List.head?_filter, ← List.head?_filter]
  refine congrArg List.head? (List.filter_congr fun q hq => ?_)
  rw [Bool.eq_iff_iff, List.isPrefixOf_iff_prefix, List.isPrefixOf_iff_prefix]
  refine ⟨fun hp => ?_, fun hp => hp.trans (List.prefix_append (a :: s) [b])⟩
  rcases List.prefix_concat_iff.mp (show q <+: (a :: s) ++ [b] from hp) with rfl | hp
  · exact absurd (congrArg List.length (hb _ hq (by simp))) (by simp)
  · exact hp

theorem split_snoc {b : α} (hb : ∀ q ∈ seqs, q ≠ [] ∧ b ∉ q) (s : List α) :
    ∃ P l, split seqs s = P ++ [l] ∧ split seqs (s ++ [b]) = P ++ [l ++ [b]] := by
  induction hn : s.length using Nat.strong_induction_on generalizing s with
  | _ n ih =>
    subst hn
    cases s with
    | nil =>
      refine ⟨[], [], rfl, split_quiet fun c hc => ?_⟩
      rw [List.mem_singleton.mp hc]
      intro q hq
      obtain ⟨hne, hnot⟩ := hb q hq
      cases q with
      | nil => exact absurd rfl hne
      | cons d q => simpa using fun h : d = b => hnot (h ▸ List.mem_cons_self)
    | cons a s =>
      have hsame := sepAt_snoc (fun q hq hbq => absurd hbq (hb q hq).2) a s
      cases h : sepAt seqs (a :: s) with
      | some q =>
        obtain ⟨-, t, ht⟩ := sepAt_mem h
        have hle : q.length - 1 ≤ s.length := by
          have := congrArg List.length ht
          simp at this
          omega
        obtain ⟨P, l, hP, hPb⟩ := ih _ (by rw [List.length_drop, List.length_cons]; omega)
          (s.drop (q.length - 1)) rfl
        refine ⟨[] :: P, l, ?_, ?_⟩
        · rw [split_cons_some h, hP]
          rfl
        · rw [List.cons_append, split_cons_some (hsame.trans h),
            List.drop_append_of_le_length hle, hPb]
          rfl
      | none =>
        obtain ⟨P, l, hP, hPb⟩ := ih _ (by simp) s rfl
        rw [List.cons_append, split_cons_none h, split_cons_none (hsame.trans h), hP, hPb]
        cases P with
        | nil => exact ⟨[], a :: l, rfl, rfl⟩
        | cons p P => exact ⟨(a :: p) :: P, l, rfl, rfl⟩

/-! ## Joining the pieces -/

variable {sep p : List α}

theorem split_clear_append (hne : sep ≠ []) (h : Clear sep p) (rest : List α) :
    split [sep] (p ++ (sep ++ rest)) = p :: split [sep] rest := by
  induction p with
  | nil =>
    cases sep with
    | nil => exact absurd rfl hne
    | cons b sep =>
      have hat : sepAt [b :: sep] (b :: (sep ++ rest)) = some (b :: sep) := by simp [sepAt]
      rw [List.nil_append, List.cons_append, split_cons_some hat]
      simp
  | cons a p ih =>
    have hat : sepAt [sep] (a :: (p ++ (sep ++ rest))) = none := by
      rw [sepAt_eq_none]
      intro q hq hpre
      rw [List.mem_singleton.mp hq] at hpre
      exact h (prefix_append_dropLast (List.cons_ne_nil a p) hpre).isInfix
    rw [List.cons_append, split_cons_none hat, ih h.tail]
    rfl

theorem split_of_not_infix (h : ¬ sep <:+: p) : split [sep] p = [p] := by
  induction p with
  | nil => rfl
  | cons a p ih =>
    have hat : sepAt [sep] (a :: p) = none := by
      rw [sepAt_eq_none]
      intro q hq hpre
      exact h (List.mem_singleton.mp hq ▸ hpre.isInfix)
    rw [split_cons_none hat, ih fun hp => h (hp.trans (List.suffix_cons a p).isInfix)]
    rfl

theorem split_intercalate (hne : sep ≠ []) {ps : List (List α)} (hps : ps ≠ [])
    (h : ∀ p ∈ ps, Clear sep p) : split [sep] (List.intercalate sep ps) = ps := by
  induction ps with
  | nil => exact absurd rfl hps
  | cons p ps ih =>
    have hp := h p List.mem_cons_self
    cases ps with
    | nil => simpa using split_of_not_infix hp.not_infix
    | cons p' ps =>
      rw [List.intercalate_cons_cons, List.append_assoc, split_clear_append hne hp,
        ih (by simp) fun x hx => h x (List.mem_cons_of_mem _ hx)]

theorem split_cases (hne : sep ≠ []) (s : List α) :
    (¬ sep <:+: s ∧ split [sep] s = [s]) ∨
    ∃ p rest, s = p ++ (sep ++ rest) ∧ Clear sep p ∧ split [sep] s = p :: split [sep] rest := by
  by_cases hin : sep <:+: s
  · right
    induction s with
    | nil => exact absurd (List.infix_nil.mp hin) hne
    | cons a s ih =>
      by_cases hpre : sep <+: a :: s
      · obtain ⟨rest, hrest⟩ := hpre
        have hclear : Clear sep [] := by
          intro hi
          have := hi.length_le
          have hpos := List.length_pos_iff.mpr hne
          rw [List.nil_append, List.length_dropLast] at this
          omega
        exact ⟨[], rest, hrest.symm, hclear, hrest ▸ split_clear_append hne hclear rest⟩
      · have hs : sep <:+: s := (List.infix_cons_iff.mp hin).resolve_left hpre
        obtain ⟨p, rest, rfl, hclear, -⟩ := ih hs
        have hclear' : Clear sep (a :: p) := by
          intro hi
          rcases List.infix_cons_iff.mp hi with hi | hi
          · refine hpre (hi.trans ?_)
            exact (List.prefix_append_right_inj (a :: p)).mpr
              ((List.dropLast_prefix sep).trans (List.prefix_append sep rest))
          · exact hclear hi
        exact ⟨a :: p, rest, rfl, hclear', split_clear_append hne hclear' rest⟩
  · exact .inl ⟨hin, split_of_not_infix hin⟩

theorem split_pieces (hne : sep ≠ []) (s : List α) :
    List.intercalate sep (split [sep] s) = s ∧ (∀ p ∈ split [sep] s, ¬ sep <:+: p) := by
  induction hn : s.length using Nat.strong_induction_on generalizing s with
  | _ n ih =>
    subst hn
    rcases split_cases hne s with ⟨hin, hs⟩ | ⟨p, rest, rfl, hclear, hs⟩
    · rw [hs]
      exact ⟨by simp, by simpa using hin⟩
    · have hlen : rest.length < (p ++ (sep ++ rest)).length := by
        have hpos := List.length_pos_iff.mpr hne
        simp only [List.length_append]
        omega
      obtain ⟨hjoin, hnot⟩ := ih _ hlen rest rfl
      obtain ⟨l, ls, hl, -⟩ := split_exists_cons [sep] rest
      rw [hs]
      refine ⟨?_, List.forall_mem_cons.mpr ⟨hclear.not_infix, hnot⟩⟩
      rw [hl, List.intercalate_cons_cons, ← hl, hjoin, List.append_assoc]

theorem split_letter_append (x : α) (p q : List α) :
    split [[x]] (p ++ x :: q) = split [[x]] p ++ split [[x]] q := by
  induction p with
  | nil =>
    have hat : sepAt [[x]] (x :: q) = some [x] := by simp [sepAt]
    rw [List.nil_append, split_cons_some hat]
    rfl
  | cons a p ih =>
    by_cases hax : a = x
    · have hat : ∀ s, sepAt [[x]] (a :: s) = some [x] := fun s => by simp [sepAt, hax]
      rw [List.cons_append, split_cons_some (hat _), split_cons_some (hat _)]
      simpa using ih
    · have hat : ∀ s, sepAt [[x]] (a :: s) = none := fun s => by simp [sepAt, Ne.symm hax]
      obtain ⟨l, ls, hl, -⟩ := split_exists_cons [[x]] p
      rw [List.cons_append, split_cons_none (hat _), split_cons_none (hat _), ih, hl]
      rfl

/-! ## Two kinds of separators -/

theorem sepAt_append (P Q : List (List α)) (s : List α) :
    sepAt (P ++ Q) s = (sepAt P s).or (sepAt Q s) := List.find?_append

theorem sepAt_of_prefix {l s q : List α} (hl : l <+: s) (h : sepAt seqs s = some q) (hq : q <+: l) :
    sepAt seqs l = some q := by
  unfold sepAt at h ⊢
  obtain ⟨-, as, bs, hseqs, has⟩ := List.find?_eq_some_iff_append.mp h
  refine List.find?_eq_some_iff_append.mpr ⟨by simpa using hq, as, bs, hseqs, fun p hp => ?_⟩
  have hnot := has p hp
  rw [Bool.not_eq_true', ← Bool.not_eq_true, List.isPrefixOf_iff_prefix] at hnot ⊢
  exact fun hpl => hnot (hpl.trans hl)

theorem sepAt_none_of_prefix {l s : List α} (hl : l <+: s) (h : sepAt seqs s = none) :
    sepAt seqs l = none := by
  rw [sepAt_eq_none] at h ⊢
  exact fun q hq hp => h q hq (hp.trans hl)

theorem split_two {P Q : List (List α)} (hPQ : ∀ q ∈ Q, q ≠ [] ∧ ∀ c ∈ q, Quiet P c)
    (s : List α) : split (P ++ Q) s = (split P s).flatMap (split Q) := by
  -- a separator is consumed at once, so the induction is on the length
  induction hn : s.length using Nat.strong_induction_on generalizing s with
  | _ n ih =>
    subst hn
    cases s with
    | nil => rfl
    | cons a s =>
      cases hp : sepAt P (a :: s) with
      | some p =>
        have hpq : sepAt (P ++ Q) (a :: s) = some p := by rw [sepAt_append, hp]; rfl
        rw [split_cons_some hp, split_cons_some hpq,
          ih _ (by rw [List.length_drop, List.length_cons]; omega) _ rfl]
        rfl
      | none =>
        cases hq : sepAt Q (a :: s) with
        | some q =>
          have hpq : sepAt (P ++ Q) (a :: s) = some q := by rw [sepAt_append, hp, hq]; rfl
          obtain ⟨hmem, t, ht⟩ := sepAt_mem hq
          obtain ⟨hne, hquiet⟩ := hPQ q hmem
          obtain ⟨l, ls, hl, hlt⟩ := split_exists_cons P t
          have hdrop : s.drop (q.length - 1) = t := by
            cases q with
            | nil => exact absurd rfl hne
            | cons b q =>
              rw [List.cons_append] at ht
              rw [← (List.cons.inj ht).2]
              simp
          have hlen : t.length < (a :: s).length := by
            have hpos := List.length_pos_iff.mpr hne
            rw [← ht, List.length_append]
            omega
          -- the piece after `q` is split at `q` first, as the whole text is
          have hhead : split Q (q ++ l) = [] :: split Q l := by
            have hql : q ++ l <+: a :: s := ht ▸ (List.prefix_append_right_inj q).mpr hlt
            have hsep := sepAt_of_prefix hql hq (List.prefix_append q l)
            cases q with
            | nil => exact absurd rfl hne
            | cons b q =>
              rw [List.cons_append] at hsep ⊢
              rw [split_cons_some hsep]
              simp
          rw [split_cons_some hpq, hdrop, ih _ hlen _ rfl, ← ht,
            split_append_quiet hquiet, hl, List.modifyHead_cons, List.flatMap_cons,
            List.flatMap_cons, hhead]
          rfl
        | none =>
          have hpq : sepAt (P ++ Q) (a :: s) = none := by rw [sepAt_append, hp, hq]; rfl
          obtain ⟨l, ls, hl, hls⟩ := split_exists_cons P s
          have hal : sepAt Q (a :: l) = none :=
            sepAt_none_of_prefix (List.cons_prefix_cons.mpr ⟨rfl, hls⟩) hq
          obtain ⟨l', ls', hl', -⟩ := split_exists_cons Q l
          rw [split_cons_none hpq, split_cons_none hp, ih _ (by simp) _ rfl, hl,
            List.modifyHead_cons, List.flatMap_cons, List.flatMap_cons, split_cons_none hal, hl']
          rfl

/-! ## Replacing before splitting -/

theorem sepAt_letters (cs : List α) (a : α) (s : List α) :
    sepAt (cs.map ([·])) (a :: s) = if a ∈ cs then some [a] else none := by
  induction cs with
  | nil => rfl
  | cons c cs ih =>
    unfold sepAt at ih ⊢
    rw [List.map_cons, List.find?_cons]
    by_cases h : c = a
    · subst h; simp
    · have hc : [c].isPrefixOf (a :: s) = false := by simp [List.isPrefixOf, h]
      simp [hc, ih, Ne.symm h]

theorem split_replaceAll {cs old : List α} {n : α} (hn : n ∈ cs) (s : List α) :
    split (cs.map ([·])) (replaceAll old [n] s) = split (old :: cs.map ([·])) s := by
  induction hlen : s.length using Nat.strong_induction_on generalizing s with
  | _ k ih =>
    subst hlen
    cases s with
    | nil => rfl
    | cons a s =>
      by_cases hp : old.isPrefixOf (a :: s)
      · have hrep : replaceAll old [n] (a :: s) =
            n :: replaceAll old [n] (s.drop (old.length - 1)) := by
          rw [replaceAll, replaceFrom, if_pos hp, replaceFrom_drop]
          rfl
        have hsep : sepAt (old :: cs.map ([·])) (a :: s) = some old := by
          simp [sepAt, hp]
        rw [hrep, split_cons_some (by rw [sepAt_letters, if_pos hn]), split_cons_some hsep]
        simp only [List.length_singleton, Nat.sub_self, List.drop_zero]
        rw [ih _ (by rw [List.length_drop, List.length_cons]; omega) _ rfl]
      · have hrep : replaceAll old [n] (a :: s) = a :: replaceAll old [n] s := by
          rw [replaceAll, replaceFrom, if_neg hp]
          rfl
        have hsep : sepAt (old :: cs.map ([·])) (a :: s) = if a ∈ cs then some [a] else none := by
          rw [← sepAt_letters cs a s]
          unfold sepAt
          rw [List.find?_cons, eq_false_of_ne_true hp]
        rw [hrep]
        by_cases ha : a ∈ cs
        · rw [if_pos ha] at hsep
          rw [split_cons_some hsep, split_cons_some (by rw [sepAt_letters, if_pos ha])]
          simp only [List.length_singleton, Nat.sub_self, List.drop_zero]
          rw [ih _ (by simp) _ rfl]
        · rw [if_neg ha] at hsep
          rw [split_cons_none hsep, split_cons_none (by rw [sepAt_letters, if_neg ha]),
            ih _ (by simp) _ rfl]

end Split

/-! ## Trailing blanks -/

section Strip

variable (blank : α → Bool)

/-- `strings.TrimRight`: `s` without its trailing blanks. -/
def trimRight (s : List α) : List α := (s.reverse.dropWhile blank).reverse

def trim (s : List α) : List α := trimRight blank (s.dropWhile blank)

def isBlankLine (l : List α) : Bool := l.all blank

/-- Lines without their trailing blanks: the trailing blank lines are dropped,
and the last line left loses its own. -/
def strip : List (List α) → List (List α)
  | [] => []
  | l :: ls => match strip ls with
    | [] => if isBlankLine blank l then [] else [trimRight blank l]
    | rest => l :: rest

variable {blank}
variable {ls : List (List α)} {b : α}

theorem strip_eq_nil : strip blank ls = [] ↔ ∀ l ∈ ls, isBlankLine blank l = true := by
  induction ls with
  | nil => simp [strip]
  | cons l ls ih =>
    unfold strip
    split
    · next h => simpa using fun _ => ih.mp h
    · next h =>
      have hne : ¬ ∀ l ∈ ls, isBlankLine blank l = true := fun hall => h (ih.mpr hall)
      simp only [List.cons_ne_nil, List.mem_cons, forall_eq_or_imp, false_iff, not_and]
      exact fun _ => hne

theorem strip_cons_of_ne_nil {l : List α} (h : strip blank ls ≠ []) :
    strip blank (l :: ls) = l :: strip blank ls := by
  rw [strip]
  split
  · contradiction
  · rfl

theorem strip_cons_of_nil {l : List α} (h : strip blank ls = []) :
    strip blank (l :: ls) = if isBlankLine blank l then [] else [trimRight blank l] := by
  rw [strip, h]

theorem strip_append_of_nil {P Q : List (List α)} (h : strip blank Q = []) :
    strip blank (P ++ Q) = strip blank P := by
  induction P with
  | nil => exact h
  | cons l P ih => rw [List.cons_append, strip, ih, strip]

theorem strip_append_of_ne_nil {P Q : List (List α)} (h : strip blank Q ≠ []) :
    strip blank (P ++ Q) = P ++ strip blank Q := by
  induction P with
  | nil => rfl
  | cons l P ih =>
    rw [List.cons_append, strip_cons_of_ne_nil, ih]
    · rfl
    · rw [ih]
      simp [h]

theorem length_strip_le (ls : List (List α)) : (strip blank ls).length ≤ ls.length := by
  induction ls with
  | nil => exact Nat.le_refl _
  | cons l ls ih =>
    by_cases h : strip blank ls = []
    · rw [strip_cons_of_nil h]
      split <;> simp
    · rw [strip_cons_of_ne_nil h]
      simpa using ih

theorem strip_cons_head {l x : List α} {ls rest : List (List α)}
    (h : strip blank (l :: ls) = x :: rest) : x = l ∨ x = trimRight blank l := by
  by_cases hn : strip blank ls = []
  · rw [strip_cons_of_nil hn] at h
    split at h
    · cases h
    · cases h
      exact .inr rfl
  · rw [strip_cons_of_ne_nil hn] at h
    cases h
    exact .inl rfl

theorem trimRight_snoc (hb : blank b = true) (l : List α) :
    trimRight blank (l ++ [b]) = trimRight blank l := by
  simp [trimRight, hb]

theorem trimRight_prefix_self (l : List α) : trimRight blank l <+: l := by
  unfold trimRight
  rw [← List.reverse_suffix, List.reverse_reverse]
  exact List.dropWhile_suffix _

theorem trimRight_append_blank {w : List α} (hw : ∀ b ∈ w, blank b = true) (l : List α) :
    trimRight blank (l ++ w) = trimRight blank l := by
  induction w using List.reverseRecOn with
  | nil => rw [List.append_nil]
  | append_singleton w b ih =>
    rw [← List.append_assoc, trimRight_snoc (hw b (by simp))]
    exact ih fun c hc => hw c (List.mem_append_left _ hc)

theorem trimRight_trimRight (l : List α) :
    trimRight blank (trimRight blank l) = trimRight blank l :=
  List.rdropWhile_idempotent blank l

theorem trimRight_append {c : α} (hc : blank c = false) (l t : List α) :
    trimRight blank (l ++ c :: t) = l ++ c :: trimRight blank t := by
  induction t using List.reverseRecOn with
  | nil => simp [trimRight, hc]
  | append_singleton t b ih =>
    by_cases hb : blank b = true
    · have hassoc : l ++ c :: (t ++ [b]) = (l ++ c :: t) ++ [b] := by simp
      rw [hassoc, trimRight_snoc hb, trimRight_snoc hb, ih]
    · simp [trimRight, hb]

theorem trim_pad {w w' m : List α} (hw : ∀ b ∈ w, blank b = true) (hw' : ∀ b ∈ w', blank b = true)
    (hhead : ∀ b ∈ m.head?, blank b = false) (hlast : ∀ b ∈ m.getLast?, blank b = false) :
    trim blank (w ++ (m ++ w')) = m := by
  unfold trim
  rw [List.dropWhile_append_of_pos hw]
  cases m with
  | nil =>
    rw [List.nil_append, List.dropWhile_eq_nil_iff.mpr hw']
    rfl
  | cons a m =>
    have ha : blank a = false := hhead a rfl
    rw [List.cons_append, List.dropWhile_cons_of_neg (by simp [ha]), ← List.cons_append,
      trimRight_append_blank hw']
    have hne : a :: m ≠ [] := List.cons_ne_nil a m
    have hl := hlast _ (List.getLast?_eq_getLast_of_ne_nil hne)
    rw [← List.dropLast_append_getLast hne, trimRight_append hl]
    rfl

theorem exists_pad (blank : α → Bool) (s : List α) : ∃ w w' : List α, (∀ b ∈ w, blank b = true) ∧
    (∀ b ∈ w', blank b = true) ∧ s = w ++ (trim blank s ++ w') := by
  refine ⟨s.takeWhile blank, (s.dropWhile blank).rtakeWhile blank,
    fun b hb => List.mem_takeWhile_imp hb, fun b hb => List.mem_rtakeWhile_imp hb, ?_⟩
  have h : trim blank s ++ (s.dropWhile blank).rtakeWhile blank = s.dropWhile blank :=
    List.rdropWhile_append_rtakeWhile
  rw [h, List.takeWhile_append_dropWhile]

theorem trim_ends (blank : α → Bool) (s : List α) : (∀ b ∈ (trim blank s).head?, blank b = false) ∧
    ∀ b ∈ (trim blank s).getLast?, blank b = false := by
  unfold trim
  constructor
  · intro b hb
    have hpre : trimRight blank (s.dropWhile blank) <+: s.dropWhile blank := trimRight_prefix_self _
    obtain ⟨t, ht⟩ := hpre
    have hhead : (s.dropWhile blank).head? = some b := by
      rw [← ht, List.head?_append, hb, Option.some_or]
    simpa [hhead] using List.head?_dropWhile_not blank s
  · intro b hb
    rw [trimRight, List.getLast?_reverse] at hb
    simpa [Option.mem_def.mp hb] using List.head?_dropWhile_not blank (s.dropWhile blank).reverse

theorem trim_cons_blank (hb : blank b = true) (s : List α) :
    trim blank (b :: s) = trim blank s := by
  rw [trim, List.dropWhile_cons_of_pos hb, trim]

theorem trim_snoc_blank (hb : blank b = true) (s : List α) :
    trim blank (s ++ [b]) = trim blank s := by
  obtain ⟨w, w', hw, hw', hs⟩ := exists_pad blank s
  obtain ⟨hhead, hlast⟩ := trim_ends blank s
  have hsb : s ++ [b] = w ++ (trim blank s ++ (w' ++ [b])) := by
    nth_rewrite 1 [hs]
    simp only [List.append_assoc]
  rw [hsb]
  refine trim_pad hw (fun c hc => ?_) hhead hlast
  rcases List.mem_append.mp hc with hc | hc
  · exact hw' c hc
  · exact List.mem_singleton.mp hc ▸ hb

theorem strip_snoc_blank (hb : blank b = true) (P : List (List α)) (l : List α) :
    strip blank (P ++ [l ++ [b]]) = strip blank (P ++ [l]) := by
  have hlast : strip blank [l ++ [b]] = strip blank [l] := by
    simp [strip, isBlankLine, hb, trimRight_snoc hb]
  by_cases h : strip blank [l] = []
  · rw [strip_append_of_nil h, strip_append_of_nil (hlast.trans h)]
  · rw [strip_append_of_ne_nil h, strip_append_of_ne_nil (hlast ▸ h), hlast]

end Strip

end Lines
